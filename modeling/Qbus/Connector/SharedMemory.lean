import Qbus.Foundation.Threads

/-! # `shared_memory`

Objects of one name, in any number of processes. The operating system keeps what
the name denotes; a mapping stays valid when the name is unlinked. -/

namespace Qbus

namespace SharedMemory

structure Space where
  /-- The segment the name denotes. -/
  segment : Option Nat := none
  /-- How many segments have been created; the next one gets this number. -/
  created : Nat := 0
deriving DecidableEq, Repr

def Space.remove (space : Space) : Space := { space with segment := none }

def Space.link (space : Space) : Space where
  segment := some space.created
  created := space.created + 1

inductive Object
  | unattached
  | attached (segment : Nat)
  | destroyed
deriving DecidableEq, Repr

/-- `mapped` says whether the new segment can be truncated and mapped. -/
def Object.create (object : Object) (mapped : Bool) (space : Space) : Bool × Space × Object :=
  match object with
  | .unattached =>
      match space.segment with
      | some _ => (false, space.remove, .unattached)
      | none =>
          if mapped then (true, space.link, .attached space.created)
          else (false, space.link.remove, .unattached)
  | _ => (false, space, object)

def Object.openName (object : Object) (mapped : Bool) (space : Space) : Bool × Space × Object :=
  match object with
  | .unattached =>
      match space.segment with
      | some segment =>
          if mapped then (true, space, .attached segment)
          else (false, space.remove, .unattached)
      | none => (false, space.remove, .unattached)
  | _ => (false, space, object)

inductive Call
  | create (mapped result : Bool)
  | openName (mapped result : Bool)
  | destroy
deriving DecidableEq, Repr

inductive Acts : Space → Object → Call → Space → Object → Prop
  | create {space next : Space} {object nextObject : Object} {mapped result : Bool} :
      object ≠ .destroyed → object.create mapped space = (result, next, nextObject) →
      Acts space object (.create mapped result) next nextObject
  | openName {space next : Space} {object nextObject : Object} {mapped result : Bool} :
      object ≠ .destroyed → object.openName mapped space = (result, next, nextObject) →
      Acts space object (.openName mapped result) next nextObject
  | destroy {space : Space} {object : Object} : object ≠ .destroyed →
      Acts space object .destroy space.remove .destroyed

abbrev System := Threads Space Object

abbrev Step : System → Nat × Call → System → Prop := Threads.Step Acts

def System.start (count : Nat) : System := ⟨{}, List.replicate count .unattached⟩

def System.OtherAttached (state : System) (index : Nat) : Prop :=
  ∃ other segment : Nat, other ≠ index ∧ state.places[other]? = some (.attached segment)

structure OneSegment (state : System) : Prop where
  denotes : ∀ {index segment : Nat}, state.places[index]? = some (.attached segment) →
    state.shared.segment = some segment
  /-- A later `open` attaches to the live segment. -/
  attaches : ∀ {index other segment : Nat} {result : Bool} {next : System},
    state.places[index]? = some (.attached segment) →
    state.places[other]? = some .unattached →
    Step state (other, .openName true result) next →
    result = true ∧ next.places[other]? = some (.attached segment)
  /-- Attached objects share one segment. -/
  shares : ∀ {index other segment otherSegment : Nat},
    state.places[index]? = some (.attached segment) →
    state.places[other]? = some (.attached otherSegment) → segment = otherSegment

/-- What a step must leave as it is: the name and its segment, and everything
when `create` is called while an object is attached. -/
structure Respects (state : System) (label : Nat × Call) (next : System) : Prop where
  one : OneSegment next
  create : ∀ {mapped result : Bool}, label.2 = .create mapped result →
    state.OtherAttached label.1 → result = false ∧ next = state

/-- While another object is attached nobody is destroyed, and an unattached
object neither creates nor fails to map what it opens. -/
def Keeps (state : System) (label : Nat × Call) : Prop :=
  state.OtherAttached label.1 →
    label.2 ≠ .destroy ∧
    (state.places[label.1]? = some .unattached →
      ∃ result, label.2 = .openName true result)

/-! ## The name and the attached objects -/

structure Linked (state : System) : Prop where
  denotes : ∀ {index segment : Nat}, state.places[index]? = some (.attached segment) →
    state.shared.segment = some segment

theorem start_linked (count : Nat) : Linked (System.start count) := by
  constructor
  intro index segment found
  have member := List.mem_of_getElem? found
  simp [System.start] at member

theorem Linked.one {state : System} (linked : Linked state) : OneSegment state := by
  constructor
  · exact linked.denotes
  · intro index other segment result next found unattached stepped
    have named := linked.denotes found
    rcases stepped with ⟨caller, acted⟩
    have inside := (List.getElem?_eq_some_iff.mp caller).1
    have same := Option.some.inj (caller.symm.trans unattached)
    subst same
    dsimp only at named
    cases acted with
    | openName alive called =>
        simp only [Object.openName, named, ↓reduceIte, Prod.mk.injEq] at called
        rcases called with ⟨rfl, -, rfl⟩
        exact ⟨rfl, List.getElem?_set_self inside⟩
  · intro index other segment otherSegment found foundOther
    have first := linked.denotes found
    rw [linked.denotes foundOther] at first
    exact (Option.some.inj first).symm

section Steps

variable {shared nextShared : Space} {places : List Object} {index : Nat}
  {object nextObject : Object}

theorem linked_of_alone
    (alone : ¬System.OtherAttached ⟨shared, places⟩ index)
    (own : ∀ segment, nextObject = .attached segment → nextShared.segment = some segment) :
    Linked ⟨nextShared, places.set index nextObject⟩ := by
  constructor
  intro position segment found
  rcases Threads.found_after_set found with ⟨-, same⟩ | ⟨different, before⟩
  · exact own segment same.symm
  · exact absurd ⟨position, segment, different, before⟩ alone

theorem Linked.set (linked : Linked ⟨shared, places⟩)
    (own : ∀ segment, nextObject = .attached segment → shared.segment = some segment) :
    Linked ⟨shared, places.set index nextObject⟩ := by
  constructor
  intro position segment found
  rcases Threads.found_after_set found with ⟨-, same⟩ | ⟨-, before⟩
  · exact own segment same.symm
  · exact linked.denotes before

theorem create_attached {segment : Nat} {mapped result : Bool}
    (called : (Object.attached segment).create mapped shared =
      (result, nextShared, nextObject)) :
    result = false ∧ nextShared = shared ∧ nextObject = .attached segment := by
  cases called
  exact ⟨rfl, rfl, rfl⟩

theorem openName_attached {segment : Nat} {mapped result : Bool}
    (called : (Object.attached segment).openName mapped shared =
      (result, nextShared, nextObject)) :
    nextShared = shared ∧ nextObject = .attached segment := by
  cases called
  exact ⟨rfl, rfl⟩

theorem create_unattached {mapped result : Bool}
    (called : Object.unattached.create mapped shared = (result, nextShared, nextObject)) :
    ∀ segment, nextObject = .attached segment → nextShared.segment = some segment := by
  intro segment attached
  subst attached
  cases named : shared.segment with
  | some old => simp [Object.create, named] at called
  | none =>
      cases mapped with
      | false => simp [Object.create, named] at called
      | true =>
          simp only [Object.create, named, ↓reduceIte, Prod.mk.injEq,
            Object.attached.injEq] at called
          rcases called with ⟨-, rfl, rfl⟩
          rfl

theorem openName_unattached {mapped result : Bool}
    (called : Object.unattached.openName mapped shared = (result, nextShared, nextObject)) :
    ∀ segment, nextObject = .attached segment → nextShared.segment = some segment := by
  intro segment attached
  subst attached
  cases named : shared.segment with
  | none => simp [Object.openName, named] at called
  | some old =>
      cases mapped with
      | false => simp [Object.openName, named] at called
      | true =>
          simp only [Object.openName, named, ↓reduceIte, Prod.mk.injEq,
            Object.attached.injEq] at called
          rcases called with ⟨-, rfl, rfl⟩
          exact named

theorem openName_keeps {result : Bool} {segment : Nat} (named : shared.segment = some segment)
    (called : Object.unattached.openName true shared = (result, nextShared, nextObject)) :
    nextShared = shared := by
  simp only [Object.openName, named, ↓reduceIte, Prod.mk.injEq] at called
  exact called.2.1.symm

end Steps

theorem Linked.step {state next : System} {label : Nat × Call} (linked : Linked state)
    (stepped : Step state label next) (keeps : Keeps state label) : Linked next := by
  rcases stepped with ⟨found, acted⟩
  rename_i shared nextShared places index object nextObject call
  by_cases others : System.OtherAttached ⟨shared, places⟩ index
  · rcases keeps others with ⟨undestroyed, opens⟩
    rcases others with ⟨other, segment, -, foundOther⟩
    have named := linked.denotes foundOther
    cases acted with
    | destroy => exact absurd rfl undestroyed
    | create alive called =>
        cases object with
        | destroyed => exact absurd rfl alive
        | unattached =>
            rcases opens found with ⟨result, impossible⟩
            cases impossible
        | attached old =>
            rcases create_attached called with ⟨-, rfl, rfl⟩
            apply linked.set
            rintro segment ⟨⟩
            exact linked.denotes found
    | openName alive called =>
        cases object with
        | destroyed => exact absurd rfl alive
        | unattached =>
            rcases opens found with ⟨result, same⟩
            cases same
            have kept := openName_keeps named called
            subst kept
            exact linked.set (openName_unattached called)
        | attached old =>
            rcases openName_attached called with ⟨rfl, rfl⟩
            apply linked.set
            rintro segment ⟨⟩
            exact linked.denotes found
  · apply linked_of_alone others
    cases acted with
    | destroy =>
        intro segment impossible
        cases impossible
    | create alive called =>
        cases object with
        | destroyed => exact absurd rfl alive
        | unattached => exact create_unattached called
        | attached old =>
            rcases create_attached called with ⟨-, rfl, rfl⟩
            rintro segment ⟨⟩
            exact linked.denotes found
    | openName alive called =>
        cases object with
        | destroyed => exact absurd rfl alive
        | unattached => exact openName_unattached called
        | attached old =>
            rcases openName_attached called with ⟨rfl, rfl⟩
            rintro segment ⟨⟩
            exact linked.denotes found

/-- Under the condition `create` does nothing while another object is attached. -/
theorem create_nothing {state next : System} {index : Nat} {mapped result : Bool}
    (stepped : Step state (index, .create mapped result) next)
    (keeps : Keeps state (index, .create mapped result))
    (others : state.OtherAttached index) : result = false ∧ next = state := by
  rcases stepped with ⟨found, acted⟩
  rename_i shared nextShared places object nextObject
  have inside := (List.getElem?_eq_some_iff.mp found).1
  cases acted with
  | create alive called =>
      cases object with
      | destroyed => exact absurd rfl alive
      | unattached =>
          rcases (keeps others).2 found with ⟨opened, impossible⟩
          cases impossible
      | attached old =>
          rcases create_attached called with ⟨rfl, rfl, rfl⟩
          have place : places[index] = .attached old := (List.getElem?_eq_some_iff.mp found).2
          rw [← place, List.set_getElem_self inside]
          exact ⟨rfl, rfl⟩

theorem keeps_of_one {state next : System} {label : Nat × Call} (linked : Linked state)
    (stepped : Step state label next) (one : OneSegment next) : Keeps state label := by
  rintro ⟨other, segment, different, foundOther⟩
  have named := linked.denotes foundOther
  rcases stepped with ⟨found, acted⟩
  rename_i shared nextShared places index object nextObject call
  have still : (places.set index nextObject)[other]? = some (.attached segment) := by
    rw [List.getElem?_set_ne (Ne.symm different)]
    exact foundOther
  have kept : nextShared.segment = some segment := one.denotes still
  dsimp only at named
  cases acted with
  | destroy => cases kept
  | create alive called =>
      constructor
      · simp
      · intro unattached
        have same := Option.some.inj (found.symm.trans unattached)
        subst same
        simp only [Object.create, named, Prod.mk.injEq] at called
        rw [← called.2.1] at kept
        cases kept
  | @openName _ _ _ mapped result alive called =>
      constructor
      · simp
      · intro unattached
        have same := Option.some.inj (found.symm.trans unattached)
        subst same
        cases mapped with
        | true => exact ⟨result, rfl⟩
        | false =>
            simp only [Object.openName, named, Bool.false_eq_true, ↓reduceIte,
              Prod.mk.injEq] at called
            rw [← called.2.1] at kept
            cases kept

/-- The name keeps denoting the live segment along a run exactly when every step
of the run keeps the condition. -/
theorem shared_memory_one_segment (count : Nat) (labels : List (Nat × Call)) (final : System) :
    Run (fun state label next => Step state label next ∧ Respects state label next)
        (System.start count) labels final ↔
      Run (fun state label next => Step state label next ∧ Keeps state label)
        (System.start count) labels final := by
  constructor
  · intro run
    apply run.replace Linked _ (start_linked count)
    rintro state label next linked ⟨stepped, respects⟩
    exact ⟨⟨stepped, keeps_of_one linked stepped respects.one⟩, ⟨respects.one.denotes⟩⟩
  · intro run
    apply run.replace Linked _ (start_linked count)
    rintro state label next linked ⟨stepped, keeps⟩
    have after := linked.step stepped keeps
    refine ⟨⟨stepped, after.one, ?_⟩, after⟩
    intro mapped result same others
    rcases label with ⟨index, call⟩
    cases same
    exact create_nothing stepped keeps others

/-- A second `create` fails, but takes the name away from the live segment, and
a third one makes another segment. -/
theorem shared_memory_two_segments :
    ∃ (labels : List (Nat × Call)) (final : System),
      Run Step (System.start 3) labels final ∧
      final.places = [.attached 0, .unattached, .attached 1] ∧
      ¬Run (fun state label next => Step state label next ∧ Respects state label next)
        (System.start 3) labels final := by
  have run : Run Step (System.start 3)
      [(0, .create true true), (1, .create true false), (2, .create true true)]
      ⟨{ segment := some 1, created := 2 }, [.attached 0, .unattached, .attached 1]⟩ :=
    .cons (.act rfl (.create (by simp) rfl)) (.cons (.act rfl (.create (by simp) rfl))
      (.cons (.act rfl (.create (by simp) rfl)) .nil))
  refine ⟨_, _, run, rfl, ?_⟩
  intro respects
  have linked := respects.invariant Linked (fun _ step => ⟨step.2.one.denotes⟩) (start_linked 3)
  have named : some 1 = some 0 := @linked.denotes 0 0 rfl
  cases named

end SharedMemory

end Qbus
