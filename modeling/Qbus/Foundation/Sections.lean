import Mathlib.Logic.Function.Basic
import Qbus.Foundation.Run

/-! # Critical sections

Any number of threads that use one state. A call in an exclusive section runs alone, and until
it ends the state can be anything. Calls in sharable sections overlap: such a call reads a view
that is composed of the states since it began, and takes effect when it ends.

When the effect does not depend on the view, the calls behave as if each of them had been made
at once, in the order in which they end. -/

namespace Qbus

structure SectionRules (State View Call Result : Type) where
  mayAlone : Nat → State → Call → Prop
  mayBeside : Nat → State → Call → Prop
  /-- The views that can be composed of some states. -/
  reads : List State → View → Prop
  alone : State → Call → Result → State → Prop
  beside : View → State → Call → Result → State → Prop

inductive SectionEvent (Call Result : Type)
  | entersAlone (call : Call)
  /-- The call in the exclusive section changes the state before it has ended. -/
  | works
  | entersBeside (call : Call)
  | ends (call : Call) (result : Result)
deriving DecidableEq

def SectionEvent.shown {Call Result : Type} : SectionEvent Call Result → Option (Call × Result)
  | .ends call result => some (call, result)
  | _ => none

inductive SectionPlace (State Call : Type)
  | outside
  /-- In an exclusive section that was entered in the state `found`. -/
  | alone (call : Call) (found : State)
  /-- In a sharable section, which has overlapped with the states in `seen`. -/
  | beside (call : Call) (seen : List State)

structure Sections (State Call : Type) where
  state : State
  place : Nat → SectionPlace State Call

namespace Sections

variable {State View Call Result Ghost : Type}

def sees (state : State) : SectionPlace State Call → SectionPlace State Call
  | .beside call seen => .beside call (seen ++ [state])
  | place => place

inductive Step (rules : SectionRules State View Call Result) :
    Sections State Call → Nat × SectionEvent Call Result → Sections State Call → Prop
  | enterAlone {state place thread call} : place thread = .outside →
      rules.mayAlone thread state call →
      Step rules ⟨state, place⟩ (thread, .entersAlone call)
        ⟨state, Function.update place thread (.alone call state)⟩
  | work {state place thread call found} (next : State) : place thread = .alone call found →
      Step rules ⟨state, place⟩ (thread, .works) ⟨next, place⟩
  | endAlone {state place thread call found result next} : place thread = .alone call found →
      rules.alone found call result next →
      Step rules ⟨state, place⟩ (thread, .ends call result)
        ⟨next, Function.update place thread .outside⟩
  | enterBeside {state place thread call} : place thread = .outside →
      rules.mayBeside thread state call →
      Step rules ⟨state, place⟩ (thread, .entersBeside call)
        ⟨state, Function.update place thread (.beside call [state])⟩
  | endBeside {state place thread call seen view result next} :
      place thread = .beside call seen → rules.reads seen view →
      rules.beside view state call result next →
      Step rules ⟨state, place⟩ (thread, .ends call result)
        ⟨next, Function.update (fun other => sees next (place other)) thread .outside⟩

def Apart (place : Nat → SectionPlace State Call) : Prop :=
  ∀ thread call found, place thread = .alone call found →
    ∀ other, other ≠ thread → place other = .outside

def Shared (place : Nat → SectionPlace State Call) : Prop :=
  ∀ thread call found, place thread ≠ .alone call found

/-- Calls that have the effect of the calls of a sequential system, whatever view they have
read. `Similar` are the states that a call can have overlapped with. -/
structure Correct (rules : SectionRules State View Call Result)
    (spec : State → Call × Result → State → Prop) (Good : Ghost → State → Prop)
    (Similar : Ghost → State → State → Prop) : Prop where
  similar : ∀ {ghost state}, Good ghost state → Similar ghost state state
  alone : ∀ {ghost thread state call result next}, Good ghost state →
    rules.mayAlone thread state call → rules.alone state call result next →
    spec state (call, result) next ∧ ∃ nextGhost, Good nextGhost next
  beside : ∀ {ghost thread seen view state call result next}, Good ghost state →
    rules.mayBeside thread state call → (∀ old ∈ seen, Similar ghost state old) →
    rules.reads seen view → rules.beside view state call result next →
    spec state (call, result) next ∧
      (∀ other called, rules.mayBeside other state called → rules.mayBeside other next called) ∧
      ∃ nextGhost, Good nextGhost next ∧
        ∀ old, Similar ghost state old → Similar nextGhost next old
  aloneReturns : ∀ {ghost thread state call}, Good ghost state →
    rules.mayAlone thread state call → ∃ result next, rules.alone state call result next
  besideReturns : ∀ {ghost thread seen view state call}, Good ghost state →
    rules.mayBeside thread state call → (∀ old ∈ seen, Similar ghost state old) →
    rules.reads seen view → ∃ result next, rules.beside view state call result next

structure Returns (rules : SectionRules State View Call Result) (sections : Sections State Call) :
    Prop where
  alone : ∀ thread call found, sections.place thread = .alone call found →
    ∃ result next, rules.alone found call result next
  beside : ∀ thread call seen view, sections.place thread = .beside call seen →
    rules.reads seen view → ∃ result next, rules.beside view sections.state call result next

structure Follows (rules : SectionRules State View Call Result) (Good : Ghost → State → Prop)
    (Similar : Ghost → State → State → Prop) (sections : Sections State Call) (ghost : Ghost)
    (now : State) : Prop where
  good : Good ghost now
  alone : ∀ thread call found, sections.place thread = .alone call found →
    found = now ∧ rules.mayAlone thread now call
  beside : ∀ thread call seen, sections.place thread = .beside call seen →
    rules.mayBeside thread now call ∧ ∀ old ∈ seen, Similar ghost now old
  free : Shared sections.place → sections.state = now

theorem place_of_update {place : Nat → SectionPlace State Call} {thread other : Nat}
    {moved found : SectionPlace State Call}
    (isFound : Function.update place thread moved other = found) :
    other = thread ∧ moved = found ∨ other ≠ thread ∧ place other = found := by
  by_cases same : other = thread
  · rw [same, Function.update_self] at isFound
    exact .inl ⟨same, isFound⟩
  · rw [Function.update_of_ne same] at isFound
    exact .inr ⟨same, isFound⟩

section Holders

variable {rules : SectionRules State View Call Result} {sections next : Sections State Call}
  {thread other : Nat} {event : SectionEvent Call Result} {call : Call}

theorem sees_eq_alone {state found : State} {place : SectionPlace State Call}
    (isAlone : sees state place = .alone call found) : place = .alone call found := by
  cases place with
  | alone called was => exact isAlone
  | _ => cases isAlone

theorem sees_eq_beside {state : State} {seen : List State} {place : SectionPlace State Call}
    (isBeside : sees state place = .beside call seen) : ∃ before, place = .beside call before := by
  cases place with
  | beside called before =>
      cases isBeside
      exact ⟨before, rfl⟩
  | _ => cases isBeside

theorem Step.alone_or_enters (step : Step rules sections (thread, event) next) {found : State}
    (isAlone : next.place other = .alone call found) :
    (∃ was, sections.place other = .alone call was) ∨ other = thread ∧ event = .entersAlone call := by
  cases step with
  | work next _ => exact .inl ⟨found, isAlone⟩
  | enterAlone isOutside may =>
      rcases place_of_update isAlone with ⟨rfl, isThis⟩ | ⟨-, was⟩
      · cases isThis
        exact .inr ⟨rfl, rfl⟩
      · exact .inl ⟨found, was⟩
  | @endBeside state place _ _ _ _ _ after =>
      change Function.update (fun other => sees after (place other)) thread _ other = _ at isAlone
      rcases place_of_update isAlone with ⟨-, isThis⟩ | ⟨-, was⟩
      · cases isThis
      · exact .inl ⟨found, sees_eq_alone was⟩
  | _ =>
      rcases place_of_update isAlone with ⟨-, isThis⟩ | ⟨-, was⟩
      · cases isThis
      · exact .inl ⟨found, was⟩

theorem Step.beside_or_enters (step : Step rules sections (thread, event) next) {seen : List State}
    (isBeside : next.place other = .beside call seen) :
    (∃ before, sections.place other = .beside call before) ∨
      other = thread ∧ event = .entersBeside call := by
  cases step with
  | work next _ => exact .inl ⟨seen, isBeside⟩
  | enterBeside isOutside may =>
      rcases place_of_update isBeside with ⟨rfl, isThis⟩ | ⟨-, was⟩
      · cases isThis
        exact .inr ⟨rfl, rfl⟩
      · exact .inl ⟨seen, was⟩
  | @endBeside state place _ _ _ _ _ after =>
      change Function.update (fun other => sees after (place other)) thread _ other = _ at isBeside
      rcases place_of_update isBeside with ⟨-, isThis⟩ | ⟨-, was⟩
      · cases isThis
      · exact .inl (sees_eq_beside was)
  | _ =>
      rcases place_of_update isBeside with ⟨-, isThis⟩ | ⟨-, was⟩
      · cases isThis
      · exact .inl ⟨seen, was⟩

end Holders

section Linearization

variable {rules : SectionRules State View Call Result}
  {spec : State → Call × Result → State → Prop} {Good : Ghost → State → Prop}
  {Similar : Ghost → State → State → Prop} {sections next : Sections State Call} {ghost : Ghost}
  {now : State}

theorem Apart.shared {place : Nat → SectionPlace State Call} (apart : Apart place) {thread : Nat}
    {call : Call} {seen : List State} (isBeside : place thread = .beside call seen) :
    Shared place := by
  intro other called found isAlone
  by_cases same : thread = other
  · subst same
    rw [isAlone] at isBeside
    cases isBeside
  · rw [apart other called found isAlone thread same] at isBeside
    cases isBeside

theorem Follows.start (good : Good ghost now) :
    Follows rules Good Similar ⟨now, fun _ => .outside⟩ ghost now where
  good := good
  alone := fun _ _ _ isAlone => by cases isAlone
  beside := fun _ _ _ isBeside => by cases isBeside
  free := fun _ => rfl

theorem Follows.returns (follows : Follows rules Good Similar sections ghost now)
    (correct : Correct rules spec Good Similar) (apart : Apart sections.place) :
    Returns rules sections where
  alone := by
    intro thread call found isAlone
    rcases follows.alone thread call found isAlone with ⟨rfl, may⟩
    exact correct.aloneReturns follows.good may
  beside := by
    intro thread call seen view isBeside reads
    rcases follows.beside thread call seen isBeside with ⟨may, similar⟩
    rw [follows.free (apart.shared isBeside)]
    exact correct.besideReturns follows.good may similar reads

section Moves

variable {state after : State} {place : Nat → SectionPlace State Call} {thread : Nat} {call : Call}
  {found : State} {seen : List State}

theorem Follows.enterAlone (follows : Follows rules Good Similar ⟨state, place⟩ ghost now)
    (may : rules.mayAlone thread state call)
    (apart : Apart (Function.update place thread (.alone call state)))
    (isOutside : place thread = .outside) :
    Follows rules Good Similar ⟨state, Function.update place thread (.alone call state)⟩ ghost
      now := by
  have others : ∀ other, other ≠ thread → place other = .outside := by
    intro other different
    have outside := apart thread call state (Function.update_self ..) other different
    rwa [Function.update_of_ne different] at outside
  have shared : Shared place := by
    intro other called was isAlone
    by_cases same : other = thread
    · rw [same, isOutside] at isAlone
      cases isAlone
    · rw [others other same] at isAlone
      cases isAlone
  have isNow : state = now := follows.free shared
  subst isNow
  refine ⟨follows.good, ?_, ?_, fun _ => rfl⟩
  · intro other called was isAlone
    rcases place_of_update isAlone with ⟨rfl, isThis⟩ | ⟨different, isAlone⟩
    · cases isThis
      exact ⟨rfl, may⟩
    · exact follows.alone other called was isAlone
  · intro other called before isBeside
    rcases place_of_update isBeside with ⟨rfl, isThis⟩ | ⟨different, isBeside⟩
    · cases isThis
    · exact follows.beside other called before isBeside

theorem Follows.endAlone {nextGhost : Ghost}
    (good : Good nextGhost after) (apart : Apart place)
    (isAlone : place thread = .alone call found) :
    Follows rules Good Similar ⟨after, Function.update place thread .outside⟩ nextGhost after := by
  refine ⟨good, ?_, ?_, fun _ => rfl⟩
  · intro other called was isOther
    rcases place_of_update isOther with ⟨-, isThis⟩ | ⟨different, isOther⟩
    · cases isThis
    · rw [apart thread call found isAlone other different] at isOther
      cases isOther
  · intro other called before isOther
    rcases place_of_update isOther with ⟨-, isThis⟩ | ⟨different, isOther⟩
    · cases isThis
    · rw [apart thread call found isAlone other different] at isOther
      cases isOther

theorem Follows.enterBeside (follows : Follows rules Good Similar ⟨state, place⟩ ghost now)
    (correct : Correct rules spec Good Similar) (may : rules.mayBeside thread state call)
    (apart : Apart (Function.update place thread (.beside call [state])))
    (isOutside : place thread = .outside) :
    Follows rules Good Similar ⟨state, Function.update place thread (.beside call [state])⟩ ghost
      now := by
  have shared : Shared place := by
    intro other called was isAlone
    have different : other ≠ thread := by
      intro same
      rw [same, isOutside] at isAlone
      cases isAlone
    exact apart.shared (Function.update_self ..) other called was
      ((Function.update_of_ne different ..).trans isAlone)
  have isNow : state = now := follows.free shared
  subst isNow
  refine ⟨follows.good, ?_, ?_, fun _ => rfl⟩
  · intro other called was isAlone
    rcases place_of_update isAlone with ⟨-, isThis⟩ | ⟨different, isAlone⟩
    · cases isThis
    · exact follows.alone other called was isAlone
  · intro other called before isBeside
    rcases place_of_update isBeside with ⟨rfl, isThis⟩ | ⟨different, isBeside⟩
    · cases isThis
      refine ⟨may, fun old isOld => ?_⟩
      rw [List.mem_singleton.mp isOld]
      exact correct.similar follows.good
    · exact follows.beside other called before isBeside

theorem Follows.endBeside {nextGhost : Ghost}
    (follows : Follows rules Good Similar ⟨state, place⟩ ghost state)
    (correct : Correct rules spec Good Similar) (good : Good nextGhost after) (shared : Shared place)
    (stays : ∀ other called, rules.mayBeside other state called →
      rules.mayBeside other after called)
    (still : ∀ old, Similar ghost state old → Similar nextGhost after old) :
    Follows rules Good Similar
      ⟨after, Function.update (fun other => sees after (place other)) thread .outside⟩
      nextGhost after := by
  refine ⟨good, ?_, ?_, fun _ => rfl⟩
  · intro other called was isAlone
    change Function.update (fun other => sees after (place other)) thread _ other = _ at isAlone
    rcases place_of_update isAlone with ⟨-, isThis⟩ | ⟨different, isAlone⟩
    · cases isThis
    · exact absurd (sees_eq_alone isAlone) (shared _ _ _)
  · intro other called later isLater
    change Function.update (fun other => sees after (place other)) thread _ other = _ at isLater
    rcases place_of_update isLater with ⟨-, isThis⟩ | ⟨different, isLater⟩
    · cases isThis
    · rcases sees_eq_beside isLater with ⟨before, wasBeside⟩
      rw [wasBeside] at isLater
      cases isLater
      rcases follows.beside other called before wasBeside with ⟨may, similar⟩
      refine ⟨stays other called may, fun old isOld => ?_⟩
      rcases List.mem_append.mp isOld with isBefore | isLast
      · exact still old (similar old isBefore)
      · rw [List.mem_singleton.mp isLast]
        exact correct.similar good

end Moves

theorem Follows.step {label : Nat × SectionEvent Call Result}
    (follows : Follows rules Good Similar sections ghost now)
    (correct : Correct rules spec Good Similar) (apart : Apart sections.place)
    (apartNext : Apart next.place) (step : Step rules sections label next) :
    ∃ nextGhost nextNow, Follows rules Good Similar next nextGhost nextNow ∧
      (label.2.shown = none → nextNow = now) ∧
      ∀ shown, label.2.shown = some shown → spec now shown nextNow := by
  have good := follows.good
  cases step with
  | enterAlone isOutside may =>
      exact ⟨ghost, now, follows.enterAlone may apartNext isOutside, fun _ => rfl,
        fun _ isShown => by cases isShown⟩
  | work next isAlone =>
      refine ⟨ghost, now, ⟨good, follows.alone, follows.beside, ?_⟩, fun _ => rfl,
        fun _ isShown => by cases isShown⟩
      intro shared
      exact absurd isAlone (shared _ _ _)
  | @endAlone state place thread call found result after isAlone ends =>
      rcases follows.alone thread call found isAlone with ⟨rfl, may⟩
      rcases correct.alone good may ends with ⟨sequential, nextGhost, nextGood⟩
      refine ⟨nextGhost, after, .endAlone nextGood apart isAlone, ?_, ?_⟩
      · intro silent
        cases silent
      · intro shown isShown
        cases isShown
        exact sequential
  | enterBeside isOutside may =>
      exact ⟨ghost, now, follows.enterBeside correct may apartNext isOutside, fun _ => rfl,
        fun _ isShown => by cases isShown⟩
  | @endBeside state place thread call seen view result after isBeside reads ends =>
      rcases follows.beside thread call seen isBeside with ⟨may, similar⟩
      have shared : Shared place := apart.shared isBeside
      have isNow : state = now := follows.free shared
      subst isNow
      rcases correct.beside good may similar reads ends with
        ⟨sequential, stays, nextGhost, nextGood, still⟩
      refine ⟨nextGhost, after, follows.endBeside correct nextGood shared stays still, ?_, ?_⟩
      · intro silent
        cases silent
      · intro shown isShown
        cases isShown
        exact sequential

end Linearization

end Sections

end Qbus
