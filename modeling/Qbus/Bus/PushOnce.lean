import Qbus.Bus.Participants

/-! # Where a push stores its message

The connectors that every call of `push` has put its message into, recorded beside
the participants. -/

namespace Qbus.Bus

def Caller.returning : Caller → Option Bool
  | .beforePush => some false
  | .afterPush => some true
  | .afterRead => none

/-- What the call of `push` under way returns, if it ends at this place. -/
def Place.returning : Place → Option Bool
  | .pushing | .full | .adding => some false
  | .checking caller | .comparing caller | .growing caller _ | .reaching caller _
  | .shrinking caller _ => caller.returning
  | .closed | .idle | .reading | .drained | .removing => none

structure Producer where
  participant : Participant := {}
  /-- The connectors that the last call has put its message into. -/
  stored : List Nat := []
  /-- The same for every finished call, with what it has returned. -/
  calls : List (List Nat × Bool) := []
deriving DecidableEq, Repr

def Producer.storedAfter (event : Event) (producer : Producer) : List Nat :=
  match producer.participant.place, event with
  | .idle, .push => []
  | .pushing, .next true =>
      producer.stored ++ producer.participant.member.connectors.head?.toList
  | _, _ => producer.stored

def Producer.callsAfter (nextPlace : Place) (producer : Producer) : List (List Nat × Bool) :=
  match producer.participant.place.returning, nextPlace with
  | some returned, .idle => producer.calls ++ [(producer.stored, returned)]
  | _, _ => producer.calls

def Producer.record (event : Event) (after : Participant) (producer : Producer) : Producer where
  participant := after
  stored := producer.storedAfter event
  calls := producer.callsAfter after.place

def produce (event : Event) (shared : ControlBlock) (producer : Producer) :
    Option (ControlBlock × Producer) :=
  (program event shared producer.participant).map fun stepped =>
    (stepped.1, producer.record event stepped.2)

abbrev Producers := Threads ControlBlock Producer

abbrev ProducerStep : Producers → Nat × Event → Producers → Prop :=
  Threads.Step (Threads.Follows produce)

def Producers.start (count : Nat) : Producers :=
  ⟨{}, ⟨⟨⟨[0], {}⟩, .idle⟩, [], []⟩ :: List.replicate count {}⟩

/-- A call that has returned true has put its message into one connector, and a
call that has returned false into none. -/
def StoredOnce (state : Producers) : Prop :=
  ∀ producer ∈ state.places, ∀ call ∈ producer.calls, call.1.length = call.2.toNat

def NoPush (state : Producers) : Prop :=
  ∀ producer ∈ state.places, producer.participant.place.returning = none

/-! ## The condition -/

/-- An update after a successful push finds in the shared control block the `output_id` of the
copy: nobody has added a connector that the participant has not added to its own list. -/
def Place.Unextended (shared : ControlBlock) (member : Member) : Place → Prop
  | .comparing .afterPush => SameWord shared.outputId member.controlBlock.outputId
  | _ => True

instance (shared : ControlBlock) (member : Member) :
    DecidablePred (Place.Unextended shared member) := fun place => by
  unfold Place.Unextended
  split <;> infer_instance

def Unextended (state : Producers) (label : Nat × Event) : Prop :=
  ∀ producer ∈ state.places[label.1]?,
    producer.participant.place.Unextended state.shared producer.participant.member

instance (state : Producers) : DecidablePred (Unextended state) := fun label =>
  inferInstanceAs (Decidable (∀ producer ∈ state.places[label.1]?,
    producer.participant.place.Unextended state.shared producer.participant.member))

/-- An update after a successful push is not about to say that connectors have been added. -/
def Place.Settles (result : Bool) (shared : ControlBlock) (member : Member) :
    Place → Prop
  | .reaching .afterPush true => ¬SameWord shared.inputId member.controlBlock.inputId
  | .shrinking .afterPush true =>
      ¬(member.controlBlock.canRemoveConnector = true ∧ (member.shrink result).1 = true)
  | _ => True

def Settles (state : Producers) (label : Nat × Event) : Prop :=
  match label.2 with
  | .next result => ∀ producer ∈ state.places[label.1]?,
      producer.participant.place.Settles result state.shared producer.participant.member
  | _ => True

/-! ## One step -/

inductive Returns (result : Bool) (shared : ControlBlock) (member : Member) (place : Place)
    (nextPlace : Place) : Prop
  /-- A push to the output connector. -/
  | pushed : place = .pushing → nextPlace.returning = some result →
      Returns result shared member place nextPlace
  | kept : place ≠ .pushing → place.Settles result shared member →
      nextPlace.returning = place.returning → Returns result shared member place nextPlace
  /-- The call ends. -/
  | ended : place ≠ .pushing → place.Settles result shared member →
      nextPlace = .idle → Returns result shared member place nextPlace
  /-- An update after a successful push has added connectors. -/
  | extended : ¬place.Settles result shared member → place.returning = some true →
      nextPlace = .pushing → Returns result shared member place nextPlace

variable {result : Bool} {shared next : ControlBlock} {member : Member} {place : Place}

theorem Returns.resume {caller : Caller} (status : UpdateStatus) (different : place ≠ .pushing)
    (settles : place.Settles result shared member)
    (returning : place.returning = caller.returning)
    (within : caller = .afterPush → status.hasOutput = false) :
    Returns result shared member place (caller.resume status) := by
  cases caller with
  | beforePush => exact .kept different settles returning.symm
  | afterPush =>
      apply Returns.ended different settles
      simp [Caller.resume, within rfl]
  | afterRead =>
      apply Returns.kept different settles
      rw [returning, Caller.resume]
      split <;> rfl

theorem proceed_returns {after : Member} {nextPlace : Place}
    (stepped : proceed result shared ⟨member, place⟩ = some (next, ⟨after, nextPlace⟩)) :
    Returns result shared member place nextPlace := by
  cases place with
  | closed => cases stepped
  | idle => cases stepped
  | pushing =>
      simp only [proceed, Participant.enter] at stepped
      split at stepped
      · cases stepped
      · cases stepped
        cases result <;> exact .pushed rfl rfl
  | full =>
      cases stepped
      split
      · exact .kept (by simp) trivial rfl
      · exact .ended (by simp) trivial rfl
  | adding =>
      simp only [proceed] at stepped
      split at stepped
      · cases stepped
        exact .kept (by simp) trivial rfl
      · cases stepped
        exact .ended (by simp) trivial rfl
  | reading =>
      simp only [proceed, Participant.enter] at stepped
      split at stepped
      · cases stepped
      · cases stepped
        cases result <;> exact .kept (by simp) trivial rfl
  | drained =>
      cases stepped
      split <;> exact .kept (by simp) trivial rfl
  | removing =>
      simp only [proceed] at stepped
      split at stepped
      · cases stepped
      · split at stepped
        all_goals
          cases stepped
          exact .kept (by simp) trivial rfl
  | checking caller =>
      rw [proceed_checking] at stepped
      split at stepped
      · cases stepped
        exact .resume .usNone (by simp) trivial rfl (fun _ => rfl)
      · cases stepped
        exact .kept (by simp) trivial rfl
  | comparing caller =>
      cases stepped
      split <;> exact .kept (by simp) trivial rfl
  | growing caller target =>
      simp only [proceed, Participant.enter] at stepped
      split at stepped
      · cases stepped
        exact .kept (by simp) trivial rfl
      · split at stepped
        · split at stepped
          · cases stepped
            exact .kept (by simp) trivial rfl
          · cases stepped
            exact .resume .usNone (by simp) trivial rfl (fun _ => rfl)
        · cases stepped
          exact .resume .usNone (by simp) trivial rfl (fun _ => rfl)
  | reaching caller grown =>
      cases stepped
      split
      next same =>
        cases grown with
        | false =>
            cases caller <;> exact .resume .usNone (by simp) trivial rfl (fun _ => rfl)
        | true =>
            cases caller with
            | afterPush => exact .extended (fun settles => settles same) rfl rfl
            | _ => exact .resume .usOutput (by simp) trivial rfl (by simp)
      next different =>
        have other : Place.reaching caller grown ≠ .pushing := by simp
        refine Returns.kept other ?_ rfl
        cases caller <;> cases grown
        case afterPush.true => exact different
        all_goals exact trivial
  | shrinking caller grown =>
      have other : Place.shrinking caller grown ≠ .pushing := by simp
      have settles : ¬(member.controlBlock.canRemoveConnector = true ∧
            (member.shrink result).1 = true) →
          (Place.shrinking caller grown).Settles result shared member := by
        intro failed
        cases caller <;> cases grown
        case afterPush.true => exact failed
        all_goals exact trivial
      simp only [proceed, Participant.enter] at stepped
      split at stepped
      next able =>
        split at stepped
        · cases stepped
        · split at stepped
          next member' shrinks =>
            cases stepped
            cases grown with
            | false =>
                cases caller <;> exact .resume .usInput other trivial rfl (fun _ => rfl)
            | true =>
                cases caller with
                | afterPush =>
                    exact .extended (fun failed => failed ⟨able, by rw [shrinks]⟩) rfl rfl
                | _ => exact .resume .usBoth other trivial rfl (by simp)
          next member' shrinks =>
            cases stepped
            apply Returns.resume .usNone other (settles ?_) rfl (fun _ => rfl)
            rw [shrinks]
            exact fun succeeded => absurd succeeded.2 (by simp)
      next unable =>
        cases stepped
        exact .resume .usNone other (settles fun able => unable able.1) rfl (fun _ => rfl)

/-! ## Calls -/

def Producer.returning (producer : Producer) : Option Bool :=
  producer.participant.place.returning

/-- As many connectors have the message as the call says, if it ends now, and the
finished calls have stored what they have returned. -/
structure Producer.Counted (producer : Producer) : Prop where
  underway : ∀ returned ∈ producer.returning,
    producer.stored.length = returned.toNat
  finished : ∀ call ∈ producer.calls, call.1.length = call.2.toNat

def Producer.Repeated (producer : Producer) : Prop :=
  (∃ returned ∈ producer.returning, returned.toNat < producer.stored.length) ∨
  ∃ call ∈ producer.calls, call.1.length ≠ call.2.toNat

inductive Recorded (settles : Prop) (producer last : Producer) : Prop
  /-- No push is under way. -/
  | apart : settles → producer.returning = none → last.returning = none →
      last.calls = producer.calls → Recorded settles producer last
  | begun : settles → producer.returning = none → last.returning = some false →
      last.stored = [] → last.calls = producer.calls → Recorded settles producer last
  | went {returned after : Bool} : settles → producer.returning = some returned →
      last.returning = some after →
      last.stored.length + returned.toNat = producer.stored.length + after.toNat →
      last.calls = producer.calls → Recorded settles producer last
  | ended {returned : Bool} : settles → producer.returning = some returned →
      last.returning = none → last.calls = producer.calls ++ [(producer.stored, returned)] →
      Recorded settles producer last
  | extended : ¬settles → producer.returning = some true → last.returning = some false →
      last.stored = producer.stored → last.calls = producer.calls →
      Recorded settles producer last

theorem Producer.callsAfter_going {nextPlace : Place} {producer : Producer}
    (going : producer.returning = none ∨ nextPlace ≠ .idle) :
    producer.callsAfter nextPlace = producer.calls := by
  unfold Producer.callsAfter
  split
  next returned finished =>
    rcases going with none | busy
    · rw [Producer.returning, finished] at none
      cases none
    · exact absurd rfl busy
  · rfl

theorem Producer.storedAfter_next {result : Bool} {producer : Producer}
    (different : producer.participant.place ≠ .pushing) :
    producer.storedAfter (.next result) = producer.stored := by
  unfold Producer.storedAfter
  split
  next event _ same => cases same
  next event pushing _ => exact absurd pushing different
  · rfl

theorem proceed_recorded {producer : Producer} {after : Participant}
    (stepped : proceed result shared producer.participant = some (next, after)) :
    Recorded
      (producer.participant.place.Settles result shared producer.participant.member)
      producer (producer.record (.next result) after) := by
  rcases producer with ⟨⟨member, place⟩, stored, calls⟩
  rcases after with ⟨member', nextPlace⟩
  cases proceed_returns stepped with
  | pushed pushing returning =>
      subst pushing
      have stays : nextPlace ≠ .idle := by
        intro idle
        rw [idle] at returning
        cases returning
      refine @Recorded.went _ _ _ false result trivial rfl returning ?_
        (Producer.callsAfter_going (.inr stays))
      cases result with
      | false => rfl
      | true =>
          simp only [proceed] at stepped
          split at stepped
          · cases stepped
          next nonempty =>
            rcases List.exists_cons_of_ne_nil nonempty with ⟨head, tail, connectors⟩
            simp [Producer.record, Producer.storedAfter, connectors]
  | kept different settles returning =>
      cases under : place.returning with
      | none =>
          rw [under] at returning
          exact .apart settles under returning (Producer.callsAfter_going (.inl under))
      | some returned =>
          rw [under] at returning
          have stays : nextPlace ≠ .idle := by
            intro idle
            rw [idle] at returning
            cases returning
          refine .went settles under returning ?_ (Producer.callsAfter_going (.inr stays))
          have stays := @Producer.storedAfter_next result ⟨⟨member, place⟩, stored, calls⟩ different
          exact congrArg (·.length + returned.toNat) stays
  | ended different settles idle =>
      subst idle
      cases under : place.returning with
      | none => exact .apart settles under rfl (Producer.callsAfter_going (.inl under))
      | some returned =>
          refine .ended settles under rfl ?_
          simp only [Producer.record, Producer.callsAfter, under]
  | extended extended returning pushing =>
      subst pushing
      have different : place ≠ .pushing := by
        intro pushing
        rw [pushing] at returning
        cases returning
      exact .extended extended returning rfl (Producer.storedAfter_next different)
        (Producer.callsAfter_going (.inr (by simp)))

theorem produce_recorded {state : Producers} {index : Nat} {event : Event}
    {producer last : Producer} (found : state.places[index]? = some producer)
    (stepped : produce event state.shared producer = some (next, last)) :
    Recorded (Settles state (index, event)) producer last := by
  rcases Option.map_eq_some_iff.mp stepped with ⟨⟨changed, after⟩, programmed, pair⟩
  cases pair
  cases event with
  | «open» made =>
      simp only [program] at programmed
      split at programmed
      next closed =>
        have under : producer.returning = none := by rw [Producer.returning, closed]; rfl
        cases programmed
        refine .apart trivial under ?_ (Producer.callsAfter_going (.inl under))
        cases made with
        | false => exact under
        | true => rfl
      · cases programmed
  | close =>
      simp only [program] at programmed
      split at programmed
      next idle =>
        have under : producer.returning = none := by rw [Producer.returning, idle]; rfl
        cases programmed
        exact .apart trivial under rfl (Producer.callsAfter_going (.inl under))
      · cases programmed
  | push =>
      simp only [program] at programmed
      split at programmed
      next idle =>
        have under : producer.returning = none := by rw [Producer.returning, idle]; rfl
        cases programmed
        refine .begun trivial under rfl ?_ (Producer.callsAfter_going (.inl under))
        simp only [Producer.record, Producer.storedAfter, idle]
      · cases programmed
  | read =>
      simp only [program] at programmed
      split at programmed
      next idle =>
        have under : producer.returning = none := by rw [Producer.returning, idle]; rfl
        cases programmed
        exact .apart trivial under rfl (Producer.callsAfter_going (.inl under))
      · cases programmed
  | next result =>
      have same : producer.participant.place.Settles result state.shared
          producer.participant.member ↔ Settles state (index, .next result) := by
        simp only [Settles, found, Option.mem_some_iff, forall_eq']
      rw [← same]
      exact proceed_recorded programmed

namespace Producer

variable {settles : Prop} {producer last : Producer}

theorem Counted.recorded (counted : producer.Counted) (kept : settles)
    (recorded : Recorded settles producer last) : last.Counted := by
  rcases counted with ⟨underway, finished⟩
  cases recorded with
  | apart _ none after calls =>
      exact ⟨by simp [after], calls ▸ finished⟩
  | begun _ none after stored calls =>
      exact ⟨by simp [after, stored], calls ▸ finished⟩
  | @went returned value _ returning after stored calls =>
      have before := underway returned returning
      refine ⟨?_, calls ▸ finished⟩
      intro other under
      rw [after] at under
      cases under
      omega
  | @ended returned _ returning after calls =>
      have before := underway returned returning
      refine ⟨by simp [after], ?_⟩
      intro call member
      rw [calls, List.mem_append, List.mem_singleton] at member
      rcases member with older | same
      · exact finished call older
      · rw [same]
        exact before
  | extended not _ _ _ _ => exact absurd kept not

theorem Counted.repeated (counted : producer.Counted) (extended : ¬settles)
    (recorded : Recorded settles producer last) : last.Repeated := by
  cases recorded with
  | extended _ returning after stored calls =>
      have before := counted.underway true returning
      refine .inl ⟨false, after, ?_⟩
      rw [stored, before]
      exact Nat.zero_lt_one
  | apart kept | begun kept | went kept | ended kept => exact absurd kept extended

theorem Repeated.recorded (repeated : producer.Repeated)
    (recorded : Recorded settles producer last) : last.Repeated := by
  rcases repeated with ⟨returned, under, more⟩ | wrong
  · cases recorded with
    | apart _ none _ _ | begun _ none _ _ _ =>
        rw [none] at under
        cases under
    | @went _ value _ returning after stored calls =>
        rw [returning] at under
        cases under
        refine .inl ⟨value, after, ?_⟩
        omega
    | ended _ returning after calls =>
        rw [returning] at under
        cases under
        refine .inr ⟨(producer.stored, returned), ?_, Nat.ne_of_gt more⟩
        rw [calls]
        exact List.mem_append_right _ List.mem_cons_self
    | extended _ returning after stored calls =>
        refine .inl ⟨false, after, ?_⟩
        rw [stored]
        exact Nat.lt_of_le_of_lt (Nat.zero_le _) more
  · rcases wrong with ⟨call, member, different⟩
    refine .inr ⟨call, ?_, different⟩
    cases recorded with
    | apart _ _ _ calls | begun _ _ _ _ calls | went _ _ _ _ calls
    | extended _ _ _ _ calls => exact calls ▸ member
    | ended _ _ _ calls =>
        rw [calls]
        exact List.mem_append_left _ member

end Producer

/-! ## Runs -/

def CountedInv (state : Producers) : Prop := ∀ producer ∈ state.places, producer.Counted

def SomeRepeated (state : Producers) : Prop := ∃ producer ∈ state.places, producer.Repeated

theorem start_countedInv (count : Nat) : CountedInv (Producers.start count) := by
  intro producer member
  rcases List.mem_cons.mp member with creator | other
  · rw [creator]
    exact ⟨fun _ started => (by cases started), fun _ ended => (by cases ended)⟩
  · rw [List.eq_of_mem_replicate other]
    exact ⟨fun _ started => (by cases started), fun _ ended => (by cases ended)⟩

variable {state after : Producers} {label : Nat × Event} {labels : List (Nat × Event)}
  {final : Producers}

theorem CountedInv.step (inv : CountedInv state) (kept : Settles state label)
    (step : ProducerStep state label after) : CountedInv after := by
  cases step with
  | @act shared nextShared places index producer last event found stepped =>
      have recorded := @produce_recorded _ ⟨shared, places⟩ _ _ _ _ found stepped
      intro other placed
      rcases List.getElem?_of_mem placed with ⟨position, placed⟩
      rcases Threads.found_after_set placed with ⟨-, same⟩ | ⟨-, older⟩
      · rw [same]
        exact (inv producer (List.mem_of_getElem? found)).recorded kept recorded
      · exact inv other (List.mem_of_getElem? older)

theorem CountedInv.repeated (inv : CountedInv state) (extended : ¬Settles state label)
    (step : ProducerStep state label after) : SomeRepeated after := by
  cases step with
  | @act shared nextShared places index producer last event found stepped =>
      have recorded := @produce_recorded _ ⟨shared, places⟩ _ _ _ _ found stepped
      have inside := (List.getElem?_eq_some_iff.mp found).1
      exact ⟨last, List.mem_set inside last,
        (inv producer (List.mem_of_getElem? found)).repeated extended recorded⟩

theorem SomeRepeated.step (repeated : SomeRepeated state)
    (step : ProducerStep state label after) : SomeRepeated after := by
  cases step with
  | @act shared nextShared places index producer last event found stepped =>
      have recorded := @produce_recorded _ ⟨shared, places⟩ _ _ _ _ found stepped
      have inside := (List.getElem?_eq_some_iff.mp found).1
      rcases repeated with ⟨other, member, wrong⟩
      rcases List.getElem?_of_mem member with ⟨position, placed⟩
      by_cases same : position = index
      · subst same
        have equal : other = producer := Option.some.inj (placed.symm.trans found)
        subst equal
        exact ⟨last, List.mem_set inside last, wrong.recorded recorded⟩
      · refine ⟨other, ?_, wrong⟩
        apply @List.mem_of_getElem? _ _ position
        rw [List.getElem?_set_ne (Ne.symm same)]
        exact placed

theorem settles_or_repeated (run : Run ProducerStep state labels final)
    (inv : CountedInv state) :
    Run (fun state label next => ProducerStep state label next ∧ Settles state label)
      state labels final ∨ SomeRepeated final := by
  induction run with
  | nil => exact .inl .nil
  | @cons state label middle labels final first rest induction =>
      by_cases kept : Settles state label
      · rcases induction (inv.step kept first) with all | repeated
        · exact .inl (.cons ⟨first, kept⟩ all)
        · exact .inr repeated
      · exact .inr (rest.invariant SomeRepeated (fun repeated step => repeated.step step)
          (inv.repeated kept first))

theorem storedOnce_of_settles {count : Nat}
    (run : Run (fun state label next => ProducerStep state label next ∧ Settles state label)
      (Producers.start count) labels final) : StoredOnce final := by
  intro producer member
  have inv := run.invariant CountedInv (fun inv step => inv.step step.2 step.1)
    (start_countedInv count)
  exact (inv producer member).finished

/-- When all calls have returned, each has stored its message as it says exactly when no update
after a successful push has said that connectors have been added. -/
theorem storedOnce_iff_settles {count : Nat}
    (run : Run ProducerStep (Producers.start count) labels final) (finished : NoPush final) :
    StoredOnce final ↔
      Run (fun state label next => ProducerStep state label next ∧ Settles state label)
        (Producers.start count) labels final := by
  constructor
  · intro once
    rcases settles_or_repeated run (start_countedInv count) with kept | repeated
    · exact kept
    · rcases repeated with ⟨producer, member, ⟨returned, under, -⟩ | ⟨call, recorded, wrong⟩⟩
      · rw [Producer.returning, finished producer member] at under
        cases under
      · exact absurd (once producer member call recorded) wrong
  · exact storedOnce_of_settles

/-! ## Runs without new connectors -/

def Place.extending : Place → Bool
  | .growing .afterPush _ | .reaching .afterPush true | .shrinking .afterPush true => true
  | _ => false

def NoneExtending (state : Producers) : Prop :=
  ∀ producer ∈ state.places, producer.participant.place.extending = false

theorem Place.settles_of_not_extending (settled : place.extending = false) :
    place.Settles result shared member := by
  unfold Place.Settles
  split
  · cases settled
  · cases settled
  · trivial

theorem Caller.extending_resume (caller : Caller) (status : UpdateStatus) :
    (caller.resume status).extending = false := by
  cases caller <;> cases status <;> rfl

theorem proceed_extending {after : Participant} (settled : place.extending = false)
    (unextended : place.Unextended shared member)
    (stepped : proceed result shared ⟨member, place⟩ = some (next, after)) :
    after.place.extending = false := by
  cases place with
  | closed => cases stepped
  | idle => cases stepped
  | pushing | reading =>
      simp only [proceed, Participant.enter] at stepped
      split at stepped
      · cases stepped
      · cases stepped
        cases result <;> rfl
  | full | drained =>
      cases stepped
      dsimp only [Participant.enter]
      split <;> rfl
  | adding =>
      simp only [proceed] at stepped
      split at stepped <;> cases stepped <;> rfl
  | removing =>
      simp only [proceed] at stepped
      split at stepped
      · cases stepped
      · split at stepped <;> cases stepped <;> rfl
  | checking caller =>
      rw [proceed_checking] at stepped
      split at stepped
      · cases stepped
        exact caller.extending_resume _
      · cases stepped
        rfl
  | comparing caller =>
      cases stepped
      dsimp only [Participant.enter]
      cases caller with
      | afterPush =>
          rw [if_pos (show SameWord shared.outputId member.controlBlock.outputId from unextended)]
          rfl
      | _ => split <;> rfl
  | growing caller target =>
      have elsewhere : caller ≠ .afterPush := by
        rintro rfl
        cases settled
      have grown : ∀ place, place = Place.growing caller target ∨ place = .reaching caller true →
          place.extending = false := by
        rintro _ (rfl | rfl) <;> cases caller <;> first | rfl | exact absurd rfl elsewhere
      simp only [proceed, Participant.enter] at stepped
      split at stepped
      · cases stepped
        exact grown _ (.inr rfl)
      · split at stepped
        · split at stepped
          · cases stepped
            exact grown _ (.inl rfl)
          · cases stepped
            exact caller.extending_resume _
        · cases stepped
          exact caller.extending_resume _
  | reaching caller grown =>
      cases stepped
      dsimp only [Participant.enter]
      split
      · exact caller.extending_resume _
      · cases caller <;> cases grown <;> first | rfl | cases settled
  | shrinking caller grown =>
      simp only [proceed, Participant.enter] at stepped
      split at stepped
      · split at stepped
        · cases stepped
        · split at stepped <;> cases stepped <;> exact caller.extending_resume _
      · cases stepped
        exact caller.extending_resume _

theorem program_extending {event : Event} {participant after : Participant}
    (settled : participant.place.extending = false)
    (unextended : participant.place.Unextended shared participant.member)
    (stepped : program event shared participant = some (next, after)) :
    after.place.extending = false := by
  cases event with
  | «open» made =>
      simp only [program] at stepped
      split at stepped
      · cases stepped
        cases made
        · exact settled
        · rfl
      · cases stepped
  | close | push | read =>
      simp only [program] at stepped
      split at stepped
      · cases stepped
        rfl
      · cases stepped
  | next result => exact proceed_extending settled unextended stepped

theorem NoneExtending.step (none : NoneExtending state) (unextended : Unextended state label)
    (step : ProducerStep state label after) : NoneExtending after := by
  cases step with
  | @act shared nextShared places index producer last event found stepped =>
      rcases Option.map_eq_some_iff.mp stepped with ⟨⟨changed, participant⟩, programmed, pair⟩
      cases pair
      intro other placed
      rcases List.getElem?_of_mem placed with ⟨position, placed⟩
      rcases Threads.found_after_set placed with ⟨-, same⟩ | ⟨-, older⟩
      · rw [same]
        exact program_extending (none producer (List.mem_of_getElem? found))
          (unextended producer found) programmed
      · exact none other (List.mem_of_getElem? older)

theorem NoneExtending.settles (none : NoneExtending state) (label : Nat × Event) :
    Settles state label := by
  unfold Settles
  split
  · intro producer found
    exact Place.settles_of_not_extending (none producer (List.mem_of_getElem? found))
  · trivial

end Qbus.Bus
