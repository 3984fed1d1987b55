import Qbus.Bus.Participants

/-! # The epoch of the control block

A participant is up to date when its copy has the epoch of the shared control
block. An update copies the epoch, and then counts its own additions and
removals on the copy as well. -/

namespace Qbus.Bus

def Member.At (epoch : Nat) (member : Member) : Prop :=
  SameWord member.controlBlock.epoch epoch

instance (epoch : Nat) : DecidablePred (Member.At epoch) := fun member =>
  inferInstanceAs (Decidable (SameWord member.controlBlock.epoch epoch))

structure Member.Current (shared : ControlBlock) (member : Member) : Prop where
  inputId : SameWord member.controlBlock.inputId shared.inputId
  outputId : SameWord member.controlBlock.outputId shared.outputId

/-- The participant is inside `update_connectors`, after `is_updated`. -/
def Place.updating : Place → Bool
  | .comparing _ | .growing _ _ | .reaching _ _ | .shrinking _ _ => true
  | _ => false

/-- No update is missed: the copy of every open participant that is not about to
update it has the shared identifiers, if it has the shared epoch. -/
def Tracked (state : System) : Prop :=
  ∀ participant ∈ state.places, participant.place ≠ .closed →
    participant.place.updating = false → participant.member.At state.shared.epoch →
    participant.member.Current state.shared

/-! ## The condition -/

/-- No open participant other than `index` is one ahead of the shared epoch. -/
def OthersApart (state : System) (index : Nat) : Prop :=
  ∀ other < state.places.length, other ≠ index →
    ∀ participant ∈ state.places[other]?, participant.place ≠ .closed →
      ¬participant.member.At (state.shared.epoch + 1)

instance (state : System) (index : Nat) : Decidable (OthersApart state index) :=
  inferInstanceAs (Decidable (∀ other < state.places.length, other ≠ index →
    ∀ participant ∈ state.places[other]?, participant.place ≠ .closed →
      ¬participant.member.At (state.shared.epoch + 1)))

/-- What a participant must find before its next step with this result: no step
but the copying of the epoch makes the epoch of a copy the shared one. A change of
the shared control block may do so for the participant that makes it, when the
identifier that it does not refresh is current. A change of the copy in an update
does not reach the shared epoch, and no update is given up at the shared epoch. -/
def Place.KeepsApart (state : System) (index : Nat) (result : Bool) (member : Member) :
    Place → Prop
  | .adding => result = true → OthersApart state index ∧
      (member.At (state.shared.epoch + 1) →
        SameWord member.controlBlock.inputId state.shared.inputId)
  | .removing => OthersApart state index ∧
      (member.At (state.shared.epoch + 1) →
        (member.removeConnector result state.shared).1 = true ∧
          SameWord member.controlBlock.outputId state.shared.outputId)
  | .growing _ target => ¬SameWord target member.controlBlock.outputId →
      if member.controlBlock.canAddConnector && result then
        ¬SameWord (member.controlBlock.epoch + 1) state.shared.epoch
      else ¬member.At state.shared.epoch
  | .shrinking _ _ =>
      if member.controlBlock.canRemoveConnector then
        ¬SameWord (member.controlBlock.epoch + 1) state.shared.epoch
      else ¬member.At state.shared.epoch
  | _ => True

instance (state : System) (index : Nat) (result : Bool) (member : Member) :
    DecidablePred (Place.KeepsApart state index result member)
  | .adding => inferInstanceAs (Decidable (result = true → OthersApart state index ∧
      (member.At (state.shared.epoch + 1) →
        SameWord member.controlBlock.inputId state.shared.inputId)))
  | .removing => inferInstanceAs (Decidable (OthersApart state index ∧
      (member.At (state.shared.epoch + 1) →
        (member.removeConnector result state.shared).1 = true ∧
          SameWord member.controlBlock.outputId state.shared.outputId)))
  | .growing _ target => inferInstanceAs (Decidable
      (¬SameWord target member.controlBlock.outputId →
        if member.controlBlock.canAddConnector && result then
          ¬SameWord (member.controlBlock.epoch + 1) state.shared.epoch
        else ¬member.At state.shared.epoch))
  | .shrinking _ _ => inferInstanceAs (Decidable
      (if member.controlBlock.canRemoveConnector then
        ¬SameWord (member.controlBlock.epoch + 1) state.shared.epoch
      else ¬member.At state.shared.epoch))
  | .closed | .idle | .pushing | .full | .reading | .drained | .checking _ | .comparing _
  | .reaching _ _ => inferInstanceAs (Decidable True)

def KeepsApart (state : System) (label : Nat × Event) : Prop :=
  match label.2 with
  | .next result => ∀ participant ∈ state.places[label.1]?,
      participant.place.KeepsApart state label.1 result participant.member
  | _ => True

instance (state : System) : DecidablePred (KeepsApart state)
  | (index, .next result) => inferInstanceAs (Decidable (∀ participant ∈ state.places[index]?,
      participant.place.KeepsApart state index result participant.member))
  | (_, .open _) => inferInstanceAs (Decidable True)
  | (_, .close) => inferInstanceAs (Decidable True)
  | (_, .push) => inferInstanceAs (Decidable True)
  | (_, .read) => inferInstanceAs (Decidable True)

/-! ## The invariant -/

def Member.Tracks (shared : ControlBlock) (member : Member) : Prop :=
  member.At shared.epoch → member.Current shared

def Place.Tracks (shared : ControlBlock) (member : Member) : Place → Prop
  | .closed | .comparing _ | .shrinking _ _ => True
  | .growing _ target => member.At shared.epoch → SameWord target shared.outputId
  | .reaching _ _ =>
      member.At shared.epoch → SameWord member.controlBlock.outputId shared.outputId
  | _ => member.Tracks shared

variable {shared next : ControlBlock} {member after : Member} {place nextPlace : Place}

theorem Caller.tracks_resume (caller : Caller) (status : UpdateStatus)
    (tracks : member.Tracks shared) : (caller.resume status).Tracks shared member := by
  cases caller <;> cases status <;> exact tracks

theorem Place.tracks_of_not_at (apart : ¬member.At shared.epoch) (place : Place) :
    place.Tracks shared member := by
  cases place with
  | closed | comparing | shrinking => exact trivial
  | _ => exact fun level => absurd level apart

theorem Member.addConnector_tracks {made result : Bool} (tracks : member.Tracks shared)
    (fresh : made = true → member.At (shared.epoch + 1) →
      SameWord member.controlBlock.inputId shared.inputId)
    (adds : member.addConnector made shared = (result, next, after)) :
    (next = shared ∨ made = true ∧ next = shared.added) ∧ after.Tracks next := by
  cases made with
  | false =>
      cases adds
      exact ⟨.inl rfl, tracks⟩
  | true =>
      cases adds
      refine ⟨.inr ⟨rfl, rfl⟩, ?_⟩
      intro level
      exact ⟨fresh rfl level, rfl⟩

theorem Member.removeConnector_tracks {made result : Bool}
    (fresh : member.At (shared.epoch + 1) → (member.removeConnector made shared).1 = true ∧
      SameWord member.controlBlock.outputId shared.outputId)
    (removes : member.removeConnector made shared = (result, next, after)) :
    next = shared.removed ∧ after.Tracks next := by
  have changed := removeConnector_controlBlock made shared member.connectors
  rw [removes] at fresh
  unfold Member.removeConnector at removes
  split at removes
  next found connectors returned =>
    cases removes
    rw [returned] at changed
    simp only at changed
    subst changed
    exact ⟨rfl, fun level => ⟨rfl, (fresh level).2⟩⟩
  next found connectors returned =>
    cases removes
    rw [returned] at changed
    simp only at changed
    subst changed
    refine ⟨rfl, ?_⟩
    intro level
    cases (fresh level).1

/-- One addition in an update leaves the copy at another epoch, if it happens, and
otherwise leaves the copy alone. -/
theorem Member.grow_epoch {made result : Bool} (grows : member.grow made = (result, after)) :
    result = made ∧ (result = false → after = member) ∧
      (result = true → after.controlBlock.epoch = member.controlBlock.epoch + 1) := by
  cases made with
  | false =>
      cases grows
      exact ⟨rfl, fun _ => rfl, by simp⟩
  | true =>
      cases grows
      exact ⟨rfl, by simp, fun _ => rfl⟩

theorem Member.shrink_epoch {made result : Bool}
    (shrinks : member.shrink made = (result, after)) :
    after.controlBlock.epoch = member.controlBlock.epoch + 1 := by
  have changed := removeConnector_controlBlock made member.controlBlock member.connectors
  unfold Member.shrink at shrinks
  split at shrinks
  next found connectors returned =>
    cases shrinks
    rw [returned] at changed
    simp only at changed
    rw [changed]
    rfl

/-- One step of a participant under the condition: only additions and removals
outside updates change the shared control block, and they count it to an epoch
that no other copy has. -/
theorem proceed_tracks {state : System} {index : Nat} {result : Bool}
    (tracks : place.Tracks state.shared member)
    (apart : place.KeepsApart state index result member)
    (stepped : proceed result state.shared ⟨member, place⟩ = some (next, ⟨after, nextPlace⟩)) :
    (next = state.shared ∨ next.epoch = state.shared.epoch + 1 ∧ OthersApart state index) ∧
      nextPlace.Tracks next after := by
  cases place with
  | closed => cases stepped
  | idle => cases stepped
  | pushing =>
      simp only [proceed, Participant.enter] at stepped
      split at stepped
      · cases stepped
      · cases stepped
        refine ⟨.inl rfl, ?_⟩
        split <;> exact tracks
  | full =>
      cases stepped
      refine ⟨.inl rfl, ?_⟩
      split <;> exact tracks
  | adding =>
      simp only [proceed] at stepped
      split at stepped
      all_goals
        next changed member' adds =>
          cases stepped
          rcases Member.addConnector_tracks tracks (fun made => (apart made).2) adds with
            ⟨same | ⟨made, grown⟩, kept⟩
          · exact ⟨.inl same, kept⟩
          · refine ⟨.inr ⟨?_, (apart made).1⟩, kept⟩
            rw [grown]
            rfl
  | reading =>
      simp only [proceed, Participant.enter] at stepped
      split at stepped
      · cases stepped
      · cases stepped
        refine ⟨.inl rfl, ?_⟩
        split <;> exact tracks
  | drained =>
      cases stepped
      refine ⟨.inl rfl, ?_⟩
      split <;> exact tracks
  | removing =>
      simp only [proceed] at stepped
      split at stepped
      · cases stepped
      · split at stepped
        all_goals
          next changed member' removes =>
            cases stepped
            rcases Member.removeConnector_tracks apart.2 removes with ⟨same, kept⟩
            refine ⟨.inr ⟨?_, apart.1⟩, kept⟩
            rw [same]
            rfl
  | checking caller =>
      rw [proceed_checking] at stepped
      by_cases same : SameWord state.shared.epoch member.controlBlock.epoch
      · rw [if_pos same] at stepped
        cases stepped
        exact ⟨.inl rfl, caller.tracks_resume .usNone tracks⟩
      · rw [if_neg same] at stepped
        cases stepped
        exact ⟨.inl rfl, trivial⟩
  | comparing caller =>
      cases stepped
      refine ⟨.inl rfl, ?_⟩
      split
      next same => exact fun _ => same.symm
      next different => exact fun _ => rfl
  | growing caller target =>
      simp only [proceed, Participant.enter] at stepped
      split at stepped
      next same =>
        cases stepped
        exact ⟨.inl rfl, fun level => same.symm.trans (tracks level)⟩
      next different =>
        have counted := apart different
        split at stepped
        next able =>
          rw [able] at counted
          split at stepped
          next member' grows =>
            cases stepped
            rcases Member.grow_epoch grows with ⟨same, -, succeeded⟩
            subst same
            refine ⟨.inl rfl, ?_⟩
            apply Place.tracks_of_not_at
            intro level
            rw [Member.At, succeeded rfl] at level
            exact counted level
          next member' grows =>
            cases stepped
            rcases Member.grow_epoch grows with ⟨same, failed, -⟩
            subst same
            rw [failed rfl]
            exact ⟨.inl rfl, Place.tracks_of_not_at counted _⟩
        next unable =>
          cases stepped
          rw [Bool.not_eq_true] at unable
          rw [unable] at counted
          exact ⟨.inl rfl, Place.tracks_of_not_at counted _⟩
  | reaching caller grown =>
      cases stepped
      refine ⟨.inl rfl, ?_⟩
      split
      next same =>
        apply caller.tracks_resume
        intro level
        exact ⟨same.symm, tracks level⟩
      next different => exact trivial
  | shrinking caller grown =>
      simp only [proceed, Participant.enter] at stepped
      split at stepped
      next able =>
        have counted : ¬SameWord (member.controlBlock.epoch + 1) state.shared.epoch := by
          have counted := apart
          simp only [Place.KeepsApart, able] at counted
          exact counted
        split at stepped
        · cases stepped
        · split at stepped
          all_goals
            next member' shrinks =>
              cases stepped
              refine ⟨.inl rfl, ?_⟩
              apply Place.tracks_of_not_at
              intro level
              rw [Member.At, Member.shrink_epoch shrinks] at level
              exact counted level
      next unable =>
        cases stepped
        have counted : ¬member.At state.shared.epoch := by
          have counted := apart
          simp only [Place.KeepsApart, if_neg unable] at counted
          exact counted
        exact ⟨.inl rfl, Place.tracks_of_not_at counted _⟩

theorem program_tracks {state : System} {index : Nat} {event : Event}
    {participant last : Participant}
    (tracks : participant.place.Tracks state.shared participant.member)
    (found : state.places[index]? = some participant) (apart : KeepsApart state (index, event))
    (stepped : program event state.shared participant = some (next, last)) :
    (next = state.shared ∨ next.epoch = state.shared.epoch + 1 ∧ OthersApart state index) ∧
      last.place.Tracks next last.member := by
  rcases participant with ⟨member, place⟩
  cases event with
  | «open» made =>
      simp only [program] at stepped
      split at stepped
      · cases stepped
        refine ⟨.inl rfl, ?_⟩
        split
        · exact fun _ => ⟨rfl, rfl⟩
        · exact tracks
      · cases stepped
  | close =>
      simp only [program] at stepped
      split at stepped
      · cases stepped
        exact ⟨.inl rfl, trivial⟩
      · cases stepped
  | push =>
      simp only [program] at stepped
      split at stepped
      next same =>
        cases stepped
        subst same
        exact ⟨.inl rfl, tracks⟩
      · cases stepped
  | read =>
      simp only [program] at stepped
      split at stepped
      next same =>
        cases stepped
        subst same
        exact ⟨.inl rfl, tracks⟩
      · cases stepped
  | next result =>
      rcases last with ⟨after, nextPlace⟩
      exact proceed_tracks tracks (apart ⟨member, place⟩ found) stepped

def EpochInv (state : System) : Prop :=
  ∀ participant ∈ state.places, participant.place.Tracks state.shared participant.member

theorem EpochInv.step {state after : System} {label : Nat × Event} (inv : EpochInv state)
    (apart : KeepsApart state label) (step : Step state label after) : EpochInv after := by
  cases step with
  | @act shared nextShared places index participant last event found stepped =>
      have acting := inv participant (List.mem_of_getElem? found)
      rcases @program_tracks nextShared ⟨shared, places⟩ index event participant last acting
        found apart stepped with ⟨changed, kept⟩
      intro other placed
      rcases List.getElem?_of_mem placed with ⟨position, placed⟩
      rcases Threads.found_after_set placed with ⟨-, same⟩ | ⟨different, older⟩
      · rw [same]
        exact kept
      · have tracks := inv other (List.mem_of_getElem? older)
        rcases changed with same | ⟨counted, others⟩
        · rw [same]
          exact tracks
        · by_cases closed : other.place = .closed
          · rw [closed]
            exact trivial
          · apply Place.tracks_of_not_at
            intro level
            have inside := (List.getElem?_eq_some_iff.mp older).1
            apply others position inside different other older closed
            rw [← counted]
            exact level

theorem start_epochInv (count : Nat) : EpochInv (System.start count) := by
  intro participant member
  rcases List.mem_cons.mp member with creator | other
  · rw [creator]
    exact fun _ => ⟨rfl, rfl⟩
  · rw [List.eq_of_mem_replicate other]
    exact trivial

theorem Place.Tracks.current {shared : ControlBlock} {member : Member} {place : Place}
    (tracks : place.Tracks shared member) (isOpen : place ≠ .closed)
    (outside : place.updating = false) : member.Tracks shared := by
  cases place with
  | closed => exact absurd rfl isOpen
  | comparing | growing | reaching | shrinking => cases outside
  | _ => exact tracks

/-- No update is missed in a run in which no step but the copying of the epoch
makes the epoch of a copy the shared one. -/
theorem bus_epoch_tracks {count : Nat} {labels : List (Nat × Event)} {final : System}
    (run : Run (fun state label next => Step state label next ∧ KeepsApart state label)
      (System.start count) labels final) : Tracked final := by
  have inv := run.invariant EpochInv (fun inv step => inv.step step.2 step.1)
    (start_epochInv count)
  intro participant member isOpen outside
  exact (inv participant member).current isOpen outside

/-! ## Calls one after another -/

def results (index : Nat) (values : List Bool) : List (Nat × Event) :=
  values.map fun value => (index, .next value)

/-- The creator pushes one message to the full output connector, adds a connector
and pushes to that. -/
def pushBehind : List (Nat × Event) :=
  (0, .push) :: results 0 [true, false, true, true, true, true, true, true, true]

/-- The creator fills the connector 0, adds three connectors and pushes to each; the
consumer empties the connector 0, adds the three in one update and drops the
connector 0. -/
def threeAdded : List (Nat × Event) :=
  (1, .open true) :: (0, .push) :: results 0 [true, true, true] ++
    pushBehind ++ pushBehind ++ pushBehind ++
    (1, .read) :: results 1 [true] ++
    (1, .read) :: results 1 [false, true, true, true, true, true, true, true, true, true, true]

def twoMoreAdded : List (Nat × Event) :=
  (0, .push) :: results 0 [true, true, true, true, false, true, true, true, true, true] ++
    pushBehind

/-- The consumer that has updated its copy counts two more epochs than the shared
control block, and the copies are tracked. -/
theorem bus_epoch_tracks_added : ∃ final : System,
    Run (fun state label next => Step state label next ∧ KeepsApart state label)
      (System.start 1) threeAdded final ∧
    final.shared.epoch = 4 ∧ Tracked final := by
  have followed : Threads.follow program KeepsApart (System.start 1) threeAdded =
      some ⟨⟨4, 1, 3⟩,
        [⟨⟨[3, 2, 1, 0], ⟨3, 0, 3⟩⟩, .idle⟩, ⟨⟨[3, 2, 1], ⟨6, 1, 3⟩⟩, .idle⟩]⟩ := by
    decide +kernel
  have run := Threads.run_of_follow followed
  exact ⟨_, run, rfl, bus_epoch_tracks run⟩

/-- The calls are executed one after another: two more additions bring the shared
epoch to that of the consumer's copy, which misses them. -/
theorem bus_epoch_missed : ∃ final : System,
    Run Step (System.start 1) (threeAdded ++ twoMoreAdded) final ∧
    (∀ participant ∈ final.places, participant.place = .idle) ∧ ¬Tracked final := by
  have followed : Threads.follow program (fun _ _ => True) (System.start 1)
      (threeAdded ++ twoMoreAdded) =
        some ⟨⟨6, 1, 5⟩,
          [⟨⟨[5, 4, 3, 2, 1], ⟨6, 1, 5⟩⟩, .idle⟩, ⟨⟨[3, 2, 1], ⟨6, 1, 3⟩⟩, .idle⟩]⟩ := by
    decide +kernel
  refine ⟨_, (Threads.run_of_follow followed).mono And.left, by decide, ?_⟩
  intro tracked
  have current := tracked ⟨⟨[3, 2, 1], ⟨6, 1, 3⟩⟩, .idle⟩ (by decide) (by decide) rfl (by decide)
  have same := current.outputId
  cases same

end Qbus.Bus
