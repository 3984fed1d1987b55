import Qbus.Bus.Participants

/-! # The chain of connectors

The identifiers of the chain under any interleaving of the participants. -/

namespace Qbus.Bus

/-- The chain is not empty, its identifiers are different words, and every
participant's connectors are connectors of the chain or have been dropped from
it; in particular its input connector is. -/
structure Chained (state : System) : Prop where
  ordered : state.shared.inputId ≤ state.shared.outputId
  short : state.shared.outputId < state.shared.inputId + 2 ^ 32
  known : ∀ participant ∈ state.places, ∀ id ∈ participant.member.connectors,
    id ≤ state.shared.outputId

/-- What a participant must find before it changes the shared control block: what
it has checked before it took the mutex. -/
def Place.StillChecked (shared : ControlBlock) : Place → Prop
  | .adding => shared.canAddConnector = true
  | .removing => shared.canRemoveConnector = true
  | _ => True

instance (shared : ControlBlock) : DecidablePred (Place.StillChecked shared) := fun place => by
  cases place <;> unfold Place.StillChecked <;> infer_instance

def StillChecked (state : System) (label : Nat × Event) : Prop :=
  ∀ participant ∈ state.places[label.1]?, participant.place.StillChecked state.shared

instance (state : System) : DecidablePred (StillChecked state) := fun label =>
  inferInstanceAs (Decidable (∀ participant ∈ state.places[label.1]?,
    participant.place.StillChecked state.shared))

/-! ## The invariant -/

structure Proper (shared : ControlBlock) : Prop where
  ordered : shared.inputId ≤ shared.outputId
  short : shared.outputId < shared.inputId + 2 ^ 32

structure Behind (shared : ControlBlock) (member : Member) : Prop where
  connectors : ∀ id ∈ member.connectors, id ≤ shared.outputId
  inputId : member.controlBlock.inputId ≤ shared.inputId
  outputId : member.controlBlock.outputId ≤ shared.outputId

def Place.Pending (shared : ControlBlock) (controlBlock : ControlBlock) : Place → Prop
  | .growing _ target => controlBlock.outputId ≤ target ∧ target ≤ shared.outputId
  | .shrinking _ _ => controlBlock.inputId < shared.inputId
  | _ => True

structure Participant.Follows (shared : ControlBlock) (participant : Participant) : Prop where
  behind : Behind shared participant.member
  pending : participant.place.Pending shared participant.member.controlBlock

theorem Caller.pending_resume (caller : Caller) (status : UpdateStatus)
    (shared controlBlock : ControlBlock) :
    (caller.resume status).Pending shared controlBlock := by
  cases caller <;> cases status <;> exact trivial

structure Forward (shared next : ControlBlock) : Prop where
  inputId : shared.inputId ≤ next.inputId
  outputId : shared.outputId ≤ next.outputId

theorem Forward.refl (shared : ControlBlock) : Forward shared shared :=
  ⟨Nat.le_refl _, Nat.le_refl _⟩

theorem Participant.Follows.forward {shared next : ControlBlock} {participant : Participant}
    (follows : participant.Follows shared) (forward : Forward shared next) :
    participant.Follows next where
  behind := {
    connectors := fun id member =>
      Nat.le_trans (follows.behind.connectors id member) forward.outputId
    inputId := Nat.le_trans follows.behind.inputId forward.inputId
    outputId := Nat.le_trans follows.behind.outputId forward.outputId }
  pending := by
    have pending := follows.pending
    cases place : participant.place with
    | growing caller target =>
        rw [place] at pending
        exact ⟨pending.1, Nat.le_trans pending.2 forward.outputId⟩
    | shrinking caller grown =>
        rw [place] at pending
        exact Nat.lt_of_lt_of_le pending forward.inputId
    | _ => exact trivial

namespace Proper

variable {shared : ControlBlock}

theorem added (proper : Proper shared) (checked : shared.canAddConnector = true) :
    Proper shared.added := by
  have ordered := proper.ordered
  have short := proper.short
  have different := shared.canAddConnector_iff.mp checked
  constructor
  · exact Nat.le_succ_of_le ordered
  · simp only [ControlBlock.added_outputId, ControlBlock.added_inputId]
    omega

theorem removed (proper : Proper shared) (checked : shared.canRemoveConnector = true) :
    Proper shared.removed := by
  have ordered := proper.ordered
  have short := proper.short
  have different := shared.canRemoveConnector_iff.mp checked
  constructor
  · simp only [ControlBlock.removed_outputId, ControlBlock.removed_inputId]
    omega
  · simp only [ControlBlock.removed_outputId, ControlBlock.removed_inputId]
    omega

theorem chain_le (proper : Proper shared) {id : Nat} (member : id ∈ shared.chain) :
    id ≤ shared.outputId := by
  have ordered := proper.ordered
  have short := proper.short
  rw [ControlBlock.chain, List.mem_range'_1] at member
  omega

end Proper

namespace Behind

variable {shared : ControlBlock} {member : Member}

theorem addConnector {made result : Bool} {next : ControlBlock} {after : Member}
    (behind : Behind shared member)
    (adds : member.addConnector made shared = (result, next, after)) :
    (next = shared ∨ next = shared.added) ∧ Behind next after := by
  cases made with
  | false =>
      cases adds
      exact ⟨.inl rfl, behind⟩
  | true =>
      cases adds
      refine ⟨.inr rfl, ?_, behind.inputId, Nat.le_refl _⟩
      intro id found
      rcases List.mem_cons.mp found with same | older
      · exact Nat.le_of_eq same
      · exact Nat.le_succ_of_le (behind.connectors id older)

theorem removeConnector {made result : Bool} {next : ControlBlock} {after : Member}
    (behind : Behind shared member) (further : shared.inputId < shared.outputId)
    (removes : member.removeConnector made shared = (result, next, after)) :
    next = shared.removed ∧ Behind next after := by
  have left := @mem_removeConnector made shared member.connectors
  unfold Member.removeConnector at removes
  have changed := removeConnector_controlBlock made shared member.connectors
  split at removes
  all_goals
    next found connectors returned =>
      cases removes
      rw [returned] at left changed
      simp only at changed
      subst changed
      refine ⟨rfl, ?_, ?_, behind.outputId⟩
      · intro id member
        rcases left member with older | same
        · exact behind.connectors id older
        · rw [same]
          exact further
      · first
        | exact Nat.le_refl _
        | exact Nat.le_succ_of_le behind.inputId

theorem grow {made result : Bool} {after : Member} (behind : Behind shared member)
    (further : member.controlBlock.outputId < shared.outputId)
    (grows : member.grow made = (result, after)) :
    Behind shared after ∧
      after.controlBlock.outputId ≤ member.controlBlock.outputId + 1 := by
  cases made with
  | false =>
      cases grows
      exact ⟨behind, Nat.le_succ _⟩
  | true =>
      cases grows
      refine ⟨⟨?_, behind.inputId, further⟩, Nat.le_refl _⟩
      intro id found
      rcases List.mem_cons.mp found with same | older
      · rw [same]
        exact further
      · exact behind.connectors id older

theorem shrink {made result : Bool} {after : Member} (behind : Behind shared member)
    (proper : Proper shared) (further : member.controlBlock.inputId < shared.inputId)
    (shrinks : member.shrink made = (result, after)) : Behind shared after := by
  have left := @mem_removeConnector made member.controlBlock member.connectors
  have changed := removeConnector_controlBlock made member.controlBlock member.connectors
  unfold Member.shrink at shrinks
  split at shrinks
  next next connectors returned =>
    cases shrinks
    rw [returned] at left changed
    simp only at changed
    subst changed
    refine ⟨?_, further, behind.outputId⟩
    intro id member
    rcases left member with older | same
    · exact behind.connectors id older
    · rw [same]
      exact Nat.le_trans further proper.ordered

end Behind

theorem proceed_follows {result : Bool} {shared next : ControlBlock}
    {participant after : Participant} (proper : Proper shared)
    (follows : participant.Follows shared) (checked : participant.place.StillChecked shared)
    (stepped : proceed result shared participant = some (next, after)) :
    Proper next ∧ Forward shared next ∧ after.Follows next := by
  rcases participant with ⟨member, place⟩
  rcases follows with ⟨behind, pending⟩
  have stays : ∀ {place : Place}, place.Pending shared member.controlBlock →
      Proper shared ∧ Forward shared shared ∧ Participant.Follows shared ⟨member, place⟩ :=
    fun left => ⟨proper, .refl shared, behind, left⟩
  cases place with
  | closed => cases stepped
  | idle => cases stepped
  | pushing =>
      simp only [proceed, Participant.enter] at stepped
      split at stepped
      · cases stepped
      · cases stepped
        apply stays
        split <;> exact trivial
  | full =>
      cases stepped
      apply stays
      split <;> exact trivial
  | adding =>
      simp only [proceed] at stepped
      split at stepped
      all_goals
        next changed member' adds =>
          cases stepped
          rcases behind.addConnector adds with ⟨same | grown, kept⟩
          · subst same
            exact ⟨proper, .refl _, kept, trivial⟩
          · subst grown
            exact ⟨proper.added checked, ⟨Nat.le_refl _, Nat.le_succ _⟩, kept, trivial⟩
  | reading =>
      simp only [proceed, Participant.enter] at stepped
      split at stepped
      · cases stepped
      · cases stepped
        apply stays
        split <;> exact trivial
  | drained =>
      cases stepped
      apply stays
      split <;> exact trivial
  | removing =>
      have different := shared.canRemoveConnector_iff.mp checked
      have ordered := proper.ordered
      have further : shared.inputId < shared.outputId := by
        rcases Nat.lt_or_eq_of_le ordered with less | same
        · exact less
        · exact absurd (congrArg (· % 2 ^ 32) same) different
      simp only [proceed] at stepped
      split at stepped
      · cases stepped
      · split at stepped
        all_goals
          next changed member' removes =>
            cases stepped
            rcases behind.removeConnector further removes with ⟨same, kept⟩
            subst same
            exact ⟨proper.removed checked, ⟨Nat.le_succ _, Nat.le_refl _⟩, kept, trivial⟩
  | checking caller =>
      rw [proceed_checking] at stepped
      cases stepped
      split
      · exact stays (caller.pending_resume _ _ _)
      · exact ⟨proper, .refl _, ⟨behind.connectors, behind.inputId, behind.outputId⟩, trivial⟩
  | comparing caller =>
      cases stepped
      apply stays
      split
      · exact trivial
      · exact ⟨behind.outputId, Nat.le_refl _⟩
  | growing caller target =>
      simp only [proceed, Participant.enter] at stepped
      split at stepped
      · cases stepped
        exact stays trivial
      next different =>
        split at stepped
        · split at stepped
          all_goals
            next member' grows =>
              cases stepped
              have upTo := pending.1
              have further : member.controlBlock.outputId < target := by
                rcases Nat.lt_or_eq_of_le upTo with less | same
                · exact less
                · exact absurd (congrArg (· % 2 ^ 32) same.symm) different
              rcases behind.grow (Nat.lt_of_lt_of_le further pending.2) grows with ⟨kept, added⟩
              refine ⟨proper, .refl _, kept, ?_⟩
              first
              | exact ⟨Nat.le_trans added further, pending.2⟩
              | exact caller.pending_resume _ _ _
        · cases stepped
          exact stays (caller.pending_resume _ _ _)
  | reaching caller grown =>
      cases stepped
      apply stays
      split
      · exact caller.pending_resume _ _ _
      next different =>
        rcases Nat.lt_or_eq_of_le behind.inputId with less | same
        · exact less
        · exact absurd (congrArg (· % 2 ^ 32) same.symm) different
  | shrinking caller grown =>
      simp only [proceed, Participant.enter] at stepped
      split at stepped
      · split at stepped
        · cases stepped
        · split at stepped
          all_goals
            next member' shrinks =>
              cases stepped
              exact ⟨proper, .refl _, behind.shrink proper pending shrinks,
                caller.pending_resume _ _ _⟩
      · cases stepped
        exact stays (caller.pending_resume _ _ _)

theorem program_follows {event : Event} {shared next : ControlBlock}
    {participant after : Participant} (proper : Proper shared)
    (follows : participant.Follows shared) (checked : participant.place.StillChecked shared)
    (stepped : program event shared participant = some (next, after)) :
    Proper next ∧ Forward shared next ∧ after.Follows next := by
  cases event with
  | «open» made =>
      simp only [program] at stepped
      split at stepped
      · cases stepped
        refine ⟨proper, .refl _, ?_⟩
        split
        · exact ⟨⟨fun id member => proper.chain_le (List.mem_reverse.mp member), Nat.le_refl _, Nat.le_refl _⟩,
            trivial⟩
        · exact follows
      · cases stepped
  | close =>
      simp only [program] at stepped
      split at stepped
      · cases stepped
        exact ⟨proper, .refl _, ⟨by simp, Nat.zero_le _, Nat.zero_le _⟩, trivial⟩
      · cases stepped
  | push =>
      simp only [program] at stepped
      split at stepped
      · cases stepped
        exact ⟨proper, .refl _, follows.behind, trivial⟩
      · cases stepped
  | read =>
      simp only [program] at stepped
      split at stepped
      · cases stepped
        exact ⟨proper, .refl _, follows.behind, trivial⟩
      · cases stepped
  | next result => exact proceed_follows proper follows checked stepped

structure ChainInv (state : System) : Prop where
  proper : Proper state.shared
  follows : ∀ participant ∈ state.places, participant.Follows state.shared

theorem ChainInv.step {state next : System} {label : Nat × Event} (inv : ChainInv state)
    (checked : StillChecked state label) (step : Step state label next) : ChainInv next := by
  cases step with
  | @act shared nextShared places index participant after event found stepped =>
      have member := List.mem_of_getElem? found
      rcases program_follows inv.proper (inv.follows participant member)
        (checked participant found) stepped with ⟨proper, forward, kept⟩
      refine ⟨proper, ?_⟩
      intro other placed
      rcases List.getElem?_of_mem placed with ⟨position, placed⟩
      rcases Threads.found_after_set placed with ⟨-, same⟩ | ⟨-, older⟩
      · rw [same]
        exact kept
      · exact (inv.follows other (List.mem_of_getElem? older)).forward forward

theorem start_chainInv (count : Nat) : ChainInv (System.start count) where
  proper := ⟨Nat.le_refl _, by simp [System.start]⟩
  follows := by
    intro participant member
    rcases List.mem_cons.mp member with creator | other
    · rw [creator]
      exact ⟨⟨by simp [System.start], Nat.le_refl _, Nat.le_refl _⟩, trivial⟩
    · rw [List.eq_of_mem_replicate other]
      exact ⟨⟨by simp, Nat.zero_le _, Nat.zero_le _⟩, trivial⟩

/-- The identifiers never cross: in every run in which every change of the shared
control block finds what has been checked for it, the chain is not empty, and the
connectors of all participants are of the chain or dropped from it. -/
theorem bus_chain_ordered {count : Nat} {labels : List (Nat × Event)} {final : System}
    (run : Run (fun state label next => Step state label next ∧ StillChecked state label)
      (System.start count) labels final) : Chained final := by
  have inv := run.invariant ChainInv (fun inv step => inv.step step.2 step.1)
    (start_chainInv count)
  exact ⟨inv.proper.ordered, inv.proper.short,
    fun participant member => (inv.follows participant member).behind.connectors⟩

/-- The creator adds the connector 1, and two consumers that have drained the
connector 0 are about to remove it. -/
def drainedByTwo : List (Nat × Event) :=
  [(0, .push), (0, .next true), (0, .next false), (0, .next true), (0, .next true),
    (1, .open true), (2, .open true),
    (1, .read), (1, .next false), (1, .next true), (1, .next true),
    (2, .read), (2, .next false), (2, .next true), (2, .next true)]

/-- The first of two consumers drops the connector 0. -/
theorem bus_chain_ordered_drained : ∃ final : System,
    Run (fun state label next => Step state label next ∧ StillChecked state label)
      (System.start 2) (drainedByTwo ++ [(1, .next true)]) final ∧
    final.shared = ⟨2, 1, 1⟩ ∧ Chained final := by
  have followed : Threads.follow program StillChecked (System.start 2)
      (drainedByTwo ++ [(1, .next true)]) =
        some ⟨⟨2, 1, 1⟩,
          [⟨⟨[1, 0], ⟨0, 0, 1⟩⟩, .checking .beforePush⟩, ⟨⟨[1], ⟨1, 1, 1⟩⟩, .reading⟩,
            ⟨⟨[1, 0], ⟨1, 0, 1⟩⟩, .removing⟩]⟩ := by decide +kernel
  have run := Threads.run_of_follow followed
  exact ⟨_, run, rfl, bus_chain_ordered run⟩

/-- When one consumer has dropped the connector 0, it is still the input connector
of the other one, outside the chain. The other one drops the connector 1 in its
place, and `input_id` passes `output_id`. -/
theorem bus_chain_crossed : ∃ dropped crossed : System,
    Run Step (System.start 2) (drainedByTwo ++ [(1, .next true)]) dropped ∧
    (∃ participant ∈ dropped.places, participant.member.connectors.getLast? = some 0 ∧
      0 < dropped.shared.inputId) ∧
    Run Step dropped [(2, .next true)] crossed ∧
    crossed.shared.outputId < crossed.shared.inputId := by
  have followed : Threads.follow program (fun _ _ => True) (System.start 2)
      (drainedByTwo ++ [(1, .next true)]) =
        some ⟨⟨2, 1, 1⟩,
          [⟨⟨[1, 0], ⟨0, 0, 1⟩⟩, .checking .beforePush⟩, ⟨⟨[1], ⟨1, 1, 1⟩⟩, .reading⟩,
            ⟨⟨[1, 0], ⟨1, 0, 1⟩⟩, .removing⟩]⟩ := by decide +kernel
  have crosses : Threads.follow program (fun _ _ => True)
      ⟨⟨2, 1, 1⟩,
        [⟨⟨[1, 0], ⟨0, 0, 1⟩⟩, .checking .beforePush⟩, ⟨⟨[1], ⟨1, 1, 1⟩⟩, .reading⟩,
          ⟨⟨[1, 0], ⟨1, 0, 1⟩⟩, .removing⟩]⟩ [(2, .next true)] =
        some ⟨⟨3, 2, 1⟩,
          [⟨⟨[1, 0], ⟨0, 0, 1⟩⟩, .checking .beforePush⟩, ⟨⟨[1], ⟨1, 1, 1⟩⟩, .reading⟩,
            ⟨⟨[1], ⟨1, 2, 1⟩⟩, .reading⟩]⟩ := by decide +kernel
  refine ⟨_, _, (Threads.run_of_follow followed).mono And.left, ?_,
    (Threads.run_of_follow crosses).mono And.left, by decide⟩
  exact ⟨_, List.mem_cons_self, by decide⟩

end Qbus.Bus
