/-! # Runs of labelled transition systems

A run is a sequence of steps; the labels say what was called and what was
returned. A relation that every step preserves is preserved by every run. -/

namespace Qbus

variable {State Ghost Label : Type}

inductive Run (step : State → Label → State → Prop) : State → List Label → State → Prop
  | nil {state} : Run step state [] state
  | cons {state label middle labels final} : step state label middle →
      Run step middle labels final → Run step state (label :: labels) final

namespace Run

variable {step : State → Label → State → Prop} {state middle final : State}
  {labels later : List Label}

theorem append (run : Run step state labels middle) (rest : Run step middle later final) :
    Run step state (labels ++ later) final := by
  induction run with
  | nil => exact rest
  | cons first _ induction => exact .cons first (induction rest)

theorem split {earlier : List Label} (run : Run step state (earlier ++ later) final) :
    ∃ middle, Run step state earlier middle ∧ Run step middle later final := by
  induction earlier generalizing state with
  | nil => exact ⟨state, .nil, run⟩
  | cons label earlier induction =>
      cases run with
      | cons first rest =>
          rcases induction rest with ⟨middle, before, after⟩
          exact ⟨middle, .cons first before, after⟩

theorem mono {other : State → Label → State → Prop}
    (implies : ∀ {state label next}, step state label next → other state label next)
    (run : Run step state labels final) : Run other state labels final := by
  induction run with
  | nil => exact .nil
  | cons first _ induction => exact .cons (implies first) induction

theorem invariant (Holds : State → Prop)
    (kept : ∀ {state label next}, Holds state → step state label next → Holds next)
    (run : Run step state labels final) (begins : Holds state) : Holds final := by
  induction run with
  | nil => exact begins
  | cons first _ induction => exact induction (kept begins first)

theorem replace {other : State → Label → State → Prop} (Holds : State → Prop)
    (replaced : ∀ {state label next}, Holds state → step state label next →
      other state label next ∧ Holds next)
    (run : Run step state labels final) (begins : Holds state) :
    Run other state labels final := by
  induction run with
  | nil => exact .nil
  | cons first _ induction =>
      rcases replaced begins first with ⟨replacement, kept⟩
      exact .cons replacement (induction kept)

/-- When every step is matched by a step of an abstract system, every run is
matched by a run of that system with the same labels. -/
theorem simulate (abstractStep : Ghost → Label → Ghost → Prop)
    (Related : State → Ghost → Prop)
    (matched : ∀ {state ghost label next}, Related state ghost → step state label next →
      ∃ nextGhost, abstractStep ghost label nextGhost ∧ Related next nextGhost)
    (run : Run step state labels final) {ghost : Ghost} (begins : Related state ghost) :
    ∃ finalGhost, Run abstractStep ghost labels finalGhost ∧
      Related final finalGhost := by
  induction run generalizing ghost with
  | nil => exact ⟨ghost, .nil, begins⟩
  | cons first _ induction =>
      rcases matched begins first with ⟨middleGhost, abstractFirst, related⟩
      rcases induction related with ⟨finalGhost, rest, ends⟩
      exact ⟨finalGhost, .cons abstractFirst rest, ends⟩

/-- When only some labels show in an abstract system, and steps with another label do not
concern it, every run is matched by a run of that system with what its labels show. -/
theorem simulate_shown {Shown : Type} (shows : Label → Option Shown)
    (abstractStep : Ghost → Shown → Ghost → Prop) (Related : State → Ghost → Prop)
    (matched : ∀ {state ghost label next}, Related state ghost → step state label next →
      ∃ nextGhost, Related next nextGhost ∧ (shows label = none → nextGhost = ghost) ∧
        ∀ shown, shows label = some shown → abstractStep ghost shown nextGhost)
    (run : Run step state labels final) {ghost : Ghost} (begins : Related state ghost) :
    ∃ finalGhost, Run abstractStep ghost (labels.filterMap shows) finalGhost ∧
      Related final finalGhost := by
  induction run generalizing ghost with
  | nil => exact ⟨ghost, .nil, begins⟩
  | @cons _ label _ _ _ first _ induction =>
      rcases matched begins first with ⟨middleGhost, related, silent, shown⟩
      rcases induction related with ⟨finalGhost, rest, ends⟩
      refine ⟨finalGhost, ?_, ends⟩
      cases isShown : shows label with
      | none =>
          rw [List.filterMap_cons_none isShown, ← silent isShown]
          exact rest
      | some other =>
          rw [List.filterMap_cons_some isShown]
          exact .cons (shown other isShown) rest

/-! ## Computed runs -/

section Execution

variable {Action Result : Type} {act : State → Action → Option (Result × State)}

def Computes (act : State → Action → Option (Result × State)) (state : State)
    (label : Action × Result) (next : State) : Prop :=
  act state label.1 = some (label.2, next)

def computes [DecidableEq Result] (act : State → Action → Option (Result × State)) :
    State → List (Action × Result) → (State → Bool) → Bool
  | state, [], test => test state
  | state, (action, result) :: rest, test =>
      match act state action with
      | some (returned, next) => decide (returned = result) && computes act next rest test
      | none => false

theorem exists_of_computes [DecidableEq Result] {labels : List (Action × Result)}
    {test : State → Bool} (computed : computes act state labels test = true) :
    ∃ final, Run (Computes act) state labels final ∧ test final = true := by
  induction labels generalizing state with
  | nil => exact ⟨state, .nil, computed⟩
  | cons label rest induction =>
      rcases label with ⟨action, result⟩
      rw [computes] at computed
      split at computed
      case h_2 => cases computed
      case h_1 returned next acted =>
        rw [Bool.and_eq_true, decide_eq_true_iff] at computed
        rcases computed with ⟨same, later⟩
        subst same
        rcases induction later with ⟨final, run, passed⟩
        exact ⟨final, .cons acted run, passed⟩

theorem of_foldlM {follow : State → Label → Option State}
    (followed : ∀ {state label next}, follow state label = some next → step state label next)
    (executed : labels.foldlM follow state = some final) : Run step state labels final := by
  induction labels generalizing state with
  | nil =>
      cases executed
      exact .nil
  | cons label labels induction =>
      rw [List.foldlM_cons] at executed
      rcases Option.bind_eq_some_iff.mp executed with ⟨next, first, rest⟩
      exact .cons (followed first) (induction rest)

end Execution

end Run

end Qbus
