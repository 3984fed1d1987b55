import Qbus.Foundation.Run
import Qbus.Queue.World

/-! # Executing runs

Runs of queue objects on one memory are computed from the calls. -/

namespace Qbus

def QueueMemory.zeros : QueueMemory where
  id := 0
  capacity := 0
  keepaliveTimeout := 0
  count := 0
  head := 0
  tail := 0
  subscriptionsCount := 0
  counter := 0
  freeSpace := 0
  data := fun _ => 0

def Queue.created (type : QueueType) (capacity sid : Nat) (clock : List Nat) : Queue :=
  match create .zeros type 0 capacity sid clock with
  | .ok queue => queue
  | .error _ => ⟨.zeros, newHandle type sid 0⟩

theorem Queue.create_eq_created {type : QueueType} {capacity sid : Nat} {clock : List Nat}
    (returns : (create .zeros type 0 capacity sid clock).isOk = true) :
    create .zeros type 0 capacity sid clock = .ok (created type capacity sid clock) := by
  rw [created]
  cases isCreated : create .zeros type 0 capacity sid clock with
  | ok queue => rfl
  | error fault =>
      rw [isCreated] at returns
      cases returns

namespace World

def execute (Allowed : World → Action → Prop) [∀ world, DecidablePred (Allowed world)] :
    World → List Action → Option (List (Action × Result) × World)
  | world, [] => some ([], world)
  | world, action :: rest =>
      if Allowed world action ∧ world.Enabled action then
        match world.perform action with
        | .ok (result, next) =>
            match execute Allowed next rest with
            | some (labels, final) => some ((action, result) :: labels, final)
            | none => none
        | .error _ => none
      else none

theorem run_of_execute {Allowed : World → Action → Prop}
    [∀ world, DecidablePred (Allowed world)] {world final : World} {actions : List Action}
    {labels : List (Action × Result)}
    (executed : world.execute Allowed actions = some (labels, final)) :
    Run (fun world label next => Allowed world label.1 ∧ world.Step label next)
      world labels final := by
  induction actions generalizing world labels with
  | nil =>
      cases executed
      exact .nil
  | cons action rest induction =>
      rw [execute] at executed
      split at executed
      case isFalse => cases executed
      case isTrue allowed =>
        cases performed : world.perform action with
        | error fault =>
            rw [performed] at executed
            cases executed
        | ok returned =>
            rcases returned with ⟨result, next⟩
            simp only [performed] at executed
            split at executed
            case h_2 => cases executed
            case h_1 later labels last ran =>
              cases executed
              exact .cons ⟨allowed.1, allowed.2, performed⟩ (induction ran)

def runs (Allowed : World → Action → Prop) [∀ world, DecidablePred (Allowed world)]
    (world : World) (labels : List (Action × Result)) (test : World → Bool) : Bool :=
  match world.execute Allowed (labels.map Prod.fst) with
  | some (ran, final) => decide (ran = labels) && test final
  | none => false

theorem exists_run (Allowed : World → Action → Prop)
    [∀ world, DecidablePred (Allowed world)] {world : World}
    {labels : List (Action × Result)} {test : World → Bool}
    (executed : world.runs Allowed labels test = true) :
    ∃ final, Run (fun world label next => Allowed world label.1 ∧ world.Step label next)
      world labels final ∧ test final = true := by
  rw [runs] at executed
  split at executed
  case h_1 ran final isRun =>
    rw [Bool.and_eq_true, decide_eq_true_iff] at executed
    rcases executed with ⟨rfl, passed⟩
    exact ⟨final, run_of_execute isRun, passed⟩
  case h_2 => cases executed

end World

end Qbus
