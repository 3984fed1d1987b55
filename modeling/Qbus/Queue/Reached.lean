import Qbus.Queue.Broadcast
import Qbus.Queue.SmartCalls

/-! # Reached worlds

The worlds that sound calls on a new queue lead to, for the queues of every class. -/

namespace Qbus

namespace World

/-- A world in which an object has just constructed a new simple queue. -/
def FreshSimple (world : World) : Prop :=
  ∃ raw qid capacity sid clock queue owner, 1 ≤ capacity ∧ capacity < 2 ^ 32 ∧
    Queue.create raw .simple qid capacity sid clock = .ok queue ∧ world = .created owner queue

/-- The steps of simple queues in which a pop takes nothing but the oldest message. -/
def SimpleSound (world : World) : Action → Prop
  | .attach _ type _ _ => type = .simple
  | .pop id => world.CachesOldest (.pop id)
  | _ => True

instance (world : World) : DecidablePred world.SimpleSound
  | .attach _ type _ _ => inferInstanceAs (Decidable (type = .simple))
  | .pop id => inferInstanceAs (Decidable (world.CachesOldest (.pop id)))
  | .push _ _ _ _ => inferInstanceAs (Decidable True)
  | .get _ => inferInstanceAs (Decidable True)
  | .clean _ => inferInstanceAs (Decidable True)
  | .destroy _ _ => inferInstanceAs (Decidable True)
  | .keepaliveTimeout _ => inferInstanceAs (Decidable True)

inductive Reached : (World → Action → Prop) → World → Prop
  | simple {first world : World} {labels : List (Action × Result)} (fresh : first.FreshSimple)
      (run : Run (fun world label next => world.SimpleSound label.1 ∧ world.Step label next)
        first labels world) : Reached SimpleSound world
  | shared {first world : World} {labels : List (Action × Result)} (fresh : first.FreshShared)
      (run : Run (fun world label next => world.Sound label.1 ∧ world.Step label next)
        first labels world) : Reached Sound world
  | smart {first world : World} {labels : List (Action × Result)} (fresh : first.FreshSmart)
      (run : Run (fun world label next => world.SmartSound label.1 ∧ world.Step label next)
        first labels world) : Reached SmartSound world

theorem FreshSimple.holds {world : World} (fresh : world.FreshSimple) :
    SimpleHolds world [] 0 := by
  rcases fresh with ⟨raw, qid, capacity, sid, clock, queue, owner, positive, bounded, created, rfl⟩
  have stores := simple_created created positive bounded owner owner
  exact ⟨stores.ring, stores.types⟩

end World

namespace SimpleHolds

variable {world next : World} {log : List Entry} {base : Nat} {label : Action × Result}

theorem step (holds : SimpleHolds world log base) (sound : world.SimpleSound label.1)
    (step : world.Step label next) : ∃ log base, SimpleHolds next log base := by
  rcases label with ⟨action, result⟩
  have hasData := step.hasData
  rcases step with ⟨enabled, performed⟩
  have other : action.OnSimple → world.CachesOldest action →
      ∃ log base, SimpleHolds next log base := by
    intro allowed current
    rcases holds.perform allowed current enabled with ⟨_, _, log', base', returned, kept, -⟩
    cases performed.symm.trans returned
    exact ⟨log', base', kept⟩
  cases action with
  | attach id type sid clock => exact other sound trivial
  | push id tag data now => exact other hasData trivial
  | get id => exact other trivial trivial
  | pop id => exact other trivial sound
  | clean id =>
      have simple : (world.queue id).self.type = .simple := holds.types id enabled
      have cleans : (world.queue id).clean = .ok (0, world.queue id) := by
        rw [Queue.clean, Queue.cleanMessages, simple]
        rfl
      simp only [World.perform, cleans, Bind.bind, Except.bind, pure, Except.pure] at performed
      cases performed
      exact ⟨log, base, holds.update simple holds.ring⟩
  | destroy id clock =>
      have simple : (world.queue id).self.type = .simple := holds.types id enabled
      have leaves : (world.queue id).destroy clock = .ok world.memory := by
        rw [Queue.destroy, simple]
        rfl
      simp only [World.perform, leaves, Bind.bind, Except.bind, pure, Except.pure] at performed
      cases performed
      exact ⟨log, base, holds.ring, fun other live =>
        holds.types other (Finset.mem_of_mem_erase live)⟩
  | keepaliveTimeout value => exact other trivial trivial

end SimpleHolds

namespace World

variable {world : World}

theorem FreshSimple.run {first : World} (fresh : first.FreshSimple)
    {labels : List (Action × Result)}
    (run : Run (fun world label next => world.SimpleSound label.1 ∧ world.Step label next)
      first labels world) : ∃ log base, SimpleHolds world log base := by
  apply run.invariant (fun world => ∃ log base, SimpleHolds world log base) _
    ⟨[], 0, fresh.holds⟩
  rintro world label next ⟨log, base, holds⟩ ⟨sound, step⟩
  exact holds.step sound step

theorem FreshShared.run {first : World} (fresh : first.FreshShared)
    {labels : List (Action × Result)}
    (run : Run (fun world label next => world.Sound label.1 ∧ world.Step label next)
      first labels world) : ∃ ledger, SharedWorld world ledger := by
  rcases SharedWorld.run (fun _ _ => True) (fun _ _ sound _ => sound) (fun _ _ _ _ _ => trivial)
    run fresh.initial.shared trivial with ⟨ledger, shared, -⟩
  exact ⟨ledger, shared⟩

theorem perform_push {next : World} {id : Nat} {tag : UInt32} {data : List UInt8} {now : Nat}
    {accepted : Bool}
    (performed : world.perform (.push id tag data now) = .ok (.pushed accepted, next)) :
    ∃ queue, (world.queue id).push tag.toNat data now = .ok (accepted, queue) ∧
      next = world.update id queue := by
  rw [World.perform] at performed
  cases pushes : (world.queue id).push tag.toNat data now with
  | error fault =>
      rw [pushes] at performed
      cases performed
  | ok pushed =>
      rcases pushed with ⟨taken, queue⟩
      simp only [pushes, Bind.bind, Except.bind, pure, Except.pure] at performed
      cases performed
      exact ⟨queue, rfl, rfl⟩

end World

end Qbus
