import Qbus.Queue.SmartCalls

/-! # The reserve of a smart queue

User messages of a smart queue leave space for two service messages of every subscriber.
The limit is computed from the free space of the moment, and it is compared with two
regions at a time: it is no limit when the reserve is not free, nor for a third region. -/

namespace Qbus

/-- A user message that sees two regions at most leaves the reserve free exactly when the
reserve has been free at the attempt that stored the message. -/
theorem smart_queue_push_spares_reserve {first world next : World}
    {labels : List (Action × Result)} (fresh : first.FreshSmart)
    (run : Run (fun world label next => world.SmartSound label.1 ∧ world.Step label next)
      first labels world)
    {id : Nat} {tag : UInt32} {data : List UInt8} {now : Nat}
    (sound : world.SmartSound (.push id tag data now))
    (step : world.Step (.push id tag data now, .pushed true) next) :
    2 * Message.staticSize 1 * next.memory.subscriptionsCount ≤ next.memory.freeSpace ↔
      (world.queue id).attempts (Queue.spares data now) tag.toNat data now = true := by
  rcases fresh.run run with ⟨ledger, smart⟩
  rcases smart.push sound.1 sound.2 step.1 with
    ⟨accepted, pushed, after, -, returns, -, -, spares⟩
  cases Except.ok.inj (returns.symm.trans step.2)
  exact ⟨fun kept => (spares trivial).mpr fun _ => kept,
    fun tested => (spares trivial).mp tested rfl⟩

/-- The first user message in an empty queue of 300 bytes. -/
theorem smart_queue_push_spares_reserve_first : ∃ next : World,
    (World.created 0 (Queue.created .smart 300 1 [5])).Step
      (.push 0 4 (List.replicate 150 7) 9, .pushed true) next ∧
    2 * Message.staticSize 1 * next.memory.subscriptionsCount ≤ next.memory.freeSpace := by
  have fresh := World.freshSmart_created (by decide) (by decide) (by decide)
    (show (Queue.create .zeros .smart 0 300 1 [5]).isOk = true by decide +kernel)
  rcases World.exists_run (fun _ _ => True)
    (show World.runs _ (World.created 0 (Queue.created .smart 300 1 [5]))
      [(.push 0 4 (List.replicate 150 7) 9, .pushed true)] (fun _ => true) = true by
        decide +kernel) with ⟨next, run, -⟩
  cases run with
  | cons step rest =>
      cases rest
      refine ⟨next, step.2, (smart_queue_push_spares_reserve fresh .nil ?_ step.2).mpr ?_⟩
      · decide +kernel
      · decide +kernel

/-- A message takes a third region, and 18 bytes are left of a reserve of 50 bytes, all of
which had been free: the queue was empty. -/
theorem smart_queue_push_takes_reserve : ∃ world next : World,
    Run World.Step (World.created 0 (Queue.created .smart 300 1 [5]))
      [(.push 0 4 (List.replicate 150 7) 9, .pushed true), (.get 0, .message none),
        (.clean 0, .cleaned 1)] world ∧
    world.memory.freeSpace = world.memory.capacity ∧
    world.Step (.push 0 4 (List.replicate 210 8) 9, .pushed true) next ∧
    ¬2 * Message.staticSize 1 * next.memory.subscriptionsCount ≤ next.memory.freeSpace := by
  rcases World.exists_run (fun _ _ => True)
    (show World.runs _ (World.created 0 (Queue.created .smart 300 1 [5]))
      [(.push 0 4 (List.replicate 150 7) 9, .pushed true), (.get 0, .message none),
        (.clean 0, .cleaned 1)]
      (fun world => decide (world.memory.freeSpace = world.memory.capacity) &&
        world.runs (fun _ _ => True) [(.push 0 4 (List.replicate 210 8) 9, .pushed true)]
          (fun next => decide (¬2 * Message.staticSize 1 * next.memory.subscriptionsCount ≤
            next.memory.freeSpace))) = true by decide +kernel) with ⟨world, run, observed⟩
  rw [Bool.and_eq_true, decide_eq_true_iff] at observed
  rcases World.exists_run _ observed.2 with ⟨next, last, missing⟩
  cases last with
  | cons step rest =>
      cases rest
      exact ⟨world, next, run.mono fun step => step.2, observed.1, step.2,
        of_decide_eq_true missing⟩

end Qbus
