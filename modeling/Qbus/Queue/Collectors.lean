import Qbus.Queue.Collection
import Qbus.Queue.Leaving

/-! # Objects that collect

Any subscriber collects the garbage. A write-only object does so, too, but it
counts only the messages that it has removed itself. -/

namespace Qbus

open ByteMemory Message Circular Placement Storage MachineWord

/-- The sound steps without a timeout: subscribers read where they stand, and no
write-only object that collects mistakes the queue for an empty one. -/
def World.Collects (world : World) (action : Action) : Prop :=
  world.Sound action ∧ action.timeout 0 = 0

instance (world : World) : DecidablePred world.Collects :=
  fun _ => inferInstanceAs (Decidable (_ ∧ _))

theorem World.FreshShared.exists_ledger {first world : World} {labels : List (Action × Result)}
    (fresh : first.FreshShared)
    (run : Run (fun world label next => world.Collects label.1 ∧ world.Step label next)
      first labels world) :
    ∃ ledger, SharedWorld world ledger := by
  rcases SharedWorld.run (fun _ _ => True) (fun _ _ collects _ => collects.1)
    (fun _ _ _ _ _ => trivial) run fresh.initial.shared trivial with ⟨ledger, shared, -, -⟩
  exact ⟨ledger, shared⟩

namespace Queue

variable {queue next : Queue} {log : List Entry} {base : Nat} {refs : Nat → Nat}

theorem walkable_of_count_le (ring : Ring queue.memory log base refs)
    (behind : queue.count ≤ queue.memory.count) : queue.Walkable := by
  have small := ring.count_lt
  have countEq := ring.countEq
  exact .inr (by omega)

/-- Collection through a subscriber: for any reference counters and any cursor of the
object, exactly the longest prefix of messages without references is removed, and
nothing else is changed. Collecting again removes nothing. -/
theorem shared_queue_collects (shared : queue.self.type = .shared)
    (ring : Ring queue.memory log base refs) (behind : queue.count ≤ queue.memory.count) :
    ∃ next,
      queue.cleanMessages =
        .ok (⟨queue.memory.garbage, queue.memory.totalSize queue.memory.garbage⟩, next) ∧
      next.self = queue.self ∧
      next.memory = queue.memory.removed queue.memory.garbage ∧
      next.memory.stored = queue.memory.stored.drop queue.memory.garbage ∧
      next.cleanMessages = .ok (⟨0, 0⟩, next) := by
  have counted : queue.self.type ≠ .simple := by simp [shared]
  have cleans : ∀ other : Queue, other.self = queue.self →
      other.cleanMessages = other.baseCleanMessages := by
    intro other same
    rw [cleanMessages, same, shared]
  have inside := ring.garbage_spec.1
  have left := ring.removed inside
  refine ⟨queue.setMemory (queue.memory.removed queue.memory.garbage), ?_, rfl, rfl, ?_, ?_⟩
  · rw [cleans queue rfl]
    exact baseCleanMessages_removed counted ring (walkable_of_count_le ring behind)
  · apply List.ext_getElem?
    intro offset
    rw [setMemory_memory, left.stored_getElem?, List.getElem?_drop, ring.stored_getElem?,
      Nat.add_assoc]
    rfl
  · have walkable : (queue.setMemory (queue.memory.removed queue.memory.garbage)).Walkable := by
      rcases walkable_of_count_le ring behind with none | different
      · have countEq := ring.countEq
        have leftEq := left.countEq
        left
        rw [setMemory_memory]
        omega
      · have stillCounted : (queue.setMemory (queue.memory.removed
            queue.memory.garbage)).self.type ≠ .simple := counted
        rw [count_of_counted counted] at different
        right
        rw [count_of_counted stillCounted]
        exact different
    have again := @baseCleanMessages_removed
      (queue.setMemory (queue.memory.removed queue.memory.garbage)) _ _ _ counted left walkable
    simp only [setMemory_memory, ring.garbage_removed, QueueMemory.removed_zero] at again
    rw [cleans (queue.setMemory (queue.memory.removed queue.memory.garbage)) rfl, again]
    rfl

/-- The first of two messages is collected through the object that has read it. -/
theorem shared_queue_collects_first : ∃ queue next : Queue,
    queue.memory.stored.length = 2 ∧ queue.self.head ≠ sharedHead ∧
      queue.cleanMessages = .ok (⟨1, 26⟩, next) ∧
      next.memory.stored = queue.memory.stored.drop 1 ∧
      next.cleanMessages = .ok (⟨0, 0⟩, next) := by
  have fresh : (World.created 0 (Queue.created .shared 100 1 [])).FreshShared :=
    ⟨.zeros, .shared, 0, 100, 1, [], _, 0, .inl rfl, by decide, by decide, rfl, rfl⟩
  rcases World.exists_run World.Collects
    (show World.runs _ (World.created 0 (Queue.created .shared 100 1 []))
      [(.push 0 3 [1, 2] 10, .pushed true),
        (.push 0 4 [5] 11, .pushed true),
        (.pop 0, .popped true)]
      (fun world => decide ((world.queue 0).self.type = .shared ∧
        (world.queue 0).count ≤ world.memory.count ∧ world.memory.stored.length = 2 ∧
        (world.queue 0).self.head ≠ sharedHead ∧ world.memory.garbage = 1 ∧
        world.memory.totalSize 1 = 26)) = true by
      decide +kernel) with ⟨world, run, observed⟩
  rcases of_decide_eq_true observed with ⟨shared, behind, two, own, one, size⟩
  rcases fresh.exists_ledger run with ⟨ledger, tracked⟩
  rcases shared_queue_collects shared tracked.tracks.ring behind with
    ⟨next, collects, -, -, left, again⟩
  rw [show (world.queue 0).memory.garbage = 1 from one,
    show (world.queue 0).memory.totalSize 1 = 26 from size] at collects
  rw [show (world.queue 0).memory.garbage = 1 from one] at left
  exact ⟨world.queue 0, next, two, own, collects, left, again⟩

/-! ## Write-only objects -/

theorem cleanLoop_count {cnt : Nat} {info after : GarbageInfo}
    (loops : cleanLoop cnt queue info = .ok (after, next)) (all : queue.memory.count = cnt)
    (bounded : cnt < 2 ^ 32) :
    next.memory.count + after.first = queue.memory.count + info.first ∧
      next.memory.counter = queue.memory.counter := by
  induction cnt generalizing queue info with
  | zero =>
      cases loops
      exact ⟨rfl, rfl⟩
  | succ cnt induction =>
      rw [cleanLoop] at loops
      cases reads : queue.baseGetMessage with
      | error fault => simp [reads, Bind.bind, Except.bind] at loops
      | ok desc =>
          simp only [reads, Bind.bind, Except.bind] at loops
          split at loops
          · cases loops
            exact ⟨rfl, rfl⟩
          · split at loops
            · cases loops
              exact ⟨rfl, rfl⟩
            · have counted : cnt % 2 ^ 32 = cnt := Nat.mod_eq_of_lt (by omega)
              rcases induction loops counted (by omega) with ⟨same, counter⟩
              have kept : (queue.setMemory ((queue.memory.setHead desc.second).setCount
                  cnt)).memory.count = cnt := counted
              refine ⟨?_, counter⟩
              rw [kept] at same
              simp only at same
              omega

theorem baseCleanMessages_count {info : GarbageInfo}
    (cleans : queue.baseCleanMessages = .ok (info, next)) (bounded : queue.memory.count < 2 ^ 32) :
    next.memory.count + info.first = queue.memory.count ∧
      next.memory.counter = queue.memory.counter ∧ next.self = queue.self := by
  rw [baseCleanMessages] at cleans
  by_cases some : queue.memory.count > 0
  · rw [if_pos some] at cleans
    cases loops : cleanLoop queue.memory.count { queue with self := { queue.self with
        head := sharedHead
        counter := sub32 queue.self.counter 1 } } ⟨0, 0⟩ with
    | error fault => simp [loops, Bind.bind, Except.bind] at cleans
    | ok result =>
        rcases result with ⟨found, walked⟩
        simp only [loops, Bind.bind, Except.bind, pure, Except.pure] at cleans
        cases cleans
        rcases cleanLoop_count loops rfl bounded with ⟨same, counter⟩
        exact ⟨same, counter, rfl⟩
  · rw [if_neg some] at cleans
    cases cleans
    exact ⟨rfl, rfl, rfl⟩

/-- What is asked of a collection through a write-only object: it removes exactly the
garbage, and the object counts the messages that are left. -/
structure CollectsOwn (queue next : Queue) (info : GarbageInfo) : Prop where
  result : queue.cleanMessages = .ok (info, next)
  removed : info.first = queue.memory.garbage
  memory : next.memory = queue.memory.removed queue.memory.garbage
  counted : next.count = next.memory.count

theorem unreadable_cleanMessages (unreadable : queue.self.type = .unreadable)
    (ring : Ring queue.memory log base refs) (walkable : queue.Walkable) :
    queue.cleanMessages =
      .ok (⟨queue.memory.garbage, queue.memory.totalSize queue.memory.garbage⟩,
        ⟨queue.memory.removed queue.memory.garbage, queue.collector queue.memory.garbage⟩) := by
  have counted : queue.self.type ≠ .simple := by simp [unreadable]
  rw [cleanMessages, collector, unreadable]
  simp only [baseCleanMessages_removed counted ring walkable, Bind.bind, Except.bind, pure,
    Except.pure]
  rfl

theorem collectsOwn_iff (unreadable : queue.self.type = .unreadable)
    (ring : Ring queue.memory log base refs) :
    (∃ info next, CollectsOwn queue next info) ↔ queue.count = queue.memory.count := by
  have counted : queue.self.type ≠ .simple := by simp [unreadable]
  have small := ring.count_lt
  have countEq := ring.countEq
  constructor
  · rintro ⟨info, next, result, -, -, own⟩
    rw [cleanMessages, unreadable] at result
    cases cleans : queue.baseCleanMessages with
    | error fault => simp [cleans, Bind.bind, Except.bind] at result
    | ok found =>
        rcases found with ⟨found, walked⟩
        simp only [cleans, Bind.bind, Except.bind, pure, Except.pure] at result
        cases result
        rcases baseCleanMessages_count cleans (by omega) with ⟨left, counter, self⟩
        rw [count_of_counted (by simp [self, unreadable])] at own
        simp only [self] at own
        rw [counter] at own
        rw [count_of_counted counted]
        simp only [sub32, sub] at own ⊢
        omega
  · intro same
    refine ⟨_, _, unreadable_cleanMessages unreadable ring
      (walkable_of_count_le ring (Nat.le_of_eq same)), rfl, rfl, ?_⟩
    have inside := ring.garbage_spec.1
    have leftCount := (ring.removed inside).countEq
    rw [count_of_counted counted] at same
    rw [count_of_counted (by simp [unreadable]), collector_counter _ unreadable]
    simp only [leftCount]
    change sub32 queue.memory.counter _ = _
    simp only [sub32, sub] at same ⊢
    omega

end Queue

/-- Write-only objects: in every run without a timeout in which no write-only object
that collects mistakes the queue for an empty one, `clean()` through a write-only
object removes exactly the garbage and leaves it with the number of stored messages
if and only if the object has counted the stored messages before. -/
theorem unreadable_queue_collects {first world : World} {labels : List (Action × Result)}
    (fresh : first.FreshShared)
    (run : Run (fun world label next => world.Collects label.1 ∧ world.Step label next)
      first labels world)
    {id : Nat} (unreadable : (world.handle id).type = .unreadable) :
    ((∃ info next, Queue.CollectsOwn (world.queue id) next info) ↔
      (world.queue id).count = world.memory.count) ∧
    ((world.queue id).Walkable → ∃ next, (world.queue id).cleanMessages =
        .ok (⟨world.memory.garbage, world.memory.totalSize world.memory.garbage⟩, next) ∧
      next.memory = world.memory.removed world.memory.garbage) := by
  rcases fresh.exists_ledger run with ⟨ledger, shared⟩
  have ring : Ring (world.queue id).memory _ _ _ := shared.tracks.ring
  exact ⟨Queue.collectsOwn_iff unreadable ring,
    fun walkable => ⟨_, Queue.unreadable_cleanMessages unreadable ring walkable, rfl⟩⟩

/-- A write-only object that has been there from the beginning removes the first of
two messages. -/
theorem unreadable_queue_collects_first : ∃ (world : World) (info : GarbageInfo) (next : Queue),
    world.memory.count = 2 ∧ Queue.CollectsOwn (world.queue 1) next info := by
  have fresh : (World.created 0 (Queue.created .shared 100 1 [])).FreshShared :=
    ⟨.zeros, .shared, 0, 100, 1, [], _, 0, .inl rfl, by decide, by decide, rfl, rfl⟩
  rcases World.exists_run World.Collects
    (show World.runs _ (World.created 0 (Queue.created .shared 100 1 []))
      [(.attach 1 .unreadable 2 [], .done),
        (.push 1 3 [1, 2] 10, .pushed true),
        (.push 1 4 [5] 11, .pushed true),
        (.pop 0, .popped true)]
      (fun world => decide ((world.handle 1).type = .unreadable ∧
        (world.queue 1).count = world.memory.count ∧ world.memory.count = 2)) = true by
      decide +kernel) with ⟨world, run, observed⟩
  rcases of_decide_eq_true observed with ⟨unreadable, counted, two⟩
  rcases (unreadable_queue_collects fresh run unreadable).1.mpr counted with ⟨info, next, collects⟩
  exact ⟨world, info, next, two, collects⟩

/-- A write-only object is attached when two messages are stored. It removes the first
one and counts `2 ^ 32 - 1` messages then, although one is left. -/
theorem unreadable_queue_collects_before : ∃ (first world : World),
    first.FreshShared ∧
    Run World.Step first
      [(.push 0 3 [1, 2] 10, .pushed true),
        (.push 0 4 [5] 11, .pushed true),
        (.attach 1 .unreadable 2 [], .done),
        (.pop 0, .popped true),
        (.clean 1, .cleaned 1)] world ∧
    world.memory.count = 1 ∧ (world.queue 1).count = 2 ^ 32 - 1 := by
  have fresh : (World.created 0 (Queue.created .shared 100 1 [])).FreshShared :=
    ⟨.zeros, .shared, 0, 100, 1, [], _, 0, .inl rfl, by decide, by decide, rfl, rfl⟩
  rcases World.exists_run (fun _ _ => True)
    (show World.runs _ (World.created 0 (Queue.created .shared 100 1 []))
      [(.push 0 3 [1, 2] 10, .pushed true),
        (.push 0 4 [5] 11, .pushed true),
        (.attach 1 .unreadable 2 [], .done),
        (.pop 0, .popped true),
        (.clean 1, .cleaned 1)]
      (fun world => decide (world.memory.count = 1 ∧ (world.queue 1).count = 2 ^ 32 - 1)) =
        true by decide +kernel) with ⟨world, run, observed⟩
  exact ⟨_, world, fresh, run.mono (fun step => step.2), of_decide_eq_true observed⟩

end Qbus
