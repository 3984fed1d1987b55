import Qbus.Queue.Collectors
import Mathlib.Data.List.TakeWhile

/-! # Which messages are accepted

A message is accepted exactly when it has no more bytes than the free stretches
of the ring have room for behind their headers. -/

namespace Qbus

open ByteMemory Message Circular Placement Storage MachineWord

namespace QueueMemory

def freeStretches (memory : QueueMemory) : List Region :=
  if memory.count = 0 ∨ memory.head < memory.tail then
    [⟨memory.tail, memory.capacity - memory.tail⟩, ⟨0, memory.head⟩]
  else
    [⟨memory.tail, memory.head - memory.tail⟩]

/-- The number of bytes that a message in the free stretches can have, with a header
in each of them. -/
def room (memory : QueueMemory) : Nat :=
  (memory.freeStretches.map fun stretch => stretch.second - headerSize).sum

example : ({ zeros with capacity := 100, count := 1, head := 30, tail := 60 }).room = 22 := rfl

theorem room_wide {memory : QueueMemory} (wide : memory.count = 0 ∨ memory.head < memory.tail) :
    memory.room = memory.capacity - memory.tail - headerSize + (memory.head - headerSize) := by
  simp [room, freeStretches, wide]

theorem room_narrow {memory : QueueMemory} (occupied : memory.count ≠ 0)
    (ordered : memory.tail ≤ memory.head) :
    memory.room = memory.head - memory.tail - headerSize := by
  have narrow : ¬(memory.count = 0 ∨ memory.head < memory.tail) := by omega
  simp [room, freeStretches, narrow]

end QueueMemory

namespace Ring

variable {memory : QueueMemory} {log : List Entry} {base : Nat} {refs : Nat → Nat}

theorem fits_iff_le_room (ring : Ring memory log base refs) {size : Nat} (nonempty : 0 < size) :
    Fits memory.capacity log base size ↔ size ≤ memory.room := by
  have header : headerSize = 24 := rfl
  have headBound := Nat.mod_lt (start memory.capacity log base) ring.positive
  have tailBound := Nat.mod_lt (start memory.capacity log log.length) ring.positive
  have countZero := ring.count_eq_zero_iff
  have ordered := ring.ordered
  have near := ring.near
  rcases exists_turn ring.positive ordered near with ⟨turn, headSplit, tailSplit⟩
  have tillEndEq : tillEnd memory.capacity (start memory.capacity log log.length) =
      memory.capacity - memory.tail := by rw [tillEnd, ring.tailEq]
  rw [← ring.headEq] at headBound headSplit
  rw [← ring.tailEq] at tailBound tailSplit
  unfold Fits
  by_cases wide : memory.count = 0 ∨ memory.head < memory.tail
  · rw [QueueMemory.room_wide wide]
    rcases place_cases memory.capacity (start memory.capacity log log.length) size with
      ⟨_, _, taken⟩ | ⟨_, _, _, taken⟩ | ⟨_, _, _, taken⟩ <;> omega
  · rw [QueueMemory.room_narrow (by omega) (by omega)]
    rcases place_cases memory.capacity (start memory.capacity log log.length) size with
      ⟨_, _, taken⟩ | ⟨_, _, _, taken⟩ | ⟨_, _, _, taken⟩ <;> omega

theorem room_of_empty (ring : Ring memory log base refs) (none : memory.count = 0) :
    memory.capacity ≤ memory.room + 2 * headerSize := by
  have same := ring.count_eq_zero_iff.mp none
  have headEq := ring.headEq
  have tailEq := ring.tailEq
  have tailBound := Nat.mod_lt (start memory.capacity log log.length) ring.positive
  rw [same, ← tailEq] at headEq
  rw [← tailEq] at tailBound
  rw [QueueMemory.room_wide (.inl none)]
  omega

theorem removed_all (ring : Ring memory log base refs)
    (unreferenced : ∀ references ∈ memory.references, references = 0) :
    (memory.removed memory.garbage).count = 0 := by
  have all : memory.garbage = memory.count := by
    rw [QueueMemory.garbage, List.takeWhile_eq_self_iff.mpr (by simpa using unreferenced),
      ring.references_eq, List.length_map, List.length_range]
  rw [all]
  exact Nat.sub_self _

end Ring

namespace Queue

variable {queue : Queue} {log : List Entry} {base : Nat} {refs : Nat → Nat}

/-- No stored message waits for a reader: a simple queue is empty, a shared queue stores
messages without references only. -/
def Drained (queue : Queue) : Prop :=
  match queue.self.type with
  | .simple => queue.memory.count = 0
  | _ => ∀ references ∈ queue.memory.references, references = 0

theorem cleanMessages_ring (kind : queue.self.type = .simple ∨ queue.self.type = .shared)
    (ring : Ring queue.memory log base refs)
    (walkable : queue.self.type = .shared → queue.Walkable) :
    ∃ info memory base', queue.cleanMessages = .ok (info, queue.setMemory memory) ∧
      Ring memory log base' refs ∧ memory.capacity = queue.memory.capacity ∧
      memory.keepaliveTimeout = queue.memory.keepaliveTimeout ∧
      (queue.Drained → memory.count = 0) := by
  rcases kind with simple | shared
  · refine ⟨⟨0, 0⟩, queue.memory, base, ?_, ring, rfl, rfl, ?_⟩
    · rw [cleanMessages, simple]
      rfl
    · intro drained
      rw [Drained, simple] at drained
      exact drained
  · have counted : queue.self.type ≠ .simple := by simp [shared]
    have cleans : queue.cleanMessages = queue.baseCleanMessages := by
      rw [cleanMessages, shared]
    rw [baseCleanMessages_removed counted ring (walkable shared)] at cleans
    refine ⟨_, queue.memory.removed queue.memory.garbage, _, cleans,
      ring.removed ring.garbage_spec.1, rfl, rfl, ?_⟩
    intro drained
    rw [Drained, shared] at drained
    exact ring.removed_all drained

theorem pushMessage_ring (kind : queue.self.type = .simple ∨ queue.self.type = .shared)
    (ring : Ring queue.memory log base refs) {payload : List UInt8} (nonempty : payload ≠ [])
    (now : Nat) :
    ∃ message memory, queue.pushMessage payload now = .ok (message, queue.setMemory memory) ∧
      memory.keepaliveTimeout = queue.memory.keepaliveTimeout ∧
      (message.first ≠ [] ↔ Fits queue.memory.capacity log base payload.length) := by
  have unrestricted : queue.Unrestricted := by
    rcases kind with simple | shared
    · exact .inl (by simp [simple])
    · exact .inl (by simp [shared])
  rcases exists_makes ring unrestricted nonempty now with ⟨made, makes⟩
  rcases desc_first queue.memory.capacity (start queue.memory.capacity log log.length)
    payload.length with ⟨rest, first⟩
  rcases kind with simple | shared
  · have pushes : queue.pushMessage payload now = queue.basePushMessage payload now := by
      rw [pushMessage, simple]
    rw [makes.result] at pushes
    refine ⟨_, _, pushes, by simp, ?_⟩
    by_cases fits : Fits queue.memory.capacity log base payload.length
    · simp [fits, first]
    · simp [fits, MessageDesc.none]
  · have counted : queue.self.type ≠ .simple := by simp [shared]
    by_cases fits : Fits queue.memory.capacity log base payload.length
    · rw [decide_eq_true fits] at makes
      rcases pushMessage_accepted counted ring nonempty makes with ⟨memory, pushes, counts, -⟩
      exact ⟨_, memory, pushes, counts.settings.keepaliveTimeout, by simp [fits, first]⟩
    · rw [decide_eq_false fits] at makes
      exact ⟨_, _, pushMessage_refused counted makes, by simp, by simp [fits, MessageDesc.none]⟩

/-- Exact acceptance: a push into a simple or shared queue without a timeout succeeds if
and only if the message has no more bytes than there is room for after the collection.
A queue of which all messages are popped or without references accepts every message
that leaves two headers free. -/
theorem push_accepts_iff_room (kind : queue.self.type = .simple ∨ queue.self.type = .shared)
    (ring : Ring queue.memory log base refs)
    (walkable : queue.self.type = .shared → queue.Walkable)
    (noTimeout : queue.memory.keepaliveTimeout = 0) {payload : List UInt8}
    (nonempty : payload ≠ []) (tag now : Nat) :
    ∃ info cleaned accepted next, queue.cleanMessages = .ok (info, cleaned) ∧
      queue.push tag payload now = .ok (accepted, next) ∧
      (accepted = true ↔ payload.length ≤ cleaned.memory.room) ∧
      (queue.Drained → payload.length + 2 * headerSize ≤ queue.memory.capacity →
        accepted = true) := by
  have size : 0 < payload.length := List.length_pos_iff.mpr nonempty
  rcases cleanMessages_ring kind ring walkable with
    ⟨info, cleaned, base', cleans, left, capacity, timeout, drained⟩
  rcases @pushMessage_ring (queue.setMemory cleaned) _ _ _ kind left _ nonempty now with
    ⟨message, pushed, pushes, kept, accepts⟩
  rw [setMemory_memory, left.fits_iff_le_room size] at accepts
  have enough : queue.Drained → payload.length + 2 * headerSize ≤ queue.memory.capacity →
      payload.length ≤ cleaned.room := by
    intro isDrained small
    have wide := left.room_of_empty (drained isDrained)
    omega
  cases first : message.first with
  | nil =>
      have refused : ¬payload.length ≤ cleaned.room := by
        rw [← accepts, first]
        exact not_not_intro rfl
      have pushesNone : queue.doPush tag payload now = .ok (false, _) :=
        doPush_refused cleans pushes first
      exact ⟨info, _, false, _, cleans,
        push_refused pushesNone (kept.trans (timeout.trans noTimeout)), by simpa using refused,
        fun isDrained small => absurd (enough isDrained small) refused⟩
  | cons position rest =>
      have fits : payload.length ≤ cleaned.room := by
        rw [← accepts, first]
        exact List.cons_ne_nil _ _
      have pushesOne : queue.doPush tag payload now = .ok (true, _) :=
        doPush_accepted cleans pushes first
      exact ⟨info, _, true, _, cleans, push_accepted pushesOne, by simpa using fits,
        fun _ _ => rfl⟩

/-- A subscriber that has read the only message may push a message of 52 bytes into a
ring of 100 bytes, although the message takes up the first half of it. -/
theorem push_accepts_iff_room_read : ∃ (queue next : Queue),
    queue.memory.count = 1 ∧ queue.memory.head = 0 ∧ queue.memory.tail = 44 ∧
      queue.push 4 (List.replicate 52 8) 12 = .ok (true, next) := by
  have fresh : (World.created 0 (Queue.created .shared 100 1 [])).FreshShared :=
    ⟨.zeros, .shared, 0, 100, 1, [], _, 0, .inl rfl, by decide, by decide, rfl, rfl⟩
  rcases World.exists_run World.Collects
    (show World.runs _ (World.created 0 (Queue.created .shared 100 1 []))
      [(.push 0 3 (List.replicate 20 7) 10, .pushed true),
        (.pop 0, .popped true)]
      (fun world => decide ((world.queue 0).self.type = .shared ∧
        (world.queue 0).Walkable ∧ world.memory.keepaliveTimeout = 0 ∧
        (∀ references ∈ world.memory.references, references = 0) ∧
        world.memory.capacity = 100 ∧
        world.memory.count = 1 ∧ world.memory.head = 0 ∧ world.memory.tail = 44)) = true by
      decide +kernel) with ⟨world, run, observed⟩
  rcases of_decide_eq_true observed with
    ⟨shared, walkable, noTimeout, unreferenced, capacity, one, head, tail⟩
  rcases fresh.exists_ledger run with ⟨ledger, tracked⟩
  have drained : (world.queue 0).Drained := by
    rw [Drained, shared]
    exact unreferenced
  rcases push_accepts_iff_room (.inr shared) tracked.tracks.ring (fun _ => walkable) noTimeout
    (show List.replicate 52 8 ≠ [] by decide) 4 12 with
    ⟨info, cleaned, accepted, next, -, pushes, -, accepts⟩
  have fits : (List.replicate 52 (8 : UInt8)).length + 2 * headerSize ≤
      (world.queue 0).memory.capacity := Nat.le_of_eq capacity.symm
  rw [accepts drained fits] at pushes
  exact ⟨world.queue 0, next, one, head, tail, pushes⟩

end Queue

end Qbus
