import Qbus.Queue.Limited
import Qbus.Queue.Subscribers

/-! # The free space of a smart queue

The stored messages and the free space of a smart queue make up its capacity. A user
message that sees two regions at most leaves the reserved space free. -/

namespace Qbus

open ByteMemory Message Circular Placement Storage MachineWord

namespace Storage

variable {capacity : Nat} {log : List Entry} {index : Nat}

def taken (capacity : Nat) (log : List Entry) : Nat → Nat
  | 0 => 0
  | index + 1 =>
      taken capacity log index + match log[index]? with
        | some entry => footprint capacity (start capacity log index) entry.size
        | none => 0

theorem taken_succ (capacity : Nat) {entry : Entry} (found : log[index]? = some entry) :
    taken capacity log (index + 1) = taken capacity log index +
      footprint capacity (start capacity log index) entry.size := by
  rw [taken, found]

theorem taken_append {more : List Entry} (inside : index ≤ log.length) :
    taken capacity (log ++ more) index = taken capacity log index := by
  induction index with
  | zero => rfl
  | succ index induction =>
      rw [taken, taken, induction (by omega), List.getElem?_append_left (by omega),
        start_append (by omega)]

theorem taken_le_succ (capacity : Nat) (log : List Entry) (index : Nat) :
    taken capacity log index ≤ taken capacity log (index + 1) := by
  rw [taken]
  omega

theorem taken_mono (capacity : Nat) (log : List Entry) {earlier later : Nat}
    (ordered : earlier ≤ later) : taken capacity log earlier ≤ taken capacity log later := by
  induction ordered with
  | refl => exact Nat.le_refl _
  | step _ induction => exact Nat.le_trans induction (taken_le_succ capacity log _)

theorem taken_le_start (capacity : Nat) (log : List Entry) {earlier later : Nat}
    (ordered : earlier ≤ later) :
    taken capacity log later + start capacity log earlier ≤
      taken capacity log earlier + start capacity log later := by
  induction ordered with
  | refl => exact Nat.le_refl _
  | @step later ordered induction =>
      rw [Nat.succ_eq_add_one, taken, start]
      cases found : log[later]? with
      | none =>
          simp only
          omega
      | some entry =>
          have fewer := footprint_le_extent capacity (start capacity log later) entry.size
          simp only
          omega

end Storage

theorem Ring.totalSize_eq {memory : QueueMemory} {log : List Entry} {base count : Nat}
    {refs : Nat → Nat} (ring : Ring memory log base refs) (inside : base + count ≤ log.length) :
    memory.totalSize count + taken memory.capacity log base =
      taken memory.capacity log (base + count) := by
  induction count generalizing memory base with
  | zero => exact Nat.zero_add _
  | succ count induction =>
      have found := List.getElem?_eq_getElem (show base < log.length by omega)
      have dropped := induction (ring.drop found rfl) (by omega)
      have first : Message.totalSize memory.data
          (desc memory.capacity (start memory.capacity log base) (log[base]).size).first =
            footprint memory.capacity (start memory.capacity log base) (log[base]).size :=
        (ring.holds base _ (Nat.le_refl _) found).totalSize_eq
      change _ + taken memory.capacity log (base + 1) =
        taken memory.capacity log (base + 1 + count) at dropped
      rw [taken_succ memory.capacity found] at dropped
      rw [ring.totalSize_succ found rfl, first, show base + (count + 1) = base + 1 + count by omega]
      omega

/-- The free space and the messages from `base` on make up the capacity. -/
def Accounted (memory : QueueMemory) (log : List Entry) (base : Nat) : Prop :=
  memory.freeSpace + taken memory.capacity log log.length =
    memory.capacity + taken memory.capacity log base

namespace Accounted

variable {memory next : QueueMemory} {log : List Entry} {base : Nat} {refs : Nat → Nat}

theorem iff_totalSize (ring : Ring memory log base refs) :
    Accounted memory log base ↔
      memory.freeSpace + memory.totalSize memory.count = memory.capacity := by
  have countEq := ring.countEq
  have baseLe := ring.baseLe
  have sizes := ring.totalSize_eq (show base + memory.count ≤ log.length by omega)
  rw [show base + memory.count = log.length by omega] at sizes
  unfold Accounted
  omega

theorem congr (accounted : Accounted memory log base) (space : next.freeSpace = memory.freeSpace)
    (capacity : next.capacity = memory.capacity) : Accounted next log base := by
  unfold Accounted at *
  rw [space, capacity]
  exact accounted

theorem space_lt (accounted : Accounted memory log base) (ring : Ring memory log base refs) :
    memory.freeSpace < 2 ^ 32 := by
  have bounded := ring.bounded
  have ordered := taken_mono memory.capacity log ring.baseLe
  unfold Accounted at accounted
  omega

theorem free_le (accounted : Accounted memory log base) (ring : Ring memory log base refs) :
    Ring.free memory log base ≤ memory.freeSpace := by
  have places := taken_le_start memory.capacity log ring.baseLe
  have near := ring.near
  unfold Accounted at accounted
  unfold Ring.free
  omega

theorem collect (accounted : Accounted memory log base) (ring : Ring memory log base refs)
    {count : Nat} (inside : base + count ≤ log.length)
    (space : next.freeSpace = (memory.freeSpace + memory.totalSize count) % 2 ^ 32)
    (capacity : next.capacity = memory.capacity) : Accounted next log (base + count) := by
  have bounded := ring.bounded
  have sizes := ring.totalSize_eq inside
  have ordered := taken_mono memory.capacity log inside
  unfold Accounted at *
  rw [capacity, space, Nat.mod_eq_of_lt (by omega)]
  omega

theorem publish (accounted : Accounted memory log base) (ring : Ring memory log base refs)
    (entry : Entry) (fits : Fits memory.capacity log base entry.size)
    (space : next.freeSpace = sub32 memory.freeSpace
      (footprint memory.capacity (start memory.capacity log log.length) entry.size))
    (capacity : next.capacity = memory.capacity) :
    footprint memory.capacity (start memory.capacity log log.length) entry.size ≤
        memory.freeSpace ∧ Accounted next (log ++ [entry]) base := by
  have bound := accounted.space_lt ring
  have room := accounted.free_le ring
  have fewer := footprint_le_extent memory.capacity (start memory.capacity log log.length)
    entry.size
  have enough : footprint memory.capacity (start memory.capacity log log.length) entry.size ≤
      memory.freeSpace := by
    unfold Ring.free at room
    unfold Fits at fits
    omega
  refine ⟨enough, ?_⟩
  have last : (log ++ [entry])[log.length]? = some entry := by simp
  unfold Accounted at *
  rw [capacity, space, sub32_of_le enough bound, List.length_append, List.length_singleton,
    taken_succ memory.capacity last, taken_append (Nat.le_refl _), taken_append ring.baseLe,
    start_append (Nat.le_refl _)]
  omega

end Accounted

end Qbus
