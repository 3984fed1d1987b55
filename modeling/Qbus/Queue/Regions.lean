import Qbus.Queue.Placement
import Qbus.Queue.Queue

/-! # Free and busy regions

The stored messages occupy a window of the ring, one behind the other, and the
rest of the ring is free. The free and busy regions of the code are the
contiguous stretches of the two windows. -/

namespace Qbus

open Message Circular Placement MachineWord

namespace QueueMemory

variable {memory : QueueMemory} {first last position size : Nat}

private theorem region_end {capacity offset length : Nat} (bounded : capacity < 2 ^ 32)
    (inside : offset + length ≤ capacity) :
    (offset + length) % 2 ^ 64 % capacity = (offset + length) % capacity := by
  rw [Nat.mod_eq_of_lt (show offset + length < 2 ^ 64 by omega)]

theorem getFreeRegion_none_wide (bounded : memory.capacity < 2 ^ 32)
    (inside : memory.tail ≤ memory.capacity)
    (wide : memory.count = 0 ∨ memory.head < memory.tail) :
    memory.getFreeRegion none = ⟨memory.tail, memory.capacity - memory.tail⟩ := by
  simp only [getFreeRegion]
  rw [if_pos wide, sub64_of_le inside (by omega)]

theorem getFreeRegion_none_narrow (bounded : memory.head < 2 ^ 32)
    (occupied : memory.count ≠ 0) (ordered : memory.tail ≤ memory.head) :
    memory.getFreeRegion none = ⟨memory.tail, memory.head - memory.tail⟩ := by
  simp only [getFreeRegion]
  rw [if_neg (by omega), sub32_of_le ordered bounded]

theorem getFreeRegion_some_end {previous : Region} (positive : 0 < memory.capacity)
    (bounded : memory.capacity < 2 ^ 32) (inside : memory.head < memory.capacity)
    (ends : previous.first + previous.second = memory.capacity) :
    memory.getFreeRegion (some previous) = ⟨0, memory.head⟩ := by
  simp only [getFreeRegion]
  rw [region_end bounded (Nat.le_of_eq ends), ends, Nat.mod_self,
    if_neg (Nat.not_lt_zero _), sub32_of_le (Nat.zero_le _) (by omega), Nat.sub_zero]

theorem getFreeRegion_some_head {previous : Region}
    (bounded : memory.capacity < 2 ^ 32) (inside : memory.head < memory.capacity)
    (ends : previous.first + previous.second = memory.head) :
    memory.getFreeRegion (some previous) = ⟨memory.head, 0⟩ := by
  simp only [getFreeRegion]
  rw [region_end bounded (by omega), ends, Nat.mod_eq_of_lt inside,
    if_neg (Nat.lt_irrefl _), sub32_of_le (Nat.le_refl _) (by omega), Nat.sub_self]

theorem regions_getFreeRegion (positive : 0 < memory.capacity)
    (bounded : memory.capacity < 2 ^ 32) (headEq : memory.head = first % memory.capacity)
    (tailEq : memory.tail = last % memory.capacity) (ordered : first ≤ last)
    (near : last ≤ first + memory.capacity) (countZero : memory.count = 0 ↔ first = last) :
    Regions memory.getFreeRegion none
      (stretches memory.capacity last (first + memory.capacity - last)) := by
  have headBound := Nat.mod_lt first positive
  have tailBound := Nat.mod_lt last positive
  rw [← headEq] at headBound
  rw [← tailEq] at tailBound
  rcases exists_turn positive ordered near with ⟨turn, headSplit, tailSplit⟩
  rw [← headEq] at headSplit
  rw [← tailEq] at tailSplit
  rcases stretches_cases memory.capacity last (first + memory.capacity - last) with
    ⟨full, regions⟩ | ⟨someFree, whole, regions⟩ | ⟨split, regions⟩ <;> rw [regions] <;>
    simp only [tillEnd, ← tailEq] at *
  · refine .done ?_
    rw [getFreeRegion_none_narrow (by omega) (by omega) (by omega)]
    simp only
    omega
  · by_cases wide : memory.count = 0 ∨ memory.head < memory.tail
    · have length : first + memory.capacity - last =
          memory.capacity - memory.tail := by omega
      rw [length]
      refine .step (getFreeRegion_none_wide bounded (by omega) wide)
        (by simp only; omega) (.done ?_)
      rw [getFreeRegion_some_end positive bounded headBound (by simp only; omega)]
      simp only
      omega
    · have length : first + memory.capacity - last =
          memory.head - memory.tail := by omega
      rw [length]
      refine .step (getFreeRegion_none_narrow (by omega) (by omega) (by omega))
        (by simp only; omega) (.done ?_)
      rw [getFreeRegion_some_head bounded headBound (by simp only; omega)]
  · have length : first + memory.capacity - last -
        (memory.capacity - memory.tail) = memory.head := by omega
    rw [length]
    refine .step (getFreeRegion_none_wide bounded (by omega) (by omega))
      (by simp only; omega) (.step
        (getFreeRegion_some_end positive bounded headBound (by simp only; omega))
        (by simp only; omega) (.done ?_))
    rw [getFreeRegion_some_head bounded headBound (by simp only; omega)]

theorem visits_getBusyRegion (positive : 0 < memory.capacity)
    (bounded : memory.capacity < 2 ^ 32) (tailEq : memory.tail = last % memory.capacity)
    (nonempty : 0 < size)
    (stored : position + extent memory.capacity position size ≤ last)
    (near : last ≤ position + memory.capacity) :
    ∃ count, count ≤ 2 ∧ Visits
      (memory.getBusyRegion (position % memory.capacity) false) none
      (place memory.capacity position size) count := by
  have header : headerSize = 24 := rfl
  have headBound := Nat.mod_lt position positive
  have tailBound := Nat.mod_lt last positive
  rw [← tailEq] at tailBound
  rcases exists_turn positive (by omega) near with ⟨turn, headSplit, tailSplit⟩
  rw [← tailEq] at tailSplit
  have begun : memory.getBusyRegion (position % memory.capacity) false none =
      ⟨position % memory.capacity, if position % memory.capacity < memory.tail then
        memory.tail - position % memory.capacity
      else tillEnd memory.capacity position⟩ := by
    simp only [getBusyRegion, tillEnd, Bool.false_eq_true, false_or]
    split
    · rw [sub32_of_le (by omega) (by omega)]
    · rw [sub64_of_le (by omega) (by omega)]
  have wrapped : ∀ previous : Region,
      previous.first + previous.second = memory.capacity → 0 < memory.tail →
      memory.getBusyRegion (position % memory.capacity) false (some previous) =
        ⟨0, memory.tail⟩ := by
    intro previous ends behind
    simp only [getBusyRegion]
    rw [region_end bounded (Nat.le_of_eq ends), ends, Nat.mod_self, if_pos behind,
      sub32_of_le (Nat.zero_le _) (by omega), Nat.sub_zero]
  have tillEndEq : tillEnd memory.capacity position =
      memory.capacity - position % memory.capacity := rfl
  rcases place_cases memory.capacity position size with
    ⟨atEnd, placed, taken⟩ | ⟨whole, large, placed, taken⟩ | ⟨large, split, placed, taken⟩
  · rw [if_neg (by omega)] at begun
    have next := wrapped ⟨position % memory.capacity, tillEnd memory.capacity position⟩
      (by simp only; omega) (by omega)
    refine ⟨2, Nat.le_refl _, ?_⟩
    rw [placed]
    refine .skip ?_ ?_ (.last ?_ ?_) <;> rw [begun] <;> simp only [next] <;> omega
  · refine ⟨1, by omega, ?_⟩
    rw [placed]
    refine .last ?_ ?_ <;> rw [begun]
    simp only
    split <;> omega
  · rw [if_neg (by omega)] at begun
    have next := wrapped ⟨position % memory.capacity, tillEnd memory.capacity position⟩
      (by simp only; omega) (by omega)
    refine ⟨2, Nat.le_refl _, ?_⟩
    rw [placed]
    refine .more ?_ ?_ (.last ?_ ?_) <;> rw [begun] <;> simp only [next] <;> omega

end QueueMemory

end Qbus
