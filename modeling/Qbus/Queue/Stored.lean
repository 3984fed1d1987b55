import Qbus.Queue.Calls

/-! # Walking over the stored messages

The walk from the shared head over all stored messages, and their reference
counters. -/

namespace Qbus

open ByteMemory Message Circular Placement Storage MachineWord

namespace QueueMemory

def storedFrom (memory : QueueMemory) : (count head : Nat) → List MessageDesc
  | 0, _ => []
  | count + 1, head =>
      match staticGetMessage (memory.getBusyRegion head false) memory.fuel memory.data with
      | .ok desc => desc :: memory.storedFrom count (desc.second % memory.capacity)
      | .error _ => []

def stored (memory : QueueMemory) : List MessageDesc :=
  memory.storedFrom memory.count memory.head

def begins (memory : QueueMemory) : List Nat :=
  (memory.head :: memory.stored.map fun desc => desc.second % memory.capacity).take
    memory.count ++ [memory.tail]

def references (memory : QueueMemory) : List Nat :=
  memory.stored.map fun desc => Message.counter memory.data (desc.first.headD 0)

end QueueMemory

def MessageDesc.Occupies (desc : MessageDesc) (memory : ByteMemory) (byte : Nat) : Prop :=
  (∃ position ∈ desc.first, position ≤ byte ∧ byte < position + size memory position) ∧
    (byte < desc.first.headD 0 + counterOffset ∨
      desc.first.headD 0 + timestampOffset ≤ byte)

namespace Ring

variable {memory : QueueMemory} {log : List Entry} {base : Nat} {refs : Nat → Nat}

private theorem storedFrom_getElem? (ring : Ring memory log base refs)
    {count index : Nat} (inside : base ≤ index) (whole : index + count = log.length)
    (offset : Nat) :
    (memory.storedFrom count (start memory.capacity log index % memory.capacity))[offset]? =
      log[index + offset]?.map fun entry => desc memory.capacity
        (start memory.capacity log (index + offset)) entry.size := by
  induction count generalizing index offset with
  | zero =>
      rw [List.getElem?_eq_none (by omega : log.length ≤ index + offset)]
      rfl
  | succ count induction =>
      have found := List.getElem?_eq_getElem (show index < log.length by omega)
      have next : (desc memory.capacity (start memory.capacity log index)
          (log[index]).size).second % memory.capacity =
            start memory.capacity log (index + 1) % memory.capacity := by
        rw [desc_second_mod ring.positive, ← start_succ memory.capacity found]
      rw [QueueMemory.storedFrom, ring.read inside found]
      cases offset with
      | zero =>
          rw [Nat.add_zero, found]
          rfl
      | succ offset =>
          simp only [List.getElem?_cons_succ, next]
          rw [induction (by omega) (by omega) offset,
            show index + 1 + offset = index + (offset + 1) by omega]

theorem stored_getElem? (ring : Ring memory log base refs) (offset : Nat) :
    memory.stored[offset]? = log[base + offset]?.map fun entry =>
      desc memory.capacity (start memory.capacity log (base + offset)) entry.size := by
  have baseLe := ring.baseLe
  rw [QueueMemory.stored, ring.countEq, ring.headEq]
  exact ring.storedFrom_getElem? (Nat.le_refl _) (by omega) offset

theorem length_stored (ring : Ring memory log base refs) :
    memory.stored.length = memory.count := by
  have countEq := ring.countEq
  have beyond : ∀ offset, memory.stored.length ≤ offset ↔ memory.count ≤ offset := by
    intro offset
    rw [← List.getElem?_eq_none_iff, ring.stored_getElem?, Option.map_eq_none_iff,
      List.getElem?_eq_none_iff]
    omega
  exact Nat.le_antisymm ((beyond _).mpr (Nat.le_refl _)) ((beyond _).mp (Nat.le_refl _))

theorem begins_getElem? (ring : Ring memory log base refs) {offset : Nat}
    (inside : offset ≤ memory.count) :
    memory.begins[offset]? =
      some (start memory.capacity log (base + offset) % memory.capacity) := by
  have countEq := ring.countEq
  have baseLe := ring.baseLe
  have length : ((memory.head :: memory.stored.map fun desc =>
      desc.second % memory.capacity).take memory.count).length = memory.count := by
    simp [ring.length_stored]
  rw [QueueMemory.begins]
  rcases Nat.lt_or_eq_of_le inside with before | rfl
  · rw [List.getElem?_append_left (by rw [length]; exact before),
      List.getElem?_take_of_lt before]
    cases offset with
    | zero => rw [List.getElem?_cons_zero, ring.headEq, Nat.add_zero]
    | succ offset =>
        have found := List.getElem?_eq_getElem (show base + offset < log.length by omega)
        rw [List.getElem?_cons_succ, List.getElem?_map, ring.stored_getElem?, found]
        simp only [Option.map_some]
        rw [desc_second_mod ring.positive, ← start_succ memory.capacity found,
          Nat.add_assoc]
  · rw [List.getElem?_append_right (by rw [length]), length, Nat.sub_self,
      List.getElem?_cons_zero, ring.tailEq, show base + memory.count = log.length by omega]

theorem references_getElem? (ring : Ring memory log base refs) (offset : Nat) :
    memory.references[offset]? = log[base + offset]?.map fun _ => refs (base + offset) := by
  rw [QueueMemory.references, List.getElem?_map, ring.stored_getElem?]
  cases found : log[base + offset]? with
  | none => rfl
  | some entry =>
      rcases desc_first memory.capacity
        (start memory.capacity log (base + offset)) entry.size with ⟨rest, first⟩
      have counted := congrArg Header.counter
        (ring.view (Nat.le_add_right base offset) found).2.2
      simp only [Option.map_some, first, List.headD_cons]
      exact congrArg some counted

theorem references_eq (ring : Ring memory log base refs) :
    memory.references = (List.range memory.count).map fun offset => refs (base + offset) := by
  apply List.ext_getElem?
  intro offset
  have countEq := ring.countEq
  rw [ring.references_getElem?, List.getElem?_map]
  by_cases inside : offset < memory.count
  · rw [List.getElem?_range inside, List.getElem?_eq_getElem (by omega)]
    rfl
  · rw [List.getElem?_eq_none (by omega : log.length ≤ base + offset),
      List.getElem?_eq_none (by rw [List.length_range]; omega)]
    rfl

theorem occupies_covers (ring : Ring memory log base refs) {index : Nat} {entry : Entry}
    (stored : base ≤ index) (found : log[index]? = some entry) {byte : Nat}
    (occupies : (desc memory.capacity (start memory.capacity log index)
      entry.size).Occupies memory.data byte) :
    Covers memory.capacity (start memory.capacity log index)
        (start memory.capacity log (index + 1)) byte ∧
      (byte < headerPlace memory.capacity (start memory.capacity log index) entry.size +
          counterOffset ∨
        headerPlace memory.capacity (start memory.capacity log index) entry.size +
          timestampOffset ≤ byte) := by
  rcases occupies with ⟨⟨position, member, lower, upper⟩, outside⟩
  rcases List.mem_map.mp member with ⟨fragment, placed, rfl⟩
  rcases desc_first memory.capacity (start memory.capacity log index)
    entry.size with ⟨rest, first⟩
  rw [first, List.headD_cons] at outside
  have sized := (ring.holds index entry stored found).packed.capacity_eq placed
  rw [size, staticSize, sized] at upper
  refine ⟨?_, outside⟩
  rw [start_succ memory.capacity found]
  exact place_covers ring.positive entry.size_pos (ring.extent_le stored found) placed
    lower (by simp only [Fragment.stop]; omega)

end Ring

end Qbus
