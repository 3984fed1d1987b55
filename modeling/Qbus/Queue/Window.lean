import Qbus.Queue.Storage

/-! # The window of the stored messages

The stored messages occupy a window of the ring, from the head to the tail.
The lemmas say what making a message behind the window does, whatever the
window contains. -/

namespace Qbus

open ByteMemory Message Circular Placement Storage MachineWord

namespace QueueMemory

structure Spans (memory : QueueMemory) (first last : Nat) : Prop where
  positive : 0 < memory.capacity
  bounded : memory.capacity < 2 ^ 32
  headEq : memory.head = first % memory.capacity
  tailEq : memory.tail = last % memory.capacity
  ordered : first ≤ last
  near : last ≤ first + memory.capacity
  drained : memory.count = 0 ↔ first = last

namespace Spans

variable {memory : QueueMemory} {first last : Nat}

theorem make (spans : memory.Spans first last) (sid now : Nat)
    {free : Option Region → Region} {regions : List Region} {payload : List UInt8}
    (walk : Regions free none regions) (enough : regions.length < memory.fuel)
    (nonempty : payload ≠ []) (disjoint : regions.Pairwise DisjointRegions)
    (inside : ∀ region ∈ regions, region.first + region.second ≤ memory.capacity)
    (covered : ∀ region ∈ regions, ∀ byte, region.first ≤ byte →
      byte < region.first + region.second →
      Covers memory.capacity last (first + memory.capacity) byte) :
    ∃ made,
      staticMakeMessage free memory.fuel sid now memory.data payload =
        .ok (if (cut regions payload.length).2 then
            ⟨(cut regions payload.length).1.map Fragment.position,
              chainStop (cut regions payload.length).1⟩
          else .none, made) ∧
      ((cut regions payload.length).2 = true →
        Made made (cut regions payload.length).1 payload sid now) ∧
      AgreeOnWindow made memory.data memory.capacity first last := by
  have bounded := spans.bounded
  rcases staticMakeMessage_eq sid now
    memory.data walk enough nonempty disjoint
    (fun region member => Nat.lt_of_le_of_lt (inside region member) bounded) with
      ⟨made, result, success, frame⟩
  refine ⟨made, result, success, ?_⟩
  intro byte covers
  apply frame
  intro fragment member
  rcases exists_region_of_mem_cut member with ⟨region, regionMem, placed, fits⟩
  refine Decidable.byContradiction fun hit => ?_
  simp only [Fragment.stop] at hit
  exact covers.disjoint (covered region regionMem byte (by omega) (by omega))
    (Nat.le_refl _) (Nat.le_refl _) rfl

theorem makeWindow (spans : memory.Spans first last) (sid now : Nat) {payload : List UInt8}
    (nonempty : payload ≠ []) {free : Option Region → Region} {window : Nat}
    (inside : last + window ≤ first + memory.capacity)
    (walk : Regions free none (stretches memory.capacity last window)) :
    ∃ made,
      staticMakeMessage free memory.fuel sid now memory.data payload =
        .ok (if extent memory.capacity last payload.length ≤ window then
            desc memory.capacity last payload.length
          else .none, made) ∧
      (extent memory.capacity last payload.length ≤ window →
        Holds made memory.capacity last payload ⟨sid % 2 ^ 32, 0, 0, now % 2 ^ 32⟩) ∧
      AgreeOnWindow made memory.data memory.capacity first last := by
  have positive := spans.positive
  have ordered := spans.ordered
  have size : 0 < payload.length := List.length_pos_iff.mpr nonempty
  have short : window ≤ memory.capacity := by omega
  rcases spans.make sid now walk
    (Nat.lt_of_le_of_lt stretches_length (by simp only [QueueMemory.fuel]; omega))
    nonempty (stretches_disjoint short)
    (fun region member => stretches_bounded positive short member)
    (fun region member byte lower upper =>
      (stretches_covers positive short member lower upper).mono (Nat.le_refl _)
        (by omega)) with ⟨made, result, success, frame⟩
  rw [cut_stretches_complete size, decide_eq_true_iff] at success
  refine ⟨made, ?_, ?_, frame⟩
  · rw [result, cut_stretches_complete size]
    by_cases fits : extent memory.capacity last payload.length ≤ window
    · rw [cut_stretches_eq size fits, decide_eq_true fits, if_pos rfl, if_pos fits]
      rfl
    · rw [decide_eq_false fits, if_neg (by simp), if_neg fits]
  · intro fits
    have isMade := success fits
    rw [cut_stretches_eq size fits] at isMade
    exact ⟨isMade.packed, isMade.headed⟩

theorem makeBase (spans : memory.Spans first last) (sid now : Nat)
    {payload : List UInt8} (nonempty : payload ≠ []) :
    ∃ made,
      staticMakeMessage memory.getFreeRegion memory.fuel sid now memory.data payload =
        .ok (if last + extent memory.capacity last payload.length ≤
              first + memory.capacity then
            desc memory.capacity last payload.length
          else .none, made) ∧
      (last + extent memory.capacity last payload.length ≤ first + memory.capacity →
        Holds made memory.capacity last payload ⟨sid % 2 ^ 32, 0, 0, now % 2 ^ 32⟩) ∧
      AgreeOnWindow made memory.data memory.capacity first last := by
  have near := spans.near
  have walk := regions_getFreeRegion spans.positive spans.bounded spans.headEq
    spans.tailEq spans.ordered near spans.drained
  have fitsIff : last + extent memory.capacity last payload.length ≤
      first + memory.capacity ↔
        extent memory.capacity last payload.length ≤ first + memory.capacity - last := by
    omega
  simp only [fitsIff]
  exact spans.makeWindow sid now nonempty (by omega) walk

theorem read (spans : memory.Spans first last) {position : Nat} {payload : List UInt8}
    (nonempty : payload ≠ []) (lower : first ≤ position)
    (upper : position + extent memory.capacity position payload.length ≤ last)
    (packed : Packed memory.data true
      (place memory.capacity position payload.length) payload) :
    staticGetMessage (memory.getBusyRegion (position % memory.capacity) false)
      memory.fuel memory.data = .ok (desc memory.capacity position payload.length) := by
  have positive := spans.positive
  have near := spans.near
  have size : 0 < payload.length := List.length_pos_iff.mpr nonempty
  rcases visits_getBusyRegion positive
    spans.bounded spans.tailEq size upper (by omega) with ⟨count, few, visits⟩
  have stop := desc_second_lt position positive spans.bounded size (by omega)
  have result := readFragments_eq visits memory.fuel []
    (by simp only [QueueMemory.fuel]; omega) (fun _ => rfl) packed stop
  simpa [staticGetMessage, desc] using result

end Spans

end QueueMemory

end Qbus
