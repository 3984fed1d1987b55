import Qbus.Foundation.Circular
import Qbus.Message.Walk
import Mathlib.Tactic.SplitIfs

/-! # Placement of messages in the ring

Positions are counted without ever wrapping around. A message that begins at a
position occupies the places from there on; it is split where the ring ends, and
the end of the ring is left unused when it has no room for more than a header. -/

namespace Qbus.Placement

open Message Circular

variable {capacity position size length : Nat}

/-- The number of places from `position` to the end of the ring. -/
def tillEnd (capacity position : Nat) : Nat := capacity - position % capacity

/-- The fragments of a message of `size` bytes that begins at `position`. -/
def place (capacity position size : Nat) : List Fragment :=
  if tillEnd capacity position ≤ headerSize then
    [⟨0, size⟩]
  else if size ≤ tillEnd capacity position - headerSize then
    [⟨position % capacity, size⟩]
  else
    [⟨position % capacity, tillEnd capacity position - headerSize⟩,
      ⟨0, size - (tillEnd capacity position - headerSize)⟩]

def extent (capacity position size : Nat) : Nat :=
  if tillEnd capacity position ≤ headerSize then
    tillEnd capacity position + headerSize + size
  else if size ≤ tillEnd capacity position - headerSize then
    headerSize + size
  else
    size + 2 * headerSize

def footprint (capacity position size : Nat) : Nat :=
  size + headerSize * (place capacity position size).length

/-- The contiguous regions of the `length` places from `position` on. -/
def stretches (capacity position length : Nat) : List Region :=
  if length = 0 then
    []
  else if length ≤ tillEnd capacity position then
    [⟨position % capacity, length⟩]
  else
    [⟨position % capacity, tillEnd capacity position⟩,
      ⟨0, length - tillEnd capacity position⟩]

example : place 100 90 10 = [⟨0, 10⟩] := rfl
example : place 100 60 20 = [⟨60, 16⟩, ⟨0, 4⟩] := rfl

theorem place_cases (capacity position size : Nat) :
    (tillEnd capacity position ≤ headerSize ∧
      place capacity position size = [⟨0, size⟩] ∧
      extent capacity position size = tillEnd capacity position + headerSize + size) ∨
    (headerSize + size ≤ tillEnd capacity position ∧
      headerSize < tillEnd capacity position ∧
      place capacity position size = [⟨position % capacity, size⟩] ∧
      extent capacity position size = headerSize + size) ∨
    (headerSize < tillEnd capacity position ∧
      tillEnd capacity position < headerSize + size ∧
      place capacity position size =
        [⟨position % capacity, tillEnd capacity position - headerSize⟩,
          ⟨0, size - (tillEnd capacity position - headerSize)⟩] ∧
      extent capacity position size = size + 2 * headerSize) := by
  unfold place extent
  split_ifs with atEnd whole
  · exact .inl ⟨atEnd, rfl, rfl⟩
  · exact .inr (.inl ⟨by omega, by omega, rfl, rfl⟩)
  · exact .inr (.inr ⟨by omega, by omega, rfl, rfl⟩)

theorem lt_extent (capacity position size : Nat) : headerSize + size ≤ extent capacity position size := by
  rcases place_cases capacity position size with
    ⟨_, _, taken⟩ | ⟨_, _, _, taken⟩ | ⟨_, _, _, taken⟩ <;> omega

theorem footprint_le_extent (capacity position size : Nat) :
    footprint capacity position size ≤ extent capacity position size := by
  unfold footprint
  rcases place_cases capacity position size with
    ⟨_, placed, taken⟩ | ⟨_, _, placed, taken⟩ | ⟨_, _, placed, taken⟩ <;>
    rw [placed, taken] <;> simp only [List.length_cons, List.length_nil] <;> omega

theorem place_ne_nil (capacity position size : Nat) : place capacity position size ≠ [] := by
  rcases place_cases capacity position size with
    ⟨_, placed, _⟩ | ⟨_, _, placed, _⟩ | ⟨_, _, placed, _⟩ <;> simp [placed]

theorem place_length (capacity position size : Nat) :
    (place capacity position size).length ≤ 2 := by
  rcases place_cases capacity position size with
    ⟨_, placed, _⟩ | ⟨_, _, placed, _⟩ | ⟨_, _, placed, _⟩ <;> simp [placed]

theorem stretches_cases (capacity position length : Nat) :
    (length = 0 ∧ stretches capacity position length = []) ∨
    (0 < length ∧ length ≤ tillEnd capacity position ∧
      stretches capacity position length = [⟨position % capacity, length⟩]) ∨
    (tillEnd capacity position < length ∧
      stretches capacity position length =
        [⟨position % capacity, tillEnd capacity position⟩,
          ⟨0, length - tillEnd capacity position⟩]) := by
  unfold stretches
  split_ifs with isEmpty whole
  · exact .inl ⟨isEmpty, rfl⟩
  · exact .inr (.inl ⟨by omega, whole, rfl⟩)
  · exact .inr (.inr ⟨by omega, rfl⟩)

theorem cut_stretches_complete (nonempty : 0 < size) :
    (cut (stretches capacity position length) size).2 =
      decide (extent capacity position size ≤ length) := by
  have header : headerSize = 24 := rfl
  have large := lt_extent capacity position size
  rw [Bool.eq_iff_iff, decide_eq_true_iff]
  rcases stretches_cases capacity position length with
    ⟨_, regions⟩ | ⟨_, _, regions⟩ | ⟨_, regions⟩
  · rw [regions]
    simp only [cut, Bool.false_eq_true, false_iff]
    omega
  all_goals
    rw [regions]
    rcases place_cases capacity position size with
      ⟨_, _, taken⟩ | ⟨_, _, _, taken⟩ | ⟨_, _, _, taken⟩ <;>
      simp only [cut] <;> split_ifs <;>
      simp only [false_iff, true_iff] <;> omega

theorem cut_stretches_eq (nonempty : 0 < size)
    (fits : extent capacity position size ≤ length) :
    (cut (stretches capacity position length) size).1 =
      place capacity position size := by
  have header : headerSize = 24 := rfl
  have large := lt_extent capacity position size
  rcases stretches_cases capacity position length with
    ⟨_, regions⟩ | ⟨_, _, regions⟩ | ⟨_, regions⟩
  · omega
  all_goals
    rw [regions]
    rcases place_cases capacity position size with
      ⟨_, placed, taken⟩ | ⟨_, _, placed, taken⟩ | ⟨_, _, placed, taken⟩ <;>
      rw [placed] <;> simp only [cut] <;> split_ifs <;> first | rfl | omega

theorem stretches_length : (stretches capacity position length).length ≤ 2 := by
  unfold stretches
  split
  · simp
  · split <;> simp

theorem stretches_disjoint (bounded : length ≤ capacity) :
    (stretches capacity position length).Pairwise DisjointRegions := by
  unfold stretches
  split
  · simp
  · split
    · simp
    · simp only [List.pairwise_cons, List.mem_singleton, forall_eq, List.not_mem_nil,
        false_implies, implies_true, List.Pairwise.nil, and_true, DisjointRegions,
        tillEnd]
      omega

theorem stretches_bounded (positive : 0 < capacity) (bounded : length ≤ capacity)
    {region : Region} (member : region ∈ stretches capacity position length) :
    region.first + region.second ≤ capacity := by
  have bound := Nat.mod_lt position positive
  unfold stretches at member
  split at member
  · simp at member
  · split at member
    · rw [List.mem_singleton.mp member]
      simp only [tillEnd] at *
      omega
    · simp only [List.mem_cons, List.not_mem_nil, or_false] at member
      rcases member with equal | equal <;> rw [equal] <;> simp only [tillEnd] at * <;>
        omega

theorem stretches_covers (positive : 0 < capacity) (bounded : length ≤ capacity)
    {region : Region} (member : region ∈ stretches capacity position length)
    {byte : Nat} (lower : region.first ≤ byte)
    (upper : byte < region.first + region.second) :
    Covers capacity position (position + length) byte := by
  have bound := Nat.mod_lt position positive
  have inside := stretches_bounded positive bounded member
  unfold stretches at member
  split at member
  · simp at member
  · split at member
    · rw [List.mem_singleton.mp member] at lower upper inside
      simp only [tillEnd] at *
      exact covers_of_lt_end lower (by omega) (by omega)
    · simp only [List.mem_cons, List.not_mem_nil, or_false] at member
      rcases member with equal | equal <;> rw [equal] at lower upper inside <;>
        simp only [tillEnd] at *
      · exact covers_of_lt_end lower (by omega) (by omega)
      · exact covers_of_wrapped positive (by omega) (by omega)

theorem place_covers (positive : 0 < capacity) (nonempty : 0 < size)
    (bounded : extent capacity position size ≤ capacity) {fragment : Fragment}
    (member : fragment ∈ place capacity position size) {byte : Nat}
    (lower : fragment.position ≤ byte) (upper : byte < fragment.stop) :
    Covers capacity position (position + extent capacity position size) byte := by
  rw [← cut_stretches_eq nonempty (Nat.le_refl _)] at member
  rcases exists_region_of_mem_cut member with ⟨region, regionMem, placed, inside⟩
  simp only [Fragment.stop] at upper
  exact stretches_covers positive bounded regionMem (by omega) (by omega)

theorem place_bounded (positive : 0 < capacity) (nonempty : 0 < size)
    (bounded : extent capacity position size ≤ capacity) {fragment : Fragment}
    (member : fragment ∈ place capacity position size) : fragment.stop ≤ capacity := by
  rw [← cut_stretches_eq nonempty (Nat.le_refl _)] at member
  rcases exists_region_of_mem_cut member with ⟨region, regionMem, placed, inside⟩
  have bound := stretches_bounded positive bounded regionMem
  simp only [Fragment.stop]
  omega

theorem place_apart (nonempty : 0 < size)
    (bounded : extent capacity position size ≤ capacity) :
    (place capacity position size).Pairwise Fragment.Apart := by
  rw [← cut_stretches_eq nonempty (Nat.le_refl _)]
  exact cut_apart size (stretches_disjoint bounded)

theorem chainStop_place_mod (positive : 0 < capacity) :
    chainStop (place capacity position size) % capacity =
      (position + extent capacity position size) % capacity := by
  have wrapped : ∀ offset, (position + tillEnd capacity position + offset) % capacity =
      offset % capacity := by
    intro offset
    rw [tillEnd, Nat.add_mod, add_room_mod position positive, Nat.zero_add, Nat.mod_mod]
  rcases place_cases capacity position size with
    ⟨_, placed, taken⟩ | ⟨_, _, placed, taken⟩ | ⟨_, _, placed, taken⟩
  · rw [placed, taken, show position + (tillEnd capacity position + headerSize + size) =
      position + tillEnd capacity position + (headerSize + size) by omega, wrapped]
    simp [chainStop, Fragment.stop]
  · rw [placed, taken]
    change (position % capacity + headerSize + size) % capacity = _
    rw [Nat.add_assoc, Nat.mod_add_mod]
  · rw [placed, taken]
    change (0 + headerSize + (size - (tillEnd capacity position - headerSize))) %
      capacity = _
    rw [← wrapped]
    congr 1
    omega

theorem chainStop_place_le (positive : 0 < capacity) (nonempty : 0 < size)
    (bounded : extent capacity position size ≤ capacity) :
    chainStop (place capacity position size) ≤ capacity := by
  have reaches : ∃ fragment,
      (place capacity position size).getLast? = some fragment :=
    ⟨_, List.getLast?_eq_some_getLast (place_ne_nil capacity position size)⟩
  rcases reaches with ⟨fragment, isLast⟩
  rw [chainStop, isLast]
  exact place_bounded positive nonempty bounded (List.mem_of_getLast? isLast)

end Qbus.Placement
