import Qbus.Queue.Limited

/-! # Messages are made whole

The free regions that a queue hands out are pieces of the free places, one behind the
other, also when a smart queue shortens them. In such pieces a message is made completely
or not at all. -/

namespace Qbus

open ByteMemory Message Circular Placement Storage MachineWord

/-! ## Pieces of the free places -/

/-- Contiguous parts of the places from `position` to `limit`, one behind the other. -/
def Pieces (capacity : Nat) : (position limit : Nat) → List Region → Prop
  | _, _, [] => True
  | position, limit, region :: rest =>
      region.first = position % capacity ∧ 0 < region.second ∧
        region.second ≤ tillEnd capacity position ∧ position + region.second ≤ limit ∧
        Pieces capacity (position + region.second) limit rest

namespace Pieces

variable {capacity position limit : Nat} {regions : List Region}

theorem length_le (pieces : Pieces capacity position limit regions) :
    regions.length ≤ limit - position := by
  induction regions generalizing position with
  | nil => exact Nat.zero_le _
  | cons region rest induction =>
      rcases pieces with ⟨-, some, -, fits, later⟩
      have shorter := induction later
      rw [List.length_cons]
      omega

theorem second_pos (pieces : Pieces capacity position limit regions) {region : Region}
    (member : region ∈ regions) : 0 < region.second := by
  induction regions generalizing position with
  | nil => cases member
  | cons first rest induction =>
      rcases pieces with ⟨-, some, -, -, later⟩
      rcases List.mem_cons.mp member with equal | member
      · rw [equal]
        exact some
      · exact induction later member

theorem bounded (positive : 0 < capacity) (pieces : Pieces capacity position limit regions)
    {region : Region} (member : region ∈ regions) :
    region.first + region.second ≤ capacity := by
  induction regions generalizing position with
  | nil => cases member
  | cons first rest induction =>
      rcases pieces with ⟨placed, -, short, -, later⟩
      rcases List.mem_cons.mp member with equal | member
      · have bound := Nat.mod_lt position positive
        rw [equal, placed]
        simp only [tillEnd] at short
        omega
      · exact induction later member

theorem covers (positive : 0 < capacity) (pieces : Pieces capacity position limit regions)
    {region : Region} (member : region ∈ regions) {byte : Nat} (lower : region.first ≤ byte)
    (upper : byte < region.first + region.second) :
    Covers capacity position limit byte := by
  induction regions generalizing position with
  | nil => cases member
  | cons first rest induction =>
      rcases pieces with ⟨placed, -, short, fits, later⟩
      rcases List.mem_cons.mp member with equal | member
      · have bound := Nat.mod_lt position positive
        rw [equal, placed] at lower upper
        simp only [tillEnd] at short
        exact covers_of_lt_end lower (by omega) (by omega)
      · exact (induction later member).mono (Nat.le_add_right _ _) (Nat.le_refl _)

theorem disjoint (positive : 0 < capacity) (near : limit ≤ position + capacity)
    (pieces : Pieces capacity position limit regions) : regions.Pairwise DisjointRegions := by
  induction regions generalizing position with
  | nil => exact .nil
  | cons region rest induction =>
      have whole := pieces
      rcases pieces with ⟨placed, some, short, fits, later⟩
      refine .cons ?_ (induction (by omega) later)
      intro other member
      unfold DisjointRegions
      refine Decidable.byContradiction fun overlap => ?_
      have otherSome := later.second_pos member
      have bound := Nat.mod_lt position positive
      have alone : Pieces capacity position (position + region.second) [region] :=
        ⟨placed, some, short, Nat.le_refl _, trivial⟩
      have shared : ∃ byte, region.first ≤ byte ∧ byte < region.first + region.second ∧
          other.first ≤ byte ∧ byte < other.first + other.second := by
        exact ⟨max region.first other.first, by omega, by omega, by omega, by omega⟩
      rcases shared with ⟨byte, lower, upper, otherLower, otherUpper⟩
      exact (covers positive alone List.mem_cons_self lower upper).disjoint
        (covers positive later member otherLower otherUpper) (Nat.le_refl _) near rfl

end Pieces

namespace QueueMemory.Spans

variable {memory : QueueMemory} {first last : Nat}

theorem getFreeRegion_none (spans : memory.Spans first last) :
    memory.getFreeRegion none = ⟨last % memory.capacity,
      min (first + memory.capacity - last) (tillEnd memory.capacity last)⟩ := by
  have headBound := Nat.mod_lt first spans.positive
  have tailBound := Nat.mod_lt last spans.positive
  have drained := spans.drained
  have bounded := spans.bounded
  have ordered := spans.ordered
  have near := spans.near
  rcases exists_turn spans.positive ordered near with ⟨turn, headSplit, tailSplit⟩
  rw [tillEnd]
  rw [← spans.headEq] at headBound headSplit
  rw [← spans.tailEq] at tailBound tailSplit ⊢
  by_cases wide : memory.count = 0 ∨ memory.head < memory.tail
  · rw [getFreeRegion_none_wide bounded (Nat.le_of_lt tailBound) wide]
    congr 1
    omega
  · rw [getFreeRegion_none_narrow (by omega) (by omega) (by omega)]
    congr 1
    omega

/-- Behind a region that ends inside of the free places, or where they end, the next one
begins where it ends. -/
theorem getFreeRegion_some (spans : memory.Spans first last) {previous : Region} {offset : Nat}
    (some : 0 < offset) (inside : last + offset ≤ first + memory.capacity)
    (small : previous.first + previous.second ≤ memory.capacity)
    (ends : (previous.first + previous.second) % memory.capacity =
      (last + offset) % memory.capacity) :
    memory.getFreeRegion (Option.some previous) = ⟨(last + offset) % memory.capacity,
      min (first + memory.capacity - (last + offset))
        (tillEnd memory.capacity (last + offset))⟩ := by
  have headBound := Nat.mod_lt first spans.positive
  have placeBound := Nat.mod_lt (last + offset) spans.positive
  have bounded := spans.bounded
  have ordered := spans.ordered
  rcases exists_turn spans.positive (show first ≤ last + offset by omega) inside with
    ⟨turn, headSplit, placeSplit⟩
  simp only [getFreeRegion]
  rw [Nat.mod_eq_of_lt (show previous.first + previous.second < 2 ^ 64 by omega), ends, tillEnd]
  rw [← spans.headEq] at headBound headSplit
  by_cases behind : memory.head < (last + offset) % memory.capacity
  · rw [if_pos behind, sub64_of_le (by omega) (by omega)]
    congr 1
    omega
  · rw [if_neg behind, sub32_of_le (by omega) (by omega)]
    congr 1
    omega

end QueueMemory.Spans

namespace Queue

variable {queue : Queue} {first last : Nat}

def regionLimit (queue : Queue) : Nat :=
  if queue.self.type = .smart ∧ queue.self.state ≠ .pushSpecialMessage then
    queue.availableSpace
  else queue.memory.capacity

private theorem unrestricted_of_not (plain : ¬(queue.self.type = .smart ∧
    queue.self.state ≠ .pushSpecialMessage)) : queue.Unrestricted := by
  by_cases smart : queue.self.type = .smart
  · exact .inr (not_not.mp fun user => plain ⟨smart, user⟩)
  · exact .inl smart

theorem getFreeRegion_none_le (spans : queue.memory.Spans first last) :
    ∃ length, queue.getFreeRegion none = ⟨last % queue.memory.capacity, length⟩ ∧
      length ≤ min (first + queue.memory.capacity - last)
        (tillEnd queue.memory.capacity last) ∧ length ≤ queue.regionLimit := by
  have bounded := spans.bounded
  have ordered := spans.ordered
  have base := spans.getFreeRegion_none
  rw [regionLimit]
  split
  · rcases ‹_ ∧ _› with ⟨smart, user⟩
    refine ⟨_, (getFreeRegion_user_none smart user ?_).trans (by rw [base]), ?_, ?_⟩
    · rw [base]
      simp only
      omega
    · exact Nat.min_le_left _ _
    · exact Nat.min_le_right _ _
  · rw [getFreeRegion_eq (unrestricted_of_not ‹_›)]
    exact ⟨_, base, Nat.le_refl _, by omega⟩

theorem getFreeRegion_some_le (spans : queue.memory.Spans first last) {previous : Region}
    {offset : Nat} (some : 0 < offset) (inside : last + offset ≤ first + queue.memory.capacity)
    (small : previous.first + previous.second ≤ queue.memory.capacity)
    (ends : (previous.first + previous.second) % queue.memory.capacity =
      (last + offset) % queue.memory.capacity)
    (limited : previous.second ≤ queue.regionLimit) :
    ∃ length, queue.getFreeRegion (Option.some previous) =
        ⟨(last + offset) % queue.memory.capacity, length⟩ ∧
      length ≤ min (first + queue.memory.capacity - (last + offset))
        (tillEnd queue.memory.capacity (last + offset)) ∧ length ≤ queue.regionLimit := by
  have bounded := spans.bounded
  have ordered := spans.ordered
  have base := spans.getFreeRegion_some some inside small ends
  rw [regionLimit] at limited ⊢
  split at limited
  · rename_i user
    rw [if_pos user]
    refine ⟨_, (getFreeRegion_user_some user.1 user.2 limited (by omega) ?_).trans
      (by rw [base]), ?_, ?_⟩
    · rw [base]
      simp only
      omega
    · exact Nat.min_le_left _ _
    · exact Nat.le_trans (Nat.min_le_right _ _) (Nat.sub_le _ _)
  · rename_i plain
    rw [if_neg plain, getFreeRegion_eq (unrestricted_of_not plain)]
    exact ⟨_, base, Nat.le_refl _, by omega⟩

private theorem exists_pieces_some (spans : queue.memory.Spans first last) (remaining : Nat)
    {previous : Region} {offset : Nat} (some : 0 < offset)
    (rest : last + offset + remaining = first + queue.memory.capacity)
    (small : previous.first + previous.second ≤ queue.memory.capacity)
    (ends : (previous.first + previous.second) % queue.memory.capacity =
      (last + offset) % queue.memory.capacity)
    (limited : previous.second ≤ queue.regionLimit) :
    ∃ regions, Regions queue.getFreeRegion (Option.some previous) regions ∧
      Pieces queue.memory.capacity (last + offset) (first + queue.memory.capacity)
        regions := by
  induction remaining using Nat.strongRecOn generalizing previous offset with
  | ind remaining induction =>
      have bound := Nat.mod_lt (last + offset) spans.positive
      rcases getFreeRegion_some_le spans some (by omega) small ends limited with
        ⟨length, handedOut, fits, short⟩
      rw [tillEnd] at fits
      rcases Nat.eq_zero_or_pos length with isEmpty | isSome
      · exact ⟨[], .done (by rw [handedOut]; exact isEmpty), trivial⟩
      · rcases @induction (remaining - length) (by omega)
          ⟨(last + offset) % queue.memory.capacity, length⟩ (offset + length) (by omega)
          (by omega) (by simp only; omega)
          (by simp only; rw [Nat.mod_add_mod, Nat.add_assoc]) short with ⟨regions, walk, pieces⟩
        refine ⟨_ :: regions, .step handedOut isSome walk, rfl, isSome, ?_, ?_, ?_⟩
        · simp only [tillEnd]
          omega
        · simp only
          omega
        · rw [← Nat.add_assoc] at pieces
          exact pieces

theorem exists_pieces (spans : queue.memory.Spans first last) :
    ∃ regions, Regions queue.getFreeRegion none regions ∧
      Pieces queue.memory.capacity last (first + queue.memory.capacity) regions := by
  have bound := Nat.mod_lt last spans.positive
  have near := spans.near
  rcases getFreeRegion_none_le spans with ⟨length, handedOut, fits, short⟩
  rw [tillEnd] at fits
  rcases Nat.eq_zero_or_pos length with isEmpty | isSome
  · exact ⟨[], .done (by rw [handedOut]; exact isEmpty), trivial⟩
  · rcases @exists_pieces_some queue first last spans
      (first + queue.memory.capacity - (last + length))
      ⟨last % queue.memory.capacity, length⟩ length isSome (by omega) (by simp only; omega)
      (by simp only; rw [Nat.mod_add_mod]) short with ⟨regions, walk, pieces⟩
    refine ⟨_ :: regions, .step handedOut isSome walk, rfl, isSome, ?_, ?_, pieces⟩
    · simp only [tillEnd]
      omega
    · simp only
      omega

/-- Making a message returns no message, or one whose capacities add up to the number of
bytes, all of which have been packed. -/
def makesWhole (payload : List UInt8) (now : Nat) (queue : Queue) : Bool :=
  match staticMakeMessage queue.getFreeRegion queue.memory.fuel queue.self.sid now
    queue.memory.data payload with
  | .ok (message, made) => decide (message = .none ∨
      message.first ≠ [] ∧ totalCapacity made message.first = payload.length)
  | .error _ => false

theorem makesWhole_of_spans (spans : queue.memory.Spans first last) {payload : List UInt8}
    (nonempty : payload ≠ []) (now : Nat) : makesWhole payload now queue = true := by
  have positive := spans.positive
  have ordered := spans.ordered
  have near : first + queue.memory.capacity ≤ last + queue.memory.capacity := by omega
  rcases exists_pieces spans with ⟨regions, walk, pieces⟩
  have few := pieces.length_le
  rcases spans.make queue.self.sid now walk
    (Nat.lt_of_le_of_lt few (by simp only [QueueMemory.fuel]; omega)) nonempty
    (pieces.disjoint positive near) (fun region member => pieces.bounded positive member)
    (fun region member byte => pieces.covers positive member) with
    ⟨made, result, success, -⟩
  rw [makesWhole, result]
  apply decide_eq_true
  cases complete : (cut regions payload.length).2 with
  | false => exact .inl rfl
  | true =>
      right
      have packed := (success complete).packed
      refine ⟨by simpa using cut_ne_nil complete, ?_⟩
      simp only [if_true]
      exact packed.totalCapacity_eq

end Queue

end Qbus
