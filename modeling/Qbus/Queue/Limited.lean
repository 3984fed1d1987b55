import Qbus.Queue.Tracking

/-! # Limited regions

A smart queue hands out shortened free regions for user messages, so that the space
it reserves for service messages stays free. It compares the limit with the region
and the one before it only: the third region that is handed out goes beyond it. -/

namespace Qbus

open ByteMemory Message Circular Placement Storage MachineWord

namespace Ring

variable {memory : QueueMemory} {log : List Entry} {base : Nat} {refs : Nat → Nat}

def free (memory : QueueMemory) (log : List Entry) (base : Nat) : Nat :=
  start memory.capacity log base + memory.capacity - start memory.capacity log log.length

def front (memory : QueueMemory) (log : List Entry) (base : Nat) : Nat :=
  min (free memory log base) (tillEnd memory.capacity (start memory.capacity log log.length))

theorem free_cases (ring : Ring memory log base refs) :
    memory.tail < memory.capacity ∧ memory.head < memory.capacity ∧
    tillEnd memory.capacity (start memory.capacity log log.length) =
      memory.capacity - memory.tail ∧
    ((memory.count = 0 ∨ memory.head < memory.tail) ∧
        free memory log base = memory.capacity - memory.tail + memory.head ∨
      memory.count ≠ 0 ∧ memory.tail ≤ memory.head ∧
        free memory log base = memory.head - memory.tail) := by
  have headBound := Nat.mod_lt (start memory.capacity log base) ring.positive
  have tailBound := Nat.mod_lt (start memory.capacity log log.length) ring.positive
  have countZero := ring.count_eq_zero_iff
  have ordered := ring.ordered
  have near := ring.near
  rcases exists_turn ring.positive ordered near with ⟨turn, headSplit, tailSplit⟩
  have tillEndEq : tillEnd memory.capacity (start memory.capacity log log.length) =
      memory.capacity - memory.tail := by rw [tillEnd, ring.tailEq]
  rw [← ring.headEq] at headBound headSplit
  rw [← ring.tailEq] at tailBound tailSplit
  refine ⟨tailBound, headBound, tillEndEq, ?_⟩
  unfold free
  by_cases wide : memory.count = 0 ∨ memory.head < memory.tail
  · exact .inl ⟨wide, by omega⟩
  · exact .inr ⟨by omega, by omega, by omega⟩

theorem getFreeRegion_none (ring : Ring memory log base refs) :
    memory.getFreeRegion none = ⟨memory.tail, front memory log base⟩ := by
  have bounded := ring.bounded
  rcases ring.free_cases with ⟨tailBound, headBound, ends, ⟨wide, length⟩ | ⟨some, le, length⟩⟩
  · rw [QueueMemory.getFreeRegion_none_wide bounded (Nat.le_of_lt tailBound) wide, front]
    congr 1
    omega
  · rw [QueueMemory.getFreeRegion_none_narrow (by omega) some le, front]
    congr 1
    omega

theorem getFreeRegion_part (ring : Ring memory log base refs) {part : Nat} (some : 0 < part)
    (inside : part < front memory log base) :
    memory.getFreeRegion (Option.some ⟨memory.tail, part⟩) =
      ⟨memory.tail + part, front memory log base - part⟩ := by
  have bounded := ring.bounded
  rw [front] at inside ⊢
  rcases ring.free_cases with ⟨tailBound, headBound, ends, ⟨wide, length⟩ | ⟨stored, le, length⟩⟩
  · have countZero := ring.count_eq_zero_iff
    have headEq := ring.headEq
    have tailEq := ring.tailEq
    have behind : memory.head < memory.tail + part := by
      rcases wide with isEmpty | before
      · rw [countZero.mp isEmpty, ← tailEq] at headEq
        omega
      · omega
    simp only [QueueMemory.getFreeRegion]
    rw [Nat.mod_eq_of_lt (show memory.tail + part < 2 ^ 64 by omega),
      Nat.mod_eq_of_lt (show memory.tail + part < memory.capacity by omega), if_pos behind,
      sub64_of_le (by omega) (by omega)]
    congr 1
    omega
  · simp only [QueueMemory.getFreeRegion]
    rw [Nat.mod_eq_of_lt (show memory.tail + part < 2 ^ 64 by omega),
      Nat.mod_eq_of_lt (show memory.tail + part < memory.capacity by omega), if_neg (by omega),
      sub32_of_le (by omega) (by omega)]
    congr 1
    omega

theorem getFreeRegion_whole (ring : Ring memory log base refs) :
    (memory.getFreeRegion (Option.some ⟨memory.tail, front memory log base⟩)).second =
        free memory log base - front memory log base ∧
      (front memory log base < free memory log base →
        (memory.getFreeRegion (Option.some ⟨memory.tail, front memory log base⟩)).first = 0) := by
  have bounded := ring.bounded
  have positive := ring.positive
  rw [front]
  rcases ring.free_cases with ⟨tailBound, headBound, ends, ⟨wide, length⟩ | ⟨stored, le, length⟩⟩
  · rw [Nat.min_eq_right (by omega), ends,
      QueueMemory.getFreeRegion_some_end positive bounded headBound (by simp only; omega)]
    exact ⟨by simp only; omega, fun _ => rfl⟩
  · rw [Nat.min_eq_left (by omega), length,
      QueueMemory.getFreeRegion_some_head bounded headBound (by simp only; omega)]
    exact ⟨by simp only; omega, fun beyond => absurd beyond (Nat.lt_irrefl _)⟩

theorem getFreeRegion_behind (ring : Ring memory log base refs) {part : Nat}
    (inside : front memory log base + part ≤ free memory log base) (wraps :
      front memory log base < free memory log base) :
    (memory.getFreeRegion (Option.some ⟨0, part⟩)).second =
      free memory log base - front memory log base - part := by
  have bounded := ring.bounded
  rw [front] at inside wraps ⊢
  rcases ring.free_cases with ⟨tailBound, headBound, ends, ⟨wide, length⟩ | ⟨stored, le, length⟩⟩
  · simp only [QueueMemory.getFreeRegion, Nat.zero_add]
    rw [Nat.mod_eq_of_lt (show part < 2 ^ 64 by omega),
      Nat.mod_eq_of_lt (show part < memory.capacity by omega), if_neg (by omega),
      sub32_of_le (by omega) (by omega)]
    simp only
    omega
  · omega

end Ring

namespace Queue

variable {queue : Queue} {log : List Entry} {base : Nat} {refs : Nat → Nat}

def availableSpace (queue : Queue) : Nat :=
  sub64 queue.memory.freeSpace queue.reservedSpace

/-- A message of `size` bytes has room in the first two regions that are handed out for
it, or there is no third one. -/
def TwoRegions (queue : Queue) (size : Nat) : Prop :=
  let first := queue.getFreeRegion none
  let second := queue.getFreeRegion (some first)
  let third := queue.getFreeRegion (some second)
  size ≤ staticCapacity first.second + staticCapacity second.second ∨
    first.second = 0 ∨ second.second = 0 ∨ third.second = 0

instance (queue : Queue) (size : Nat) : Decidable (queue.TwoRegions size) :=
  inferInstanceAs (Decidable (_ ≤ _ ∨ _ = _ ∨ _ = _ ∨ _ = _))

private theorem shorten {region : Region} {before limit : Nat} (limited : before ≤ limit)
    (small : region.second < 2 ^ 32) (smallBefore : before < 2 ^ 32) :
    (if (region.second + before) % 2 ^ 64 > limit then
        ⟨region.first, sub64 region.second
          (sub64 ((region.second + before) % 2 ^ 64) limit)⟩
      else region) = ⟨region.first, min region.second (limit - before)⟩ := by
  rw [Nat.mod_eq_of_lt (by omega)]
  by_cases exceeds : region.second + before > limit
  · rw [if_pos exceeds, sub64_of_le (Nat.le_of_lt exceeds) (by omega),
      sub64_of_le (by omega) (by omega)]
    congr 1
    omega
  · rw [if_neg exceeds, Nat.min_eq_left (by omega)]

theorem getFreeRegion_user_none (smart : queue.self.type = .smart)
    (user : queue.self.state ≠ .pushSpecialMessage)
    (small : (queue.memory.getFreeRegion none).second < 2 ^ 32) :
    queue.getFreeRegion none = ⟨(queue.memory.getFreeRegion none).first,
      min (queue.memory.getFreeRegion none).second queue.availableSpace⟩ := by
  simp only [getFreeRegion, smart]
  rw [if_pos user]
  exact shorten (Nat.zero_le _) small (by decide)

theorem getFreeRegion_user_some (smart : queue.self.type = .smart)
    (user : queue.self.state ≠ .pushSpecialMessage) {previous : Region}
    (limited : previous.second ≤ queue.availableSpace) (smallPrevious : previous.second < 2 ^ 32)
    (small : (queue.memory.getFreeRegion (some previous)).second < 2 ^ 32) :
    queue.getFreeRegion (some previous) = ⟨(queue.memory.getFreeRegion (some previous)).first,
      min (queue.memory.getFreeRegion (some previous)).second
        (queue.availableSpace - previous.second)⟩ := by
  simp only [getFreeRegion, smart]
  rw [if_pos user]
  exact shorten limited small smallPrevious

/-- The regions handed out for a user message are those of the window that the limit
leaves, unless a third one is handed out. -/
theorem regions_user (smart : queue.self.type = .smart)
    (user : queue.self.state ≠ .pushSpecialMessage) (ring : Ring queue.memory log base refs) :
    Regions queue.getFreeRegion none
      (stretches queue.memory.capacity (start queue.memory.capacity log log.length)
        (min (Ring.free queue.memory log base) queue.availableSpace)) ∨
    ∃ second : Region, 0 < second.second ∧ second.first ≠ queue.memory.tail ∧
      0 < Ring.front queue.memory log base ∧
      queue.getFreeRegion none = ⟨queue.memory.tail, Ring.front queue.memory log base⟩ ∧
      queue.getFreeRegion (some ⟨queue.memory.tail, Ring.front queue.memory log base⟩) = second ∧
      stretches queue.memory.capacity (start queue.memory.capacity log log.length)
        (min (Ring.free queue.memory log base) queue.availableSpace) =
          [⟨queue.memory.tail, Ring.front queue.memory log base⟩, second] := by
  have bounded := ring.bounded
  have unlimited := ring.getFreeRegion_none
  rcases ring.getFreeRegion_whole with ⟨wholeSecond, wholeFirst⟩
  rcases ring.free_cases with ⟨tailBound, headBound, ends, frees⟩
  have tailEq := ring.tailEq
  have frontEq : Ring.front queue.memory log base =
      min (Ring.free queue.memory log base) (queue.memory.capacity - queue.memory.tail) := by
    rw [Ring.front, ends]
  have first := getFreeRegion_user_none smart user (by rw [unlimited]; simp only; omega)
  rw [unlimited] at first
  simp only at first
  rcases stretches_cases queue.memory.capacity (start queue.memory.capacity log log.length)
    (min (Ring.free queue.memory log base) queue.availableSpace) with
      ⟨closed, regions⟩ | ⟨opened, single, regions⟩ | ⟨split, regions⟩ <;>
    rw [regions] <;> rw [← tailEq, ends] at *
  · left
    apply Regions.done
    rw [first]
    simp only
    omega
  · left
    have begun : queue.getFreeRegion none = ⟨queue.memory.tail,
        min (Ring.free queue.memory log base) queue.availableSpace⟩ := by
      rw [first]
      congr 1
      omega
    refine .step begun opened (.done ?_)
    rcases Nat.lt_or_ge (min (Ring.free queue.memory log base) queue.availableSpace)
      (Ring.front queue.memory log base) with part | whole
    · have behind := ring.getFreeRegion_part opened part
      rw [getFreeRegion_user_some smart user (Nat.min_le_right _ _) (by simp only; omega)
        (by rw [behind]; simp only; omega), behind]
      simp only
      omega
    · rw [show min (Ring.free queue.memory log base) queue.availableSpace =
        Ring.front queue.memory log base by omega]
      rw [getFreeRegion_user_some smart user (by simp only; omega) (by simp only; omega)
        (by rw [wholeSecond]; omega), wholeSecond]
      simp only
      omega
  · have begun : queue.getFreeRegion none =
        ⟨queue.memory.tail, queue.memory.capacity - queue.memory.tail⟩ := by
      rw [first]
      congr 1
      omega
    have isFront : Ring.front queue.memory log base =
        queue.memory.capacity - queue.memory.tail := by omega
    have next : queue.getFreeRegion
        (some ⟨queue.memory.tail, queue.memory.capacity - queue.memory.tail⟩) =
          ⟨0, min (Ring.free queue.memory log base) queue.availableSpace -
            (queue.memory.capacity - queue.memory.tail)⟩ := by
      rw [isFront] at wholeSecond wholeFirst
      rw [getFreeRegion_user_some smart user (by simp only; omega) (by simp only; omega)
        (by rw [wholeSecond]; omega), wholeSecond, wholeFirst (by omega)]
      congr 1
      simp only
      omega
    rcases Nat.lt_or_ge queue.availableSpace (Ring.free queue.memory log base) with
      overrun | enough
    · right
      rw [isFront]
      refine ⟨⟨0, min (Ring.free queue.memory log base) queue.availableSpace -
        (queue.memory.capacity - queue.memory.tail)⟩, by simp only; omega, ?_, by omega, begun,
        next, rfl⟩
      have countZero := ring.count_eq_zero_iff
      have headEq := ring.headEq
      have tailPlace := ring.tailEq
      simp only
      intro atBegin
      rcases frees with ⟨isEmpty | before, length⟩ | ⟨stored, ordered, length⟩
      · rw [countZero.mp isEmpty, ← tailPlace] at headEq
        omega
      · omega
      · omega
    · left
      refine .step begun (by simp only; omega) (.step next (by simp only; omega) (.done ?_))
      have behind := @Ring.getFreeRegion_behind _ _ _ _ ring
        (min (Ring.free queue.memory log base) queue.availableSpace -
          (queue.memory.capacity - queue.memory.tail)) (by omega) (by omega)
      rw [getFreeRegion_user_some smart user (by simp only; omega) (by simp only; omega)
        (by rw [behind]; omega), behind]
      simp only
      omega

def twoStretches (first second : Region) : Option Region → Region
  | none => first
  | some region => if region.first = first.first then second else ⟨0, 0⟩

theorem exists_window (smart : queue.self.type = .smart)
    (user : queue.self.state ≠ .pushSpecialMessage) (ring : Ring queue.memory log base refs)
    {payload : List UInt8} (nonempty : payload ≠ []) (two : queue.TwoRegions payload.length)
    (sid now : Nat) :
    ∃ next, Regions next none
        (stretches queue.memory.capacity (start queue.memory.capacity log log.length)
          (min (Ring.free queue.memory log base) queue.availableSpace)) ∧
      staticMakeMessage queue.getFreeRegion queue.memory.fuel sid now queue.memory.data payload =
        staticMakeMessage next queue.memory.fuel sid now queue.memory.data payload := by
  have size : 0 < payload.length := List.length_pos_iff.mpr nonempty
  rcases regions_user smart user ring with
    walk | ⟨second, some, apart, frontPos, begun, behind, regions⟩
  · exact ⟨_, walk, rfl⟩
  · by_cases complete : payload.length ≤
        staticCapacity (Ring.front queue.memory log base) + staticCapacity second.second
    · refine ⟨twoStretches ⟨queue.memory.tail, Ring.front queue.memory log base⟩ second, ?_, ?_⟩
      · rw [regions]
        refine .step rfl frontPos (.step ?_ some (.done ?_))
        · simp only [twoStretches, if_true]
        · simp only [twoStretches, apart, if_false]
      · refine staticMakeMessage_congr _ sid now _
          (.cons begun (.cons behind .nil)) (.cons rfl (.cons ?_ .nil))
          ((cut_two_complete size).mpr complete)
        simp only [twoStretches, if_true]
    · refine ⟨_, ?_, rfl⟩
      rw [TwoRegions, begun, behind] at two
      rw [regions]
      refine .step begun frontPos (.step behind some (.done ?_))
      simp only at two
      omega

/-- A user message that sees two regions at most is stored exactly when its extent does not
exceed the free places nor the available space. -/
theorem exists_makes_user (smart : queue.self.type = .smart)
    (user : queue.self.state ≠ .pushSpecialMessage) (ring : Ring queue.memory log base refs)
    {payload : List UInt8} (nonempty : payload ≠ []) (two : queue.TwoRegions payload.length)
    (now : Nat) :
    ∃ made, queue.Makes log base payload now
      (decide (extent queue.memory.capacity (start queue.memory.capacity log log.length)
        payload.length ≤ min (Ring.free queue.memory log base) queue.availableSpace)) made := by
  have near := ring.near
  rcases exists_window smart user ring nonempty two queue.self.sid now with ⟨next, walk, same⟩
  rcases ring.spans.makeWindow queue.self.sid now nonempty (by unfold Ring.free; omega) walk with
    ⟨made, result, success, frame⟩
  refine ⟨made, ?_, ?_, fun fits => success (of_decide_eq_true fits), frame⟩
  · rw [basePushMessage, same, result]
    simp only [decide_eq_true_iff]
    rfl
  · intro fits
    have short := of_decide_eq_true fits
    unfold Fits
    unfold Ring.free at short
    omega

end Queue

end Qbus
