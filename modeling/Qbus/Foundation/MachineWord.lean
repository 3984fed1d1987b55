import Mathlib.Algebra.Ring.Nat

/-! Subtraction of fixed-width unsigned machine words. Values are natural
numbers below `2 ^ width`; only subtraction can leave that range downwards, and
it then wraps around. -/

namespace Qbus.MachineWord

def sub (width left right : Nat) : Nat :=
  (left + (2 ^ width - right % 2 ^ width)) % 2 ^ width

abbrev sub32 (left right : Nat) : Nat := sub 32 left right

abbrev sub64 (left right : Nat) : Nat := sub 64 left right

example : sub32 5 7 = 4294967294 := rfl

theorem sub_lt (width left right : Nat) : sub width left right < 2 ^ width :=
  Nat.mod_lt _ (Nat.two_pow_pos width)

theorem sub32_lt (left right : Nat) : sub32 left right < 2 ^ 32 := sub_lt 32 left right

theorem sub_of_le {width left right : Nat} (ordered : right ≤ left)
    (bounded : left < 2 ^ width) : sub width left right = left - right := by
  have rightBounded : right % 2 ^ width = right :=
    Nat.mod_eq_of_lt (Nat.lt_of_le_of_lt ordered bounded)
  rw [sub, rightBounded]
  have rearranged : left + (2 ^ width - right) = left - right + 2 ^ width := by
    omega
  rw [rearranged, Nat.add_mod_right, Nat.mod_eq_of_lt (by omega)]

theorem sub32_of_le {left right : Nat} (ordered : right ≤ left)
    (bounded : left < 2 ^ 32) : sub32 left right = left - right :=
  sub_of_le ordered bounded

theorem sub64_of_le {left right : Nat} (ordered : right ≤ left)
    (bounded : left < 2 ^ 64) : sub64 left right = left - right :=
  sub_of_le ordered bounded

/-- The distance of two counters is recovered from their low `width` bits as
long as it fits into `width` bits, however often the counters have wrapped. -/
theorem sub_mod_mod {width left right : Nat} (ordered : right ≤ left)
    (near : left - right < 2 ^ width) :
    sub width (left % 2 ^ width) (right % 2 ^ width) = left - right := by
  have positive : 0 < 2 ^ width := Nat.two_pow_pos width
  have rightBounded : right % 2 ^ width < 2 ^ width := Nat.mod_lt _ positive
  have decomposed : left % 2 ^ width + (2 ^ width - right % 2 ^ width) +
      2 ^ width * (left / 2 ^ width) =
      left - right + 2 ^ width * (right / 2 ^ width + 1) := by
    have leftSplit := Nat.mod_add_div left (2 ^ width)
    have rightSplit := Nat.mod_add_div right (2 ^ width)
    rw [Nat.mul_add, Nat.mul_one]
    omega
  have reduced := congrArg (· % 2 ^ width) decomposed
  simp only [Nat.add_mul_mod_self_left] at reduced
  rw [sub, Nat.mod_mod, reduced, Nat.mod_eq_of_lt near]

/-- Stepping a wrapped counter back by one is undone by stepping the distance
forward by one. -/
theorem sub_pred_right {width left right : Nat} (positive : 0 < width)
    (leftBounded : left < 2 ^ width) (rightBounded : right < 2 ^ width) :
    sub width left (sub width right 1) = (sub width left right + 1) % 2 ^ width := by
  have one : 1 < 2 ^ width := Nat.one_lt_two_pow (by omega)
  have oneMod : 1 % 2 ^ width = 1 := Nat.mod_eq_of_lt one
  have rightMod : right % 2 ^ width = right := Nat.mod_eq_of_lt rightBounded
  unfold sub
  rw [oneMod, rightMod]
  generalize 2 ^ width = modulus at *
  cases right with
  | zero =>
      have wrapped : (0 + (modulus - 1)) % modulus = modulus - 1 := by
        rw [Nat.zero_add]
        exact Nat.mod_eq_of_lt (by omega)
      have leftMod : left % modulus = left := Nat.mod_eq_of_lt leftBounded
      rw [wrapped, Nat.mod_eq_of_lt (show modulus - 1 < modulus by omega)]
      rw [show left + (modulus - (modulus - 1)) = left + 1 by omega,
        Nat.sub_zero, Nat.add_mod_right, leftMod]
  | succ previous =>
      have stepped : (previous + 1 + (modulus - 1)) % modulus = previous := by
        rw [show previous + 1 + (modulus - 1) = previous + modulus by omega,
          Nat.add_mod_right, Nat.mod_eq_of_lt (by omega)]
      rw [stepped, Nat.mod_eq_of_lt (show previous < modulus by omega),
        Nat.mod_add_mod]
      congr 1
      omega

theorem sub_mod (width left right : Nat) :
    sub width (left % 2 ^ width) (right % 2 ^ width) = sub width left right := by
  rw [sub, sub, Nat.mod_mod, Nat.mod_add_mod]

theorem sub_pred_mod {width : Nat} (positive : 0 < width) (left right : Nat) :
    sub width left (sub width right 1) = (sub width left right + 1) % 2 ^ width := by
  have bound : ∀ value, value % 2 ^ width < 2 ^ width :=
    fun value => Nat.mod_lt value (Nat.two_pow_pos width)
  have predecessor : sub width right 1 = sub width (right % 2 ^ width) 1 := by
    rw [sub, sub, Nat.mod_add_mod]
  rw [← sub_mod width left, predecessor, Nat.mod_eq_of_lt (sub_lt width _ _),
    sub_pred_right positive (bound left) (bound right), sub_mod]

end Qbus.MachineWord
