import Mathlib.Algebra.Ring.Nat

/-! Positions on a circle of `modulus` places. A position is counted without
ever wrapping around; its place is the remainder modulo `modulus`. Positions in
a window of at most `modulus` places are told apart by their places. -/

namespace Qbus.Circular

/-- Two positions at most one turn apart, as multiples of the turn plus their
places: the later one is in the same turn or in the next one. -/
theorem exists_turn {modulus earlier later : Nat} (positive : 0 < modulus)
    (ordered : earlier ≤ later) (near : later ≤ earlier + modulus) :
    ∃ turn, earlier = turn + earlier % modulus ∧
      (later = turn + later % modulus ∨ later = turn + modulus + later % modulus) := by
  refine ⟨modulus * (earlier / modulus), ?_, ?_⟩
  · have split := Nat.mod_add_div earlier modulus
    omega
  · have split := Nat.mod_add_div later modulus
    have lower : earlier / modulus ≤ later / modulus := Nat.div_le_div_right ordered
    have upper : later / modulus ≤ earlier / modulus + 1 := by
      have bound := Nat.div_le_div_right (c := modulus) near
      rwa [Nat.add_div_right _ positive] at bound
    rcases Nat.lt_or_ge (earlier / modulus) (later / modulus) with nextTurn | sameTurn
    · have quotient : later / modulus = earlier / modulus + 1 := by omega
      rw [quotient, Nat.mul_add, Nat.mul_one] at split
      omega
    · have quotient : later / modulus = earlier / modulus := by omega
      rw [quotient] at split
      omega

theorem mod_ne_of_lt {modulus earlier later : Nat} (ordered : earlier < later)
    (near : later < earlier + modulus) : earlier % modulus ≠ later % modulus := by
  intro samePlace
  have positive : 0 < modulus := by omega
  rcases exists_turn positive (Nat.le_of_lt ordered) (Nat.le_of_lt near) with
    ⟨turn, earlierSplit, laterSplit⟩
  omega

theorem add_mod_of_lt {modulus position offset : Nat}
    (fits : position % modulus + offset < modulus) :
    (position + offset) % modulus = position % modulus + offset := by
  rw [Nat.add_mod, Nat.mod_eq_of_lt (show offset < modulus by omega),
    Nat.mod_eq_of_lt fits]

theorem add_room_mod {modulus : Nat} (position : Nat) (positive : 0 < modulus) :
    (position + (modulus - position % modulus)) % modulus = 0 := by
  have bound := Nat.mod_lt position positive
  rw [Nat.add_mod]
  rcases Nat.eq_zero_or_pos (position % modulus) with isZero | isPositive
  · rw [isZero, Nat.sub_zero, Nat.mod_self, Nat.zero_add, Nat.zero_mod]
  · rw [Nat.mod_eq_of_lt (show modulus - position % modulus < modulus by omega),
      show position % modulus + (modulus - position % modulus) = modulus by omega,
      Nat.mod_self]

theorem add_room_add_mod {modulus position offset : Nat} (positive : 0 < modulus)
    (fits : offset < modulus) :
    (position + (modulus - position % modulus) + offset) % modulus = offset := by
  have base := add_room_mod position positive
  rw [add_mod_of_lt (by omega), base, Nat.zero_add]

def Covers (modulus first last place : Nat) : Prop :=
  ∃ position, first ≤ position ∧ position < last ∧ position % modulus = place

theorem Covers.mono {modulus first last first' last' place : Nat}
    (covers : Covers modulus first last place) (lower : first' ≤ first)
    (upper : last ≤ last') : Covers modulus first' last' place := by
  rcases covers with ⟨position, inLower, inUpper, placed⟩
  exact ⟨position, by omega, by omega, placed⟩

theorem Covers.disjoint {modulus first last first' last' place place' : Nat}
    (covers : Covers modulus first last place)
    (covers' : Covers modulus first' last' place')
    (ordered : last ≤ first') (near : last' ≤ first + modulus) : place ≠ place' := by
  rcases covers with ⟨position, lower, upper, placed⟩
  rcases covers' with ⟨position', lower', upper', placed'⟩
  rw [← placed, ← placed']
  exact mod_ne_of_lt (by omega) (by omega)

theorem covers_of_lt_end {modulus first last place : Nat}
    (lower : first % modulus ≤ place) (upper : place < modulus)
    (fits : first + (place - first % modulus) < last) :
    Covers modulus first last place := by
  refine ⟨first + (place - first % modulus), by omega, fits, ?_⟩
  rw [add_mod_of_lt (by omega)]
  omega

/-- The places from the beginning of the circle on, reached from `first` by
passing its end. -/
theorem covers_of_wrapped {modulus first last place : Nat} (positive : 0 < modulus)
    (upper : place < modulus)
    (fits : first + (modulus - first % modulus) + place < last) :
    Covers modulus first last place :=
  ⟨first + (modulus - first % modulus) + place, by omega, fits,
    add_room_add_mod positive upper⟩

end Qbus.Circular
