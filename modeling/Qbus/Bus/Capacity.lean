import Qbus.Bus.Growth

/-! # The capacity of the next connector

`make_connector` scales the capacity of the output connector in 32 bits, and
makes a connector only when it becomes larger. -/

namespace Qbus.Bus

namespace Specification

variable (spec : Specification) (old : UInt32)

def scaledCapacity : Nat :=
  min spec.maxCapacity.toNat
    (max spec.minCapacity.toNat (old.toNat * (100 + spec.capacityFactor.toNat) / 100))

theorem newCapacity_toNat : (spec.newCapacity old).toNat =
    min spec.maxCapacity.toNat (max spec.minCapacity.toNat
      (old.toNat * (100 + spec.capacityFactor.toNat) % 2 ^ 32 / 100)) := by
  have product : (old * (spec.capacityFactor + 100) / 100).toNat =
      old.toNat * (100 + spec.capacityFactor.toNat) % 2 ^ 32 / 100 := by
    rw [UInt32.toNat_div, UInt32.toNat_mul, UInt32.toNat_add, Nat.mul_mod_mod,
      Nat.add_comm spec.capacityFactor.toNat]
    rfl
  rw [newCapacity, ← product, Nat.min_comm, ← UInt32.toNat_max, ← UInt32.toNat_min]

variable {spec old}

theorem newCapacity_of_small
    (small : old.toNat * (100 + spec.capacityFactor.toNat) < 2 ^ 32) :
    (spec.newCapacity old).toNat = spec.scaledCapacity old := by
  rw [newCapacity_toNat, Nat.mod_eq_of_lt small, scaledCapacity]

theorem old_lt_scaled_iff : old.toNat < old.toNat * (100 + spec.capacityFactor.toNat) / 100 ↔
    100 ≤ old.toNat * spec.capacityFactor.toNat := by
  rw [Nat.lt_iff_add_one_le, Nat.le_div_iff_mul_le (by decide), Nat.mul_add]
  omega

/-- The capacity that `make_connector` computes is the scaled one and is larger than
the old one exactly when the product fits into 32 bits and adds a byte, or the
product is reduced to one that exceeds the limit still. -/
theorem newCapacity_grows_iff (lower : spec.minCapacity ≤ old) (upper : old < spec.maxCapacity) :
    ((spec.newCapacity old).toNat = spec.scaledCapacity old ∧ old < spec.newCapacity old) ↔
      old.toNat * (100 + spec.capacityFactor.toNat) < 2 ^ 32 ∧
          100 ≤ old.toNat * spec.capacityFactor.toNat ∨
        2 ^ 32 ≤ old.toNat * (100 + spec.capacityFactor.toNat) ∧ spec.maxCapacity.toNat ≤
          old.toNat * (100 + spec.capacityFactor.toNat) % 2 ^ 32 / 100 := by
  have grows := @old_lt_scaled_iff spec old
  rw [UInt32.le_iff_toNat_le] at lower
  rw [UInt32.lt_iff_toNat_lt] at upper
  rw [UInt32.lt_iff_toNat_lt, newCapacity_toNat, scaledCapacity]
  by_cases small : old.toNat * (100 + spec.capacityFactor.toNat) < 2 ^ 32
  · rw [Nat.mod_eq_of_lt small]
    omega
  · have bound := Nat.mod_lt (old.toNat * (100 + spec.capacityFactor.toNat)) (Nat.two_pow_pos 32)
    have reduced : old.toNat * (100 + spec.capacityFactor.toNat) % 2 ^ 32 / 100 <
        old.toNat * (100 + spec.capacityFactor.toNat) / 100 := by
      omega
    omega

end Specification

namespace Body

variable {Message : Type} {channel : Channel Message} {body : Body channel}
  {output : Connector channel} {front id : Nat} {rest : List Nat}

theorem makeConnector_of_absent (absent : body.connector id = none)
    (found : body.connector front = some output) (factor : 0 < body.spec.capacityFactor) :
    body.makeConnector (front :: rest) id =
      some (if output.capacity < body.spec.newCapacity output.capacity then
          (true, body.setConnector id ⟨body.spec.newCapacity output.capacity,
            channel.create (body.spec.newCapacity output.capacity)⟩)
        else (false, body)) := by
  have capacity : body.outputCapacity (front :: rest) = some output.capacity := by
    rw [outputCapacity, found]
    rfl
  rw [makeConnector, absent]
  simp only [capacity, Option.bind_eq_bind, Option.bind_some, factor, or_true, if_true, gt_iff_lt]
  split <;> rfl

/-- The next connector has the scaled capacity of the output connector, as long as the
product fits into 32 bits. It is made exactly when the scaling adds a byte. -/
theorem connector_capacity_grows (absent : body.connector id = none)
    (found : body.connector front = some output) (factor : 0 < body.spec.capacityFactor)
    (lower : body.spec.minCapacity ≤ output.capacity)
    (upper : output.capacity < body.spec.maxCapacity)
    (small : output.capacity.toNat * (100 + body.spec.capacityFactor.toNat) < 2 ^ 32) :
    (body.spec.newCapacity output.capacity).toNat =
        body.spec.scaledCapacity output.capacity ∧
      (output.capacity < body.spec.newCapacity output.capacity ↔
        100 ≤ output.capacity.toNat * body.spec.capacityFactor.toNat) ∧
      body.makeConnector (front :: rest) id =
        some (if 100 ≤ output.capacity.toNat * body.spec.capacityFactor.toNat then
            (true, body.setConnector id ⟨body.spec.newCapacity output.capacity,
              channel.create (body.spec.newCapacity output.capacity)⟩)
          else (false, body)) := by
  have scaled := Specification.newCapacity_of_small small
  have grows : output.capacity < body.spec.newCapacity output.capacity ↔
      100 ≤ output.capacity.toNat * body.spec.capacityFactor.toNat := by
    have exact := Specification.newCapacity_grows_iff lower upper
    rw [and_iff_right scaled] at exact
    rw [exact]
    constructor
    · rintro (⟨-, added⟩ | ⟨large, -⟩)
      · exact added
      · omega
    · intro added
      exact .inl ⟨small, added⟩
  refine ⟨scaled, grows, ?_⟩
  rw [makeConnector_of_absent absent found factor]
  simp only [grows]

end Body

/-- With the factor 100 the connector behind one of the capacity 2 has the capacity 4. -/
theorem connector_capacity_grows_doubled : ∃ body : Body (Channel.bounded (id : Nat → Nat)),
    body.spec = ⟨2, 16, 100⟩ ∧ (body.spec.newCapacity 2).toNat = 4 ∧
    body.makeConnector [0] 1 = some (true, body.setConnector 1 ⟨4, (4, [])⟩) := by
  have grown := @Body.connector_capacity_grows Nat (Channel.bounded id)
    (({ spec := ⟨2, 16, 100⟩ } : Body (Channel.bounded id)).setConnector 0 ⟨2, (2, [])⟩)
    ⟨2, (2, [])⟩ 0 1 [] rfl rfl (by decide) (by decide) (by decide) (by decide)
  exact ⟨_, rfl, grown.1, grown.2.2⟩

/-- With the factor 1 a capacity of 50 is scaled to itself. With the factor 100 a
capacity of `2 ^ 31` is scaled to zero, and the next connector would not be larger. -/
theorem connector_capacity_stays :
    (⟨50, 1000, 1⟩ : Specification).newCapacity 50 = 50 ∧
    (⟨50, 1000, 1⟩ : Specification).scaledCapacity 50 = 50 ∧
    (⟨50, 4294967295, 100⟩ : Specification).newCapacity 2147483648 ≠ 4294967295 ∧
    ¬(2147483648 < (⟨50, 4294967295, 100⟩ : Specification).newCapacity 2147483648) ∧
    (⟨50, 4294967295, 100⟩ : Specification).scaledCapacity 2147483648 = 4294967295 := by
  decide

end Qbus.Bus
