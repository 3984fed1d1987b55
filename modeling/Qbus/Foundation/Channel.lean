import Mathlib.Algebra.Ring.Nat
import Mathlib.Algebra.Order.BigOperators.Group.List

/-! # Channels

A first-in first-out queue of some capacity. It may refuse a message. -/

namespace Qbus

structure Channel (Message : Type) where
  State : Type
  create : (capacity : UInt32) → State
  push : State → Message → Bool × State
  get : State → Option Message
  pop : State → Bool × State
  /-- The messages from the oldest to the newest. -/
  contents : State → List Message
  contents_create : ∀ capacity, contents (create capacity) = []
  contents_push : ∀ state message, contents (push state message).2 =
    if (push state message).1 then contents state ++ [message] else contents state
  get_eq : ∀ state, get state = (contents state).head?
  pop_eq : ∀ state, (pop state).1 = !(contents state).isEmpty
  contents_pop : ∀ state, contents (pop state).2 = (contents state).tail

namespace Channel

variable {Message : Type}

def bounded (size : Message → Nat) : Channel Message where
  State := UInt32 × List Message
  create := fun capacity => (capacity, [])
  push := fun state message =>
    if ((state.2 ++ [message]).map size).sum ≤ state.1.toNat then
      (true, state.1, state.2 ++ [message])
    else
      (false, state)
  get := fun state => state.2.head?
  pop := fun state => (!state.2.isEmpty, state.1, state.2.tail)
  contents := Prod.snd
  contents_create := fun _ => rfl
  contents_push := by
    intro state message
    split <;> rfl
  get_eq := fun _ => rfl
  pop_eq := fun _ => rfl
  contents_pop := fun _ => rfl

end Channel

end Qbus
