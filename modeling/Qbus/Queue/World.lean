import Qbus.Queue.Queue
import Mathlib.Data.Finset.Card

/-! # Runs of the queue objects on one memory

A `World` is a queue memory together with the queue objects attached to it. The
member functions of the objects are executed one at a time, in any order. -/

namespace Qbus

structure World where
  memory : QueueMemory
  /-- The attached objects. -/
  live : Finset Nat
  handle : Nat → Handle

/-- A call of a member function of the object `id`, or the construction or
destruction of this object. `now` and `clock` are the readings of the clock.
Setting the timeout does not depend on the object. -/
inductive Action where
  | attach (id : Nat) (type : QueueType) (sid : Nat) (clock : List Nat)
  | push (id : Nat) (tag : UInt32) (data : List UInt8) (now : Nat)
  | get (id : Nat)
  | pop (id : Nat)
  | clean (id : Nat)
  | destroy (id : Nat) (clock : List Nat)
  | keepaliveTimeout (value : Nat)
deriving DecidableEq, Repr

/-- What a caller sees of a message: its tag, `data_size()` and the bytes that
`unpack` delivers. -/
structure MessageView where
  tag : Nat
  size : Nat
  bytes : List UInt8
deriving DecidableEq, Repr

inductive Result where
  | done
  | pushed (accepted : Bool)
  | message (view : Option MessageView)
  | popped (removed : Bool)
  | cleaned (count : Nat)
deriving DecidableEq, Repr

namespace MessageView

def ofChain (memory : ByteMemory) : Chain → Option MessageView
  | [] => none
  | position :: rest => some {
      tag := Message.tag memory position
      size := Message.dataSize memory (position :: rest)
      bytes := Message.unpack memory (position :: rest) }

end MessageView

namespace World

def queue (world : World) (id : Nat) : Queue := ⟨world.memory, world.handle id⟩

def update (world : World) (id : Nat) (queue : Queue) : World :=
  { world with
    memory := queue.memory
    handle := Function.update world.handle id queue.self }

@[simp] theorem update_memory (world : World) (id : Nat) (queue : Queue) :
    (world.update id queue).memory = queue.memory := rfl

@[simp] theorem update_live (world : World) (id : Nat) (queue : Queue) :
    (world.update id queue).live = world.live := rfl

@[simp] theorem update_handle_self (world : World) (id : Nat) (queue : Queue) :
    (world.update id queue).handle id = queue.self := by
  simp [update]

theorem update_handle_of_ne (world : World) {id other : Nat} (queue : Queue)
    (different : other ≠ id) : (world.update id queue).handle other = world.handle other := by
  simp [update, different]

@[simp] theorem update_queue_self (world : World) (id : Nat) (queue : Queue) :
    (world.update id queue).queue id = queue := by
  simp [World.queue]

def Enabled (world : World) : Action → Prop
  | .attach id _ _ _ => id ∉ world.live
  | .push id _ _ _ => id ∈ world.live
  | .get id => id ∈ world.live ∧ (world.handle id).type ≠ .unreadable
  | .pop id => id ∈ world.live ∧ (world.handle id).type ≠ .unreadable
  | .clean id => id ∈ world.live
  | .destroy id _ => id ∈ world.live
  | .keepaliveTimeout _ => True

instance (world : World) : DecidablePred world.Enabled
  | .attach id _ _ _ => inferInstanceAs (Decidable (id ∉ world.live))
  | .push id _ _ _ => inferInstanceAs (Decidable (id ∈ world.live))
  | .get id => inferInstanceAs
      (Decidable (id ∈ world.live ∧ (world.handle id).type ≠ .unreadable))
  | .pop id => inferInstanceAs
      (Decidable (id ∈ world.live ∧ (world.handle id).type ≠ .unreadable))
  | .clean id => inferInstanceAs (Decidable (id ∈ world.live))
  | .destroy id _ => inferInstanceAs (Decidable (id ∈ world.live))
  | .keepaliveTimeout _ => inferInstanceAs (Decidable True)

def perform (world : World) : Action → Outcome (Result × World)
  | .attach id type sid clock => do
      let queue ← Queue.attach world.memory type sid clock
      return (.done, { world.update id queue with live := insert id world.live })
  | .push id tag data now => do
      let (accepted, queue) ← (world.queue id).push tag.toNat data now
      return (.pushed accepted, world.update id queue)
  | .get id => do
      let (chain, queue) ← (world.queue id).get
      return (.message (MessageView.ofChain queue.memory.data chain),
        world.update id queue)
  | .pop id => do
      let (removed, queue) ← (world.queue id).pop
      return (.popped removed, world.update id queue)
  | .clean id => do
      let (count, queue) ← (world.queue id).clean
      return (.cleaned count, world.update id queue)
  | .destroy id clock => do
      let memory ← (world.queue id).destroy clock
      return (.done, { world with memory := memory, live := world.live.erase id })
  | .keepaliveTimeout value =>
      return (.done, { world with memory := world.memory.setKeepaliveTimeout value })

def liveAfter (world : World) : Action → Finset Nat
  | .attach id _ _ _ => insert id world.live
  | .destroy id _ => world.live.erase id
  | _ => world.live

theorem perform_live {world next : World} {action : Action} {result : Result}
    (performed : world.perform action = .ok (result, next)) :
    next.live = world.liveAfter action := by
  cases action <;> simp only [perform, Bind.bind, Except.bind, pure, Except.pure] at performed
  case keepaliveTimeout => cases performed; rfl
  all_goals
    split at performed
    · cases performed
    · cases performed; rfl

def Step (world : World) (label : Action × Result) (next : World) : Prop :=
  world.Enabled label.1 ∧ world.perform label.1 = .ok (label.2, next)

def created (id : Nat) (queue : Queue) : World where
  memory := queue.memory
  live := {id}
  handle := fun _ => queue.self

end World

end Qbus
