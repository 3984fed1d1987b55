import Qbus.Queue.Turned
import Qbus.Queue.World

/-! # Views and worlds that no call tells apart

Two objects whose counters are turned by the same amount answer every call in the same way. So
do the objects of two worlds, whatever sequence of calls is made. -/

namespace Qbus

open MachineWord

namespace Queue

/-- Two views that no call tells apart: the counters are turned, and the descriptions that
are cached are equal or empty. -/
structure Alike (turn own : Nat → Nat) (left right : Queue) : Prop where
  turned : right = left.turned turn own right.self.messageDesc
  turns : Turns left.self.type turn own
  cached : right.self.messageDesc = left.self.messageDesc ∨
    left.self.messageDesc.first = [] ∧ right.self.messageDesc.first = []

inductive SameAnswer {Value : Type} (turn own : Nat → Nat) :
    Outcome (Value × Queue) → Outcome (Value × Queue) → Prop
  | failed {fault} : SameAnswer turn own (.error fault) (.error fault)
  | returned {value left right} (alike : left.Alike turn own right) :
      SameAnswer turn own (.ok (value, left)) (.ok (value, right))

namespace Alike

variable {turn own : Nat → Nat} {left right : Queue} (alike : left.Alike turn own right)
include alike

theorem memory : right.memory = left.memory.turned turn :=
  congrArg Queue.memory alike.turned

theorem count : right.count = left.count := by
  rw [alike.turned, turned_count _ alike.turns]

theorem push (tag : Nat) (data : List UInt8) (now : Nat) :
    SameAnswer turn own (left.push tag data now) (right.push tag data now) := by
  rw [alike.turned, turned_push _ alike.turns]
  cases pushes : left.push tag data now with
  | error fault => exact .failed
  | ok pushed =>
      rcases pushed with ⟨accepted, next⟩
      have keeps := keeps_push alike.turns.plain pushes
      refine .returned ⟨rfl, keeps.turns alike.turns, ?_⟩
      rw [push_messageDesc alike.turns.plain pushes]
      exact alike.cached

theorem get : SameAnswer turn own left.get right.get := by
  rw [Queue.get, Queue.get, alike.count]
  split
  · have gets := turned_getMessage right.self.messageDesc alike.turns
    rw [← alike.turned] at gets
    rw [gets]
    cases reads : left.getMessage with
    | error fault => exact .failed
    | ok read =>
        rcases read with ⟨message, read⟩
        have same := eq_of_getMessage alike.turns.plain reads
        subst same
        exact .returned ⟨rfl, alike.turns, .inl rfl⟩
  · exact .returned alike

theorem popFound (message : MessageDesc) :
    SameAnswer turn own
      (left.popMessage message >>= fun popped => pure (true, { popped with
        self := { popped.self with messageDesc := { message with first := [] } } }))
      (right.popMessage message >>= fun popped => pure (true, { popped with
        self := { popped.self with messageDesc := { message with first := [] } } })) := by
  have pops := turned_popMessage right.self.messageDesc alike.turns message
  rw [← alike.turned] at pops
  rw [pops]
  cases removes : left.popMessage message with
  | error fault => exact .failed
  | ok popped =>
      have keeps := keeps_popMessage alike.turns.plain removes
      exact .returned ⟨rfl, keeps.turns alike.turns, .inl rfl⟩

theorem pop : SameAnswer turn own left.pop right.pop := by
  rw [Queue.pop, Queue.pop, alike.count]
  split
  · by_cases none : left.self.messageDesc.first = []
    · have also : right.self.messageDesc.first = [] := by
        rcases alike.cached with same | ⟨-, also⟩
        · rw [same]
          exact none
        · exact also
      have gets := turned_getMessage right.self.messageDesc alike.turns
      rw [← alike.turned] at gets
      rw [if_pos none, if_pos also, gets]
      cases reads : left.getMessage with
      | error fault => exact .failed
      | ok read =>
          rcases read with ⟨message, read⟩
          have same := eq_of_getMessage alike.turns.plain reads
          subst same
          simp only [Except.map, turnedResult, ← alike.turned]
          exact alike.popFound message
    · have same : right.self.messageDesc = left.self.messageDesc := by
        rcases alike.cached with same | ⟨absent, -⟩
        · exact same
        · exact absurd absent none
      rw [same, if_neg none, if_neg none]
      exact alike.popFound left.self.messageDesc
  · exact .returned alike

end Alike

end Queue

/-! ## Worlds that no call tells apart -/

/-- A call of `push`, `get` or `pop` through one of the objects. -/
def Action.Uses (live : Finset Nat) : Action → Prop
  | .push id _ _ _ => id ∈ live
  | .get id => id ∈ live
  | .pop id => id ∈ live
  | .attach _ _ _ _ | .clean _ | .destroy _ _ | .keepaliveTimeout _ => False

namespace World

def replies : World → List Action → Outcome (List Result)
  | _, [] => .ok []
  | world, action :: rest => do
      let (result, next) ← world.perform action
      let results ← next.replies rest
      return result :: results

structure Alike (turn : Nat → Nat) (live : Finset Nat) (left right : World) : Prop where
  memory : right.memory = left.memory.turned turn
  queues : ∀ id ∈ live, ∃ own, (left.queue id).Alike turn own (right.queue id)

inductive SameReply (turn : Nat → Nat) (live : Finset Nat) :
    Outcome (Result × World) → Outcome (Result × World) → Prop
  | failed {fault} : SameReply turn live (.error fault) (.error fault)
  | returned {result left right} (alike : Alike turn live left right) :
      SameReply turn live (.ok (result, left)) (.ok (result, right))

namespace Alike

variable {turn own : Nat → Nat} {live : Finset Nat} {left right : World}
  (alike : Alike turn live left right)
include alike

theorem update {id : Nat} {next after : Queue} (same : next.Alike turn own after) :
    Alike turn live (left.update id next) (right.update id after) where
  memory := same.memory
  queues := by
    intro other isLive
    by_cases equal : other = id
    · rw [equal, update_queue_self, update_queue_self]
      exact ⟨own, same⟩
    · rcases alike.queues other isLive with ⟨own, before⟩
      have leftHandle := update_handle_of_ne left next equal
      have rightHandle := update_handle_of_ne right after equal
      refine ⟨own, ?_, ?_, ?_⟩
      · rw [World.queue, World.queue, leftHandle, rightHandle, update_memory, update_memory,
          same.memory]
        exact congrArg (Queue.mk (next.memory.turned turn)) (congrArg Queue.self before.turned)
      · rw [World.queue, leftHandle]
        exact before.turns
      · rw [World.queue, World.queue, leftHandle, rightHandle]
        exact before.cached

theorem answer {Value : Type} {id : Nat} {first second : Outcome (Value × Queue)}
    (same : Queue.SameAnswer turn own first second) (reply : Value → QueueMemory → Result)
    (reads : ∀ value memory, reply value (QueueMemory.turned turn memory) = reply value memory) :
    SameReply turn live
      (first >>= fun answered => pure (reply answered.1 answered.2.memory,
        left.update id answered.2))
      (second >>= fun answered => pure (reply answered.1 answered.2.memory,
        right.update id answered.2)) := by
  cases same with
  | failed => exact .failed
  | returned same =>
      simp only [Bind.bind, Except.bind, pure, Except.pure, same.memory, reads]
      exact .returned (alike.update same)

theorem perform {action : Action} (uses : action.Uses live) :
    SameReply turn live (left.perform action) (right.perform action) := by
  cases action with
  | push id tag data now =>
      rcases alike.queues id uses with ⟨own, same⟩
      exact alike.answer (same.push tag.toNat data now) (fun accepted _ => .pushed accepted)
        fun _ _ => rfl
  | get id =>
      rcases alike.queues id uses with ⟨own, same⟩
      exact alike.answer same.get
        (fun chain memory => .message (MessageView.ofChain memory.data chain)) fun _ _ => rfl
  | pop id =>
      rcases alike.queues id uses with ⟨own, same⟩
      exact alike.answer same.pop (fun removed _ => .popped removed) fun _ _ => rfl
  | attach => cases uses
  | clean => cases uses
  | destroy => cases uses
  | keepaliveTimeout => cases uses

end Alike

theorem Alike.replies {turn : Nat → Nat} {live : Finset Nat} {left right : World}
    (alike : Alike turn live left right) (actions : List Action)
    (uses : ∀ action ∈ actions, action.Uses live) :
    left.replies actions = right.replies actions := by
  induction actions generalizing left right with
  | nil => rfl
  | cons action rest induction =>
      have first := alike.perform (uses action List.mem_cons_self)
      have later : ∀ other ∈ rest, other.Uses live := fun other member =>
        uses other (List.mem_cons_of_mem action member)
      rw [World.replies, World.replies]
      generalize left.perform action = leftReply at first
      generalize right.perform action = rightReply at first
      cases first with
      | failed => rfl
      | returned alike =>
          simp only [Bind.bind, Except.bind]
          rw [induction alike later]

end World

end Qbus
