import Qbus.Queue.Simple
import Qbus.Queue.Tracking

/-! # What every call keeps

In any state at all, a call of an object of the classes that only read and write leaves the
settings of the queue and the identity of the object. -/

namespace Qbus

open MachineWord

def QueueType.Plain (type : QueueType) : Prop := type = .simple ∨ type = .shared

structure SameQueue (left right : QueueMemory) : Prop extends SameSettings left right where
  id : left.id = right.id
  counter : left.counter = right.counter ∨ left.counter < 2 ^ 32

namespace SameQueue

variable {memory left middle right : QueueMemory} {value : Nat} {data : ByteMemory}

theorem refl (memory : QueueMemory) : SameQueue memory memory :=
  ⟨.refl memory, rfl, .inl rfl⟩

theorem trans (leftSame : SameQueue left middle) (rightSame : SameQueue middle right) :
    SameQueue left right where
  toSameSettings := leftSame.toSameSettings.trans rightSame.toSameSettings
  id := leftSame.id.trans rightSame.id
  counter := by
    rcases leftSame.counter with same | bounded
    · rw [same]
      exact rightSame.counter
    · exact .inr bounded

theorem setData : SameQueue (memory.setData data) memory := by
  cases memory; exact ⟨.setData, rfl, .inl rfl⟩

theorem setHead : SameQueue (memory.setHead value) memory := by
  cases memory; exact ⟨.setHead, rfl, .inl rfl⟩

theorem setTail : SameQueue (memory.setTail value) memory := by
  cases memory; exact ⟨.setTail, rfl, .inl rfl⟩

theorem setCount : SameQueue (memory.setCount value) memory := by
  cases memory; exact ⟨.setCount, rfl, .inl rfl⟩

theorem incCounter : SameQueue memory.incCounter memory := by
  have bounded := Nat.mod_lt (memory.counter + 1) (Nat.two_pow_pos 32)
  cases memory; exact ⟨.incCounter, rfl, .inr bounded⟩

theorem clear : SameQueue memory.clear memory :=
  setCount.trans (setTail.trans setHead)

end SameQueue

theorem Outcome.returned {First Second : Type} {first : Outcome First}
    {second : First → Outcome Second} {result : Second}
    (returns : (first >>= second) = .ok result) :
    ∃ middle, first = .ok middle ∧ second middle = .ok result := by
  cases first with
  | error fault => cases returns
  | ok middle => exact ⟨middle, rfl, returns⟩

namespace Queue

/-- The same object, on the same queue. Only an object that is not simple moves its head. -/
structure Keeps (before after : Queue) : Prop where
  type : after.self.type = before.self.type
  state : after.self.state = before.self.state
  head : before.self.type = .simple → after.self.head = before.self.head
  counter : after.self.counter = before.self.counter ∨ after.self.counter < 2 ^ 32
  memory : SameQueue after.memory before.memory

namespace Keeps

variable {before middle after queue : Queue} {memory : QueueMemory}

theorem refl (queue : Queue) : Keeps queue queue :=
  ⟨rfl, rfl, fun _ => rfl, .inl rfl, .refl queue.memory⟩

theorem trans (first : Keeps before middle) (second : Keeps middle after) :
    Keeps before after where
  type := second.type.trans first.type
  state := second.state.trans first.state
  head := by
    intro simple
    rw [second.head (first.type.trans simple), first.head simple]
  counter := by
    rcases second.counter with same | bounded
    · rw [same]
      exact first.counter
    · exact .inr bounded
  memory := second.memory.trans first.memory

theorem plain (keeps : Keeps before after) (plain : before.self.type.Plain) :
    after.self.type.Plain := by
  rw [QueueType.Plain, keeps.type]
  exact plain

theorem setMemory (same : SameQueue memory queue.memory) : Keeps queue (queue.setMemory memory) :=
  ⟨rfl, rfl, fun _ => rfl, .inl rfl, same⟩

theorem cache (keeps : Keeps before after) (desc : MessageDesc) :
    Keeps before { after with self := { after.self with messageDesc := desc } } :=
  ⟨keeps.type, keeps.state, keeps.head, keeps.counter, keeps.memory⟩

end Keeps

variable {queue next : Queue}

theorem keeps_popMessage (plain : queue.self.type.Plain) {message : MessageDesc}
    (pops : queue.popMessage message = .ok next) : Keeps queue next := by
  cases first : message.first with
  | nil =>
      rw [popMessage, first] at pops
      cases pops
  | cons position rest =>
      rcases plain with simple | shared
      · rw [popMessage_of_simple simple first] at pops
        cases pops
        exact .setMemory (SameQueue.setCount.trans (SameQueue.setHead.trans SameQueue.setData))
      · rw [popMessage, first] at pops
        simp only [shared] at pops
        split at pops
        · cases pops
        · have same := Except.ok.inj pops
          subst same
          refine ⟨shared.symm, rfl, ?_, .inr (Nat.mod_lt _ (Nat.two_pow_pos 32)),
            SameQueue.setData⟩
          intro simple
          rw [shared] at simple
          cases simple

theorem keeps_cleanLoop {cnt : Nat} {info final : GarbageInfo}
    (cleans : cleanLoop cnt queue info = .ok (final, next)) : Keeps queue next := by
  induction cnt generalizing queue info with
  | zero =>
      cases cleans
      exact .refl _
  | succ cnt induction =>
      rcases Outcome.returned cleans with ⟨message, -, cleans⟩
      cases first : message.first with
      | nil =>
          rw [first] at cleans
          cases cleans
          exact .refl _
      | cons position rest =>
          rw [first] at cleans
          simp only at cleans
          split at cleans
          · cases cleans
            exact .refl _
          · have passed : SameQueue ((queue.memory.setHead message.second).setCount cnt)
                queue.memory := SameQueue.setCount.trans SameQueue.setHead
            exact (Keeps.setMemory passed).trans (induction cleans)

theorem keeps_cleanMessages (plain : queue.self.type.Plain) {info : GarbageInfo}
    (cleans : queue.cleanMessages = .ok (info, next)) : Keeps queue next := by
  rw [cleanMessages] at cleans
  rcases plain with simple | shared
  · rw [simple] at cleans
    cases cleans
    exact .refl queue
  · rw [shared] at cleans
    simp only [baseCleanMessages] at cleans
    split at cleans
    · rcases Outcome.returned cleans with ⟨⟨found, walked⟩, loops, cleans⟩
      cases cleans
      exact ⟨rfl, rfl, fun _ => rfl, .inl rfl, (keeps_cleanLoop loops).memory⟩
    · cases cleans
      exact .refl queue

theorem keeps_basePushMessage {data : List UInt8} {now : Nat} {message : MessageDesc}
    (pushes : queue.basePushMessage data now = .ok (message, next)) : Keeps queue next := by
  rcases Outcome.returned pushes with ⟨⟨made, bytes⟩, -, pushes⟩
  cases pushes
  exact .setMemory .setData

theorem keeps_pushMessage (plain : queue.self.type.Plain) {data : List UInt8} {now : Nat}
    {message : MessageDesc} (pushes : queue.pushMessage data now = .ok (message, next)) :
    Keeps queue next := by
  rw [pushMessage] at pushes
  rcases plain with simple | shared
  · rw [simple] at pushes
    exact keeps_basePushMessage pushes
  · rw [shared] at pushes
    rcases Outcome.returned pushes with ⟨⟨made, pushed⟩, base, pushes⟩
    have keeps := keeps_basePushMessage base
    cases first : made.first with
    | nil =>
        simp only [first] at pushes
        cases pushes
        exact keeps
    | cons position rest =>
        simp only [first] at pushes
        cases pushes
        exact keeps.trans (.setMemory (SameQueue.incCounter.trans SameQueue.setData))

theorem getMessage_of_plain (plain : queue.self.type.Plain) :
    queue.getMessage = (do return (← queue.baseGetMessage, queue)) := by
  rw [getMessage]
  rcases plain with simple | shared
  · rw [simple]
  · rw [shared]

theorem eq_of_getMessage (plain : queue.self.type.Plain) {message : MessageDesc}
    (gets : queue.getMessage = .ok (message, next)) : next = queue := by
  rw [getMessage_of_plain plain] at gets
  rcases Outcome.returned gets with ⟨found, -, gets⟩
  cases gets
  rfl

theorem keeps_doPush (plain : queue.self.type.Plain) {tag now : Nat} {data : List UInt8}
    {accepted : Bool} (pushes : queue.doPush tag data now = .ok (accepted, next)) :
    Keeps queue next := by
  rcases Outcome.returned pushes with ⟨⟨info, cleaned⟩, cleans, pushes⟩
  rcases Outcome.returned pushes with ⟨⟨message, made⟩, makes, pushes⟩
  have cleaning := keeps_cleanMessages plain cleans
  have making := keeps_pushMessage (cleaning.plain plain) makes
  cases first : message.first with
  | nil =>
      simp only [first] at pushes
      cases pushes
      exact cleaning.trans making
  | cons position rest =>
      simp only [first] at pushes
      cases pushes
      exact (cleaning.trans making).trans (.setMemory
        (SameQueue.setCount.trans (SameQueue.setTail.trans SameQueue.setData)))

theorem keeps_removeExpired (plain : queue.self.type.Plain) {tag now limit fuel : Nat}
    {data : List UInt8} {accepted : Bool}
    (removes : removeExpired tag data now limit fuel queue = .ok (accepted, next)) :
    Keeps queue next := by
  induction fuel generalizing queue with
  | zero => cases removes
  | succ fuel induction =>
      rw [removeExpired] at removes
      split at removes
      case isTrue none =>
        cases removes
        exact .refl _
      case isFalse some =>
        rcases Outcome.returned removes with ⟨⟨message, got⟩, gets, later⟩
        have same := eq_of_getMessage plain gets
        subst same
        cases first : message.first with
        | nil =>
            simp only [first] at later
            cases later
            exact .refl _
        | cons position rest =>
            simp only [first] at later
            split at later
            · cases later
              exact .refl _
            · rcases Outcome.returned later with ⟨popped, pops, pushing⟩
              rcases Outcome.returned pushing with ⟨⟨result, pushed⟩, pushes, last⟩
              have popping := keeps_popMessage plain pops
              have both := popping.trans (keeps_doPush (popping.plain plain) pushes)
              simp only at last
              split at last
              · cases last
                exact both
              · exact both.trans (induction (both.plain plain) last)

theorem keeps_push (plain : queue.self.type.Plain) {tag now : Nat} {data : List UInt8}
    {accepted : Bool} (pushes : queue.push tag data now = .ok (accepted, next)) :
    Keeps queue next := by
  rcases Outcome.returned pushes with ⟨⟨result, attempted⟩, attempt, pushes⟩
  have keeps := keeps_doPush plain attempt
  simp only at pushes
  split at pushes
  · cases pushes
    exact keeps
  · split at pushes
    · exact keeps.trans (keeps_removeExpired (keeps.plain plain) pushes)
    · cases pushes
      exact keeps

theorem keeps_get (plain : queue.self.type.Plain) {chain : Chain}
    (gets : queue.get = .ok (chain, next)) : Keeps queue next := by
  rw [get] at gets
  split at gets
  · rcases Outcome.returned gets with ⟨⟨message, read⟩, reads, later⟩
    have same := eq_of_getMessage plain reads
    subst same
    cases later
    exact (Keeps.refl _).cache message
  · cases gets
    exact .refl queue

theorem keeps_pop (plain : queue.self.type.Plain) {removed : Bool}
    (pops : queue.pop = .ok (removed, next)) : Keeps queue next := by
  rw [pop] at pops
  split at pops
  · have found : ∃ message, (queue.popMessage message >>= fun popped =>
        pure (true, { popped with
          self := { popped.self with messageDesc := { message with first := [] } } })) =
          .ok (removed, next) := by
      split at pops
      · rcases Outcome.returned pops with ⟨⟨message, read⟩, reads, later⟩
        have same := eq_of_getMessage plain reads
        subst same
        exact ⟨message, later⟩
      · exact ⟨queue.self.messageDesc, pops⟩
    rcases found with ⟨message, pops⟩
    rcases Outcome.returned pops with ⟨popped, removes, pops⟩
    cases pops
    exact (keeps_popMessage plain removes).cache { message with first := [] }
  · cases pops
    exact .refl queue

end Queue

end Qbus
