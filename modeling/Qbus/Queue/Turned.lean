import Qbus.Queue.Frame

/-! # Counters that are turned

A queue object compares the counters of pushed messages only with each other. When all of
them are turned by the same amount, no call returns anything else. -/

namespace Qbus

open MachineWord

structure Rotates (turn : Nat → Nat) : Prop where
  distance : ∀ left right, sub32 (turn left) (turn right) = sub32 left right
  forward : ∀ value, (turn value + 1) % 2 ^ 32 = turn ((value + 1) % 2 ^ 32)
  backward : ∀ value, sub32 (turn value) 1 = turn (sub32 value 1)

theorem Rotates.none : Rotates fun value => value :=
  ⟨fun _ _ => rfl, fun _ => rfl, fun _ => rfl⟩

theorem Rotates.add (amount : Nat) : Rotates fun value => (value + amount) % 2 ^ 32 where
  distance := by
    intro left right
    unfold sub32 MachineWord.sub
    omega
  forward := by
    intro value
    omega
  backward := by
    intro value
    unfold sub32 MachineWord.sub
    omega

/-- What may be done to the counter of the queue and to that of an object of the class `type`.
A simple queue has none, so that everything may be done to them. -/
def Turns (type : QueueType) (turn own : Nat → Nat) : Prop :=
  type = .simple ∨ type = .shared ∧ own = turn ∧ Rotates turn

theorem Turns.plain {type : QueueType} {turn own : Nat → Nat} (turns : Turns type turn own) :
    type.Plain :=
  turns.imp_right And.left

namespace QueueMemory

def turned (turn : Nat → Nat) (memory : QueueMemory) : QueueMemory :=
  { memory with counter := turn memory.counter }

variable (turn : Nat → Nat) (memory : QueueMemory) (value : Nat) (data : ByteMemory)

@[simp] theorem turned_data : (memory.turned turn).data = memory.data := by
  cases memory; rfl

@[simp] theorem turned_capacity : (memory.turned turn).capacity = memory.capacity := by
  cases memory; rfl

@[simp] theorem turned_storedCount : (memory.turned turn).count = memory.count := by
  cases memory; rfl

@[simp] theorem turned_subscriptionsCount :
    (memory.turned turn).subscriptionsCount = memory.subscriptionsCount := by
  cases memory; rfl

@[simp] theorem turned_keepaliveTimeout :
    (memory.turned turn).keepaliveTimeout = memory.keepaliveTimeout := by
  cases memory; rfl

@[simp] theorem turned_setData :
    (memory.turned turn).setData data = (memory.setData data).turned turn := by
  cases memory; rfl

@[simp] theorem turned_setHead :
    (memory.turned turn).setHead value = (memory.setHead value).turned turn := by
  cases memory; rfl

@[simp] theorem turned_setTail :
    (memory.turned turn).setTail value = (memory.setTail value).turned turn := by
  cases memory; rfl

@[simp] theorem turned_setCount :
    (memory.turned turn).setCount value = (memory.setCount value).turned turn := by
  cases memory; rfl

theorem turned_incCounter {turn : Nat → Nat} (rotates : Rotates turn) :
    (memory.turned turn).incCounter = memory.incCounter.turned turn := by
  rw [incCounter, incCounter, turned, turned, rotates.forward]

end QueueMemory

namespace Queue

def turned (turn own : Nat → Nat) (desc : MessageDesc) (queue : Queue) : Queue where
  memory := queue.memory.turned turn
  self := { queue.self with counter := own queue.self.counter, messageDesc := desc }

def turnedResult {Value : Type} (turn own : Nat → Nat) (desc : MessageDesc) :
    Value × Queue → Value × Queue
  | (value, queue) => (value, queue.turned turn own desc)

variable {turn own : Nat → Nat} {queue next : Queue} (desc : MessageDesc)

@[simp] theorem turned_memory :
    (queue.turned turn own desc).memory = queue.memory.turned turn := by
  cases queue; rfl

@[simp] theorem turned_type : (queue.turned turn own desc).self.type = queue.self.type := by
  cases queue; rfl

@[simp] theorem turned_setMemory (memory : QueueMemory) :
    (queue.turned turn own desc).setMemory (memory.turned turn) =
      (queue.setMemory memory).turned turn own desc := by
  cases queue; rfl

theorem Keeps.turns (keeps : Keeps queue next) (turns : Turns queue.self.type turn own) :
    Turns next.self.type turn own := by
  rw [keeps.type]
  exact turns

section Turns

variable (turns : Turns queue.self.type turn own)
include turns

theorem turned_count : (queue.turned turn own desc).count = queue.count := by
  rcases turns with simple | ⟨shared, rfl, rotates⟩
  · rw [count, count, turned_type, simple]
    rfl
  · rw [count, count, turned_type, shared]
    exact rotates.distance queue.memory.counter queue.self.counter

theorem turned_empty : (queue.turned turn own desc).empty = queue.empty := by
  rw [empty, turned_count desc turns, empty]

theorem turned_getBusyRegion :
    (queue.turned turn own desc).getBusyRegion = queue.getBusyRegion := by
  funext previous
  rw [getBusyRegion, turned_empty desc turns]
  rfl

theorem turned_baseGetMessage :
    (queue.turned turn own desc).baseGetMessage = queue.baseGetMessage := by
  rw [baseGetMessage, turned_getBusyRegion desc turns]
  rfl

theorem turned_getMessage :
    (queue.turned turn own desc).getMessage =
      queue.getMessage.map (turnedResult turn own desc) := by
  have same : (queue.turned turn own desc).self.type.Plain := turns.plain
  rw [getMessage_of_plain turns.plain, getMessage_of_plain same,
    turned_baseGetMessage desc turns]
  cases queue.baseGetMessage with
  | error fault => rfl
  | ok message => rfl

theorem turned_popMessage (message : MessageDesc) :
    (queue.turned turn own desc).popMessage message =
      (queue.popMessage message).map (turned turn own desc) := by
  rw [popMessage, popMessage, turned_memory, turned_type, QueueMemory.turned_data]
  cases message.first with
  | nil => rfl
  | cons position rest =>
      simp only [QueueMemory.turned_setData, QueueMemory.turned_setHead,
        QueueMemory.turned_storedCount, QueueMemory.turned_setCount, turned_setMemory,
        QueueMemory.turned_capacity]
      rcases turns with simple | ⟨shared, rfl, rotates⟩
      · simp only [simple, pure, Except.pure, Except.map]
      · have forward := rotates.forward queue.self.counter
        rw [shared]
        simp only
        by_cases wrong : (Message.decCounter queue.memory.data position).1 = 2 ^ 32 - 1
        · rw [if_pos wrong, if_pos wrong]
          simp only [throw, throwThe, MonadExceptOf.throw, Bind.bind, Except.bind, Except.map]
        · rw [if_neg wrong, if_neg wrong]
          simp only [turned, forward, shared, pure, Except.pure, Except.map]

theorem turned_cleanLoop (shared : queue.self.type = .shared) (cnt : Nat) (info : GarbageInfo) :
    cleanLoop cnt (queue.turned turn own desc) info =
      (cleanLoop cnt queue info).map (turnedResult turn own desc) := by
  induction cnt generalizing queue info with
  | zero => rfl
  | succ cnt induction =>
      rw [cleanLoop, cleanLoop, turned_baseGetMessage desc turns]
      cases queue.baseGetMessage with
      | error fault => rfl
      | ok message =>
          simp only [Bind.bind, Except.bind, turned_memory, QueueMemory.turned_data,
            QueueMemory.turned_setHead, QueueMemory.turned_setCount, turned_setMemory]
          cases message.first with
          | nil => rfl
          | cons position rest =>
              simp only
              split
              · rfl
              · apply induction
                · exact turns
                · exact shared

theorem turned_cleanMessages :
    (queue.turned turn own desc).cleanMessages =
      queue.cleanMessages.map (turnedResult turn own desc) := by
  rw [cleanMessages, cleanMessages, turned_type]
  rcases id turns with simple | ⟨shared, rfl, rotates⟩
  · rw [simple]
    rfl
  · have walks := @turned_cleanLoop own own { queue with self := { queue.self with
      head := sharedHead, counter := sub32 queue.self.counter 1 } } desc turns shared
      queue.memory.count ⟨0, 0⟩
    rw [turned, ← rotates.backward] at walks
    rw [shared]
    simp only [baseCleanMessages, turned_memory, QueueMemory.turned_storedCount]
    split
    · simp only [turned, walks, Bind.bind, Except.bind]
      cases cleanLoop queue.memory.count { queue with self := { queue.self with
          head := sharedHead, counter := sub32 queue.self.counter 1 } } ⟨0, 0⟩ with
      | error fault => rfl
      | ok walked => rfl
    · rfl

theorem turned_getFreeRegion :
    (queue.turned turn own desc).getFreeRegion = queue.getFreeRegion := by
  have unrestricted : queue.Unrestricted := by
    rcases turns.plain with simple | shared
    · exact .inl (by simp [simple])
    · exact .inl (by simp [shared])
  have same : (queue.turned turn own desc).Unrestricted := unrestricted
  rw [getFreeRegion_eq unrestricted, getFreeRegion_eq same]
  funext previous
  cases previous <;> rfl

theorem turned_basePushMessage (data : List UInt8) (now : Nat) :
    (queue.turned turn own desc).basePushMessage data now =
      (queue.basePushMessage data now).map (turnedResult turn own desc) := by
  have sid : (queue.turned turn own desc).self.sid = queue.self.sid := rfl
  have fuel : (queue.turned turn own desc).memory.fuel = queue.memory.fuel := rfl
  rw [basePushMessage, basePushMessage, turned_getFreeRegion desc turns, sid, fuel,
    turned_memory, QueueMemory.turned_data]
  simp only [Bind.bind, Except.bind, QueueMemory.turned_setData, turned_setMemory]
  cases Message.staticMakeMessage queue.getFreeRegion queue.memory.fuel queue.self.sid now
    queue.memory.data data with
  | error fault => rfl
  | ok made => rfl

theorem turned_pushMessage (data : List UInt8) (now : Nat) :
    (queue.turned turn own desc).pushMessage data now =
      (queue.pushMessage data now).map (turnedResult turn own desc) := by
  rw [pushMessage, pushMessage, turned_type]
  rcases id turns with simple | ⟨shared, rfl, rotates⟩
  · rw [simple]
    exact turned_basePushMessage desc turns data now
  · simp only [shared]
    rw [sharedPushMessage, sharedPushMessage, turned_basePushMessage desc turns]
    cases queue.basePushMessage data now with
    | error fault => rfl
    | ok made =>
        rcases made with ⟨message, pushed⟩
        simp only [Except.map, turnedResult, Bind.bind, Except.bind, turned_memory,
          QueueMemory.turned_data, QueueMemory.turned_subscriptionsCount,
          QueueMemory.turned_setData, QueueMemory.turned_incCounter _ rotates,
          turned_setMemory]
        cases message.first with
        | nil => rfl
        | cons position rest => rfl

theorem turned_doPush (tag : Nat) (data : List UInt8) (now : Nat) :
    (queue.turned turn own desc).doPush tag data now =
      (queue.doPush tag data now).map (turnedResult turn own desc) := by
  rw [doPush, doPush, turned_cleanMessages desc turns]
  cases cleans : queue.cleanMessages with
  | error fault => rfl
  | ok cleaned =>
      rcases cleaned with ⟨info, cleaned⟩
      have still := (keeps_cleanMessages turns.plain cleans).turns turns
      simp only [Except.map, turnedResult, Bind.bind, Except.bind,
        turned_pushMessage desc still]
      cases cleaned.pushMessage data now with
      | error fault => rfl
      | ok made =>
          rcases made with ⟨message, made⟩
          simp only [turned_memory, QueueMemory.turned_data, QueueMemory.turned_setData,
            QueueMemory.turned_setTail, QueueMemory.turned_storedCount,
            QueueMemory.turned_setCount, turned_setMemory]
          cases message.first with
          | nil => rfl
          | cons position rest => rfl

theorem turned_removeExpired (tag : Nat) (data : List UInt8) (now limit fuel : Nat) :
    removeExpired tag data now limit fuel (queue.turned turn own desc) =
      (removeExpired tag data now limit fuel queue).map (turnedResult turn own desc) := by
  induction fuel generalizing queue with
  | zero => rfl
  | succ fuel induction =>
      rw [removeExpired, removeExpired, turned_empty desc turns, turned_getMessage desc turns]
      split
      · rfl
      · cases gets : queue.getMessage with
        | error fault => rfl
        | ok got =>
            rcases got with ⟨message, got⟩
            have same := eq_of_getMessage turns.plain gets
            subst same
            simp only [Except.map, turnedResult, Bind.bind, Except.bind]
            cases message.first with
            | nil => rfl
            | cons position rest =>
                simp only [turned_memory, QueueMemory.turned_data,
                  turned_popMessage desc turns message]
                split
                · rfl
                · cases pops : got.popMessage message with
                  | error fault => rfl
                  | ok popped =>
                      have still := (keeps_popMessage turns.plain pops).turns turns
                      simp only [Except.map, turned_doPush desc still]
                      cases pushes : popped.doPush tag data now with
                      | error fault => rfl
                      | ok pushed =>
                          rcases pushed with ⟨accepted, pushed⟩
                          have last := (keeps_doPush still.plain pushes).turns still
                          cases accepted with
                          | true => rfl
                          | false => exact induction last

theorem turned_push (tag : Nat) (data : List UInt8) (now : Nat) :
    (queue.turned turn own desc).push tag data now =
      (queue.push tag data now).map (turnedResult turn own desc) := by
  rw [push, push, turned_doPush desc turns]
  cases attempt : queue.doPush tag data now with
  | error fault => rfl
  | ok attempted =>
      rcases attempted with ⟨accepted, attempted⟩
      have still := (keeps_doPush turns.plain attempt).turns turns
      cases accepted with
      | true => rfl
      | false =>
          simp only [Except.map, turnedResult, Bind.bind, Except.bind, Bool.false_eq_true,
            if_false, turned_memory, QueueMemory.turned_keepaliveTimeout]
          split
          · exact turned_removeExpired desc still tag data now _ (2 ^ 32)
          · rfl

end Turns

theorem push_messageDesc (plain : queue.self.type.Plain) {tag now : Nat} {data : List UInt8}
    {accepted : Bool} (pushes : queue.push tag data now = .ok (accepted, next)) :
    next.self.messageDesc = queue.self.messageDesc := by
  have turns : Turns queue.self.type (fun value => value) fun value => value :=
    plain.imp_right fun shared => ⟨shared, rfl, .none⟩
  have same := turned_push queue.self.messageDesc turns tag data now
  have unturned : queue.turned (fun value => value) (fun value => value)
      queue.self.messageDesc = queue := rfl
  rw [unturned, pushes] at same
  exact congrArg (fun queue => queue.self.messageDesc) (Prod.ext_iff.mp (Except.ok.inj same)).2

end Queue

end Qbus
