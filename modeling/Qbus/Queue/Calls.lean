import Qbus.Queue.Ring
import Qbus.Queue.World

/-! # Calls on a stored ring

What the member functions that all classes share do to a queue memory that
satisfies the ring invariant. -/

namespace Qbus

open ByteMemory Message Placement Storage MachineWord

namespace QueueMemory

variable (memory : QueueMemory) (value : Nat) (data : ByteMemory)

/-! The fields that an update leaves alone. The lemmas are not definitional
equalities for `simp`, so that the values written to other fields are never
compared. -/

@[simp] theorem setData_data : (memory.setData data).data = data := by
  cases memory; rfl

@[simp] theorem setData_capacity : (memory.setData data).capacity = memory.capacity := by
  cases memory; rfl

@[simp] theorem setData_count : (memory.setData data).count = memory.count := by
  cases memory; rfl

@[simp] theorem setData_keepaliveTimeout :
    (memory.setData data).keepaliveTimeout = memory.keepaliveTimeout := by
  cases memory; rfl

@[simp] theorem setHead_capacity : (memory.setHead value).capacity = memory.capacity := by
  cases memory; rfl

@[simp] theorem setHead_count : (memory.setHead value).count = memory.count := by
  cases memory; rfl

@[simp] theorem setHead_keepaliveTimeout :
    (memory.setHead value).keepaliveTimeout = memory.keepaliveTimeout := by
  cases memory; rfl

@[simp] theorem setTail_capacity : (memory.setTail value).capacity = memory.capacity := by
  cases memory; rfl

@[simp] theorem setTail_keepaliveTimeout :
    (memory.setTail value).keepaliveTimeout = memory.keepaliveTimeout := by
  cases memory; rfl

@[simp] theorem setCount_capacity :
    (memory.setCount value).capacity = memory.capacity := by
  cases memory; rfl

@[simp] theorem setCount_keepaliveTimeout :
    (memory.setCount value).keepaliveTimeout = memory.keepaliveTimeout := by
  cases memory; rfl

@[simp] theorem setData_counter : (memory.setData data).counter = memory.counter := by
  cases memory; rfl

@[simp] theorem setHead_counter : (memory.setHead value).counter = memory.counter := by
  cases memory; rfl

@[simp] theorem setTail_counter : (memory.setTail value).counter = memory.counter := by
  cases memory; rfl

@[simp] theorem setCount_counter : (memory.setCount value).counter = memory.counter := by
  cases memory; rfl

@[simp] theorem decSubscriptionsCount_counter :
    memory.decSubscriptionsCount.counter = memory.counter := by
  cases memory; rfl

@[simp] theorem decSubscriptionsCount_capacity :
    memory.decSubscriptionsCount.capacity = memory.capacity := by
  cases memory; rfl

@[simp] theorem decSubscriptionsCount_data :
    memory.decSubscriptionsCount.data = memory.data := by
  cases memory; rfl

@[simp] theorem decSubscriptionsCount_keepaliveTimeout :
    memory.decSubscriptionsCount.keepaliveTimeout = memory.keepaliveTimeout := by
  cases memory; rfl

@[simp] theorem decSubscriptionsCount_freeSpace :
    memory.decSubscriptionsCount.freeSpace = memory.freeSpace := by
  cases memory; rfl

@[simp] theorem setData_freeSpace : (memory.setData data).freeSpace = memory.freeSpace := by
  cases memory; rfl

@[simp] theorem setTail_freeSpace : (memory.setTail value).freeSpace = memory.freeSpace := by
  cases memory; rfl

@[simp] theorem setCount_freeSpace : (memory.setCount value).freeSpace = memory.freeSpace := by
  cases memory; rfl

@[simp] theorem setHead_data : (memory.setHead value).data = memory.data := by
  cases memory; rfl

@[simp] theorem setTail_data : (memory.setTail value).data = memory.data := by
  cases memory; rfl

@[simp] theorem setCount_data : (memory.setCount value).data = memory.data := by
  cases memory; rfl

end QueueMemory

def Entry.view (entry : Entry) : MessageView := ⟨entry.tag, entry.size, entry.payload⟩

theorem Ring.ofChain_eq {memory : QueueMemory} {log : List Entry} {base index : Nat}
    {refs : Nat → Nat} {entry : Entry} (ring : Ring memory log base refs)
    (stored : base ≤ index) (found : log[index]? = some entry) :
    MessageView.ofChain memory.data (desc memory.capacity
      (start memory.capacity log index) entry.size).first = some entry.view := by
  rcases ring.view stored found with ⟨bytes, size, headed⟩
  rcases desc_first memory.capacity (start memory.capacity log index)
    entry.size with ⟨rest, first⟩
  have tagged : tag memory.data (headerPlace memory.capacity
      (start memory.capacity log index) entry.size) = entry.tag :=
    congrArg Header.tag headed
  rw [first] at bytes size ⊢
  rw [MessageView.ofChain, bytes, size, tagged, Entry.view]

namespace Queue

variable {queue : Queue} {log : List Entry} {base index : Nat} {refs : Nat → Nat}
  {entry : Entry}

@[simp] theorem setMemory_memory (queue : Queue) (memory : QueueMemory) :
    (queue.setMemory memory).memory = memory := rfl

@[simp] theorem setMemory_self (queue : Queue) (memory : QueueMemory) :
    (queue.setMemory memory).self = queue.self := rfl

def pushedEntry (queue : Queue) (tag now : Nat) (payload : List UInt8)
    (nonempty : payload ≠ []) : Entry :=
  ⟨queue.self.sid % 2 ^ 32, tag % 2 ^ 32, now % 2 ^ 32, payload, nonempty⟩

def Unrestricted (queue : Queue) : Prop :=
  queue.self.type ≠ .smart ∨ queue.self.state = .pushSpecialMessage

theorem getFreeRegion_eq (unrestricted : queue.Unrestricted) :
    queue.getFreeRegion = queue.memory.getFreeRegion := by
  funext previous
  unfold getFreeRegion
  rcases unrestricted with plain | special
  · cases kind : queue.self.type <;> first | rfl | exact absurd kind plain
  · cases queue.self.type <;> simp [special]

theorem baseGetMessage_eq (ring : Ring queue.memory log base refs)
    (stored : base ≤ index) (found : log[index]? = some entry)
    (cursor : queue.head =
      start queue.memory.capacity log index % queue.memory.capacity)
    (nonempty : queue.empty = false) :
    queue.baseGetMessage = .ok (desc queue.memory.capacity
      (start queue.memory.capacity log index) entry.size) := by
  have regions : queue.getBusyRegion = queue.memory.getBusyRegion
      (start queue.memory.capacity log index % queue.memory.capacity) false := by
    funext previous
    rw [getBusyRegion, cursor, nonempty]
  rw [baseGetMessage, regions, ring.read stored found]

def linked (queue : Queue) (tag position stop : Nat) : QueueMemory :=
  ((queue.memory.setData (setTag queue.memory.data position tag)).setTail stop).setCount
    (queue.memory.count + 1)

theorem doPush_accepted {cleaned pushed : Queue} {info : GarbageInfo}
    {message : MessageDesc} {position : Nat} {rest : Chain} {tag now : Nat}
    {payload : List UInt8} (cleans : queue.cleanMessages = .ok (info, cleaned))
    (pushes : cleaned.pushMessage payload now = .ok (message, pushed))
    (first : message.first = position :: rest) :
    queue.doPush tag payload now =
      .ok (true, pushed.setMemory (pushed.linked tag position message.second)) := by
  simp only [doPush, cleans, pushes, Bind.bind, Except.bind, first]
  rfl

theorem doPush_refused {cleaned pushed : Queue} {info : GarbageInfo}
    {message : MessageDesc} {tag now : Nat} {payload : List UInt8}
    (cleans : queue.cleanMessages = .ok (info, cleaned))
    (pushes : cleaned.pushMessage payload now = .ok (message, pushed))
    (first : message.first = []) :
    queue.doPush tag payload now = .ok (false, pushed) := by
  simp only [doPush, cleans, pushes, Bind.bind, Except.bind, first]
  rfl

theorem push_accepted {next : Queue} {tag now : Nat} {payload : List UInt8}
    (pushes : queue.doPush tag payload now = .ok (true, next)) :
    queue.push tag payload now = .ok (true, next) := by
  simp only [push, pushes, Bind.bind, Except.bind]
  rfl

theorem push_refused {next : Queue} {tag now : Nat} {payload : List UInt8}
    (pushes : queue.doPush tag payload now = .ok (false, next))
    (noTimeout : next.memory.keepaliveTimeout = 0) :
    queue.push tag payload now = .ok (false, next) := by
  simp only [push, pushes, Bind.bind, Except.bind]
  rw [if_neg (by simp), if_neg (by simp [noTimeout])]
  rfl

theorem pushMessage_nil {now : Nat} : queue.pushMessage [] now = .error .nullMessage := by
  rw [pushMessage]
  cases queue.self.type <;> rfl

theorem push_nil {tag now : Nat} {result : Bool × Queue} :
    queue.push tag [] now ≠ .ok result := by
  rw [push, doPush]
  cases cleans : queue.cleanMessages with
  | error fault => simp [Bind.bind, Except.bind]
  | ok cleaned =>
      simp [Bind.bind, Except.bind, pushMessage_nil]

/-- Making a message behind the tail either stores it there or is refused; the
stored messages are left alone. -/
structure Makes (queue : Queue) (log : List Entry) (base : Nat) (payload : List UInt8)
    (now : Nat) (accepted : Bool) (made : ByteMemory) : Prop where
  result : queue.basePushMessage payload now =
    .ok (if accepted then desc queue.memory.capacity
        (start queue.memory.capacity log log.length) payload.length
      else .none, queue.setMemory (queue.memory.setData made))
  fits : accepted = true → Fits queue.memory.capacity log base payload.length
  holds : accepted = true → Holds made queue.memory.capacity
    (start queue.memory.capacity log log.length) payload
    ⟨queue.self.sid % 2 ^ 32, 0, 0, now % 2 ^ 32⟩
  frame : AgreeOnWindow made queue.memory.data queue.memory.capacity
    (start queue.memory.capacity log base) (start queue.memory.capacity log log.length)

theorem exists_makes (ring : Ring queue.memory log base refs)
    (unrestricted : queue.Unrestricted) {payload : List UInt8} (nonempty : payload ≠ [])
    (now : Nat) :
    ∃ made, queue.Makes log base payload now
      (decide (Fits queue.memory.capacity log base payload.length)) made := by
  rcases ring.spans.makeBase queue.self.sid now nonempty with ⟨made, result, success, frame⟩
  refine ⟨made, ?_, of_decide_eq_true, fun fits => success (of_decide_eq_true fits), frame⟩
  rw [basePushMessage, getFreeRegion_eq unrestricted, result]
  simp only [decide_eq_true_iff]
  rfl

end Queue

end Qbus
