import Qbus.Message.Message

/-! # Queues

A queue lives in a shared memory that any number of queue objects are attached
to. `QueueMemory` is the shared part and `Handle` are the private members of one
queue object; a `Queue` is the view a member function has of both. -/

namespace Qbus

inductive QueueType where
  | simple
  | shared
  | unreadable
  | smart
deriving DecidableEq, Repr

/-- The header fields and the data area of a queue. `subscriptionsCount` and
`counter` belong to `base_shared_queue`, `freeSpace` to `smart_shared_queue`. -/
structure QueueMemory where
  id : Nat
  capacity : Nat
  keepaliveTimeout : Nat
  count : Nat
  head : Nat
  tail : Nat
  subscriptionsCount : Nat
  counter : Nat
  freeSpace : Nat
  data : ByteMemory

inductive PushState where
  | unknown
  | pushSpecialMessage
deriving DecidableEq, Repr

/-- `pos_type(-1)`: the private head of a queue that follows the shared head. -/
def sharedHead : Nat := 2 ^ 32 - 1

/-- The private members of a queue object. `sid` is the source identifier of
the process that owns it. -/
structure Handle where
  type : QueueType
  sid : Nat
  messageDesc : MessageDesc
  head : Nat
  counter : Nat
  state : PushState
deriving DecidableEq, Repr

structure Queue where
  memory : QueueMemory
  self : Handle

structure GarbageInfo where
  first : Nat
  second : Nat
deriving DecidableEq, Repr

namespace QueueMemory

def setHead (memory : QueueMemory) (value : Nat) : QueueMemory :=
  { memory with head := value % 2 ^ 32 % memory.capacity }

def setTail (memory : QueueMemory) (value : Nat) : QueueMemory :=
  { memory with tail := value % 2 ^ 32 % memory.capacity }

def setCount (memory : QueueMemory) (value : Nat) : QueueMemory :=
  { memory with count := value % 2 ^ 32 }

def setKeepaliveTimeout (memory : QueueMemory) (value : Nat) : QueueMemory :=
  { memory with keepaliveTimeout := value % 2 ^ 32 }

def setData (memory : QueueMemory) (data : ByteMemory) : QueueMemory :=
  { memory with data := data }

def incSubscriptionsCount (memory : QueueMemory) : QueueMemory :=
  { memory with subscriptionsCount := (memory.subscriptionsCount + 1) % 2 ^ 32 }

def decSubscriptionsCount (memory : QueueMemory) : QueueMemory :=
  { memory with
    subscriptionsCount := MachineWord.sub32 memory.subscriptionsCount 1 }

def incCounter (memory : QueueMemory) : QueueMemory :=
  { memory with counter := (memory.counter + 1) % 2 ^ 32 }

def incFreeSpace (memory : QueueMemory) (value : Nat) : QueueMemory :=
  { memory with freeSpace := (memory.freeSpace + value) % 2 ^ 32 }

def decFreeSpace (memory : QueueMemory) (value : Nat) : QueueMemory :=
  { memory with freeSpace := MachineWord.sub32 memory.freeSpace value }

def clear (memory : QueueMemory) : QueueMemory :=
  ((memory.setHead 0).setTail 0).setCount 0

def getFreeRegion (memory : QueueMemory) : Option Region → Region
  | none =>
      let tl := memory.tail
      if memory.count = 0 ∨ memory.head < tl then
        ⟨tl, MachineWord.sub64 memory.capacity tl⟩
      else
        ⟨tl, MachineWord.sub32 memory.head tl⟩
  | some previous =>
      let tl := (previous.first + previous.second) % 2 ^ 64 % memory.capacity
      if memory.head < tl then
        ⟨tl, MachineWord.sub64 memory.capacity tl⟩
      else
        ⟨tl, MachineWord.sub32 memory.head tl⟩

/-- `base_queue::get_busy_region`, where `head` and `empty` are the results of
the virtual functions of these names. -/
def getBusyRegion (memory : QueueMemory) (head : Nat) (empty : Bool) :
    Option Region → Region
  | none =>
      if empty ∨ head < memory.tail then
        ⟨head, MachineWord.sub32 memory.tail head⟩
      else
        ⟨head, MachineWord.sub64 memory.capacity head⟩
  | some previous =>
      let hd := (previous.first + previous.second) % 2 ^ 64 % memory.capacity
      if hd < memory.tail then
        ⟨hd, MachineWord.sub32 memory.tail hd⟩
      else
        ⟨hd, MachineWord.sub64 memory.capacity hd⟩

/-- A walk over regions visits a position of the ring at most once before it
ends or repeats itself, so that more iterations mean an endless loop. -/
def fuel (memory : QueueMemory) : Nat := memory.capacity + 2

end QueueMemory

namespace Queue

def setMemory (queue : Queue) (memory : QueueMemory) : Queue :=
  { queue with memory := memory }

def count (queue : Queue) : Nat :=
  match queue.self.type with
  | .simple => queue.memory.count
  | _ => MachineWord.sub32 queue.memory.counter queue.self.counter

def empty (queue : Queue) : Bool := queue.count = 0

def head (queue : Queue) : Nat :=
  match queue.self.type with
  | .simple => queue.memory.head
  | _ => if queue.self.head ≠ sharedHead then queue.self.head else queue.memory.head

def reservedSpace (queue : Queue) : Nat :=
  2 * Message.staticSize 1 * queue.memory.subscriptionsCount

/-- The virtual `get_free_region`. A smart queue shortens the regions of a user
message by what would exceed the space left over by the reserved space. -/
def getFreeRegion (queue : Queue) (previous : Option Region) : Region :=
  let region := queue.memory.getFreeRegion previous
  match queue.self.type with
  | .smart =>
      if queue.self.state ≠ .pushSpecialMessage then
        let availableSpace :=
          MachineWord.sub64 queue.memory.freeSpace queue.reservedSpace
        let size := (region.second +
          (match previous with
            | some previous => previous.second
            | none => 0)) % 2 ^ 64
        if size > availableSpace then
          { region with
            second := MachineWord.sub64 region.second
              (MachineWord.sub64 size availableSpace) }
        else
          region
      else
        region
  | _ => region

def getBusyRegion (queue : Queue) (previous : Option Region) : Region :=
  queue.memory.getBusyRegion queue.head queue.empty previous

/-- `static_get_message`, which `get_message` of a simple queue and of
`base_shared_queue` consist of. -/
def baseGetMessage (queue : Queue) : Outcome MessageDesc :=
  Message.staticGetMessage queue.getBusyRegion queue.memory.fuel queue.memory.data

def popMessage (queue : Queue) (desc : MessageDesc) : Outcome Queue := do
  match desc.first with
  | [] => throw .nullMessage
  | position :: _ =>
      let (value, data) := Message.decCounter queue.memory.data position
      let memory := queue.memory.setData data
      match queue.self.type with
      | .simple =>
          let memory := memory.setHead desc.second
          return queue.setMemory (memory.setCount (MachineWord.sub64 memory.count 1))
      | _ =>
          if value = 2 ^ 32 - 1 then
            throw .assertion
          return {
            memory := memory
            self := { queue.self with
              head := desc.second % memory.capacity
              counter := (queue.self.counter + 1) % 2 ^ 32 } }

/-- The loop of `base_shared_queue::clean_messages`; the fuel is its `cnt`. -/
def cleanLoop : (cnt : Nat) → Queue → GarbageInfo → Outcome (GarbageInfo × Queue)
  | 0, queue, info => .ok (info, queue)
  | cnt + 1, queue, info => do
      let desc ← queue.baseGetMessage
      match desc.first with
      | [] => return (info, queue)
      | position :: _ =>
          if Message.counter queue.memory.data position > 0 then
            return (info, queue)
          else
            let memory := (queue.memory.setHead desc.second).setCount cnt
            cleanLoop cnt (queue.setMemory memory)
              ⟨info.first + 1,
                info.second + Message.totalSize queue.memory.data desc.first⟩

/-- `base_shared_queue::clean_messages`. The private head and counter are
rewritten for the walk and rolled back afterwards. -/
def baseCleanMessages (queue : Queue) : Outcome (GarbageInfo × Queue) := do
  if queue.memory.count > 0 then
    let walker := { queue.self with
      head := sharedHead
      counter := MachineWord.sub32 queue.self.counter 1 }
    let (info, walked) ←
      cleanLoop queue.memory.count { queue with self := walker } ⟨0, 0⟩
    return (info, { walked with self := queue.self })
  else
    return (⟨0, 0⟩, queue)

def cleanMessages (queue : Queue) : Outcome (GarbageInfo × Queue) := do
  match queue.self.type with
  | .simple => return (⟨0, 0⟩, queue)
  | .shared => queue.baseCleanMessages
  | .unreadable =>
      let (info, queue) ← queue.baseCleanMessages
      return (info, { queue with
        self := { queue.self with
          counter := (queue.self.counter + info.first) % 2 ^ 32 } })
  | .smart =>
      let (info, queue) ← queue.baseCleanMessages
      if info.first > 0 then
        return (info, queue.setMemory (queue.memory.incFreeSpace info.second))
      else
        return (info, queue)

/-- `push_message` of a simple queue and the first half of that of the others. -/
def basePushMessage (queue : Queue) (data : List UInt8) (now : Nat) :
    Outcome (MessageDesc × Queue) := do
  let (desc, bytes) ← Message.staticMakeMessage queue.getFreeRegion
    queue.memory.fuel queue.self.sid now queue.memory.data data
  return (desc, queue.setMemory (queue.memory.setData bytes))

def sharedPushMessage (queue : Queue) (data : List UInt8) (now : Nat) :
    Outcome (MessageDesc × Queue) := do
  let (desc, queue) ← queue.basePushMessage data now
  match desc.first with
  | [] => return (desc, queue)
  | position :: _ =>
      let bytes := Message.setCounter queue.memory.data position
        queue.memory.subscriptionsCount
      return (desc, queue.setMemory ((queue.memory.setData bytes).incCounter))

def pushMessage (queue : Queue) (data : List UInt8) (now : Nat) :
    Outcome (MessageDesc × Queue) := do
  match queue.self.type with
  | .simple => queue.basePushMessage data now
  | .shared => queue.sharedPushMessage data now
  | .unreadable => queue.sharedPushMessage data now
  | .smart =>
      let (desc, queue) ← queue.sharedPushMessage data now
      match desc.first with
      | [] => return (desc, queue)
      | _ :: _ =>
          let messageSize := Message.totalSize queue.memory.data desc.first
          return (desc, queue.setMemory (queue.memory.decFreeSpace messageSize))

/-- `smart_shared_queue::get_message`: own messages and service messages are
popped on the way. The fuel bounds a loop that pops one message an iteration. -/
def smartGetMessage : (fuel : Nat) → Queue → Outcome (MessageDesc × Queue)
  | 0, _ => .error .endless
  | fuel + 1, queue => do
      let desc ← queue.baseGetMessage
      match desc.first with
      | [] => throw .assertion
      | position :: _ =>
          if Message.sid queue.memory.data position ≠ queue.self.sid ∧
              Message.tag queue.memory.data position ≠ ServiceMessage.tag then
            return (desc, queue)
          else
            let queue ← queue.popMessage desc
            if queue.count > 0 then
              smartGetMessage fuel queue
            else
              return (.none, queue)

def getMessage (queue : Queue) : Outcome (MessageDesc × Queue) := do
  match queue.self.type with
  -- `count()` has 32 bits, so that the loop ends within `2 ^ 32` iterations
  | .smart => queue.smartGetMessage (2 ^ 32)
  | _ =>
      let desc ← queue.baseGetMessage
      return (desc, queue)

def doPush (queue : Queue) (tag : Nat) (data : List UInt8) (now : Nat) :
    Outcome (Bool × Queue) := do
  let (_, queue) ← queue.cleanMessages
  let (desc, queue) ← queue.pushMessage data now
  match desc.first with
  | [] => return (false, queue)
  | position :: _ =>
      let bytes := Message.setTag queue.memory.data position tag
      let memory := (queue.memory.setData bytes).setTail desc.second
      return (true, queue.setMemory (memory.setCount (memory.count + 1)))

/-- The loop of `push` that removes expired messages until the new one fits. -/
def removeExpired (tag : Nat) (data : List UInt8) (now limit : Nat) :
    (fuel : Nat) → Queue → Outcome (Bool × Queue)
  | 0, _ => .error .endless
  | fuel + 1, queue => do
      if queue.empty then
        return (false, queue)
      let (desc, queue) ← queue.getMessage
      match desc.first with
      | [] => return (false, queue)
      | position :: _ =>
          if Message.timestamp queue.memory.data position > limit then
            return (false, queue)
          let queue ← queue.popMessage desc
          let (accepted, queue) ← queue.doPush tag data now
          if accepted then
            return (true, queue)
          else
            removeExpired tag data now limit fuel queue

def push (queue : Queue) (tag : Nat) (data : List UInt8) (now : Nat) :
    Outcome (Bool × Queue) := do
  let (accepted, queue) ← queue.doPush tag data now
  if accepted then
    return (true, queue)
  else
    let timeout := queue.memory.keepaliveTimeout
    if timeout > 0 then
      let limit := MachineWord.sub64 now timeout
      removeExpired tag data now limit (2 ^ 32) queue
    else
      return (false, queue)

def get (queue : Queue) : Outcome (Chain × Queue) := do
  if queue.count > 0 then
    let (desc, queue) ← queue.getMessage
    return (desc.first, { queue with self := { queue.self with messageDesc := desc } })
  else
    return ([], queue)

def pop (queue : Queue) : Outcome (Bool × Queue) := do
  if queue.count > 0 then
    let (desc, queue) ←
      if queue.self.messageDesc.first = [] then
        queue.getMessage
      else
        pure (queue.self.messageDesc, queue)
    let queue ← queue.popMessage desc
    return (true, { queue with
      self := { queue.self with messageDesc := { desc with first := [] } } })
  else
    return (false, queue)

def clean (queue : Queue) : Outcome (Nat × Queue) := do
  let (info, queue) ← queue.cleanMessages
  return (info.first, queue)

/-- Push a service message. The list holds the clock at the attempts to push
it; without an accepted one the loop does not end. -/
def pushServiceMessage (code : ServiceMessage.Code) :
    (clock : List Nat) → Queue → Outcome Queue
  | [], _ => .error .endless
  | now :: clock, queue => do
      let special := { queue with self := { queue.self with state := .pushSpecialMessage } }
      let (accepted, pushed) ← special.push ServiceMessage.tag [code.toByte] now
      let pushed := { pushed with self := { pushed.self with state := queue.self.state } }
      if accepted then
        return pushed
      else
        pushServiceMessage code clock pushed

def initializeQueue (queue : Queue) (clock : List Nat) : Outcome Queue := do
  let queue ← pushServiceMessage .connect clock queue
  return {
    memory := queue.memory.incSubscriptionsCount
    self := { queue.self with
      head := queue.memory.tail
      counter := queue.memory.counter } }

def newHandle (type : QueueType) (sid counter : Nat) : Handle where
  type := type
  sid := sid
  messageDesc := .none
  head := sharedHead
  counter := counter
  state := .unknown

/-- The constructors with an identifier and a capacity: a new queue in the
memory `raw`, whose content does not matter. -/
def create (raw : QueueMemory) (type : QueueType) (id capacity sid : Nat)
    (clock : List Nat) : Outcome Queue := do
  let memory := { raw with
    id := id % 2 ^ 32
    capacity := capacity % 2 ^ 32
    keepaliveTimeout := 0 }.clear
  let handle := newHandle type sid 0
  match type with
  | .simple => return ⟨memory, handle⟩
  | .shared =>
      return ⟨{ memory with counter := 0, subscriptionsCount := 1 }, handle⟩
  | .unreadable =>
      return ⟨{ memory with counter := 0, subscriptionsCount := 0 }, handle⟩
  | .smart =>
      initializeQueue ⟨{ memory with
        counter := 0
        subscriptionsCount := 0
        freeSpace := memory.capacity }, handle⟩ clock

def attach (memory : QueueMemory) (type : QueueType) (sid : Nat) (clock : List Nat) :
    Outcome Queue := do
  let handle := newHandle type sid memory.counter
  match type with
  | .simple => return ⟨memory, handle⟩
  | .shared => return ⟨memory.incSubscriptionsCount, handle⟩
  | .unreadable => return ⟨memory, handle⟩
  | .smart => initializeQueue ⟨memory, handle⟩ clock

/-- The messages that book places for the other subscribers of the parent queue. `clock`
has the readings of the clock for each of them. -/
def pushBooks (clock : Nat → List Nat) : (count : Nat) → Queue → Outcome Queue
  | 0, queue => .ok queue
  | count + 1, queue => do
      let queue ← pushServiceMessage .book (clock count) queue
      pushBooks clock count queue

def createBooked (raw : QueueMemory) (id capacity sid : Nat) (parent : Option Queue)
    (bookClock : Nat → List Nat) (clock : List Nat) : Outcome Queue := do
  let memory := { raw with
    id := id % 2 ^ 32
    capacity := capacity % 2 ^ 32
    keepaliveTimeout := 0 }.clear
  let memory := { memory with counter := 0, subscriptionsCount := 0 }
  let handle := newHandle .smart sid 0
  match parent with
  | none => initializeQueue ⟨{ memory with freeSpace := memory.capacity }, handle⟩ clock
  | some parent =>
      if parent.self.type ≠ .smart then
        throw .assertion
      let count := parent.memory.subscriptionsCount
      if count > 1 then
        let memory := { memory with subscriptionsCount := (count - 1) % 2 ^ 32 }
        let queue ← pushBooks bookClock (count - 1) ⟨memory, handle⟩
        initializeQueue queue clock
      else
        initializeQueue ⟨memory, handle⟩ clock

/-- The loop of the constructor with a parent queue that reads the booking messages and
the first service message behind them. It returns the number of the former. -/
def readBooks : (fuel : Nat) → (bookedCount : Nat) → Queue → Outcome (Nat × Queue)
  | 0, _, _ => .error .endless
  | fuel + 1, bookedCount, queue => do
      if queue.count > 0 then
        let desc ← queue.baseGetMessage
        match desc.first with
        | [] => throw .assertion
        | position :: _ =>
            if Message.tag queue.memory.data position ≠ ServiceMessage.tag then
              throw .assertion
            let popped ← queue.popMessage desc
            if ServiceMessage.code queue.memory.data position ≠
                ServiceMessage.Code.book.toByte then
              return (bookedCount, popped)
            else
              readBooks fuel (bookedCount + 1) popped
      else
        return (bookedCount, queue)

def attachBooked (memory : QueueMemory) (sid : Nat) (parent : Option Queue)
    (clock : List Nat) : Outcome Queue := do
  let handle := newHandle .smart sid memory.counter
  match parent with
  | none => initializeQueue ⟨memory, handle⟩ clock
  | some parent =>
      if parent.self.type ≠ .smart then
        throw .assertion
      -- `count()` has 32 bits and every iteration pops one message
      let (bookedCount, queue) ←
        readBooks (2 ^ 32) 0 ⟨memory, { handle with counter := 0 }⟩
      if bookedCount > 0 then
        return queue
      else
        throw .assertion

/-- The loop of `~smart_shared_queue` that reads up to the own
`CODE_DISCONNECT`. -/
def readOut : (fuel : Nat) → Queue → Outcome Queue
  | 0, _ => .error .endless
  | fuel + 1, queue => do
      let desc ← queue.baseGetMessage
      match desc.first with
      | [] => throw .assertion
      | position :: _ =>
          let own := Message.sid queue.memory.data position = queue.self.sid ∧
            Message.tag queue.memory.data position = ServiceMessage.tag ∧
            ServiceMessage.code queue.memory.data position =
              ServiceMessage.Code.disconnect.toByte
          let popped ← queue.popMessage desc
          if own then
            return popped
          else
            readOut fuel popped

def destroy (queue : Queue) (clock : List Nat) : Outcome QueueMemory := do
  match queue.self.type with
  | .simple => return queue.memory
  | .shared => return queue.memory.decSubscriptionsCount
  | .unreadable => return queue.memory
  | .smart =>
      let queue ← pushServiceMessage .disconnect clock queue
      let queue ← readOut (2 ^ 32) (queue.setMemory queue.memory.decSubscriptionsCount)
      return queue.memory

end Queue

end Qbus
