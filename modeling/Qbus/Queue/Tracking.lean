import Qbus.Foundation.Ledger
import Qbus.Queue.Collection

/-! # Queues with reference counters

The messages of the classes derived from `base_shared_queue` are counted. A queue
memory tracks a ledger: the stored messages are those the ledger has not
collected, and every reference counter is the number of references in the
ledger. A queue object follows a cursor of the ledger. -/

namespace Qbus

open ByteMemory Message Circular Placement Storage MachineWord

structure Tracks (memory : QueueMemory) (ledger : Ledger Nat Entry) : Prop where
  ring : Ring memory ledger.log ledger.collected ledger.refs
  counter : memory.counter = ledger.log.length % 2 ^ 32
  valid : ledger.Valid

/-- The private members of a queue object that reads the message `index` next.
The private head may be missing; the object then reads at the shared head. -/
structure Follows (capacity : Nat) (log : List Entry) (handle : Handle) (index : Nat) :
    Prop where
  counted : handle.counter = index % 2 ^ 32
  placed : handle.head = sharedHead ∨
    handle.head = start capacity log index % capacity

structure SameSettings (left right : QueueMemory) : Prop where
  capacity : left.capacity = right.capacity
  keepaliveTimeout : left.keepaliveTimeout = right.keepaliveTimeout
  subscriptionsCount : left.subscriptionsCount = right.subscriptionsCount

namespace SameSettings

variable {memory left middle right : QueueMemory} {value : Nat} {data : ByteMemory}

theorem refl (memory : QueueMemory) : SameSettings memory memory := ⟨rfl, rfl, rfl⟩

theorem trans (leftSame : SameSettings left middle) (rightSame : SameSettings middle right) :
    SameSettings left right :=
  ⟨leftSame.capacity.trans rightSame.capacity,
    leftSame.keepaliveTimeout.trans rightSame.keepaliveTimeout,
    leftSame.subscriptionsCount.trans rightSame.subscriptionsCount⟩

theorem setData : SameSettings (memory.setData data) memory := by
  cases memory; exact ⟨rfl, rfl, rfl⟩

theorem setHead : SameSettings (memory.setHead value) memory := by
  cases memory; exact ⟨rfl, rfl, rfl⟩

theorem setTail : SameSettings (memory.setTail value) memory := by
  cases memory; exact ⟨rfl, rfl, rfl⟩

theorem setCount : SameSettings (memory.setCount value) memory := by
  cases memory; exact ⟨rfl, rfl, rfl⟩

theorem incCounter : SameSettings memory.incCounter memory := by
  cases memory; exact ⟨rfl, rfl, rfl⟩

theorem incFreeSpace : SameSettings (memory.incFreeSpace value) memory := by
  cases memory; exact ⟨rfl, rfl, rfl⟩

theorem decFreeSpace : SameSettings (memory.decFreeSpace value) memory := by
  cases memory; exact ⟨rfl, rfl, rfl⟩

end SameSettings

/-- Two memories agree on the messages of the log from `first` on, up to the
reference counters of these messages. -/
def AgreeUpToCounters (left right : ByteMemory) (capacity : Nat) (log : List Entry)
    (first : Nat) : Prop :=
  ∀ index entry, first ≤ index → log[index]? = some entry →
    ∀ byte, Covers capacity (start capacity log index) (start capacity log (index + 1)) byte →
      (byte < headerPlace capacity (start capacity log index) entry.size + counterOffset ∨
        headerPlace capacity (start capacity log index) entry.size + timestampOffset ≤
          byte) →
      left byte = right byte

namespace AgreeUpToCounters

variable {left middle right : ByteMemory} {capacity : Nat} {log : List Entry}
  {first later : Nat}

theorem refl (memory : ByteMemory) : AgreeUpToCounters memory memory capacity log first :=
  fun _ _ _ _ _ _ _ => rfl

theorem trans (leftAgrees : AgreeUpToCounters left middle capacity log first)
    (rightAgrees : AgreeUpToCounters middle right capacity log first) :
    AgreeUpToCounters left right capacity log first :=
  fun index entry stored found byte covers outside =>
    (leftAgrees index entry stored found byte covers outside).trans
      (rightAgrees index entry stored found byte covers outside)

theorem mono (agrees : AgreeUpToCounters left right capacity log first)
    (ordered : first ≤ later) : AgreeUpToCounters left right capacity log later :=
  fun index entry stored => agrees index entry (Nat.le_trans ordered stored)

theorem of_window (agrees : AgreeOnWindow left right capacity (start capacity log first)
    (start capacity log log.length)) : AgreeUpToCounters left right capacity log first := by
  intro index entry stored found byte covers _
  have below := (List.getElem?_eq_some_iff.mp found).1
  exact agrees byte (covers.mono (start_mono capacity log stored)
    (start_mono capacity log below))

end AgreeUpToCounters

namespace Follows

variable {capacity : Nat} {log : List Entry} {handle : Handle} {index : Nat}

theorem append (follows : Follows capacity log handle index) (inside : index ≤ log.length)
    (more : List Entry) : Follows capacity (log ++ more) handle index :=
  ⟨follows.counted, by rw [start_append inside]; exact follows.placed⟩

theorem of_cursor_eq {other : Handle} (follows : Follows capacity log handle index)
    (head : other.head = handle.head) (counter : other.counter = handle.counter) :
    Follows capacity log other index :=
  ⟨counter.trans follows.counted, by rw [head]; exact follows.placed⟩

end Follows

/-- The cached description of an object is none or that of the message `index`. -/
def Cached (capacity : Nat) (log : List Entry) (handle : Handle) (index : Nat) : Prop :=
  handle.messageDesc.first = [] ∨ ∃ entry, log[index]? = some entry ∧
    handle.messageDesc = desc capacity (start capacity log index) entry.size

theorem Cached.append {capacity : Nat} {log : List Entry} {handle : Handle} {index : Nat}
    (cached : Cached capacity log handle index) (more : List Entry) :
    Cached capacity (log ++ more) handle index := by
  rcases cached with none | ⟨entry, found, described⟩
  · exact .inl none
  · have below := (List.getElem?_eq_some_iff.mp found).1
    exact .inr ⟨entry, by rw [List.getElem?_append_left below, found],
      by rw [start_append (Nat.le_of_lt below), described]⟩

namespace Queue

variable {queue : Queue} {ledger : Ledger Nat Entry} {index : Nat} {entry : Entry}

theorem count_eq (counted : queue.self.type ≠ .simple)
    (tracks : Tracks queue.memory ledger)
    (follows : Follows queue.memory.capacity ledger.log queue.self index)
    (stored : ledger.collected ≤ index) (inside : index ≤ ledger.log.length) :
    queue.count = ledger.log.length - index := by
  have small := tracks.ring.count_lt
  rw [count_of_counted counted, tracks.counter, follows.counted]
  exact sub_mod_mod inside (by omega)

theorem head_eq (counted : queue.self.type ≠ .simple)
    (tracks : Tracks queue.memory ledger)
    (follows : Follows queue.memory.capacity ledger.log queue.self index)
    (aligned : queue.self.head = sharedHead → index = ledger.collected) :
    queue.head = start queue.memory.capacity ledger.log index %
      queue.memory.capacity := by
  have placed : (if queue.self.head ≠ sharedHead then queue.self.head
      else queue.memory.head) = start queue.memory.capacity ledger.log index %
        queue.memory.capacity := by
    by_cases missing : queue.self.head = sharedHead
    · rw [if_neg (not_not_intro missing), tracks.ring.headEq, aligned missing]
    · rw [if_pos missing]
      exact follows.placed.resolve_left missing
  rw [head]
  cases kind : queue.self.type <;> first | exact absurd kind counted | exact placed

theorem baseGetMessage_of_follows (counted : queue.self.type ≠ .simple)
    (tracks : Tracks queue.memory ledger)
    (follows : Follows queue.memory.capacity ledger.log queue.self index)
    (stored : ledger.collected ≤ index) (found : ledger.log[index]? = some entry)
    (aligned : queue.self.head = sharedHead → index = ledger.collected) :
    queue.baseGetMessage = .ok (desc queue.memory.capacity
      (start queue.memory.capacity ledger.log index) entry.size) := by
  have below := (List.getElem?_eq_some_iff.mp found).1
  apply Queue.baseGetMessage_eq tracks.ring stored found
    (head_eq counted tracks follows aligned)
  rw [empty, count_eq counted tracks follows stored (Nat.le_of_lt below),
    decide_eq_false_iff_not]
  omega

end Queue

theorem Tracks.incFreeSpace {memory : QueueMemory} {ledger : Ledger Nat Entry}
    {value : Nat} (tracks : Tracks memory ledger) :
    Tracks (memory.incFreeSpace value) ledger :=
  ⟨tracks.ring.congr rfl rfl rfl rfl rfl, tracks.counter, tracks.valid⟩

theorem Tracks.decFreeSpace {memory : QueueMemory} {ledger : Ledger Nat Entry}
    {value : Nat} (tracks : Tracks memory ledger) :
    Tracks (memory.decFreeSpace value) ledger :=
  ⟨tracks.ring.congr rfl rfl rfl rfl rfl, tracks.counter, tracks.valid⟩

theorem Tracks.join {memory : QueueMemory} {ledger : Ledger Nat Entry} {member : Nat}
    (tracks : Tracks memory ledger) (newcomer : member ∉ ledger.members) :
    Tracks memory.incSubscriptionsCount (ledger.join member) := by
  have kept : Ring memory.incSubscriptionsCount ledger.log ledger.collected ledger.refs :=
    tracks.ring.congr rfl rfl rfl rfl rfl
  exact ⟨kept.of_refs_eq fun index _ older => Ledger.refs_join newcomer older,
    tracks.counter, tracks.valid.join member⟩

theorem Tracks.decSubscriptionsCount {memory : QueueMemory} {ledger : Ledger Nat Entry}
    (tracks : Tracks memory ledger) : Tracks memory.decSubscriptionsCount ledger :=
  ⟨tracks.ring.congr (by simp) (by cases memory; rfl) (by cases memory; rfl)
      (by cases memory; rfl) (by simp),
    (QueueMemory.decSubscriptionsCount_counter memory).trans tracks.counter, tracks.valid⟩

theorem Tracks.leave {memory : QueueMemory} {ledger : Ledger Nat Entry} {member : Nat}
    (tracks : Tracks memory ledger) (isMember : member ∈ ledger.members) :
    Tracks memory (ledger.leave member) :=
  ⟨tracks.ring.of_refs_eq fun _ _ older => Ledger.refs_leave isMember older,
    tracks.counter, tracks.valid.leave member⟩

namespace Queue

variable {queue : Queue} {ledger : Ledger Nat Entry} {index : Nat} {entry : Entry}

/-! ## Popping -/

/-- The private members after a message that ends at `stop` has been popped. -/
def passed (queue : Queue) (stop : Nat) : Handle :=
  { queue.self with
    head := stop % queue.memory.capacity
    counter := (queue.self.counter + 1) % 2 ^ 32 }

theorem popMessage_of_counted {message : MessageDesc} {position count : Nat}
    {rest : Chain} (counted : queue.self.type ≠ .simple)
    (first : message.first = position :: rest)
    (referenced : Message.counter queue.memory.data position = count + 1) :
    queue.popMessage message =
      .ok ⟨queue.memory.setData (setCounter queue.memory.data position count),
        queue.passed message.second⟩ := by
  have bound := readWord_lt queue.memory.data (position + counterOffset)
  rw [← Message.counter, referenced] at bound
  have value : sub32 (count + 1) 1 = count := sub32_of_le (by omega) bound
  have valid : ¬count = 2 ^ 32 - 1 := by omega
  rw [popMessage, first]
  simp only [decCounter, referenced, value]
  cases kind : queue.self.type <;> first
    | exact absurd kind counted
    | simp only [if_neg valid, pure, Except.pure, QueueMemory.setData_capacity, passed, kind]

theorem popMessage_of_member (counted : queue.self.type ≠ .simple)
    (tracks : Tracks queue.memory ledger) {member : Nat}
    (isMember : member ∈ ledger.members)
    (follows : Follows queue.memory.capacity ledger.log queue.self (ledger.cursor member))
    (found : ledger.log[ledger.cursor member]? = some entry) :
    ∃ memory,
      queue.popMessage (desc queue.memory.capacity (start queue.memory.capacity ledger.log
        (ledger.cursor member)) entry.size) =
          .ok ⟨memory, queue.passed (desc queue.memory.capacity
            (start queue.memory.capacity ledger.log (ledger.cursor member))
              entry.size).second⟩ ∧
      Tracks memory (ledger.advance member) ∧
      SameSettings memory queue.memory ∧
      Follows queue.memory.capacity ledger.log (queue.passed (desc queue.memory.capacity
        (start queue.memory.capacity ledger.log (ledger.cursor member))
          entry.size).second) (ledger.cursor member + 1) ∧
      AgreeUpToCounters memory.data queue.memory.data queue.memory.capacity ledger.log
        ledger.collected ∧
      memory.freeSpace = queue.memory.freeSpace := by
  have stored := tracks.valid.cursorGe member isMember
  have below := (List.getElem?_eq_some_iff.mp found).1
  have ring := tracks.ring
  rcases desc_first queue.memory.capacity
    (start queue.memory.capacity ledger.log (ledger.cursor member)) entry.size with
      ⟨rest, first⟩
  have given := Ledger.refs_advance_self isMember
  have small := ring.refs_lt stored found
  have referenced : Message.counter queue.memory.data (headerPlace queue.memory.capacity
      (start queue.memory.capacity ledger.log (ledger.cursor member)) entry.size) =
      (ledger.advance member).refs (ledger.cursor member) + 1 := by
    rw [given]
    exact congrArg Header.counter (ring.view stored found).2.2
  have written := ring.setCounter stored found
    (show (ledger.advance member).refs (ledger.cursor member) < 2 ^ 32 by omega)
  refine ⟨_, popMessage_of_counted counted first referenced, ⟨?_, tracks.counter,
    tracks.valid.advance below⟩, .setData, ⟨?_, .inr ?_⟩, ?_, QueueMemory.setData_freeSpace _ _⟩
  · refine written.of_refs_eq fun index _ _ => ?_
    by_cases same : index = ledger.cursor member
    · rw [if_pos same, same]
    · rw [if_neg same, Ledger.refs_advance_of_ne same]
  · change (queue.self.counter + 1) % 2 ^ 32 = _
    rw [follows.counted, Nat.mod_add_mod]
  · change _ % queue.memory.capacity = _
    rw [desc_second_mod ring.positive, ← start_succ queue.memory.capacity found]
  · intro index other otherStored otherFound byte covers outside
    by_cases same : index = ledger.cursor member
    · subst same
      rw [found] at otherFound
      cases otherFound
      refine write_outside ?_
      simp only [counterOffset, timestampOffset, wordBytes_length] at outside ⊢
      omega
    · refine writeWord_agreeOnWindow ring.positive entry.size_pos
        (ring.extent_le stored found) (by simp [counterOffset, headerSize]) ?_ byte covers
      exact ring.apart stored found otherStored otherFound same

/-! ## Collecting -/

structure Collects (before after : QueueMemory) (ledger : Ledger Nat Entry)
    (count : Nat) : Prop where
  tracks : Tracks after (ledger.collect count)
  settings : SameSettings after before
  data : after.data = before.data
  garbage : ledger.Garbage count

theorem Collects.incFreeSpace {before after : QueueMemory} {count value : Nat}
    (collects : Collects before after ledger count) :
    Collects before (after.incFreeSpace value) ledger count :=
  ⟨collects.tracks.incFreeSpace, SameSettings.incFreeSpace.trans collects.settings,
    collects.data, collects.garbage⟩

theorem collects_removed {memory : QueueMemory} (tracks : Tracks memory ledger) :
    Collects memory (memory.removed memory.garbage) ledger memory.garbage := by
  rcases tracks.ring.garbage_spec with ⟨inside, unreferenced, stops⟩
  exact ⟨⟨tracks.ring.removed inside, tracks.counter,
    tracks.valid.collect inside unreferenced⟩, ⟨rfl, rfl, rfl⟩, rfl, unreferenced, stops⟩

/-- The private members after `count` messages have been collected. -/
def collector (queue : Queue) (count : Nat) : Handle :=
  match queue.self.type with
  | .unreadable => { queue.self with counter := (queue.self.counter + count) % 2 ^ 32 }
  | _ => queue.self

@[simp] theorem collector_type (queue : Queue) (count : Nat) :
    (queue.collector count).type = queue.self.type := by
  unfold collector
  split <;> rfl

@[simp] theorem collector_sid (queue : Queue) (count : Nat) :
    (queue.collector count).sid = queue.self.sid := by
  unfold collector
  split <;> rfl

theorem collector_counter (count : Nat) (unreadable : queue.self.type = .unreadable) :
    (queue.collector count).counter = (queue.self.counter + count) % 2 ^ 32 := by
  rw [collector, unreadable]

theorem collector_counter_lt (count : Nat) (bounded : queue.self.counter < 2 ^ 32) :
    (queue.collector count).counter < 2 ^ 32 := by
  unfold collector
  split
  · exact Nat.mod_lt _ (by decide)
  · exact bounded

theorem collector_of_ne (queue : Queue) (count : Nat) (readable : queue.self.type ≠ .unreadable) :
    queue.collector count = queue.self := by
  unfold collector
  split
  · rename_i unreadable
    exact absurd unreadable readable
  · rfl

/-- `clean_messages` collects the garbage. A smart queue adds its size to the free space. -/
theorem cleanMessages_eq (counted : queue.self.type ≠ .simple)
    (tracks : Tracks queue.memory ledger) (walkable : queue.Walkable) :
    ∃ count info memory,
      queue.cleanMessages = .ok (info, ⟨memory, queue.collector count⟩) ∧
      info.first = count ∧ Collects queue.memory memory ledger count ∧
      (queue.self.type = .smart → queue.memory.freeSpace < 2 ^ 32 →
        memory.freeSpace = (queue.memory.freeSpace + queue.memory.totalSize count) % 2 ^ 32) := by
  have cleans := baseCleanMessages_removed counted tracks.ring walkable
  have collects := collects_removed tracks
  cases kind : queue.self.type with
  | simple => exact absurd kind counted
  | shared =>
      refine ⟨queue.memory.garbage, ⟨_, queue.memory.totalSize queue.memory.garbage⟩, _, ?_, rfl,
        collects, fun smart => by cases smart⟩
      rw [cleanMessages, collector, kind]
      exact cleans
  | unreadable =>
      refine ⟨queue.memory.garbage, ⟨_, queue.memory.totalSize queue.memory.garbage⟩, _, ?_, rfl,
        collects, fun smart => by cases smart⟩
      rw [cleanMessages, collector, kind]
      simp only [cleans, Bind.bind, Except.bind, pure, Except.pure]
      rfl
  | smart =>
      by_cases some : queue.memory.garbage > 0
      · refine ⟨queue.memory.garbage, ⟨_, queue.memory.totalSize queue.memory.garbage⟩, _, ?_,
          rfl, collects.incFreeSpace, fun _ _ => rfl⟩
        rw [cleanMessages, collector, kind]
        simp only [cleans, Bind.bind, Except.bind, pure, Except.pure, if_pos some]
        rfl
      · have none : queue.memory.garbage = 0 := by omega
        refine ⟨queue.memory.garbage, ⟨_, queue.memory.totalSize queue.memory.garbage⟩, _, ?_,
          rfl, collects, fun _ small => ?_⟩
        · rw [cleanMessages, collector, kind]
          simp only [cleans, Bind.bind, Except.bind, pure, Except.pure, if_neg some]
          rfl
        · rw [none]
          exact (Nat.mod_eq_of_lt small).symm

/-! ## Pushing -/

structure Counts (queue : Queue) (made : ByteMemory) (position : Nat)
    (memory : QueueMemory) : Prop where
  capacity : memory.capacity = queue.memory.capacity
  head : memory.head = queue.memory.head
  tail : memory.tail = queue.memory.tail
  count : memory.count = queue.memory.count
  data : memory.data = setCounter made position queue.memory.subscriptionsCount
  counter : memory.counter = (queue.memory.counter + 1) % 2 ^ 32
  settings : SameSettings memory queue.memory

theorem Counts.decFreeSpace {made : ByteMemory} {position : Nat} {memory : QueueMemory}
    (counts : queue.Counts made position memory) (value : Nat) :
    queue.Counts made position (memory.decFreeSpace value) :=
  ⟨counts.capacity, counts.head, counts.tail, counts.count, counts.data, counts.counter,
    SameSettings.decFreeSpace.trans counts.settings⟩

theorem sharedPushMessage_refused {base now : Nat} {log : List Entry} {payload : List UInt8}
    {made : ByteMemory} (makes : queue.Makes log base payload now false made) :
    queue.sharedPushMessage payload now =
      .ok (.none, queue.setMemory (queue.memory.setData made)) := by
  rw [sharedPushMessage, makes.result]
  rfl

theorem pushMessage_refused (counted : queue.self.type ≠ .simple) {base now : Nat}
    {log : List Entry} {payload : List UInt8} {made : ByteMemory}
    (makes : queue.Makes log base payload now false made) :
    queue.pushMessage payload now =
      .ok (.none, queue.setMemory (queue.memory.setData made)) := by
  have shared := sharedPushMessage_refused makes
  rw [pushMessage]
  cases kind : queue.self.type <;> first
    | exact absurd kind counted
    | exact shared
    | (simp only [shared, Bind.bind, Except.bind, MessageDesc.none]; rfl)

theorem sharedPushMessage_accepted {base now : Nat} {log : List Entry} {refs : Nat → Nat}
    (ring : Ring queue.memory log base refs) {payload : List UInt8} (nonempty : payload ≠ [])
    {made : ByteMemory} (makes : queue.Makes log base payload now true made) :
    ∃ memory,
      queue.sharedPushMessage payload now = .ok (desc queue.memory.capacity
        (start queue.memory.capacity log log.length) payload.length, queue.setMemory memory) ∧
      queue.Counts made (headerPlace queue.memory.capacity
        (start queue.memory.capacity log log.length) payload.length) memory ∧
      memory.freeSpace = queue.memory.freeSpace ∧
      totalSize memory.data (desc queue.memory.capacity
        (start queue.memory.capacity log log.length) payload.length).first =
          footprint queue.memory.capacity (start queue.memory.capacity log log.length)
            payload.length := by
  rcases desc_first queue.memory.capacity
    (start queue.memory.capacity log log.length) payload.length with ⟨rest, first⟩
  have extentLe : extent queue.memory.capacity (start queue.memory.capacity log log.length)
      payload.length ≤ queue.memory.capacity := by
    have fits := makes.fits rfl
    have ordered := ring.ordered
    unfold Fits at fits
    omega
  refine ⟨(queue.memory.setData (setCounter made (headerPlace queue.memory.capacity
    (start queue.memory.capacity log log.length) payload.length)
      queue.memory.subscriptionsCount)).incCounter, ?_,
    ⟨rfl, rfl, rfl, rfl, rfl, rfl, SameSettings.incCounter.trans .setData⟩, rfl, ?_⟩
  · rw [sharedPushMessage, makes.result, if_pos rfl]
    simp only [Bind.bind, Except.bind, first]
    rfl
  · exact ((makes.holds rfl).setCounter queue.memory.subscriptionsCount
      (List.length_pos_iff.mpr nonempty) extentLe).totalSize_eq

theorem pushMessage_accepted (counted : queue.self.type ≠ .simple) {base now : Nat}
    {log : List Entry} {refs : Nat → Nat} (ring : Ring queue.memory log base refs)
    {payload : List UInt8} (nonempty : payload ≠ []) {made : ByteMemory}
    (makes : queue.Makes log base payload now true made) :
    ∃ memory,
      queue.pushMessage payload now = .ok (desc queue.memory.capacity
        (start queue.memory.capacity log log.length) payload.length,
        queue.setMemory memory) ∧
      queue.Counts made (headerPlace queue.memory.capacity
        (start queue.memory.capacity log log.length) payload.length) memory ∧
      (queue.self.type = .smart → memory.freeSpace = sub32 queue.memory.freeSpace
        (footprint queue.memory.capacity (start queue.memory.capacity log log.length)
          payload.length)) := by
  rcases desc_first queue.memory.capacity
    (start queue.memory.capacity log log.length) payload.length with ⟨rest, first⟩
  rcases sharedPushMessage_accepted ring nonempty makes with
    ⟨memory, shared, counts, space, sized⟩
  cases kind : queue.self.type with
  | simple => exact absurd kind counted
  | shared => exact ⟨_, by rw [pushMessage, kind]; exact shared, counts, fun smart => by cases smart⟩
  | unreadable =>
      exact ⟨_, by rw [pushMessage, kind]; exact shared, counts, fun smart => by cases smart⟩
  | smart =>
      refine ⟨_, ?_, counts.decFreeSpace (totalSize memory.data (desc queue.memory.capacity
        (start queue.memory.capacity log log.length) payload.length).first), fun _ => ?_⟩
      · rw [pushMessage, kind]
        simp only [shared, Bind.bind, Except.bind, first, pure, Except.pure]
        rfl
      · rw [QueueMemory.decFreeSpace, space, sized]

theorem Counts.link {made : ByteMemory} {memory : QueueMemory} {payload : List UInt8}
    {now : Nat} (tracks : Tracks queue.memory ledger)
    (makes : queue.Makes ledger.log ledger.collected payload now true made)
    (counts : queue.Counts made (headerPlace queue.memory.capacity
      (start queue.memory.capacity ledger.log ledger.log.length) payload.length) memory)
    (subscribed : queue.memory.subscriptionsCount = ledger.members.card)
    (few : ledger.members.card < 2 ^ 32) (nonempty : payload ≠ []) (tag : Nat) :
    ∃ linked, (queue.setMemory memory).linked tag (headerPlace queue.memory.capacity
        (start queue.memory.capacity ledger.log ledger.log.length) payload.length)
        (desc queue.memory.capacity (start queue.memory.capacity ledger.log
          ledger.log.length) payload.length).second = linked ∧
      Tracks linked (ledger.publish (queue.pushedEntry tag now payload nonempty)) ∧
      SameSettings linked queue.memory ∧
      AgreeOnWindow linked.data queue.memory.data queue.memory.capacity
        (start queue.memory.capacity ledger.log ledger.collected)
        (start queue.memory.capacity ledger.log ledger.log.length) := by
  have ring := tracks.ring
  have fits := makes.fits rfl
  have size : 0 < payload.length := List.length_pos_iff.mpr nonempty
  have extentLe : extent queue.memory.capacity (start queue.memory.capacity ledger.log
      ledger.log.length) payload.length ≤ queue.memory.capacity := by
    have ordered := ring.ordered
    unfold Fits at fits
    omega
  have apart : ∀ (data : ByteMemory) (offset value : Nat), offset + 4 ≤ headerSize →
      AgreeOnWindow (data.writeWord (headerPlace queue.memory.capacity (start
        queue.memory.capacity ledger.log ledger.log.length) payload.length + offset)
          value) data queue.memory.capacity
        (start queue.memory.capacity ledger.log ledger.collected)
        (start queue.memory.capacity ledger.log ledger.log.length) :=
    fun data offset value inside => writeWord_agreeOnWindow ring.positive size extentLe
      inside (.inl ⟨Nat.le_refl _, fits⟩)
  have counterKept := apart made counterOffset queue.memory.subscriptionsCount
    (by simp [counterOffset, headerSize])
  have tagKept := apart memory.data tagOffset tag (by simp [tagOffset, headerSize])
  have kept : Ring memory ledger.log ledger.collected ledger.refs :=
    (ring.setData (counterKept.trans makes.frame)).congr counts.capacity counts.head
      counts.tail counts.count counts.data
  have holds := (makes.holds rfl).setCounter queue.memory.subscriptionsCount size extentLe
  have referenced : queue.memory.subscriptionsCount % 2 ^ 32 =
      ledger.refs ledger.log.length := by
    rw [Ledger.refs_length tracks.valid, subscribed, Nat.mod_eq_of_lt few]
  have linked := kept.link (queue.pushedEntry tag now payload nonempty)
    (by rw [counts.capacity]; exact fits) rfl
    (by rw [counts.capacity, counts.data, ← referenced]; exact holds)
  rw [counts.capacity] at linked
  refine ⟨_, rfl, ⟨linked, ?_, tracks.valid.publish _⟩, ?_, ?_⟩
  · rw [Queue.linked, QueueMemory.setCount_counter, QueueMemory.setTail_counter,
      QueueMemory.setData_counter, setMemory_memory, counts.counter, tracks.counter,
      Nat.mod_add_mod, Ledger.publish, List.length_append, List.length_singleton]
  · exact SameSettings.setCount.trans
      (SameSettings.setTail.trans (SameSettings.setData.trans counts.settings))
  · rw [Queue.linked, QueueMemory.setCount_data, QueueMemory.setTail_data,
      QueueMemory.setData_data, setMemory_memory]
    refine tagKept.trans ?_
    rw [counts.data]
    exact counterKept.trans makes.frame

structure Pushes (before after : QueueMemory) (ledger : Ledger Nat Entry) (count : Nat)
    (entry : Entry) (accepted : Bool) : Prop where
  tracks : Tracks after (if accepted then (ledger.collect count).publish entry
    else ledger.collect count)
  settings : SameSettings after before
  frame : AgreeOnWindow after.data before.data before.capacity
    (start before.capacity ledger.log (ledger.collected + count))
    (start before.capacity ledger.log ledger.log.length)
  garbage : ledger.Garbage count

/-- The free space of a smart queue after an attempt to push a message of `size` bytes. -/
def spaceAfter (queue : Queue) (log : List Entry) (size : Nat) (accepted : Bool) : Nat :=
  if accepted then
    sub32 queue.memory.freeSpace (footprint queue.memory.capacity
      (start queue.memory.capacity log log.length) size)
  else queue.memory.freeSpace

theorem doPush_of_makes (counted : queue.self.type ≠ .simple) {cleaned : QueueMemory}
    {info : GarbageInfo} {count : Nat}
    (cleans : queue.cleanMessages = .ok (info, ⟨cleaned, queue.collector count⟩))
    (collects : Collects queue.memory cleaned ledger count) {payload : List UInt8}
    (nonempty : payload ≠ []) {tag now : Nat} {accepted : Bool} {made : ByteMemory}
    (makes : Makes ⟨cleaned, queue.collector count⟩ ledger.log (ledger.collected + count)
      payload now accepted made)
    (subscribed : queue.memory.subscriptionsCount = ledger.members.card)
    (few : ledger.members.card < 2 ^ 32) :
    ∃ memory,
      queue.doPush tag payload now = .ok (accepted, ⟨memory, queue.collector count⟩) ∧
      Pushes queue.memory memory ledger count
        (queue.pushedEntry tag now payload nonempty) accepted ∧
      (queue.self.type = .smart → memory.freeSpace =
        spaceAfter ⟨cleaned, queue.collector count⟩ ledger.log payload.length accepted) := by
  have cleanedTracks := collects.tracks
  have capacity := collects.settings.capacity
  have stillCounted : (queue.collector count).type ≠ .simple := by
    rwa [collector_type]
  cases accepted with
  | true =>
      rcases @pushMessage_accepted ⟨cleaned, queue.collector count⟩ stillCounted _ _ _ _
          cleanedTracks.ring _ nonempty _ makes with
        ⟨memory, pushes, counts, space⟩
      rcases desc_first cleaned.capacity
        (start cleaned.capacity ledger.log ledger.log.length) payload.length with
          ⟨rest, first⟩
      rcases @Counts.link ⟨cleaned, queue.collector count⟩ (ledger.collect count) _ _ _ _
          cleanedTracks makes counts
          (collects.settings.subscriptionsCount.trans subscribed) few nonempty tag with
        ⟨linked, isLinked, linkedTracks, settings, frame⟩
      refine ⟨linked, ?_, ⟨?_, settings.trans collects.settings, ?_, collects.garbage⟩, ?_⟩
      · rw [doPush_accepted cleans pushes first]
        change Except.ok (true, Queue.mk ((queue.setMemory memory).linked _ _ _) _) = _
        rw [← isLinked]
        rfl
      · rw [if_pos rfl]
        have sameEntry : pushedEntry ⟨cleaned, queue.collector count⟩ tag now payload
            nonempty = queue.pushedEntry tag now payload nonempty := by
          simp only [pushedEntry, collector_sid]
        rw [← sameEntry]
        exact linkedTracks
      · rw [← capacity, ← collects.data]
        exact frame
      · intro smart
        rw [← isLinked, Queue.linked, QueueMemory.setCount_freeSpace,
          QueueMemory.setTail_freeSpace, QueueMemory.setData_freeSpace, spaceAfter, if_pos rfl]
        exact space (by rwa [collector_type])
  | false =>
      have pushes := @pushMessage_refused ⟨cleaned, queue.collector count⟩ stillCounted
        _ _ _ _ _ makes
      refine ⟨_, doPush_refused cleans pushes rfl, ⟨?_, SameSettings.setData.trans
        collects.settings, ?_, collects.garbage⟩, fun _ => QueueMemory.setData_freeSpace _ _⟩
      · exact ⟨cleanedTracks.ring.setData makes.frame, cleanedTracks.counter,
          cleanedTracks.valid⟩
      · rw [← capacity, ← collects.data]
        exact makes.frame

/-- `do_push` collects messages, and then stores the new message or refuses it. -/
theorem doPush_eq (counted : queue.self.type ≠ .simple)
    (tracks : Tracks queue.memory ledger) (walkable : queue.Walkable)
    (subscribed : queue.memory.subscriptionsCount = ledger.members.card)
    (few : ledger.members.card < 2 ^ 32) {payload : List UInt8} (nonempty : payload ≠ [])
    (tag now : Nat)
    (exists_made : ∀ count memory, Collects queue.memory memory ledger count →
      ∃ accepted made, Makes ⟨memory, queue.collector count⟩ ledger.log
        (ledger.collected + count) payload now accepted made) :
    ∃ count accepted memory,
      queue.doPush tag payload now = .ok (accepted, ⟨memory, queue.collector count⟩) ∧
      Pushes queue.memory memory ledger count
        (queue.pushedEntry tag now payload nonempty) accepted := by
  rcases cleanMessages_eq counted tracks walkable with
    ⟨count, info, cleaned, cleans, number, collects, -⟩
  rcases exists_made count cleaned collects with ⟨accepted, made, makes⟩
  rcases doPush_of_makes counted cleans collects nonempty makes subscribed few with
    ⟨memory, result, pushes, -⟩
  exact ⟨count, accepted, memory, result, pushes⟩

end Queue

end Qbus
