import Qbus.Queue.Calls
import Qbus.Queue.Execution
import Mathlib.Logic.Relation

/-! # The fragments of the writer and of the reader

`static_make_message` and `static_get_message` compute their regions in different
ways. A message that has been made is read back fragment by fragment, by however
slow a reader: `Later` lists what may happen to the queue in the meantime. -/

namespace Qbus

open ByteMemory Message Circular Placement Storage MachineWord

namespace Message

def fragments (memory : ByteMemory) (chain : Chain) : List Fragment :=
  chain.map fun position => ⟨position, capacity memory position⟩

theorem Packed.fragments_eq {memory : ByteMemory} {leads : Bool}
    {placed : List Fragment} {payload : List UInt8}
    (packed : Packed memory leads placed payload) :
    fragments memory (placed.map Fragment.position) = placed := by
  rw [fragments, List.map_map]
  refine (List.map_congr_left fun fragment member => ?_).trans (List.map_id placed)
  rw [Function.comp_apply, packed.capacity_eq member]
  rfl

end Message

namespace QueueMemory

variable {memory : QueueMemory} {first last : Nat}

def occupied (memory : QueueMemory) : Nat :=
  if memory.count = 0 then 0
  else if memory.head < memory.tail then memory.tail - memory.head
  else memory.tail + memory.capacity - memory.head

/-- What the header of a simple or shared queue says: the head and the tail are places
of the ring, and each of the stored messages takes one place at least. -/
structure RingHeader (memory : QueueMemory) : Prop where
  bounded : memory.capacity < 2 ^ 32
  headLt : memory.head < memory.capacity
  tailLt : memory.tail < memory.capacity
  drained : memory.count = 0 → memory.head = memory.tail
  counted : memory.count ≤ memory.occupied

theorem Spans.occupied_eq (spans : memory.Spans first last) :
    memory.occupied = last - first := by
  have headBound := Nat.mod_lt first spans.positive
  have tailBound := Nat.mod_lt last spans.positive
  have drained := spans.drained
  have ordered := spans.ordered
  have near := spans.near
  rcases exists_turn spans.positive ordered near with ⟨turn, headSplit, tailSplit⟩
  rw [← spans.headEq] at headBound headSplit
  rw [← spans.tailEq] at tailBound tailSplit
  unfold occupied
  split
  · omega
  · split <;> omega

theorem RingHeader.spans (ring : memory.RingHeader) :
    memory.Spans memory.head (memory.head + memory.occupied) := by
  have headLt := ring.headLt
  have tailLt := ring.tailLt
  have drained := ring.drained
  have tailEq : memory.tail = (memory.head + memory.occupied) % memory.capacity := by
    unfold occupied
    split
    · rw [Nat.add_zero, Nat.mod_eq_of_lt headLt]
      exact (drained ‹_›).symm
    · split
      · rw [Nat.add_sub_cancel' (by omega), Nat.mod_eq_of_lt tailLt]
      · rw [Nat.add_sub_cancel' (by omega), Nat.add_mod_right, Nat.mod_eq_of_lt tailLt]
  refine ⟨by omega, ring.bounded, (Nat.mod_eq_of_lt headLt).symm, tailEq, by omega, ?_, ?_⟩
  · unfold occupied
    split
    · omega
    · split <;> omega
  · unfold occupied
    split
    · omega
    · split <;> omega

theorem Spans.congr {other : QueueMemory} (spans : memory.Spans first last)
    (capacity : other.capacity = memory.capacity) (head : other.head = memory.head)
    (tail : other.tail = memory.tail) (count : other.count = memory.count) :
    other.Spans first last where
  positive := by rw [capacity]; exact spans.positive
  bounded := by rw [capacity]; exact spans.bounded
  headEq := by rw [capacity, head, spans.headEq]
  tailEq := by rw [capacity, tail, spans.tailEq]
  ordered := spans.ordered
  near := by rw [capacity]; exact spans.near
  drained := by rw [count]; exact spans.drained

theorem Spans.link (spans : memory.Spans first last) (counted : memory.count ≤ last - first)
    {size : Nat} (nonempty : 0 < size)
    (fits : last + extent memory.capacity last size ≤ first + memory.capacity) :
    ((memory.setTail (desc memory.capacity last size).second).setCount
      (memory.count + 1)).Spans first (last + extent memory.capacity last size) ∧
    ((memory.setTail (desc memory.capacity last size).second).setCount
      (memory.count + 1)).count ≤ last + extent memory.capacity last size - first := by
  have ordered := spans.ordered
  have bounded := spans.bounded
  have large := lt_extent memory.capacity last size
  have small : (memory.count + 1) % 2 ^ 32 = memory.count + 1 :=
    Nat.mod_eq_of_lt (by omega)
  refine ⟨⟨spans.positive, bounded, spans.headEq, ?_, by omega, fits, ?_⟩, ?_⟩
  · have stop := desc_second_lt last spans.positive bounded nonempty (by omega)
    change _ % 2 ^ 32 % memory.capacity = _ % memory.capacity
    rw [Nat.mod_eq_of_lt stop, desc_second_mod spans.positive]
  · change (memory.count + 1) % 2 ^ 32 = 0 ↔ _
    rw [small]
    omega
  · change (memory.count + 1) % 2 ^ 32 ≤ _
    rw [small]
    omega

end QueueMemory

/-- What may happen to a queue while a reader stands at `place`: a handle pushes, and the
shared head moves, but not beyond this place. -/
inductive QueueMemory.Later (place : Nat) : QueueMemory → QueueMemory → Prop
  | accepted {queue pushed : Queue} {payload : List UInt8} {now tag : Nat}
      {message : MessageDesc} {position : Nat} {rest : Chain} :
      queue.self.type ≠ .smart → queue.pushMessage payload now = .ok (message, pushed) →
      message.first = position :: rest →
      Later place queue.memory (pushed.linked tag position message.second)
  | refused {queue pushed : Queue} {payload : List UInt8} {now : Nat}
      {message : MessageDesc} :
      queue.self.type ≠ .smart → queue.pushMessage payload now = .ok (message, pushed) →
      message.first = [] → Later place queue.memory pushed.memory
  | removed {memory : QueueMemory} {head count : Nat} : 0 < count →
      (head + memory.capacity - memory.head) % memory.capacity ≤
        (place + memory.capacity - memory.head) % memory.capacity →
      ({ memory with head := head, count := count } : QueueMemory).RingHeader →
      Later place memory { memory with head := head, count := count }

structure QueueMemory.Contains (memory : QueueMemory) (capacity position : Nat)
    (payload : List UInt8) (first last : Nat) : Prop where
  sized : memory.capacity = capacity
  spans : memory.Spans first last
  counted : memory.count ≤ last - first
  lower : first ≤ position
  upper : position + extent capacity position payload.length ≤ last
  packed : Packed memory.data true (place capacity position payload.length) payload

namespace Queue

variable {queue : Queue} {first last : Nat}

theorem pushMessage_spans (plain : queue.self.type ≠ .smart)
    (spans : queue.memory.Spans first last) {payload : List UInt8}
    (nonempty : payload ≠ []) (now : Nat) :
    ∃ data counter,
      queue.pushMessage payload now =
        .ok (if last + extent queue.memory.capacity last payload.length ≤
              first + queue.memory.capacity then
            desc queue.memory.capacity last payload.length
          else .none,
          queue.setMemory { queue.memory with data := data, counter := counter }) ∧
      (last + extent queue.memory.capacity last payload.length ≤
          first + queue.memory.capacity →
        ∃ header, Holds data queue.memory.capacity last payload header) ∧
      AgreeOnWindow data queue.memory.data queue.memory.capacity first last := by
  have ordered := spans.ordered
  have size : 0 < payload.length := List.length_pos_iff.mpr nonempty
  rcases spans.makeBase queue.self.sid now nonempty with ⟨made, result, success, frame⟩
  have makes : queue.basePushMessage payload now = .ok
      (if last + extent queue.memory.capacity last payload.length ≤
            first + queue.memory.capacity then
          desc queue.memory.capacity last payload.length
        else .none, queue.setMemory (queue.memory.setData made)) := by
    rw [basePushMessage, getFreeRegion_eq (.inl plain), result]
    rfl
  by_cases fits : last + extent queue.memory.capacity last payload.length ≤
      first + queue.memory.capacity
  · rw [if_pos fits] at makes ⊢
    rcases desc_first queue.memory.capacity last payload.length with ⟨rest, headed⟩
    have shared : queue.sharedPushMessage payload now = .ok
        (desc queue.memory.capacity last payload.length, queue.setMemory (queue.memory.setData (setCounter made (headerPlace queue.memory.capacity last
          payload.length) queue.memory.subscriptionsCount)).incCounter) := by
      rw [sharedPushMessage, makes]
      simp only [Bind.bind, Except.bind, headed]
      rfl
    have counted := (success fits).setCounter queue.memory.subscriptionsCount size
      (by omega)
    have kept : AgreeOnWindow (setCounter made (headerPlace queue.memory.capacity last
        payload.length) queue.memory.subscriptionsCount) made queue.memory.capacity _ _ :=
      writeWord_agreeOnWindow spans.positive size (by omega)
        (by simp [counterOffset, headerSize]) (.inl ⟨Nat.le_refl _, fits⟩)
    cases kind : queue.self.type with
    | simple =>
        exact ⟨made, queue.memory.counter, by rw [pushMessage, kind]; exact makes,
          fun _ => ⟨_, success fits⟩, frame⟩
    | shared =>
        exact ⟨_, _, by rw [pushMessage, kind]; exact shared, fun _ => ⟨_, counted⟩,
          kept.trans frame⟩
    | unreadable =>
        exact ⟨_, _, by rw [pushMessage, kind]; exact shared, fun _ => ⟨_, counted⟩,
          kept.trans frame⟩
    | smart => exact absurd kind plain
  · rw [if_neg fits] at makes ⊢
    have shared : queue.sharedPushMessage payload now =
        .ok (.none, queue.setMemory (queue.memory.setData made)) := by
      rw [sharedPushMessage, makes]
      rfl
    refine ⟨made, queue.memory.counter, ?_, fun holds => absurd holds fits, frame⟩
    rw [pushMessage]
    cases kind : queue.self.type with
    | simple => exact makes
    | shared => exact shared
    | unreadable => exact shared
    | smart => exact absurd kind plain

/-- A message that is linked has been made behind the window, which grows by its extent. -/
theorem linked_of_pushMessage (plain : queue.self.type ≠ .smart)
    (spans : queue.memory.Spans first last) (counted : queue.memory.count ≤ last - first)
    {payload : List UInt8} {now : Nat} {message : MessageDesc} {pushed : Queue}
    {position : Nat} {rest : Chain}
    (pushes : queue.pushMessage payload now = .ok (message, pushed))
    (made : message.first = position :: rest) (tag : Nat) :
    message = desc queue.memory.capacity last payload.length ∧
    Packed pushed.memory.data true (place queue.memory.capacity last payload.length)
      payload ∧
    (pushed.linked tag position message.second).Contains queue.memory.capacity last payload
      first (last + extent queue.memory.capacity last payload.length) ∧
    AgreeOnWindow (pushed.linked tag position message.second).data queue.memory.data
      queue.memory.capacity first last := by
  have nonempty : payload ≠ [] := by
    rintro rfl
    rw [pushMessage_nil] at pushes
    cases pushes
  have size : 0 < payload.length := List.length_pos_iff.mpr nonempty
  have positive := spans.positive
  have ordered := spans.ordered
  rcases pushMessage_spans plain spans nonempty now with
    ⟨bytes, counter, result, success, frame⟩
  rw [result] at pushes
  cases pushes
  by_cases fits : last + extent queue.memory.capacity last payload.length ≤
      first + queue.memory.capacity
  · rw [if_pos fits] at made ⊢
    rcases desc_first queue.memory.capacity last payload.length with ⟨more, headed⟩
    rw [headed] at made
    cases made
    rcases success fits with ⟨header, holds⟩
    have tagged : AgreeOnWindow (setTag bytes (headerPlace queue.memory.capacity last
        payload.length) tag) bytes queue.memory.capacity first last :=
      writeWord_agreeOnWindow positive size (by omega)
        (by simp [tagOffset, headerSize]) (.inl ⟨Nat.le_refl _, fits⟩)
    rcases spans.link counted size fits with ⟨linked, linkedCount⟩
    exact ⟨rfl, holds.packed, ⟨rfl, linked.congr rfl rfl rfl rfl, linkedCount, ordered,
      Nat.le_refl _, (holds.setTag tag size (by omega)).packed⟩, tagged.trans frame⟩
  · rw [if_neg fits] at made
    cases made

end Queue

namespace QueueMemory

variable {memory next : QueueMemory} {first last capacity position : Nat}
  {payload : List UInt8}

private theorem add_distance_mod (first place : Nat) (inside : place < capacity) :
    (first + (place + capacity - first % capacity) % capacity) % capacity = place := by
  have bound := Nat.mod_lt first (show 0 < capacity by omega)
  rw [Nat.add_mod_mod, ← Nat.mod_add_mod,
    show first % capacity + (place + capacity - first % capacity) = place + capacity by omega,
    Nat.add_mod_right, Nat.mod_eq_of_lt inside]

private theorem distance_eq (positive : 0 < capacity) (lower : first ≤ position)
    (upper : position < first + capacity) :
    (position % capacity + capacity - first % capacity) % capacity = position - first := by
  have bound := Nat.mod_lt first positive
  have placeBound := Nat.mod_lt position positive
  rcases exists_turn positive lower (Nat.le_of_lt upper) with ⟨turn, split, placeSplit⟩
  rcases Nat.lt_or_ge (position % capacity) (first % capacity) with before | behind
  · rw [Nat.mod_eq_of_lt (by omega)]
    omega
  · rw [show position % capacity + capacity - first % capacity =
      position % capacity - first % capacity + capacity by omega, Nat.add_mod_right,
      Nat.mod_eq_of_lt (by omega)]
    omega

theorem Contains.setData (contains : memory.Contains capacity position payload first last)
    (nonempty : payload ≠ []) {data : ByteMemory}
    (agrees : AgreeOnWindow data memory.data capacity first last) :
    (memory.setData data).Contains capacity position payload first last where
  sized := contains.sized
  spans := contains.spans.congr rfl rfl rfl rfl
  counted := contains.counted
  lower := contains.lower
  upper := contains.upper
  packed := by
    have positive := contains.spans.positive
    have near := contains.spans.near
    have lower := contains.lower
    have upper := contains.upper
    rw [contains.sized] at positive near
    exact packed_of_agree contains.packed positive (List.length_pos_iff.mpr nonempty)
      (by omega) (agrees.mono lower upper)

theorem Later.contains (later : Later (position % capacity) memory next)
    (nonempty : payload ≠ [])
    (contains : memory.Contains capacity position payload first last) :
    ∃ first last, next.Contains capacity position payload first last := by
  have size : 0 < payload.length := List.length_pos_iff.mpr nonempty
  have positive := contains.spans.positive
  have ordered := contains.spans.ordered
  have near := contains.spans.near
  have lower := contains.lower
  have upper := contains.upper
  have large := lt_extent capacity position payload.length
  cases contains.sized
  cases later with
  | @accepted queue pushed data now tag message place rest plain pushes made =>
      rcases Queue.linked_of_pushMessage plain contains.spans contains.counted pushes made
        tag with ⟨-, -, linked, frame⟩
      have packed := packed_of_agree contains.packed positive size (by omega)
        (frame.mono lower upper)
      exact ⟨first, _, linked.sized, linked.spans, linked.counted, lower,
        Nat.le_trans upper (Nat.le_add_right _ _), packed⟩
  | @refused queue pushed data now message plain pushes made =>
      have pushesData : data ≠ [] := by
        rintro rfl
        rw [Queue.pushMessage_nil] at pushes
        cases pushes
      rcases Queue.pushMessage_spans plain contains.spans pushesData now with
        ⟨bytes, counter, result, -, frame⟩
      rw [result] at pushes
      cases pushes
      have kept := contains.setData nonempty frame
      exact ⟨first, last, rfl, kept.spans.congr rfl rfl rfl rfl, kept.counted, lower, upper,
        kept.packed⟩
  | @removed memory head count stored behind ring =>
      have headLt := ring.headLt
      rw [contains.spans.headEq, distance_eq positive lower (by omega)] at behind
      have spans : ({ memory with head := head, count := count } : QueueMemory).Spans
          (first + (head + memory.capacity - first % memory.capacity) % memory.capacity)
          last := {
        positive := positive
        bounded := contains.spans.bounded
        headEq := (add_distance_mod first head headLt).symm
        tailEq := contains.spans.tailEq
        ordered := by omega
        near := by
          change last ≤ _ + memory.capacity
          omega
        drained := by
          change count = 0 ↔ _
          omega }
      refine ⟨_, last, rfl, spans, ?_, by omega, upper, contains.packed⟩
      rw [← spans.occupied_eq]
      exact ring.counted

theorem Contains.read {reader : Queue} (nonempty : payload ≠ [])
    (contains : reader.memory.Contains capacity position payload first last)
    (stands : reader.head = position % capacity) (behind : reader.empty = false) :
    reader.baseGetMessage = .ok (desc capacity position payload.length) ∧
    fragments reader.memory.data (desc capacity position payload.length).first =
      place capacity position payload.length := by
  cases contains.sized
  have regions : reader.getBusyRegion =
      reader.memory.getBusyRegion (position % reader.memory.capacity) false := by
    funext previous
    rw [Queue.getBusyRegion, stands, behind]
  refine ⟨?_, contains.packed.fragments_eq⟩
  rw [Queue.baseGetMessage, regions]
  exact contains.spans.read nonempty contains.lower contains.upper contains.packed

end QueueMemory

namespace Queue

/-- The region loop that makes a message in a simple or shared queue ends, and writes two
fragments at most. However much is pushed and removed in front of it afterwards, a reader
that stands where the tail was walks exactly over these fragments, to the same end. -/
theorem reads_fragments_of_push {queue : Queue} (ring : queue.memory.RingHeader)
    (plain : queue.self.type ≠ .smart) {payload : List UInt8} (nonempty : payload ≠ [])
    (now : Nat) :
    ∃ message pushed, queue.pushMessage payload now = .ok (message, pushed) ∧
      message.first.length ≤ 2 ∧
      ∀ position rest tag memory, message.first = position :: rest →
        Relation.ReflTransGen (QueueMemory.Later queue.memory.tail)
          (pushed.linked tag position message.second) memory →
        ∀ reader : Queue, reader.memory = memory → reader.head = queue.memory.tail →
          reader.empty = false →
          reader.baseGetMessage = .ok message ∧
          fragments memory.data message.first =
            fragments pushed.memory.data message.first := by
  have spans := ring.spans
  rcases pushMessage_spans plain spans nonempty now with ⟨bytes, counter, result, -, -⟩
  refine ⟨_, _, result, ?_, ?_⟩
  · split
    · rw [desc, List.length_map]
      exact place_length _ _ _
    · exact Nat.zero_le _
  · intro position rest tag memory first later
    rcases linked_of_pushMessage plain spans (by rw [Nat.add_sub_cancel_left]; exact ring.counted)
      result first tag with ⟨isDesc, packed, linked, -⟩
    rw [spans.tailEq] at later
    have stored : ∃ first last, memory.Contains queue.memory.capacity
        (queue.memory.head + queue.memory.occupied) payload first last := by
      induction later with
      | refl => exact ⟨_, _, linked⟩
      | tail _ step induction =>
          rcases induction with ⟨first, last, contains⟩
          exact step.contains nonempty contains
    rintro reader rfl stands behind
    rw [spans.tailEq] at stands
    rcases stored with ⟨head, tail, contains⟩
    rcases contains.read nonempty stands behind with ⟨found, walked⟩
    rw [isDesc]
    exact ⟨found, walked.trans packed.fragments_eq.symm⟩

/-- A message of 30 bytes that is split at the end of a ring of 100 bytes. -/
theorem reads_fragments_of_push_split : ∃ (queue pushed : Queue) (message : MessageDesc),
    queue.memory.tail = 60 ∧
      queue.pushMessage (List.replicate 30 7) 5 = .ok (message, pushed) ∧
      message.first = [60, 0] ∧
      ∀ reader : Queue, reader.memory = pushed.linked 3 60 message.second →
        reader.head = 60 → reader.empty = false → reader.baseGetMessage = .ok message := by
  rcases @reads_fragments_of_push
    ⟨{ QueueMemory.zeros with capacity := 100, head := 60, tail := 60 }, newHandle .shared 1 0⟩
    ⟨by decide, by decide, by decide, fun _ => rfl, by decide⟩ (by decide)
    (List.replicate 30 7) (by decide) 5 with ⟨message, pushed, pushes, -, walks⟩
  have first : message.first = [60, 0] := by
    have evaluated : (Queue.pushMessage
        ⟨{ QueueMemory.zeros with capacity := 100, head := 60, tail := 60 },
          newHandle .shared 1 0⟩ (List.replicate 30 7) 5).toOption.map (fun made =>
            made.1.first) = some [60, 0] := by decide +kernel
    rw [pushes] at evaluated
    exact Option.some.inj evaluated
  exact ⟨_, pushed, message, rfl, pushes, first, fun reader same stands behind =>
    (walks 60 [0] 3 _ first .refl reader same stands behind).1⟩

end Queue

end Qbus
