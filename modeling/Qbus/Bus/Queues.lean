import Qbus.Bus.Transparent
import Qbus.Queue.Pending

/-! # A bus of simple queues

The connectors of the bus are simple queues on the bytes of their shared memory. The
participant that pushes and the one that reads have an object of each queue; the object
of the reader keeps the description of the message that it has got last. -/

namespace Qbus.Bus

open ByteMemory Message Placement Storage MachineWord

structure Sendable (message : StampedView) : Prop where
  timestamp : message.timestamp < 2 ^ 32
  tag : message.view.tag < 2 ^ 32
  size : message.view.size = message.view.bytes.length
  nonempty : message.view.bytes ≠ []

instance : DecidablePred Sendable := fun message =>
  decidable_of_iff
    (message.timestamp < 2 ^ 32 ∧ message.view.tag < 2 ^ 32 ∧
      message.view.size = message.view.bytes.length ∧ message.view.bytes ≠ [])
    ⟨fun all => ⟨all.1, all.2.1, all.2.2.1, all.2.2.2⟩,
      fun sendable => ⟨sendable.timestamp, sendable.tag, sendable.size, sendable.nonempty⟩⟩

abbrev Parcel := { message : StampedView // Sendable message }

def Parcel.make (tag time : UInt32) (data : List UInt8) (nonempty : data ≠ []) : Parcel :=
  ⟨⟨time.toNat, tag.toNat, data.length, data⟩, time.toNat_lt, tag.toNat_lt, rfl, nonempty⟩

def Parcel.ofStamped (message : StampedView) : Option Parcel :=
  if sendable : Sendable message then some ⟨message, sendable⟩ else none

structure SimpleQueue where
  memory : QueueMemory
  writer : Handle
  reader : Handle
  stores : ∃ log base, Ring memory log base (fun _ => 0) ∧
    (∀ entry ∈ log, Sendable entry.stamped) ∧
    Queue.SimpleCached ⟨memory, reader⟩ log base
  untimed : memory.keepaliveTimeout = 0
  writes : writer.type = .simple
  reads : reader.type = .simple

namespace SimpleQueue

variable {queue : SimpleQueue}

def writing (queue : SimpleQueue) : Queue := ⟨queue.memory, queue.writer⟩

def reading (queue : SimpleQueue) : Queue := ⟨queue.memory, queue.reader⟩

def constructed (capacity : UInt32) : QueueMemory :=
  QueueMemory.clear { QueueMemory.zeros with
    id := 0
    capacity := capacity.toNat % 2 ^ 32
    keepaliveTimeout := 0 }

theorem create_eq (capacity : UInt32) (sid : Nat) :
    Queue.create .zeros .simple 0 capacity.toNat sid [] =
      .ok ⟨constructed capacity, Queue.newHandle .simple sid 0⟩ := rfl

/-- The queue objects of the processes `writer` and `reader` on a new queue. -/
def create (writer reader : Nat) (capacity : UInt32) (positive : 0 < capacity.toNat) :
    SimpleQueue where
  memory := constructed capacity
  writer := Queue.newHandle .simple writer 0
  reader := Queue.newHandle .simple reader (constructed capacity).counter
  stores := by
    refine ⟨[], 0, Ring.cleared rfl ?_ (Nat.mod_lt _ (by decide)), ?_, .inl rfl⟩
    · rw [Nat.mod_eq_of_lt capacity.toNat_lt]
      exact positive
    · intro entry member
      cases member
  untimed := rfl
  writes := rfl
  reads := rfl

def contents (queue : SimpleQueue) : List Parcel :=
  queue.reading.stamped.filterMap Parcel.ofStamped

def parcels (log : List Entry) : List Parcel :=
  (log.map Entry.stamped).filterMap Parcel.ofStamped

theorem parcels_cons {entry : Entry} {rest : List Entry} (sendable : Sendable entry.stamped) :
    parcels (entry :: rest) = ⟨entry.stamped, sendable⟩ :: parcels rest := by
  rw [parcels, List.map_cons, List.filterMap_cons_some (dif_pos sendable)]
  rfl

theorem parcels_append (log later : List Entry) :
    parcels (log ++ later) = parcels log ++ parcels later := by
  rw [parcels, List.map_append, List.filterMap_append]
  rfl

theorem contents_eq {log : List Entry} {base : Nat}
    (ring : Ring queue.memory log base fun _ => 0) :
    queue.contents = parcels (log.drop base) := by
  rw [contents, Queue.simple_stamped (show queue.reading.self.type = .simple from queue.reads)
    (show Ring queue.reading.memory log base _ from ring)]
  rfl

/-! ## Pushing -/

structure Pushed (queue : SimpleQueue) (parcel : Parcel) (accepted : Bool) (next : Queue) :
    Prop where
  self : next.self = queue.writer
  untimed : next.memory.keepaliveTimeout = 0
  stores : ∃ log base entry, Ring queue.memory log base (fun _ => 0) ∧
    (∀ entry ∈ log, Sendable entry.stamped) ∧ entry.stamped = parcel.val ∧
    Ring next.memory (log ++ if accepted then [entry] else []) base (fun _ => 0) ∧
    Queue.SimpleCached ⟨next.memory, queue.reader⟩
      (log ++ if accepted then [entry] else []) base

theorem pushedEntry_stamped (parcel : Parcel) (writer : Queue) :
    (writer.pushedEntry parcel.val.view.tag parcel.val.timestamp parcel.val.view.bytes
      parcel.property.nonempty).stamped = parcel.val := by
  rcases parcel with ⟨⟨timestamp, tag, size, bytes⟩, sendable⟩
  have sameTime : timestamp % 2 ^ 32 = timestamp := Nat.mod_eq_of_lt sendable.timestamp
  have sameTag : tag % 2 ^ 32 = tag := Nat.mod_eq_of_lt sendable.tag
  have sameSize : bytes.length = size := sendable.size.symm
  simp only [Entry.stamped, Entry.view, Queue.pushedEntry, Entry.size, sameTime, sameTag, sameSize]

theorem cached_append {reader : Handle} {memory after : QueueMemory} {log more : List Entry}
    {base : Nat} (cached : Queue.SimpleCached ⟨memory, reader⟩ log base)
    (capacity : after.capacity = memory.capacity) :
    Queue.SimpleCached ⟨after, reader⟩ (log ++ more) base := by
  rcases cached with none | ⟨entry, found, described⟩
  · exact .inl none
  · have below := (List.getElem?_eq_some_iff.mp found).1
    refine .inr ⟨entry, ?_, ?_⟩
    · rw [List.getElem?_append_left below]
      exact found
    · rw [capacity, start_append (Nat.le_of_lt below)]
      exact described

theorem exists_pushed (queue : SimpleQueue) (parcel : Parcel) :
    ∃ accepted next, queue.writing.push parcel.val.view.tag parcel.val.view.bytes
        parcel.val.timestamp = .ok (accepted, next) ∧ Pushed queue parcel accepted next := by
  rcases queue.stores with ⟨log, base, ring, sendable, cached⟩
  rcases @Queue.simple_push queue.writing log base queue.writes ring queue.untimed _
    parcel.property.nonempty parcel.val.view.tag parcel.val.timestamp with
    ⟨accepted, next, result, self, capacity, untimed, pushed⟩
  refine ⟨accepted, next, result, self, untimed, log, base, _, ring, sendable,
    pushedEntry_stamped parcel queue.writing, ?_, cached_append cached capacity⟩
  cases accepted with
  | true => exact pushed
  | false =>
      rw [if_neg (by simp), List.append_nil]
      exact pushed

theorem pushed_of_push {parcel : Parcel} {accepted : Bool} {next : Queue}
    (result : queue.writing.push parcel.val.view.tag parcel.val.view.bytes
      parcel.val.timestamp = .ok (accepted, next)) : Pushed queue parcel accepted next := by
  rcases queue.exists_pushed parcel with ⟨accepted', next', result', pushed⟩
  rw [result] at result'
  cases result'
  exact pushed

theorem Pushed.stored {parcel : Parcel} {accepted : Bool} {next : Queue}
    (pushed : Pushed queue parcel accepted next) :
    ∃ log base, Ring next.memory log base (fun _ => 0) ∧
      (∀ entry ∈ log, Sendable entry.stamped) ∧
      Queue.SimpleCached ⟨next.memory, queue.reader⟩ log base := by
  rcases pushed.stores with ⟨log, base, entry, -, sendable, sent, ring, cached⟩
  refine ⟨_, base, ring, ?_, cached⟩
  intro other member
  rcases List.mem_append.mp member with older | newer
  · exact sendable other older
  · cases accepted with
    | true =>
        rw [List.mem_singleton.mp newer, sent]
        exact parcel.property
    | false => cases newer

def push (queue : SimpleQueue) (parcel : Parcel) : Bool × SimpleQueue :=
  match pushed : queue.writing.push parcel.val.view.tag parcel.val.view.bytes
      parcel.val.timestamp with
  | .ok (accepted, next) => (accepted, {
      memory := next.memory
      writer := next.self
      reader := queue.reader
      stores := (pushed_of_push pushed).stored
      untimed := (pushed_of_push pushed).untimed
      writes := (congrArg Handle.type (pushed_of_push pushed).self).trans queue.writes
      reads := queue.reads })
  | .error _ => (false, queue)

theorem contents_push (queue : SimpleQueue) (parcel : Parcel) :
    (queue.push parcel).2.contents =
      if (queue.push parcel).1 then queue.contents ++ [parcel] else queue.contents := by
  unfold push
  split
  next accepted next result =>
    rcases (pushed_of_push result).stores with ⟨log, base, entry, before, -, sent, ring, -⟩
    rw [contents_eq before]
    change contents _ = if accepted then _ else _
    rw [contents_eq ring, List.drop_append_of_le_length before.baseLe, parcels_append]
    cases accepted with
    | true =>
        have sendable : Sendable entry.stamped := by
          rw [sent]
          exact parcel.property
        rw [if_pos rfl, if_pos rfl, parcels_cons sendable]
        congr 2
        exact Subtype.ext sent
    | false =>
        rw [if_neg (by simp), if_neg (by simp)]
        exact List.append_nil _
  next => rfl

/-! ## Reading -/

structure Got (queue : SimpleQueue) (chain : Chain) (next : Queue) : Prop where
  memory : next.memory = queue.memory
  reads : next.self.type = .simple
  shown : (StampedView.ofChain next.memory.data chain).bind Parcel.ofStamped =
    queue.contents.head?
  stores : ∃ log base, Ring next.memory log base (fun _ => 0) ∧
    (∀ entry ∈ log, Sendable entry.stamped) ∧ Queue.SimpleCached next log base

theorem exists_got (queue : SimpleQueue) :
    ∃ chain next, queue.reading.get = .ok (chain, next) ∧ Got queue chain next := by
  rcases queue.stores with ⟨log, base, ring, sendable, cached⟩
  have simple : queue.reading.self.type = .simple := queue.reads
  have countEq : queue.reading.count = log.length - base := by
    rw [Queue.count, simple]
    exact ring.countEq
  have contents := contents_eq ring
  cases found : log[base]? with
  | none =>
      have beyond := List.getElem?_eq_none_iff.mp found
      refine ⟨[], queue.reading, ?_, rfl, simple, ?_, log, base, ring, sendable, cached⟩
      · rw [Queue.get, if_neg (by omega)]
        rfl
      · rw [contents, List.drop_eq_nil_of_le beyond]
        rfl
  | some entry =>
      have below := (List.getElem?_eq_some_iff.mp found).1
      have gets := Queue.simple_getMessage simple ring found
      have sent := sendable entry (List.mem_of_getElem? found)
      refine ⟨(desc queue.memory.capacity (start queue.memory.capacity log base)
          entry.size).first, { queue.reading with self := { queue.reading.self with
        messageDesc := desc queue.memory.capacity (start queue.memory.capacity log base)
          entry.size } }, ?_, rfl, simple, ?_, log, base, ring, sendable,
        .inr ⟨entry, found, rfl⟩⟩
      · rw [Queue.get, if_pos (by omega)]
        simp only [gets, Bind.bind, Except.bind, pure, Except.pure]
        rfl
      · refine (congrArg (Option.bind · Parcel.ofStamped)
          (ring.ofStamped_eq (Nat.le_refl _) found)).trans ?_
        rw [contents, List.drop_eq_getElem_cons below]
        have same : log[base] = entry := by
          rw [List.getElem?_eq_getElem below] at found
          exact Option.some.inj found
        rw [same, parcels_cons sent]
        exact dif_pos sent

theorem got_of_get {chain : Chain} {next : Queue}
    (result : queue.reading.get = .ok (chain, next)) : Got queue chain next := by
  rcases queue.exists_got with ⟨chain', next', result', got⟩
  rw [result] at result'
  cases result'
  exact got

def get (queue : SimpleQueue) : Option Parcel × SimpleQueue :=
  match got : queue.reading.get with
  | .ok (chain, next) =>
      ((StampedView.ofChain next.memory.data chain).bind Parcel.ofStamped, {
        memory := next.memory
        writer := queue.writer
        reader := next.self
        stores := (got_of_get got).stores
        untimed := by
          rw [(got_of_get got).memory]
          exact queue.untimed
        writes := queue.writes
        reads := (got_of_get got).reads })
  | .error _ => (none, queue)

theorem get_fst (queue : SimpleQueue) : queue.get.1 = queue.contents.head? := by
  unfold get
  split
  next chain next result => exact (got_of_get result).shown
  next fault result =>
    rcases queue.exists_got with ⟨chain, next, returns, -⟩
    rw [result] at returns
    cases returns

theorem contents_get (queue : SimpleQueue) : queue.get.2.contents = queue.contents := by
  unfold get
  split
  next chain next result =>
    rcases queue.stores with ⟨log, base, ring, -, -⟩
    have still : Ring next.memory log base fun _ => 0 := by
      rw [(got_of_get result).memory]
      exact ring
    rw [contents_eq ring]
    exact contents_eq still
  next => rfl

structure Popped (queue : SimpleQueue) (removed : Bool) (next : Queue) : Prop where
  reads : next.self.type = .simple
  untimed : next.memory.keepaliveTimeout = 0
  removed : removed = !queue.contents.isEmpty
  stores : ∃ log base, Ring next.memory log base (fun _ => 0) ∧
    (∀ entry ∈ log, Sendable entry.stamped) ∧ Queue.SimpleCached next log base ∧
    parcels (log.drop base) = queue.contents.tail

theorem parcels_eq_nil {log : List Entry} (sendable : ∀ entry ∈ log, Sendable entry.stamped) :
    parcels log = [] ↔ log = [] := by
  cases log with
  | nil => exact ⟨fun _ => rfl, fun _ => rfl⟩
  | cons entry rest =>
      rw [parcels_cons (sendable entry List.mem_cons_self)]
      simp

theorem parcels_tail {log : List Entry} (sendable : ∀ entry ∈ log, Sendable entry.stamped) :
    parcels log.tail = (parcels log).tail := by
  cases log with
  | nil => rfl
  | cons entry rest =>
      rw [parcels_cons (sendable entry List.mem_cons_self)]
      rfl

theorem exists_popped (queue : SimpleQueue) :
    ∃ removed next, queue.reading.pop = .ok (removed, next) ∧ Popped queue removed next := by
  rcases queue.stores with ⟨log, base, ring, sendable, cached⟩
  rcases @Queue.simple_pop queue.reading log base queue.reads ring cached with
    ⟨next, later, result, reads, untimed, dropped, still, stillCached⟩
  have left : ∀ entry ∈ log.drop base, Sendable entry.stamped :=
    fun entry member => sendable entry (List.drop_subset _ _ member)
  refine ⟨_, next, result, reads, untimed.trans queue.untimed, ?_, log, later, still, sendable,
    stillCached, ?_⟩
  · rw [contents_eq ring, Bool.eq_iff_iff, Bool.not_eq_true', decide_eq_true_iff,
      ← Bool.not_eq_true, List.isEmpty_iff, parcels_eq_nil left, List.drop_eq_nil_iff,
      Nat.not_le]
  · rw [contents_eq ring, dropped, parcels_tail left]

theorem popped_of_pop {removed : Bool} {next : Queue}
    (result : queue.reading.pop = .ok (removed, next)) : Popped queue removed next := by
  rcases queue.exists_popped with ⟨removed', next', result', popped⟩
  rw [result] at result'
  cases result'
  exact popped

theorem Popped.stored {removed : Bool} {next : Queue} (popped : Popped queue removed next) :
    ∃ log base, Ring next.memory log base (fun _ => 0) ∧
      (∀ entry ∈ log, Sendable entry.stamped) ∧ Queue.SimpleCached next log base := by
  rcases popped.stores with ⟨log, base, ring, sendable, cached, -⟩
  exact ⟨log, base, ring, sendable, cached⟩

def pop (queue : SimpleQueue) : Bool × SimpleQueue :=
  match popped : queue.reading.pop with
  | .ok (removed, next) => (removed, {
      memory := next.memory
      writer := queue.writer
      reader := next.self
      stores := (popped_of_pop popped).stored
      untimed := (popped_of_pop popped).untimed
      writes := queue.writes
      reads := (popped_of_pop popped).reads })
  | .error _ => (false, queue)

theorem pop_fst (queue : SimpleQueue) : queue.pop.1 = !queue.contents.isEmpty := by
  unfold pop
  split
  next removed next result => exact (popped_of_pop result).removed
  next fault result =>
    rcases queue.exists_popped with ⟨removed, next, returns, -⟩
    rw [result] at returns
    cases returns

theorem contents_pop (queue : SimpleQueue) : queue.pop.2.contents = queue.contents.tail := by
  unfold pop
  split
  next removed next result =>
    rcases (popped_of_pop result).stores with ⟨log, base, ring, -, -, left⟩
    rw [← left]
    exact contents_eq ring
  next fault result =>
    rcases queue.exists_popped with ⟨removed, next, returns, -⟩
    rw [result] at returns
    cases returns

theorem contents_create (writer reader : Nat) (capacity : UInt32)
    (positive : 0 < capacity.toNat) : (create writer reader capacity positive).contents = [] := by
  have empty : Ring (create writer reader capacity positive).memory [] 0 fun _ => 0 := by
    refine Ring.cleared rfl ?_ (Nat.mod_lt _ (by decide))
    rw [Nat.mod_eq_of_lt capacity.toNat_lt]
    exact positive
  exact contents_eq empty

end SimpleQueue

/-! ## The bus -/

/-- Simple queues as connectors, with the objects of two processes. No connector has the
capacity zero. -/
def simpleQueues (writer reader : Nat) : Channel Parcel where
  State := Option SimpleQueue
  create := fun capacity =>
    if positive : 0 < capacity.toNat then
      some (SimpleQueue.create writer reader capacity positive)
    else none
  push := fun state parcel => match state with
    | some queue => ((queue.push parcel).1, some (queue.push parcel).2)
    | none => (false, none)
  get := fun state => state.bind fun queue => queue.get.1
  pop := fun state => match state with
    | some queue => (queue.pop.1, some queue.pop.2)
    | none => (false, none)
  contents := fun state => (state.map SimpleQueue.contents).getD []
  contents_create := by
    intro capacity
    split
    · exact SimpleQueue.contents_create _ _ _ _
    · rfl
  contents_push := by
    intro state parcel
    cases state with
    | none => rfl
    | some queue => exact queue.contents_push parcel
  get_eq := by
    intro state
    cases state with
    | none => rfl
    | some queue => exact queue.get_fst
  pop_eq := by
    intro state
    cases state with
    | none => rfl
    | some queue => exact queue.pop_fst
  contents_pop := by
    intro state
    cases state with
    | none => rfl
    | some queue => exact queue.contents_pop

variable {writer reader : Nat}

/-- `get` of a connector, after which the object of the reader has another cached
description. -/
def getQueue (state : Option SimpleQueue) : Option Parcel × Option SimpleQueue :=
  match state with
  | some queue => (queue.get.1, some queue.get.2)
  | none => (none, none)

theorem takes_getQueue :
    @Takes Parcel (simpleQueues writer reader) Parcel getQueue id fun message => [message] where
  empty := by
    intro state stored
    cases state with
    | none => exact ⟨rfl, rfl⟩
    | some queue =>
        have nothing : queue.contents = [] := stored
        exact ⟨queue.get_fst.trans (by rw [nothing]; rfl), queue.contents_get.trans nothing⟩
  first := by
    intro state message rest stored
    cases state with
    | none => cases stored
    | some queue =>
        have some : queue.contents = message :: rest := stored
        exact ⟨queue.get_fst.trans (by rw [some]; rfl), queue.contents_get.trans some⟩

/-- The calls of the two participants; `get` changes the object of the reader. -/
def Pair.performQueues (pair : Pair (simpleQueues writer reader)) (call : Call Parcel) :
    Option (Returned Parcel × Pair (simpleQueues writer reader)) :=
  match call with
  | .get => do
      let consumer ← pair.consumer
      let (message, body, member) ← pair.body.readShrinking getQueue (2 ^ 32) consumer
      return (.got message, { pair with body := body, consumer := some member })
  | .openInput => pair.perform .openInput
  | .push message => pair.perform (.push message)
  | .pop => pair.perform .pop

theorem Stores.performQueues {pair : Pair (simpleQueues writer reader)}
    {chain : List (Connector (simpleQueues writer reader))} {messages : List Parcel}
    (stores : Stores pair chain messages) {call : Call Parcel} (enabled : pair.Enabled call) :
    ∃ returned next after messages', pair.performQueues call = some (returned, next) ∧
      OneList.Step messages (call, returned) messages' ∧ Stores next after messages' := by
  cases call with
  | openInput => exact stores.perform enabled
  | push message => exact stores.perform enabled
  | pop => exact stores.perform enabled
  | get =>
      rcases Option.isSome_iff_exists.mp enabled with ⟨member, present⟩
      rcases stores.read present takes_getQueue with ⟨next, after, final, reads, kept⟩
      have same : leftOver (fun message => [message]) messages = messages := by
        cases messages <;> rfl
      rw [same] at kept
      refine ⟨.got messages.head?, _, after, messages, ?_, .got, kept⟩
      simp only [Pair.performQueues, present, Option.bind_eq_bind, Option.bind_some, reads,
        Option.map_id, id]
      rfl

theorem Pair.enabled_of_queues {pair next : Pair (simpleQueues writer reader)}
    {call : Call Parcel} {returned : Returned Parcel}
    (performed : pair.performQueues call = some (returned, next)) : pair.Enabled call := by
  cases call with
  | openInput => exact Pair.enabled_of_step performed
  | push message => exact trivial
  | pop => exact Pair.enabled_of_step performed
  | get =>
      cases present : pair.consumer with
      | none =>
          rw [Pair.performQueues, present] at performed
          cases performed
      | some consumer =>
          change pair.consumer.isSome
          rw [present]
          rfl

/-- A bus of simple queues is one list of messages: whatever the specification, every call
returns, the results are those of one list, and every message keeps its tag, its bytes and
its timestamp in the rings of all connectors. -/
theorem simple_bus_refines_list {spec : Specification}
    {body : Body (simpleQueues writer reader)} {member : Member}
    (created : Body.create (simpleQueues writer reader) spec = some (true, body, member))
    {labels : List (Call Parcel × Returned Parcel)} {pair : Pair (simpleQueues writer reader)}
    (run : Run (Run.Computes Pair.performQueues) ⟨body, member, none⟩ labels pair) :
    ∃ messages, Run OneList.Step [] labels messages ∧
      (∃ chain, pending chain pair.body.controlBlock.inputId = messages ∧
        Grown pair.body chain) ∧
      ∀ call, pair.Enabled call →
        ∃ returned next, pair.performQueues call = some (returned, next) := by
  have matched : ∀ {pair : Pair (simpleQueues writer reader)} {messages label next},
      (∃ chain, Stores pair chain messages) → Run.Computes Pair.performQueues pair label next →
      ∃ messages', OneList.Step messages label messages' ∧
        ∃ chain, Stores next chain messages' := by
    rintro pair messages ⟨call, returned⟩ next ⟨chain, stores⟩ performed
    change pair.performQueues call = some (returned, next) at performed
    rcases stores.performQueues (Pair.enabled_of_queues performed) with
      ⟨returned', next', after, messages', returns, step, kept⟩
    rw [returns] at performed
    cases performed
    exact ⟨messages', step, after, kept⟩
  rcases run.simulate OneList.Step (fun pair messages => ∃ chain, Stores pair chain messages)
    matched ⟨_, stores_created created⟩ with ⟨messages, listed, chain, stores⟩
  refine ⟨messages, listed, ⟨chain, stores.pending, stores.grown⟩, ?_⟩
  intro call enabled
  rcases stores.performQueues enabled with ⟨returned, next, -, -, returns, -, -⟩
  exact ⟨returned, next, returns⟩

def filled (tag : UInt32) (size : Nat) : Parcel :=
  .make tag (tag + 100) (List.replicate (size + 1) 7) (List.cons_ne_nil _ _)

/-- Connectors of the capacities 60 and 120; the third message goes around the end of the
second ring. -/
theorem simple_bus_refines_list_widened : ∃ messages,
    Run OneList.Step []
      [(.push (filled 1 20), .pushed true), (.push (filled 2 60), .pushed true),
        (.openInput, .opened true), (.get, .got (some (filled 1 20))), (.pop, .popped true),
        (.get, .got (some (filled 2 60))), (.pop, .popped true),
        (.push (filled 3 50), .pushed true), (.push (filled 4 100), .pushed false),
        (.get, .got (some (filled 3 50))), (.pop, .popped true), (.pop, .popped false)]
      messages := by
  have capacity : Specification.newCapacity ⟨60, 120, 100⟩ 0 = 60 := by decide
  have created : Body.create (simpleQueues 1 2) ⟨60, 120, 100⟩ = some (true,
      ({ spec := ⟨60, 120, 100⟩ } : Body (simpleQueues 1 2)).setConnector 0
        ⟨60, (simpleQueues 1 2).create 60⟩,
      { connectors := [0] }) := by
    rw [Body.create, makeConnector_first, capacity]
    rfl
  rcases Run.exists_of_computes
    (show Run.computes Pair.performQueues
      ⟨({ spec := ⟨60, 120, 100⟩ } : Body (simpleQueues 1 2)).setConnector 0
        ⟨60, (simpleQueues 1 2).create 60⟩, { connectors := [0] }, none⟩
      [(.push (filled 1 20), .pushed true), (.push (filled 2 60), .pushed true),
        (.openInput, .opened true), (.get, .got (some (filled 1 20))), (.pop, .popped true),
        (.get, .got (some (filled 2 60))), (.pop, .popped true),
        (.push (filled 3 50), .pushed true), (.push (filled 4 100), .pushed false),
        (.get, .got (some (filled 3 50))), (.pop, .popped true), (.pop, .popped false)]
      (fun _ => true) = true by decide +kernel) with ⟨pair, run, -⟩
  rcases simple_bus_refines_list created run with ⟨messages, listed, -, -⟩
  exact ⟨messages, listed⟩

end Qbus.Bus
