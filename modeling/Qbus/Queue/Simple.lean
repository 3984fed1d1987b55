import Qbus.Queue.Calls
import Qbus.Queue.Execution

/-! # The simple queue is a FIFO list

The simple queue has one reader and any number of writers. What its member
functions return is what the operations of a list of messages return. -/

namespace Qbus

open ByteMemory Message Placement Storage MachineWord

inductive Fifo.Step : List MessageView → Action × Result → List MessageView → Prop
  | attach {messages id type sid clock} :
      Fifo.Step messages (.attach id type sid clock, .done) messages
  | accepted {messages id tag data now} :
      Fifo.Step messages (.push id tag data now, .pushed true)
        (messages ++ [⟨tag.toNat, data.length, data⟩])
  | refused {messages id tag data now} :
      Fifo.Step messages (.push id tag data now, .pushed false) messages
  | get {messages id} : Fifo.Step messages (.get id, .message messages.head?) messages
  | pop {messages id} :
      Fifo.Step messages (.pop id, .popped (!messages.isEmpty)) messages.tail

namespace Queue

variable {queue : Queue} {log : List Entry} {base : Nat}

theorem simple_doPush (simple : queue.self.type = .simple)
    (ring : Ring queue.memory log base fun _ => 0) {payload : List UInt8}
    (nonempty : payload ≠ []) (tag now : Nat) :
    ∃ accepted next, queue.doPush tag payload now = .ok (accepted, next) ∧
      next.self = queue.self ∧ next.memory.capacity = queue.memory.capacity ∧
      next.memory.keepaliveTimeout = queue.memory.keepaliveTimeout ∧
      (accepted = true ↔ Fits queue.memory.capacity log base payload.length) ∧
      Ring next.memory (if accepted then log ++ [queue.pushedEntry tag now payload nonempty]
        else log) base fun _ => 0 := by
  rcases exists_makes ring (.inl (by simp [simple])) nonempty now with ⟨made, makes⟩
  have kept := ring.setData makes.frame
  have cleans : queue.cleanMessages = .ok (⟨0, 0⟩, queue) := by
    rw [cleanMessages, simple]
    rfl
  have pushes : queue.pushMessage payload now = queue.basePushMessage payload now := by
    rw [pushMessage, simple]
  rw [makes.result] at pushes
  by_cases fits : Fits queue.memory.capacity log base payload.length
  · rw [if_pos (decide_eq_true fits)] at pushes
    rcases desc_first queue.memory.capacity
      (start queue.memory.capacity log log.length) payload.length with ⟨rest, first⟩
    refine ⟨true, _, doPush_accepted cleans pushes first, rfl, by simp [linked],
      by simp [linked], by simp [fits], ?_⟩
    exact kept.link (queue.pushedEntry tag now payload nonempty) fits rfl
      (makes.holds (decide_eq_true fits))
  · rw [if_neg (by simpa using fits)] at pushes
    exact ⟨false, _, doPush_refused cleans pushes rfl, rfl, by simp, by simp, by simp [fits],
      kept⟩

theorem simple_push (simple : queue.self.type = .simple)
    (ring : Ring queue.memory log base fun _ => 0)
    (timeout : queue.memory.keepaliveTimeout = 0) {payload : List UInt8}
    (nonempty : payload ≠ []) (tag now : Nat) :
    ∃ accepted next, queue.push tag payload now = .ok (accepted, next) ∧
      next.self = queue.self ∧ next.memory.capacity = queue.memory.capacity ∧
      next.memory.keepaliveTimeout = 0 ∧
      Ring next.memory (if accepted then log ++ [queue.pushedEntry tag now payload nonempty]
        else log) base fun _ => 0 := by
  rcases simple_doPush simple ring nonempty tag now with
    ⟨accepted, next, result, self, capacity, kept, -, pushed⟩
  refine ⟨accepted, next, ?_, self, capacity, kept.trans timeout, pushed⟩
  cases accepted with
  | true => exact push_accepted result
  | false => exact push_refused result (kept.trans timeout)

def SimpleCached (queue : Queue) (log : List Entry) (base : Nat) : Prop :=
  queue.self.messageDesc.first = [] ∨ ∃ entry, log[base]? = some entry ∧
    queue.self.messageDesc = desc queue.memory.capacity
      (start queue.memory.capacity log base) entry.size

theorem simple_baseGetMessage (simple : queue.self.type = .simple)
    (ring : Ring queue.memory log base fun _ => 0) {entry : Entry}
    (found : log[base]? = some entry) :
    queue.baseGetMessage = .ok (desc queue.memory.capacity
      (start queue.memory.capacity log base) entry.size) := by
  have below := (List.getElem?_eq_some_iff.mp found).1
  apply baseGetMessage_eq ring (Nat.le_refl _) found
  · rw [head, simple]
    exact ring.headEq
  · rw [empty, count, simple, decide_eq_false_iff_not]
    have countEq := ring.countEq
    simp only
    omega

theorem simple_getMessage (simple : queue.self.type = .simple)
    (ring : Ring queue.memory log base fun _ => 0) {entry : Entry}
    (found : log[base]? = some entry) :
    queue.getMessage = .ok (desc queue.memory.capacity
      (start queue.memory.capacity log base) entry.size, queue) := by
  rw [getMessage, simple]
  simp only [simple_baseGetMessage simple ring found, Bind.bind, Except.bind, pure, Except.pure]

theorem simple_get (simple : queue.self.type = .simple)
    (ring : Ring queue.memory log base fun _ => 0) :
    ∃ chain next, queue.get = .ok (chain, next) ∧ next.memory = queue.memory ∧
      next.self.type = .simple ∧
      MessageView.ofChain next.memory.data chain =
        ((log.drop base).map Entry.view).head? ∧
      (SimpleCached queue log base → SimpleCached next log base) := by
  have countEq : queue.count = log.length - base := by
    rw [count, simple]
    exact ring.countEq
  cases found : log[base]? with
  | none =>
      have beyond := List.getElem?_eq_none_iff.mp found
      refine ⟨[], queue, ?_, rfl, simple, ?_, id⟩
      · rw [Queue.get, if_neg (by omega)]
        rfl
      · rw [List.drop_eq_nil_of_le beyond]
        rfl
  | some entry =>
      have below := (List.getElem?_eq_some_iff.mp found).1
      have reads := simple_baseGetMessage simple ring found
      refine ⟨(desc queue.memory.capacity (start queue.memory.capacity log base)
        entry.size).first, { queue with self := { queue.self with
        messageDesc := desc queue.memory.capacity
          (start queue.memory.capacity log base) entry.size } }, ?_, rfl,
        simple, ?_, fun _ => .inr ⟨entry, found, rfl⟩⟩
      · rw [Queue.get, if_pos (by omega), getMessage, simple]
        simp only [reads, Bind.bind, Except.bind, pure, Except.pure]
      · rw [ring.ofChain_eq (Nat.le_refl _) found, List.head?_map, List.head?_drop, found]
        rfl

theorem popMessage_of_simple {message : MessageDesc} {position : Nat} {rest : Chain}
    (simple : queue.self.type = .simple) (first : message.first = position :: rest) :
    queue.popMessage message = .ok (queue.setMemory
      (((queue.memory.setData (setCounter queue.memory.data position
        (sub32 (Message.counter queue.memory.data position) 1))).setHead
          message.second).setCount (sub64 queue.memory.count 1))) := by
  rw [popMessage, first, simple]
  simp only [decCounter, QueueMemory.setHead_count, QueueMemory.setData_count, pure,
    Except.pure]

theorem simple_popMessage (simple : queue.self.type = .simple)
    (ring : Ring queue.memory log base fun _ => 0) {entry : Entry}
    (found : log[base]? = some entry) :
    ∃ memory, queue.popMessage (desc queue.memory.capacity
        (start queue.memory.capacity log base) entry.size) =
          .ok (queue.setMemory memory) ∧
      memory.capacity = queue.memory.capacity ∧
      memory.keepaliveTimeout = queue.memory.keepaliveTimeout ∧
      Ring memory log (base + 1) fun _ => 0 := by
  rcases desc_first queue.memory.capacity
    (start queue.memory.capacity log base) entry.size with ⟨rest, first⟩
  have below := (List.getElem?_eq_some_iff.mp found).1
  have countEq := ring.countEq
  have small := ring.count_lt
  have written := ring.setCounter (Nat.le_refl _) found (sub32_lt
    (Message.counter queue.memory.data (headerPlace queue.memory.capacity
      (start queue.memory.capacity log base) entry.size)) 1)
  have counted : sub64 queue.memory.count 1 = log.length - (base + 1) := by
    rw [sub64_of_le (by omega) (by omega)]
    omega
  have dropped := (written.drop found counted).of_refs_eq (fun index stored _ =>
    (if_neg (show ¬index = base by omega)).symm)
  exact ⟨_, popMessage_of_simple simple first, by simp, by simp, dropped⟩

theorem simple_pop (simple : queue.self.type = .simple)
    (ring : Ring queue.memory log base fun _ => 0)
    (cached : SimpleCached queue log base) :
    ∃ next base', queue.pop = .ok (decide (base < log.length), next) ∧
      next.self.type = .simple ∧
      next.memory.keepaliveTimeout = queue.memory.keepaliveTimeout ∧
      log.drop base' = (log.drop base).tail ∧
      Ring next.memory log base' (fun _ => 0) ∧ SimpleCached next log base' := by
  have countEq : queue.count = log.length - base := by
    rw [count, simple]
    exact ring.countEq
  cases found : log[base]? with
  | none =>
      have beyond := List.getElem?_eq_none_iff.mp found
      refine ⟨queue, base, ?_, simple, rfl, ?_, ring, cached⟩
      · rw [pop, if_neg (by omega), decide_eq_false (by omega)]
        rfl
      · rw [List.drop_eq_nil_of_le beyond]
        rfl
  | some entry =>
      have below := (List.getElem?_eq_some_iff.mp found).1
      have reads := simple_baseGetMessage simple ring found
      rcases simple_popMessage simple ring found with ⟨memory, pops, capacity, timeout, dropped⟩
      refine ⟨{ memory := memory, self := { queue.self with
        messageDesc := { desc queue.memory.capacity
          (start queue.memory.capacity log base) entry.size with first := [] } } },
        base + 1, ?_, simple, timeout, (List.tail_drop).symm, dropped, .inl rfl⟩
      rw [pop, if_pos (by omega), decide_eq_true below]
      rcases cached with none | ⟨other, otherFound, described⟩
      · rw [if_pos none, getMessage, simple]
        simp only [reads, Bind.bind, Except.bind, pure, Except.pure, pops]
        rfl
      · rcases desc_first queue.memory.capacity
          (start queue.memory.capacity log base) entry.size with ⟨rest, first⟩
        rw [found] at otherFound
        cases otherFound
        rw [described, if_neg (by rw [first]; simp)]
        simp only [Bind.bind, Except.bind, pure, Except.pure, pops]
        rfl

end Queue

/-! ## Runs -/

/-- The calls that the objects of one simple queue make when only the object
`reader` gets and pops. Messages are not empty. -/
def Action.Simple (reader : Nat) : Action → Prop
  | .attach _ type _ _ => type = .simple
  | .push _ _ data _ => data ≠ []
  | .get id => id = reader
  | .pop id => id = reader
  | .clean _ => False
  | .destroy _ _ => False
  | .keepaliveTimeout _ => False

instance (reader : Nat) : DecidablePred (Action.Simple reader)
  | .attach _ type _ _ => inferInstanceAs (Decidable (type = .simple))
  | .push _ _ data _ => inferInstanceAs (Decidable (data ≠ []))
  | .get id => inferInstanceAs (Decidable (id = reader))
  | .pop id => inferInstanceAs (Decidable (id = reader))
  | .clean _ => inferInstanceAs (Decidable False)
  | .destroy _ _ => inferInstanceAs (Decidable False)
  | .keepaliveTimeout _ => inferInstanceAs (Decidable False)

structure SimpleStores (reader : Nat) (world : World) (messages : List MessageView)
    (log : List Entry) (base : Nat) : Prop where
  ring : Ring world.memory log base fun _ => 0
  timeout : world.memory.keepaliveTimeout = 0
  types : ∀ id ∈ world.live, (world.handle id).type = .simple
  cached : reader ∈ world.live → Queue.SimpleCached (world.queue reader) log base
  listed : messages = (log.drop base).map Entry.view

def SimpleRelated (reader : Nat) (world : World) (messages : List MessageView) : Prop :=
  ∃ log base, SimpleStores reader world messages log base

namespace SimpleStores

variable {reader : Nat} {world : World} {messages : List MessageView}
  {log : List Entry} {base : Nat}

theorem count_eq (stores : SimpleStores reader world messages log base) {id : Nat}
    (live : id ∈ world.live) : (world.queue id).count = messages.length := by
  have simple : (world.queue id).self.type = .simple := stores.types id live
  rw [Queue.count, simple, stores.listed, List.length_map, List.length_drop]
  exact stores.ring.countEq

private theorem update_types (stores : SimpleStores reader world messages log base)
    {id : Nat} {queue : Queue} (simple : queue.self.type = .simple) :
    ∀ other ∈ world.live, ((world.update id queue).handle other).type = .simple := by
  intro other live
  rcases eq_or_ne other id with same | different
  · rw [same, World.update_handle_self, simple]
  · rw [World.update_handle_of_ne world queue different]
    exact stores.types other live

theorem perform (stores : SimpleStores reader world messages log base) {action : Action}
    (allowed : action.Simple reader) (enabled : world.Enabled action) :
    ∃ result next messages' log' base', world.perform action = .ok (result, next) ∧
      Fifo.Step messages (action, result) messages' ∧
      SimpleStores reader next messages' log' base' := by
  cases action with
  | attach id type sid clock =>
      have same : type = .simple := allowed
      subst same
      refine ⟨.done, _, messages, log, base, rfl, .attach, stores.ring, stores.timeout,
        ?_, ?_, stores.listed⟩
      · intro other live
        rcases Finset.mem_insert.mp live with same | older
        · rw [same]
          simp [World.update, Queue.newHandle]
        · exact update_types stores rfl other older
      · intro live
        rcases eq_or_ne reader id with same | different
        · subst same
          refine .inl ?_
          simp [World.queue, World.update, Queue.newHandle, MessageDesc.none]
        · have older := Finset.mem_of_mem_insert_of_ne live different
          have cached := stores.cached older
          simpa [Queue.SimpleCached, World.queue, World.update, different] using cached
  | push id tag data now =>
      have nonempty : data ≠ [] := allowed
      have simple : (world.queue id).self.type = .simple := stores.types id enabled
      rcases Queue.simple_push simple stores.ring stores.timeout nonempty tag.toNat now with
        ⟨accepted, next, result, self, capacity, timeout, pushed⟩
      have sameHandle : (world.update id next).handle = world.handle := by
        rw [World.update, self]
        exact Function.update_eq_self id world.handle
      have cached : ∀ log' : List Entry, log' = log ∨ (∃ entry, log' = log ++ [entry]) →
          reader ∈ world.live →
          Queue.SimpleCached ((world.update id next).queue reader) log' base := by
        intro log' grown live
        rcases stores.cached live with none | ⟨entry, found, described⟩
        · refine .inl ?_
          rw [World.queue, sameHandle]
          exact none
        · refine .inr ⟨entry, ?_⟩
          have below := (List.getElem?_eq_some_iff.mp found).1
          rw [World.queue, sameHandle, World.update_memory, capacity]
          rcases grown with same | ⟨more, appended⟩
          · rw [same]
            exact ⟨found, described⟩
          · rw [appended, List.getElem?_append_left below,
              start_append (Nat.le_of_lt below)]
            exact ⟨found, described⟩
      have performed : world.perform (.push id tag data now) =
          .ok (.pushed accepted, world.update id next) := by
        simp only [World.perform, result, Bind.bind, Except.bind, pure, Except.pure]
      cases accepted with
      | true =>
          refine ⟨_, _, _, _, base, performed, .accepted, pushed, timeout,
            update_types stores (self ▸ simple), cached _ (.inr ⟨_, rfl⟩), ?_⟩
          rw [if_pos rfl, List.drop_append_of_le_length stores.ring.baseLe, List.map_append,
            stores.listed]
          have small := tag.toNat_lt
          simp [Queue.pushedEntry, Entry.view, Entry.size, Nat.mod_eq_of_lt small]
      | false =>
          exact ⟨_, _, _, _, base, performed, .refused, pushed, timeout,
            update_types stores (self ▸ simple), cached _ (.inl rfl), stores.listed⟩
  | get id =>
      have same : id = reader := allowed
      subst same
      have simple : (world.queue id).self.type = .simple := stores.types id enabled.1
      rcases Queue.simple_get simple stores.ring with
        ⟨chain, next, result, memory, type, shown, cached⟩
      have sameMemory : (world.update id next).memory = world.memory := memory
      refine ⟨_, world.update id next, messages, log, base, ?_, .get, ?_, ?_,
        update_types stores type, ?_, stores.listed⟩
      · simp only [World.perform, result, Bind.bind, Except.bind, pure, Except.pure,
          shown, stores.listed]
      · rw [sameMemory]
        exact stores.ring
      · rw [sameMemory]
        exact stores.timeout
      · intro live
        rw [World.update_queue_self]
        exact cached (stores.cached live)
  | pop id =>
      have same : id = reader := allowed
      subst same
      have simple : (world.queue id).self.type = .simple := stores.types id enabled.1
      rcases Queue.simple_pop simple stores.ring (stores.cached enabled.1) with
        ⟨next, base', result, type, timeout, dropped, ring, cached⟩
      have nonempty : decide (base < log.length) = !messages.isEmpty := by
        rw [stores.listed, Bool.eq_iff_iff]
        simp [List.drop_eq_nil_iff]
      refine ⟨.popped (!messages.isEmpty), world.update id next, messages.tail, log, base',
        ?_, .pop, ring, timeout.trans stores.timeout, update_types stores type, ?_, ?_⟩
      · rw [← nonempty]
        simp only [World.perform, result, Bind.bind, Except.bind, pure, Except.pure]
      · intro _
        rw [World.update_queue_self]
        exact cached
      · rw [dropped, stores.listed, List.map_tail]
  | clean id => exact absurd allowed (by simp [Action.Simple])
  | destroy id clock => exact absurd allowed (by simp [Action.Simple])
  | keepaliveTimeout value => exact absurd allowed (by simp [Action.Simple])

end SimpleStores

theorem simple_created {raw : QueueMemory} {qid capacity sid : Nat} {clock : List Nat}
    {queue : Queue} (created : Queue.create raw .simple qid capacity sid clock = .ok queue)
    (positive : 0 < capacity) (bounded : capacity < 2 ^ 32) (owner reader : Nat) :
    SimpleStores reader (World.created owner queue) [] [] 0 := by
  have memoryEq : queue.memory = QueueMemory.clear { raw with
      id := qid % 2 ^ 32
      capacity := capacity % 2 ^ 32
      keepaliveTimeout := 0 } := by
    cases created
    rfl
  have selfEq : queue.self = Queue.newHandle .simple sid 0 := by
    cases created
    rfl
  refine ⟨Ring.cleared memoryEq ?_ ?_, ?_, ?_, ?_, rfl⟩
  · rw [Nat.mod_eq_of_lt bounded]
    exact positive
  · exact Nat.mod_lt _ (by decide)
  · rw [World.created, memoryEq]
    rfl
  · intro id _
    rw [World.created, selfEq]
    rfl
  · intro _
    refine .inl ?_
    rw [World.queue, World.created, selfEq]
    rfl

/-- A simple queue is a FIFO list: in every run every call returns, the results
are those of the list operations, and `count()` is the length of the list. -/
theorem simple_queue_refines_fifo {raw : QueueMemory} {qid capacity sid : Nat}
    {clock : List Nat} {queue : Queue} {owner reader : Nat}
    (created : Queue.create raw .simple qid capacity sid clock = .ok queue)
    (positive : 1 ≤ capacity) (bounded : capacity < 2 ^ 32)
    {labels : List (Action × Result)} {world : World}
    (run : Run (fun world label next => label.1.Simple reader ∧ world.Step label next)
      (World.created owner queue) labels world) :
    ∃ messages, Run Fifo.Step [] labels messages ∧
      (∀ id ∈ world.live, (world.queue id).count = messages.length) ∧
      ∀ action : Action, action.Simple reader → world.Enabled action →
        ∃ result next, world.perform action = .ok (result, next) := by
  have begins := simple_created created positive bounded owner reader
  have matched : ∀ {world messages label next},
      SimpleRelated reader world messages →
      label.1.Simple reader ∧ world.Step label next →
      ∃ messages', Fifo.Step messages label messages' ∧
        SimpleRelated reader next messages' := by
    rintro world messages ⟨action, result⟩ next ⟨log, base, stores⟩
      ⟨allowed, enabled, performed⟩
    rcases stores.perform allowed enabled with
      ⟨result', next', messages', log', base', performed', step, stores'⟩
    cases performed.symm.trans performed'
    exact ⟨messages', step, log', base', stores'⟩
  rcases run.simulate Fifo.Step (SimpleRelated reader) matched ⟨[], 0, begins⟩ with
    ⟨messages, listRun, log, base, stores⟩
  refine ⟨messages, listRun, fun id live => stores.count_eq live, ?_⟩
  intro action allowed enabled
  rcases stores.perform allowed enabled with ⟨result, next, _, _, _, performed, _⟩
  exact ⟨result, next, performed⟩

/-- A run in which a message wraps around the ring. -/
theorem simple_queue_refines_fifo_wrapped : ∃ (world : World) (messages : List MessageView),
    Run Fifo.Step []
      [(.attach 1 .simple 2 [], .done),
        (.push 1 3 (List.replicate 30 7) 10, .pushed true),
        (.push 0 4 (List.replicate 30 8) 11, .pushed false),
        (.get 0, .message (some ⟨3, 30, List.replicate 30 7⟩)),
        (.pop 0, .popped true),
        (.push 1 4 (List.replicate 40 8) 12, .pushed true),
        (.get 0, .message (some ⟨4, 40, List.replicate 40 8⟩))] messages ∧
    (∀ id ∈ world.live, (world.queue id).count = messages.length) := by
  have created : Queue.create .zeros .simple 0 100 1 [] =
      .ok (Queue.created .simple 100 1 []) := rfl
  rcases World.exists_run (fun _ => Action.Simple 0)
    (show World.runs _ (World.created 0 (Queue.created .simple 100 1 []))
      [(.attach 1 .simple 2 [], .done),
        (.push 1 3 (List.replicate 30 7) 10, .pushed true),
        (.push 0 4 (List.replicate 30 8) 11, .pushed false),
        (.get 0, .message (some ⟨3, 30, List.replicate 30 7⟩)),
        (.pop 0, .popped true),
        (.push 1 4 (List.replicate 40 8) 12, .pushed true),
        (.get 0, .message (some ⟨4, 40, List.replicate 40 8⟩))] (fun _ => true) = true by
      decide +kernel) with ⟨world, run, -⟩
  rcases simple_queue_refines_fifo created (by decide) (by decide) run with
    ⟨messages, list, counts, -⟩
  exact ⟨world, messages, list, counts⟩

end Qbus
