import Qbus.Queue.Simple
import Qbus.Queue.Stored

/-! # Forced removal from a simple queue

With a keep alive timeout a push into a simple queue removes expired messages
from the head until the new message fits. The reader may have cached the
description of one of them. -/

namespace Qbus

open ByteMemory Message Placement Storage MachineWord

inductive Fifo.ExpiringStep : List MessageView → Action × Result → List MessageView → Prop
  | attach {messages id type sid clock} :
      Fifo.ExpiringStep messages (.attach id type sid clock, .done) messages
  | accepted {messages id tag data now} (gone : Nat) :
      Fifo.ExpiringStep messages (.push id tag data now, .pushed true)
        (messages.drop gone ++ [⟨tag.toNat, data.length, data⟩])
  | refused {messages id tag data now} (gone : Nat) :
      Fifo.ExpiringStep messages (.push id tag data now, .pushed false) (messages.drop gone)
  | get {messages id} : Fifo.ExpiringStep messages (.get id, .message messages.head?) messages
  | pop {messages id} :
      Fifo.ExpiringStep messages (.pop id, .popped (!messages.isEmpty)) messages.tail
  | keepaliveTimeout {messages value} :
      Fifo.ExpiringStep messages (.keepaliveTimeout value, .done) messages

/-- The messages from the head to the tail: each of them can be read, the last
one ends at the tail, and `count` is their number. -/
structure QueueMemory.Stores (memory : QueueMemory) (messages : List MessageView) : Prop where
  readable : (memory.stored.map fun desc => MessageView.ofChain memory.data desc.first) =
    messages.map some
  ends : (memory.head :: memory.stored.map fun desc =>
    desc.second % memory.capacity).getLast? = some memory.tail
  counted : memory.count = messages.length

def Action.OnSimple : Action → Prop
  | .attach _ type _ _ => type = .simple
  | .push _ _ data _ => data ≠ []
  | .get _ => True
  | .pop _ => True
  | .clean _ => False
  | .destroy _ _ => False
  | .keepaliveTimeout _ => True

instance : DecidablePred Action.OnSimple
  | .attach _ type _ _ => inferInstanceAs (Decidable (type = .simple))
  | .push _ _ data _ => inferInstanceAs (Decidable (data ≠ []))
  | .get _ => inferInstanceAs (Decidable True)
  | .pop _ => inferInstanceAs (Decidable True)
  | .clean _ => inferInstanceAs (Decidable False)
  | .destroy _ _ => inferInstanceAs (Decidable False)
  | .keepaliveTimeout _ => inferInstanceAs (Decidable True)

/-- What a reader has cached when it pops a stored message is the description of
the oldest message, if it has cached any. -/
def World.CachesOldest (world : World) : Action → Prop
  | .pop id => (world.handle id).messageDesc.first = [] ∨ (world.queue id).count = 0 ∨
      (world.queue id).baseGetMessage = .ok (world.handle id).messageDesc
  | _ => True

instance (world : World) : DecidablePred world.CachesOldest
  | .pop id => inferInstanceAs (Decidable ((world.handle id).messageDesc.first = [] ∨
      (world.queue id).count = 0 ∨
        (world.queue id).baseGetMessage = .ok (world.handle id).messageDesc))
  | .attach _ _ _ _ => inferInstanceAs (Decidable True)
  | .push _ _ _ _ => inferInstanceAs (Decidable True)
  | .get _ => inferInstanceAs (Decidable True)
  | .clean _ => inferInstanceAs (Decidable True)
  | .destroy _ _ => inferInstanceAs (Decidable True)
  | .keepaliveTimeout _ => inferInstanceAs (Decidable True)

theorem Ring.stores {memory : QueueMemory} {log : List Entry} {base : Nat} {refs : Nat → Nat}
    (ring : Ring memory log base refs) :
    memory.Stores ((log.drop base).map Entry.view) where
  readable := by
    apply List.ext_getElem?
    intro offset
    rw [List.getElem?_map, List.getElem?_map, List.getElem?_map, List.getElem?_drop,
      ring.stored_getElem?]
    cases found : log[base + offset]? with
    | none => rfl
    | some entry =>
        have shown := ring.ofChain_eq (Nat.le_add_right base offset) found
        simp only [Option.map_some, shown]
  ends := by
    have whole := ring.length_stored
    have baseLe := ring.baseLe
    have countEq := ring.countEq
    rw [List.getLast?_eq_getElem?, List.length_cons, List.length_map, Nat.add_sub_cancel, whole]
    rcases Nat.eq_zero_or_pos memory.count with none | some
    · rw [none, List.getElem?_cons_zero, ring.headEq, ring.tailEq,
        show base = log.length by omega]
    · rw [show memory.count = memory.count - 1 + 1 by omega, List.getElem?_cons_succ,
        List.getElem?_map, ring.stored_getElem?]
      have found := List.getElem?_eq_getElem
        (show base + (memory.count - 1) < log.length by omega)
      rw [found]
      simp only [Option.map_some]
      rw [desc_second_mod ring.positive, ← start_succ memory.capacity found, ring.tailEq,
        show base + (memory.count - 1) + 1 = log.length by omega]
  counted := by
    rw [ring.countEq, List.length_map, List.length_drop]

namespace Queue

variable {queue : Queue} {log : List Entry} {base : Nat}

/-- What a push with a forced removal makes of a simple queue: `gone` messages are
removed, and an accepted message is appended. -/
structure ForcedPush (queue next : Queue) (log : List Entry) (base gone : Nat)
    (entry : Entry) (accepted : Bool) : Prop where
  self : next.self = queue.self
  ring : Ring next.memory (if accepted then log ++ [entry] else log) (base + gone) fun _ => 0
  inside : base + gone ≤ log.length

/-- The removed messages are expired at `limit`, and they are removed one after the
other until the new message fits or none of those left is expired. -/
structure RemovedUntil (capacity : Nat) (log : List Entry) (base size limit gone : Nat)
    (accepted : Bool) : Prop where
  expired : ∀ index entry, base ≤ index → index < base + gone → log[index]? = some entry →
    entry.timestamp ≤ limit
  needed : ∀ index, base ≤ index → index < base + gone → ¬Fits capacity log index size
  fits : accepted = true ↔ Fits capacity log (base + gone) size
  stops : accepted = false → ∀ entry, log[base + gone]? = some entry →
    limit < entry.timestamp

theorem simple_removeExpired (simple : queue.self.type = .simple)
    (ring : Ring queue.memory log base fun _ => 0) {payload : List UInt8}
    (nonempty : payload ≠ []) (tag now limit : Nat) {fuel : Nat}
    (enough : log.length - base < fuel)
    (refused : ¬Fits queue.memory.capacity log base payload.length) :
    ∃ accepted next gone,
      queue.removeExpired tag payload now limit fuel = .ok (accepted, next) ∧
      ForcedPush queue next log base gone (queue.pushedEntry tag now payload nonempty)
        accepted ∧
      RemovedUntil queue.memory.capacity log base payload.length limit gone accepted := by
  induction fuel generalizing queue base with
  | zero => exact absurd enough (Nat.not_lt_zero _)
  | succ fuel induction =>
      have countEq : queue.count = log.length - base := by
        rw [count, simple]
        exact ring.countEq
      have baseLe := ring.baseLe
      have unchanged : ForcedPush queue queue log base 0
          (queue.pushedEntry tag now payload nonempty) false := ⟨rfl, ring, baseLe⟩
      have none : (∀ entry, log[base]? = some entry → limit < entry.timestamp) →
          RemovedUntil queue.memory.capacity log base payload.length limit 0 false :=
        fun young => ⟨fun _ _ _ _ => by omega, fun _ _ _ => by omega, by simpa using refused,
          fun _ => young⟩
      rw [removeExpired]
      by_cases isEmpty : queue.count = 0
      · rw [empty, if_pos (decide_eq_true isEmpty)]
        refine ⟨false, queue, 0, rfl, unchanged, none fun entry found => ?_⟩
        have below := (List.getElem?_eq_some_iff.mp found).1
        omega
      · rw [empty, if_neg (by simpa using isEmpty)]
        have below : base < log.length := by omega
        have found := List.getElem?_eq_getElem below
        have reads := simple_baseGetMessage simple ring found
        rcases desc_first queue.memory.capacity (start queue.memory.capacity log base)
          (log[base]).size with ⟨rest, first⟩
        have gets : queue.getMessage = .ok (desc queue.memory.capacity
            (start queue.memory.capacity log base) (log[base]).size, queue) := by
          rw [getMessage, simple]
          simp only [reads, Bind.bind, Except.bind, pure, Except.pure]
        have timed : timestamp queue.memory.data (headerPlace queue.memory.capacity
            (start queue.memory.capacity log base) (log[base]).size) = (log[base]).timestamp :=
          congrArg Header.timestamp (ring.view (Nat.le_refl _) found).2.2
        simp only [gets, Bind.bind, Except.bind, first, timed]
        by_cases fresh : (log[base]).timestamp > limit
        · rw [if_pos fresh]
          refine ⟨false, queue, 0, rfl, unchanged, none fun entry foundEntry => ?_⟩
          rw [found] at foundEntry
          cases foundEntry
          exact fresh
        · rw [if_neg fresh]
          rcases simple_popMessage simple ring found with
            ⟨memory, pops, sameCapacity, sameTimeout, dropped⟩
          rcases @simple_doPush (queue.setMemory memory) log (base + 1) simple dropped
            payload nonempty tag now with
            ⟨accepted, pushed, pushes, self, capacity, timeout, fits, appended⟩
          rw [setMemory_memory, sameCapacity] at fits capacity
          have oneExpired : ∀ index entry, base ≤ index → index < base + 1 →
              log[index]? = some entry → entry.timestamp ≤ limit := by
            intro index entry lower upper foundEntry
            rw [show index = base by omega, found] at foundEntry
            cases foundEntry
            exact Nat.le_of_not_lt fresh
          have oneNeeded : ∀ index, base ≤ index → index < base + 1 →
              ¬Fits queue.memory.capacity log index payload.length := by
            intro index lower upper
            rw [show index = base by omega]
            exact refused
          simp only [pops, pushes]
          cases accepted with
          | true =>
              exact ⟨true, pushed, 1, rfl, ⟨self, appended, below⟩, oneExpired, oneNeeded, fits,
                fun absent => by cases absent⟩
          | false =>
              have stillSimple : pushed.self.type = .simple := by rw [self]; exact simple
              have sameEntry : pushed.pushedEntry tag now payload nonempty =
                  queue.pushedEntry tag now payload nonempty := by
                simp only [pushedEntry, self]
                rfl
              rcases induction stillSimple appended (by omega)
                (by rw [capacity]; exact mt fits.mpr (by simp)) with
                ⟨accepted, next, gone, loops, forced, removed⟩
              rw [sameEntry] at forced
              rw [capacity] at removed
              have oneMore : base + 1 + gone = base + (gone + 1) := by omega
              refine ⟨accepted, next, gone + 1, loops, ⟨forced.self.trans self,
                oneMore ▸ forced.ring, oneMore ▸ forced.inside⟩, ?_, ?_, oneMore ▸ removed.fits,
                oneMore ▸ removed.stops⟩
              · intro index entry lower upper
                rcases Nat.lt_or_ge base index with later | first
                · exact removed.expired index entry later (by omega)
                · exact oneExpired index entry lower (by omega)
              · intro index lower upper
                rcases Nat.lt_or_ge base index with later | first
                · exact removed.needed index later (by omega)
                · exact oneNeeded index lower (by omega)

theorem simple_forcedPush (simple : queue.self.type = .simple)
    (ring : Ring queue.memory log base fun _ => 0) {payload : List UInt8}
    (nonempty : payload ≠ []) (tag now : Nat) :
    ∃ accepted next gone, queue.push tag payload now = .ok (accepted, next) ∧
      ForcedPush queue next log base gone (queue.pushedEntry tag now payload nonempty)
        accepted ∧
      (0 < queue.memory.keepaliveTimeout → RemovedUntil queue.memory.capacity log base
        payload.length (sub64 now queue.memory.keepaliveTimeout) gone accepted) := by
  rcases simple_doPush simple ring nonempty tag now with
    ⟨accepted, pushed, pushes, self, capacity, timeout, fits, appended⟩
  cases accepted with
  | true =>
      exact ⟨true, pushed, 0, push_accepted pushes, ⟨self, appended, ring.baseLe⟩,
        fun _ => ⟨fun _ _ _ _ => by omega, fun _ _ _ => by omega, fits,
          fun absent => by cases absent⟩⟩
  | false =>
      have refused := mt fits.mpr (by simp)
      by_cases expires : pushed.memory.keepaliveTimeout > 0
      · have stillSimple : pushed.self.type = .simple := by rw [self]; exact simple
        have sameEntry : pushed.pushedEntry tag now payload nonempty =
            queue.pushedEntry tag now payload nonempty := by
          simp only [pushedEntry, self]
        have small := ring.count_lt
        rcases simple_removeExpired stillSimple appended nonempty tag now
          (sub64 now pushed.memory.keepaliveTimeout)
          (show log.length - base < 2 ^ 32 by omega) (by rw [capacity]; exact refused) with
          ⟨accepted, next, gone, loops, forced, removed⟩
        rw [sameEntry] at forced
        rw [capacity, timeout] at removed
        refine ⟨accepted, next, gone, ?_, ⟨forced.self.trans self, forced.ring, forced.inside⟩,
          fun _ => removed⟩
        rw [push]
        simp only [pushes, Bind.bind, Except.bind, if_pos expires]
        exact loops
      · exact ⟨false, pushed, 0, push_refused pushes (by omega), ⟨self, appended, ring.baseLe⟩,
          fun expiring => absurd (timeout ▸ expiring) expires⟩

theorem simple_pop_current (simple : queue.self.type = .simple)
    (ring : Ring queue.memory log base fun _ => 0)
    (current : queue.self.messageDesc.first = [] ∨ queue.count = 0 ∨
      queue.baseGetMessage = .ok queue.self.messageDesc) :
    ∃ next base', queue.pop = .ok (decide (base < log.length), next) ∧
      next.self.type = .simple ∧ log.drop base' = (log.drop base).tail ∧
      Ring next.memory log base' fun _ => 0 := by
  by_cases isEmpty : queue.count = 0
  · have countEq : queue.count = log.length - base := by
      rw [count, simple]
      exact ring.countEq
    refine ⟨queue, base, ?_, simple, ?_, ring⟩
    · rw [pop, if_neg (by omega), decide_eq_false (by omega)]
      rfl
    · rw [List.drop_eq_nil_of_le (by omega)]
      rfl
  · have cached : SimpleCached queue log base := by
      rcases current with none | absent | same
      · exact .inl none
      · exact absurd absent isEmpty
      · have below : base < log.length := by
          have countEq : queue.count = log.length - base := by
            rw [count, simple]
            exact ring.countEq
          omega
        have found := List.getElem?_eq_getElem below
        rw [simple_baseGetMessage simple ring found] at same
        exact .inr ⟨_, found, (Except.ok.inj same).symm⟩
    rcases simple_pop simple ring cached with ⟨next, base', pops, type, -, dropped, kept, -⟩
    exact ⟨next, base', pops, type, dropped, kept⟩

end Queue

/-! ## Runs -/

/-- The queue stores the messages of `log` from `base` on, and all its objects are
of a simple queue. -/
structure SimpleHolds (world : World) (log : List Entry) (base : Nat) : Prop where
  ring : Ring world.memory log base fun _ => 0
  types : ∀ id ∈ world.live, (world.handle id).type = .simple

namespace SimpleHolds

variable {world : World} {log : List Entry} {base : Nat}

theorem update (holds : SimpleHolds world log base) {id : Nat} {queue : Queue}
    {log' : List Entry} {base' : Nat} (simple : queue.self.type = .simple)
    (ring : Ring queue.memory log' base' fun _ => 0) :
    SimpleHolds (world.update id queue) log' base' where
  ring := ring
  types := by
    intro other live
    rcases eq_or_ne other id with same | different
    · rw [same, World.update_handle_self, simple]
    · rw [World.update_handle_of_ne world queue different]
      exact holds.types other live

theorem perform (holds : SimpleHolds world log base) {action : Action}
    (allowed : action.OnSimple) (current : world.CachesOldest action)
    (enabled : world.Enabled action) :
    ∃ result next log' base', world.perform action = .ok (result, next) ∧
      SimpleHolds next log' base' ∧
      Fifo.ExpiringStep ((log.drop base).map Entry.view) (action, result)
        ((log'.drop base').map Entry.view) := by
  cases action with
  | attach id type sid clock =>
      have simple : type = .simple := allowed
      subst simple
      refine ⟨.done, _, log, base, rfl, ⟨holds.ring, ?_⟩, .attach⟩
      intro other live
      rcases Finset.mem_insert.mp live with same | older
      · rw [same]
        simp [World.update, Queue.newHandle]
      · have attached : (⟨world.memory, Queue.newHandle .simple sid
            world.memory.counter⟩ : Queue).self.type = .simple := rfl
        exact (holds.update attached holds.ring).types other older
  | push id tag data now =>
      have nonempty : data ≠ [] := allowed
      have simple : (world.queue id).self.type = .simple := holds.types id enabled
      rcases Queue.simple_forcedPush simple holds.ring nonempty tag.toNat now with
        ⟨accepted, next, gone, pushes, forced, -⟩
      have performed : world.perform (.push id tag data now) =
          .ok (.pushed accepted, world.update id next) := by
        simp only [World.perform, pushes, Bind.bind, Except.bind, pure, Except.pure]
      have kept : SimpleHolds (world.update id next) _ _ :=
        holds.update (forced.self ▸ simple) forced.ring
      refine ⟨_, _, _, _, performed, kept, ?_⟩
      have removed : (log.drop (base + gone)).map Entry.view =
          ((log.drop base).map Entry.view).drop gone := by
        rw [← List.map_drop, List.drop_drop]
      cases accepted with
      | true =>
          have small := tag.toNat_lt
          rw [if_pos rfl, List.drop_append_of_le_length forced.inside, List.map_append, removed]
          have shown : ((world.queue id).pushedEntry tag.toNat now data nonempty).view =
              ⟨tag.toNat, data.length, data⟩ := by
            simp [Queue.pushedEntry, Entry.view, Entry.size, Nat.mod_eq_of_lt small]
          rw [List.map_singleton, shown]
          exact .accepted gone
      | false =>
          rw [if_neg (by simp), removed]
          exact .refused gone
  | get id =>
      have simple : (world.queue id).self.type = .simple := holds.types id enabled.1
      rcases Queue.simple_get simple holds.ring with
        ⟨chain, next, gets, memory, type, shown, -⟩
      refine ⟨_, world.update id next, log, base, ?_, holds.update type (memory ▸ holds.ring),
        .get⟩
      simp only [World.perform, gets, Bind.bind, Except.bind, pure, Except.pure, shown]
  | pop id =>
      have simple : (world.queue id).self.type = .simple := holds.types id enabled.1
      rcases Queue.simple_pop_current simple holds.ring current with
        ⟨next, base', pops, type, dropped, kept⟩
      have nonempty : decide (base < log.length) =
          !((log.drop base).map Entry.view).isEmpty := by
        rw [Bool.eq_iff_iff]
        simp [List.drop_eq_nil_iff]
      have performed : world.perform (.pop id) =
          .ok (.popped (!((log.drop base).map Entry.view).isEmpty), world.update id next) := by
        rw [← nonempty]
        simp only [World.perform, pops, Bind.bind, Except.bind, pure, Except.pure]
      refine ⟨_, _, _, _, performed, holds.update type kept, ?_⟩
      rw [dropped, List.map_tail]
      exact .pop
  | clean id => exact absurd allowed (by simp [Action.OnSimple])
  | destroy id clock => exact absurd allowed (by simp [Action.OnSimple])
  | keepaliveTimeout value =>
      refine ⟨_, _, log, base, rfl, ⟨?_, holds.types⟩, .keepaliveTimeout⟩
      exact holds.ring.congr rfl rfl rfl rfl rfl

theorem run (holds : SimpleHolds world log base) {labels : List (Action × Result)}
    {final : World}
    (run : Run (fun world label next =>
      (label.1.OnSimple ∧ world.CachesOldest label.1) ∧ world.Step label next) world labels final) :
    ∃ log base, SimpleHolds final log base := by
  apply run.invariant (fun world => ∃ log base, SimpleHolds world log base) _ ⟨log, base, holds⟩
  rintro world ⟨action, result⟩ next ⟨log, base, holds⟩ ⟨⟨allowed, current⟩, enabled, performed⟩
  rcases holds.perform allowed current enabled with ⟨_, _, log', base', returned, kept, -⟩
  cases performed.symm.trans returned
  exact ⟨log', base', kept⟩

end SimpleHolds

/-- Under forced removal the simple queue is a list whose oldest messages a push
may remove: in every run in which a pop never finds the cached description of
another message than the oldest, the messages from the head to the tail are
`count()` many and readable, every call returns, and a pop removes exactly the
oldest message. -/
theorem simple_queue_pops_oldest {raw : QueueMemory} {qid capacity sid : Nat}
    {clock : List Nat} {queue : Queue} {owner : Nat}
    (created : Queue.create raw .simple qid capacity sid clock = .ok queue)
    (positive : 1 ≤ capacity) (bounded : capacity < 2 ^ 32)
    {labels : List (Action × Result)} {world : World}
    (run : Run (fun world label next =>
        (label.1.OnSimple ∧ world.CachesOldest label.1) ∧ world.Step label next)
      (World.created owner queue) labels world) :
    ∃ messages, world.memory.Stores messages ∧
      (∀ id ∈ world.live, (world.queue id).count = messages.length) ∧
      ∀ action : Action, action.OnSimple → world.CachesOldest action → world.Enabled action →
        ∃ result next messages', world.perform action = .ok (result, next) ∧
          next.memory.Stores messages' ∧
          Fifo.ExpiringStep messages (action, result) messages' := by
  have stores := simple_created created positive bounded owner owner
  have begins : SimpleHolds (World.created owner queue) [] 0 := ⟨stores.ring, stores.types⟩
  rcases begins.run run with ⟨log, base, holds⟩
  refine ⟨(log.drop base).map Entry.view, holds.ring.stores, ?_, ?_⟩
  · intro id live
    have simple : (world.queue id).self.type = .simple := holds.types id live
    rw [Queue.count, simple]
    exact holds.ring.stores.counted
  · intro action allowed current enabled
    rcases holds.perform allowed current enabled with
      ⟨result, next, log', base', performed, kept, step⟩
    exact ⟨result, next, _, performed, kept.ring.stores, step⟩

/-- A push removes the message that the reader has popped last and the reader goes
on with the next one. -/
theorem simple_queue_pops_oldest_expired : ∃ (world : World) (messages : List MessageView),
    world.memory.Stores messages ∧
    ∀ action : Action, action.OnSimple → world.CachesOldest action → world.Enabled action →
      ∃ result next messages', world.perform action = .ok (result, next) ∧
        next.memory.Stores messages' ∧
        Fifo.ExpiringStep messages (action, result) messages' := by
  have created : Queue.create .zeros .simple 0 80 1 [] =
      .ok (Queue.created .simple 80 1 []) := rfl
  rcases World.exists_run (fun world action => action.OnSimple ∧ world.CachesOldest action)
    (show World.runs _ (World.created 0 (Queue.created .simple 80 1 []))
      [(.attach 1 .simple 2 [], .done),
        (.keepaliveTimeout 10, .done),
        (.push 0 3 (List.replicate 10 7) 100, .pushed true),
        (.push 0 4 (List.replicate 10 8) 100, .pushed true),
        (.push 0 5 (List.replicate 10 9) 200, .pushed true),
        (.get 1, .message (some ⟨4, 10, List.replicate 10 8⟩)),
        (.pop 1, .popped true)] (fun _ => true) = true by
      decide +kernel) with ⟨world, run, -⟩
  rcases simple_queue_pops_oldest created (by decide) (by decide) run with
    ⟨messages, stores, -, steps⟩
  exact ⟨world, messages, stores, steps⟩

/-- A push removes the message that the reader has got: the pop returns true and
leaves the oldest message, and the next one takes the last message away unread. -/
theorem simple_queue_pops_removed : ∃ world : World,
    Run World.Step (World.created 0 (Queue.created .simple 80 1 []))
      [(.keepaliveTimeout 10, .done),
        (.push 0 3 (List.replicate 10 7) 100, .pushed true),
        (.push 0 4 (List.replicate 10 8) 100, .pushed true),
        (.get 0, .message (some ⟨3, 10, List.replicate 10 7⟩)),
        (.push 0 5 (List.replicate 10 9) 200, .pushed true),
        (.pop 0, .popped true),
        (.get 0, .message (some ⟨4, 10, List.replicate 10 8⟩)),
        (.pop 0, .popped true)] world ∧
    ∀ messages, ¬world.memory.Stores messages := by
  rcases World.exists_run (fun _ _ => True)
    (show World.runs _ (World.created 0 (Queue.created .simple 80 1 []))
      [(.keepaliveTimeout 10, .done),
        (.push 0 3 (List.replicate 10 7) 100, .pushed true),
        (.push 0 4 (List.replicate 10 8) 100, .pushed true),
        (.get 0, .message (some ⟨3, 10, List.replicate 10 7⟩)),
        (.push 0 5 (List.replicate 10 9) 200, .pushed true),
        (.pop 0, .popped true),
        (.get 0, .message (some ⟨4, 10, List.replicate 10 8⟩)),
        (.pop 0, .popped true)]
      (fun world => decide (world.memory.stored = [] ∧ world.memory.head ≠
        world.memory.tail)) = true by decide +kernel) with ⟨world, run, observed⟩
  rcases of_decide_eq_true observed with ⟨none, apart⟩
  refine ⟨world, run.mono (fun step => step.2), ?_⟩
  intro messages stores
  have ends := stores.ends
  rw [none] at ends
  exact apart (Option.some.inj ends)

end Qbus
