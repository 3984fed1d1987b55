import Qbus.Queue.Alike
import Qbus.Queue.Execution

/-! # Clearing a queue

`clear()` resets the head, the tail and the count of a queue, and nothing else. What the
objects remember and the counter of pushed messages stay. -/

namespace Qbus

open MachineWord

def Action.KeepsClass (type : QueueType) : Action → Prop
  | .attach _ other _ _ => other = type
  | .push _ _ _ _ | .get _ | .pop _ | .clean _ | .destroy _ _ | .keepaliveTimeout _ => True

instance (type : QueueType) : DecidablePred (Action.KeepsClass type)
  | .attach _ other _ _ => inferInstanceAs (Decidable (other = type))
  | .push _ _ _ _ => inferInstanceAs (Decidable True)
  | .get _ => inferInstanceAs (Decidable True)
  | .pop _ => inferInstanceAs (Decidable True)
  | .clean _ => inferInstanceAs (Decidable True)
  | .destroy _ _ => inferInstanceAs (Decidable True)
  | .keepaliveTimeout _ => inferInstanceAs (Decidable True)

namespace World

def cleared (world : World) : World := { world with memory := world.memory.clear }

/-- The worlds that any calls on a new queue lead to, as long as all objects are of one
class. -/
inductive Used (type : QueueType) : World → Prop
  | created {raw qid capacity sid queue owner}
      (creates : Queue.create raw type qid capacity sid [] = .ok queue) :
      Used type (World.created owner queue)
  | step {world label next} (used : Used type world)
      (own : label.1.KeepsClass type) (step : World.Step world label next) : Used type next
  | cleared {world} (used : Used type world) : Used type world.cleared

theorem Used.run {type : QueueType} {world final : World} {labels : List (Action × Result)}
    (used : Used type world)
    (run : Run (fun world label next => label.1.KeepsClass type ∧ world.Step label next)
      world labels final) : Used type final := by
  apply run.invariant (Used type) _ used
  intro state label next used step
  exact .step used step.1 step.2

end World

/-- An object of the class `type`. Only an object that is not simple has a head and a counter. -/
structure Handle.Wellformed (type : QueueType) (handle : Handle) : Prop where
  typed : handle.type = type
  state : handle.state = .unknown
  head : type = .simple → handle.head = sharedHead
  counter : type = .shared → handle.counter < 2 ^ 32

theorem Queue.newHandle_wellformed {type : QueueType} {sid counter : Nat}
    (bounded : type = .shared → counter < 2 ^ 32) :
    (newHandle type sid counter).Wellformed type :=
  ⟨rfl, rfl, fun _ => rfl, bounded⟩

theorem Handle.Wellformed.newHandle {type : QueueType} {handle : Handle}
    (wellformed : handle.Wellformed type) (head : handle.head = sharedHead) (counter : Nat) :
    Queue.newHandle type handle.sid counter =
      { handle with counter := counter, messageDesc := .none } := by
  rw [Queue.newHandle, ← wellformed.typed, ← wellformed.state, ← head]

theorem Queue.Keeps.wellformed {type : QueueType} {before after : Queue}
    (keeps : before.Keeps after) (wellformed : before.self.Wellformed type) :
    after.self.Wellformed type where
  typed := keeps.type.trans wellformed.typed
  state := keeps.state.trans wellformed.state
  head := fun simple =>
    (keeps.head (wellformed.typed.trans simple)).trans (wellformed.head simple)
  counter := by
    intro shared
    rcases keeps.counter with same | bounded
    · exact same ▸ wellformed.counter shared
    · exact bounded

namespace World

structure Wellformed (type : QueueType) (world : World) : Prop where
  id : world.memory.id < 2 ^ 32
  capacity : world.memory.capacity < 2 ^ 32
  timeout : world.memory.keepaliveTimeout < 2 ^ 32
  subscribed : type = .shared → world.memory.subscriptionsCount = world.live.card % 2 ^ 32
  counter : type = .shared → world.memory.counter < 2 ^ 32
  objects : ∀ id ∈ world.live, (world.handle id).Wellformed type

namespace Wellformed

variable {type : QueueType} {world next : World}

theorem created {raw : QueueMemory} {qid capacity sid owner : Nat} {queue : Queue}
    (plain : type.Plain) (creates : Queue.create raw type qid capacity sid [] = .ok queue) :
    Wellformed type (World.created owner queue) := by
  have bounded := fun value => Nat.mod_lt value (Nat.two_pow_pos 32)
  have same := @SameQueue.clear { raw with
    id := qid % 2 ^ 32, capacity := capacity % 2 ^ 32, keepaliveTimeout := 0 }
  have id : queue.memory.id = qid % 2 ^ 32 := by
    rcases plain with rfl | rfl <;> cases creates <;> exact same.id
  have size : queue.memory.capacity = capacity % 2 ^ 32 := by
    rcases plain with rfl | rfl <;> cases creates <;> exact same.capacity
  have timeout : queue.memory.keepaliveTimeout = 0 := by
    rcases plain with rfl | rfl <;> cases creates <;> exact same.keepaliveTimeout
  have self : queue.self = Queue.newHandle type sid 0 := by
    rcases plain with rfl | rfl <;> cases creates <;> rfl
  constructor
  · exact id ▸ bounded qid
  · exact size ▸ bounded capacity
  · exact timeout ▸ Nat.two_pow_pos 32
  · intro shared
    subst shared
    cases creates
    rfl
  · intro shared
    subst shared
    cases creates
    exact Nat.two_pow_pos 32
  · intro other _
    change queue.self.Wellformed type
    rw [self]
    exact Queue.newHandle_wellformed fun _ => Nat.two_pow_pos 32

theorem memory (wellformed : Wellformed type world) {memory : QueueMemory}
    (same : SameQueue memory world.memory) :
    Wellformed type { world with memory := memory } where
  id := same.id ▸ wellformed.id
  capacity := same.capacity ▸ wellformed.capacity
  timeout := same.keepaliveTimeout ▸ wellformed.timeout
  subscribed := fun shared => same.subscriptionsCount.trans (wellformed.subscribed shared)
  counter := by
    intro shared
    rcases same.counter with unchanged | bounded
    · exact unchanged ▸ wellformed.counter shared
    · exact bounded
  objects := wellformed.objects

theorem update (wellformed : Wellformed type world) {id : Nat} (live : id ∈ world.live)
    {queue : Queue} (keeps : (world.queue id).Keeps queue) :
    Wellformed type (world.update id queue) := by
  have changed := wellformed.memory keeps.memory
  refine ⟨changed.id, changed.capacity, changed.timeout, changed.subscribed, changed.counter, ?_⟩
  intro other isLive
  by_cases equal : other = id
  · rw [equal, update_handle_self]
    exact keeps.wellformed (wellformed.objects id live)
  · rw [update_handle_of_ne world queue equal]
    exact wellformed.objects other isLive

theorem cleared (wellformed : Wellformed type world) : Wellformed type world.cleared :=
  wellformed.memory SameQueue.clear

theorem attach (wellformed : Wellformed type world) (plain : type.Plain) {id sid : Nat}
    {clock : List Nat} {result : Result} (newcomer : id ∉ world.live)
    (attaches : world.perform (.attach id type sid clock) = .ok (result, next)) :
    Wellformed type next := by
  have objects : ∀ memory, ∀ other ∈ insert id world.live,
      ((world.update id ⟨memory, Queue.newHandle type sid world.memory.counter⟩).handle
        other).Wellformed type := by
    intro memory other isLive
    by_cases equal : other = id
    · rw [equal, update_handle_self]
      exact Queue.newHandle_wellformed wellformed.counter
    · rw [update_handle_of_ne world _ equal]
      exact wellformed.objects other (Finset.mem_of_mem_insert_of_ne isLive equal)
  rcases plain with rfl | rfl
  · cases attaches
    exact ⟨wellformed.id, wellformed.capacity, wellformed.timeout,
      (by intro shared; cases shared), wellformed.counter, objects _⟩
  · cases attaches
    refine ⟨wellformed.id, wellformed.capacity, wellformed.timeout, fun _ => ?_,
      wellformed.counter, objects _⟩
    change (world.memory.subscriptionsCount + 1) % 2 ^ 32 = (insert id world.live).card % 2 ^ 32
    rw [wellformed.subscribed rfl, Finset.card_insert_of_notMem newcomer, Nat.mod_add_mod]

theorem destroy (wellformed : Wellformed type world) (plain : type.Plain) {id : Nat}
    {clock : List Nat} {result : Result} (live : id ∈ world.live)
    (destroys : world.perform (.destroy id clock) = .ok (result, next)) :
    Wellformed type next := by
  have typed : (world.queue id).self.type = type := (wellformed.objects id live).typed
  have objects : ∀ other ∈ world.live.erase id, (world.handle other).Wellformed type :=
    fun other isLive => wellformed.objects other (Finset.mem_of_mem_erase isLive)
  rcases plain with rfl | rfl
  · rw [perform, Queue.destroy, typed] at destroys
    have same := (Prod.mk.inj (Except.ok.inj destroys)).2
    subst same
    exact ⟨wellformed.id, wellformed.capacity, wellformed.timeout,
      (by intro shared; cases shared), wellformed.counter, objects⟩
  · rw [perform, Queue.destroy, typed] at destroys
    have same := (Prod.mk.inj (Except.ok.inj destroys)).2
    have some := Finset.card_pos.mpr ⟨id, live⟩
    have counted : sub32 world.memory.subscriptionsCount 1 =
        (world.live.erase id).card % 2 ^ 32 := by
      rw [wellformed.subscribed rfl, Finset.card_erase_of_mem live, sub32, MachineWord.sub]
      omega
    subst same
    change Wellformed .shared
      ⟨world.memory.decSubscriptionsCount, world.live.erase id, world.handle⟩
    rw [QueueMemory.decSubscriptionsCount, counted]
    exact ⟨wellformed.id, wellformed.capacity, wellformed.timeout, fun _ => rfl,
      wellformed.counter, objects⟩

end Wellformed

theorem Wellformed.perform {type : QueueType} {world next : World} {action : Action}
    {result : Result} (wellformed : Wellformed type world) (plain : type.Plain)
    (own : action.KeepsClass type) (step : world.Step (action, result) next) : Wellformed type next := by
  have typed : ∀ id ∈ world.live, (world.queue id).self.type.Plain := by
    intro id live
    rw [World.queue, (wellformed.objects id live).typed]
    exact plain
  rcases step with ⟨enabled, performed⟩
  cases action with
  | attach id other sid clock =>
      have same : other = type := own
      subst same
      exact wellformed.attach plain enabled performed
  | push id tag data now =>
      rcases Outcome.returned performed with ⟨⟨accepted, queue⟩, pushes, returns⟩
      cases returns
      exact wellformed.update enabled (Queue.keeps_push (typed id enabled) pushes)
  | get id =>
      rcases Outcome.returned performed with ⟨⟨chain, queue⟩, gets, returns⟩
      cases returns
      exact wellformed.update enabled.1 (Queue.keeps_get (typed id enabled.1) gets)
  | pop id =>
      rcases Outcome.returned performed with ⟨⟨removed, queue⟩, pops, returns⟩
      cases returns
      exact wellformed.update enabled.1 (Queue.keeps_pop (typed id enabled.1) pops)
  | clean id =>
      rcases Outcome.returned performed with ⟨⟨count, queue⟩, cleans, returns⟩
      rcases Outcome.returned cleans with ⟨⟨info, cleaned⟩, collects, counted⟩
      cases returns
      cases counted
      exact wellformed.update enabled (Queue.keeps_cleanMessages (typed id enabled) collects)
  | destroy id clock => exact wellformed.destroy plain enabled performed
  | keepaliveTimeout value =>
      cases performed
      exact ⟨wellformed.id, wellformed.capacity, Nat.mod_lt value (Nat.two_pow_pos 32),
        wellformed.subscribed, wellformed.counter, wellformed.objects⟩

theorem Used.wellformed {type : QueueType} {world : World} (plain : type.Plain)
    (used : Used type world) : Wellformed type world := by
  induction used with
  | created creates => exact .created plain creates
  | step _ own step induction => exact induction.perform plain own step
  | cleared _ induction => exact induction.cleared

end World

/-! ## New queues -/

/-- The constructions of more objects of the class `type`, and the setting of the timeout. -/
def Action.Opens (type : QueueType) : Action → Prop
  | .attach _ other _ _ => other = type
  | .keepaliveTimeout _ => True
  | .push _ _ _ _ | .get _ | .pop _ | .clean _ | .destroy _ _ => False

def QueueMemory.renewed (type : QueueType) (subscribers timeout : Nat) (memory : QueueMemory) :
    QueueMemory :=
  let memory := { memory with keepaliveTimeout := timeout }.clear
  match type with
  | .shared => { memory with counter := 0, subscriptionsCount := subscribers % 2 ^ 32 }
  | _ => memory

theorem QueueMemory.renewed_incSubscriptionsCount (count timeout : Nat) (memory : QueueMemory) :
    (memory.renewed .shared count timeout).incSubscriptionsCount =
      memory.renewed .shared (count + 1) timeout := by
  rw [renewed, renewed, incSubscriptionsCount, Nat.mod_add_mod]

theorem QueueMemory.renewed_setKeepaliveTimeout (type : QueueType) (count timeout value : Nat)
    (memory : QueueMemory) : (memory.renewed type count timeout).setKeepaliveTimeout value =
      memory.renewed type count (value % 2 ^ 32) := by
  cases type <;> rfl

namespace World

/-- A new queue in the memory `raw` and of its capacity, with the objects that attach to it
before any call. -/
inductive Renewed (raw : QueueMemory) (type : QueueType) : World → Prop
  | created {sid queue owner}
      (creates : Queue.create raw type raw.id raw.capacity sid [] = .ok queue) :
      Renewed raw type (World.created owner queue)
  | opened {fresh label next} (renewed : Renewed raw type fresh)
      (opens : label.1.Opens type) (step : World.Step fresh label next) : Renewed raw type next

structure Fresh (raw : QueueMemory) (type : QueueType) (fresh : World) : Prop where
  memory : fresh.memory = raw.renewed type fresh.live.card fresh.memory.keepaliveTimeout
  objects : ∀ id ∈ fresh.live, ∃ sid counter,
    fresh.handle id = Queue.newHandle type sid counter ∧ (type = .shared → counter = 0)

theorem Fresh.created {raw : QueueMemory} {type : QueueType} {sid owner : Nat} {queue : Queue}
    (plain : type.Plain) (id : raw.id < 2 ^ 32) (capacity : raw.capacity < 2 ^ 32)
    (creates : Queue.create raw type raw.id raw.capacity sid [] = .ok queue) :
    Fresh raw type (World.created owner queue) := by
  rcases plain with rfl | rfl
  · rw [Queue.create, Nat.mod_eq_of_lt id, Nat.mod_eq_of_lt capacity] at creates
    have same := Except.ok.inj creates
    subst same
    exact ⟨rfl, fun _ _ => ⟨sid, 0, rfl, fun _ => rfl⟩⟩
  · rw [Queue.create, Nat.mod_eq_of_lt id, Nat.mod_eq_of_lt capacity] at creates
    have same := Except.ok.inj creates
    subst same
    exact ⟨rfl, fun _ _ => ⟨sid, 0, rfl, fun _ => rfl⟩⟩

theorem Fresh.attach {raw : QueueMemory} {type : QueueType} {fresh next : World}
    (isFresh : Fresh raw type fresh) (plain : type.Plain) {id sid : Nat} {clock : List Nat}
    {result : Result} (newcomer : id ∉ fresh.live)
    (attaches : fresh.perform (.attach id type sid clock) = .ok (result, next)) :
    Fresh raw type next := by
  have counter : type = .shared → fresh.memory.counter = 0 := by
    intro shared
    subst shared
    rw [isFresh.memory]
    rfl
  have objects : ∀ memory, ∀ other ∈ insert id fresh.live, ∃ sid' counter,
      (fresh.update id ⟨memory, Queue.newHandle type sid fresh.memory.counter⟩).handle other =
        Queue.newHandle type sid' counter ∧ (type = .shared → counter = 0) := by
    intro memory other isLive
    by_cases equal : other = id
    · rw [equal, update_handle_self]
      exact ⟨sid, fresh.memory.counter, rfl, counter⟩
    · rw [update_handle_of_ne fresh _ equal]
      exact isFresh.objects other (Finset.mem_of_mem_insert_of_ne isLive equal)
  have same := isFresh.memory
  rcases plain with rfl | rfl
  · cases attaches
    exact ⟨same, objects _⟩
  · cases attaches
    refine ⟨?_, objects _⟩
    change fresh.memory.incSubscriptionsCount =
      raw.renewed .shared (insert id fresh.live).card fresh.memory.keepaliveTimeout
    generalize fresh.memory.keepaliveTimeout = timeout at same
    rw [Finset.card_insert_of_notMem newcomer, same, QueueMemory.renewed_incSubscriptionsCount]

theorem Renewed.fresh {raw : QueueMemory} {type : QueueType} {fresh : World}
    (plain : type.Plain) (id : raw.id < 2 ^ 32) (capacity : raw.capacity < 2 ^ 32)
    (renewed : Renewed raw type fresh) : Fresh raw type fresh := by
  induction renewed with
  | created creates => exact .created plain id capacity creates
  | @opened fresh label next renewed opens step induction =>
      rcases label with ⟨action, result⟩
      rcases step with ⟨enabled, performed⟩
      cases action with
      | attach other class' sid clock =>
          have same : class' = type := opens
          subst same
          exact induction.attach plain enabled performed
      | keepaliveTimeout value =>
          cases performed
          refine ⟨?_, induction.objects⟩
          have same := induction.memory
          generalize fresh.memory.keepaliveTimeout = timeout at same
          change fresh.memory.setKeepaliveTimeout value =
            raw.renewed type fresh.live.card (value % 2 ^ 32)
          rw [same, QueueMemory.renewed_setKeepaliveTimeout]
      | push => cases opens
      | get => cases opens
      | pop => cases opens
      | clean => cases opens
      | destroy => cases opens

/-- `fresh` is a new queue in the memory of `world`, with the same subscribers and the same
timeout. -/
structure Renews (type : QueueType) (world fresh : World) : Prop where
  renewed : Renewed world.memory type fresh
  live : fresh.live = world.live
  timeout : fresh.memory.keepaliveTimeout = world.memory.keepaliveTimeout
  sids : ∀ id ∈ world.live, (fresh.handle id).sid = (world.handle id).sid

/-- No object has a message in its cache, and an object of a shared queue has nothing to read
and follows the shared head. -/
def Unread (type : QueueType) (world : World) : Prop :=
  ∀ id ∈ world.live, (world.handle id).messageDesc.first = [] ∧
    (type = .shared → (world.queue id).count = 0 ∧ (world.handle id).head = sharedHead)

def renewal (type : QueueType) (memory : QueueMemory) (value : Nat) : Nat :=
  match type with
  | .shared => (value + (2 ^ 32 - memory.counter)) % 2 ^ 32
  | _ => value

theorem renewal_counter {memory : QueueMemory} (bounded : memory.counter < 2 ^ 32) :
    renewal .shared memory memory.counter = 0 := by
  rw [renewal]
  omega

theorem counter_of_unread {world : World} {id : Nat}
    (wellformed : Wellformed .shared world) (live : id ∈ world.live)
    (none : (world.queue id).count = 0) : (world.handle id).counter = world.memory.counter := by
  have object := wellformed.objects id live
  have bounded := object.counter rfl
  have total := wellformed.counter rfl
  have counts : (world.queue id).count =
      sub32 world.memory.counter (world.handle id).counter := by
    rw [Queue.count, World.queue, object.typed]
  rw [counts, sub32, MachineWord.sub] at none
  omega

namespace Renews

variable {type : QueueType} {world fresh : World}

theorem memory (renews : Renews type world fresh) (plain : type.Plain)
    (wellformed : Wellformed type world) :
    fresh.memory = world.cleared.memory.turned (renewal type world.memory) := by
  have isFresh := renews.renewed.fresh plain wellformed.id wellformed.capacity
  rw [isFresh.memory, renews.timeout, renews.live]
  rcases plain with rfl | rfl
  · rfl
  · rw [QueueMemory.renewed, QueueMemory.turned, ← wellformed.subscribed rfl,
      ← renewal_counter (wellformed.counter rfl)]
    rfl

theorem turns (renews : Renews type world fresh) (plain : type.Plain)
    (wellformed : Wellformed type world) (unread : world.Unread type) {id : Nat}
    (live : id ∈ world.live) :
    ∃ own, Turns type (renewal type world.memory) own ∧
      fresh.handle id = { world.handle id with
        counter := own (world.handle id).counter, messageDesc := .none } := by
  have isFresh := renews.renewed.fresh plain wellformed.id wellformed.capacity
  have object := wellformed.objects id live
  rcases isFresh.objects id (renews.live ▸ live) with ⟨sid, counter, handle, zero⟩
  have same : sid = (world.handle id).sid := by
    rw [← renews.sids id live, handle, Queue.newHandle]
  rw [handle, same]
  rcases plain with rfl | rfl
  · exact ⟨fun _ => counter, .inl rfl, object.newHandle (object.head rfl) counter⟩
  · rcases (unread id live).2 rfl with ⟨none, head⟩
    refine ⟨renewal .shared world.memory, .inr ⟨rfl, rfl, .add _⟩, ?_⟩
    rw [counter_of_unread wellformed live none, renewal_counter (wellformed.counter rfl), zero rfl]
    exact object.newHandle head 0

theorem alike (renews : Renews type world fresh) (plain : type.Plain)
    (wellformed : Wellformed type world) (unread : world.Unread type) :
    Alike (renewal type world.memory) world.live world.cleared fresh where
  memory := renews.memory plain wellformed
  queues := by
    intro id live
    rcases renews.turns plain wellformed unread live with ⟨own, turns, handle⟩
    refine ⟨own, ?_, ?_, .inr ⟨(unread id live).1, ?_⟩⟩
    · rw [World.queue, World.queue, handle, renews.memory plain wellformed]
      rfl
    · rw [World.queue]
      exact (wellformed.objects id live).typed ▸ turns
    · rw [World.queue, handle]
      rfl

end Renews

/-! ## New queues exist -/

theorem exists_create (raw : QueueMemory) {type : QueueType} (plain : type.Plain) (sid : Nat) :
    ∃ queue, Queue.create raw type raw.id raw.capacity sid [] = .ok queue ∧
      queue.self.sid = sid := by
  rcases plain with rfl | rfl
  · exact ⟨_, rfl, rfl⟩
  · exact ⟨_, rfl, rfl⟩

theorem exists_attach (fresh : World) {type : QueueType} (plain : type.Plain) {id : Nat}
    (newcomer : id ∉ fresh.live) (sid : Nat) :
    ∃ next, fresh.Step (.attach id type sid [], .done) next ∧
      next.live = insert id fresh.live ∧ (next.handle id).sid = sid ∧
      ∀ other, other ≠ id → next.handle other = fresh.handle other := by
  have others : ∀ (queue : Queue) other, other ≠ id →
      (fresh.update id queue).handle other = fresh.handle other :=
    fun queue other different => update_handle_of_ne fresh queue different
  rcases plain with rfl | rfl
  · refine ⟨_, ⟨newcomer, rfl⟩, rfl, ?_, others _⟩
    exact congrArg Handle.sid (update_handle_self fresh id _)
  · refine ⟨_, ⟨newcomer, rfl⟩, rfl, ?_, others _⟩
    exact congrArg Handle.sid (update_handle_self fresh id _)

theorem exists_renewed (raw : QueueMemory) {type : QueueType} (plain : type.Plain)
    (sids : Nat → Nat) (owner : Nat) (rest : Finset Nat) (distinct : owner ∉ rest) :
    ∃ fresh, Renewed raw type fresh ∧ fresh.live = insert owner rest ∧
      ∀ id ∈ insert owner rest, (fresh.handle id).sid = sids id := by
  induction rest using Finset.induction_on with
  | empty =>
      rcases exists_create raw plain (sids owner) with ⟨queue, creates, sid⟩
      refine ⟨_, .created creates, rfl, ?_⟩
      intro id isOwner
      rw [Finset.mem_singleton.mp isOwner]
      exact sid
  | insert id rest newcomer induction =>
      rw [Finset.mem_insert, not_or] at distinct
      rcases induction distinct.2 with ⟨fresh, renewed, live, known⟩
      have absent : id ∉ fresh.live := by
        rw [live, Finset.mem_insert, not_or]
        exact ⟨fun same => distinct.1 same.symm, newcomer⟩
      rcases exists_attach fresh plain absent (sids id) with ⟨next, step, nextLive, sid, others⟩
      refine ⟨next, .opened renewed ?_ step, ?_, ?_⟩
      · rfl
      · rw [nextLive, live, Finset.insert_comm]
      · intro other isLive
        by_cases equal : other = id
        · rw [equal]
          exact sid
        · rw [others other equal]
          rw [Finset.insert_comm] at isLive
          exact known other (Finset.mem_of_mem_insert_of_ne isLive equal)

theorem exists_renews {type : QueueType} {world : World} (plain : type.Plain)
    (wellformed : Wellformed type world) {owner : Nat} (live : owner ∈ world.live) :
    ∃ fresh, Renews type world fresh := by
  have all := Finset.insert_erase live
  rcases exists_renewed world.memory plain (fun id => (world.handle id).sid) owner
    (world.live.erase owner) (Finset.notMem_erase owner world.live) with
    ⟨fresh, renewed, same, sids⟩
  rw [all] at same sids
  have timed : fresh.Step (.keepaliveTimeout world.memory.keepaliveTimeout, .done)
      { fresh with memory := fresh.memory.setKeepaliveTimeout world.memory.keepaliveTimeout } :=
    ⟨trivial, rfl⟩
  refine ⟨_, .opened renewed ?_ timed, same, Nat.mod_eq_of_lt wellformed.timeout, sids⟩
  trivial

end World

/-- In a run of objects of one class, `clear()` empties the queue, and no later call tells it
from a new one, if no object remembers anything of the messages before. -/
theorem clear_renews {type : QueueType} (plain : type.Plain) {world : World}
    (used : World.Used type world) (unread : world.Unread type) {owner : Nat}
    (live : owner ∈ world.live) :
    (∀ id ∈ world.live, (world.cleared.queue id).count = 0 ∧
      (world.cleared.queue id).get = .ok ([], world.cleared.queue id)) ∧
    (∃ fresh, World.Renews type world fresh) ∧
    ∀ fresh, World.Renews type world fresh →
      ∀ actions : List Action, (∀ action ∈ actions, action.Uses world.live) →
        world.cleared.replies actions = fresh.replies actions := by
  have wellformed := used.wellformed plain
  have empty : ∀ id ∈ world.live, (world.cleared.queue id).count = 0 := by
    intro id isLive
    have typed := (wellformed.objects id isLive).typed
    rcases plain with rfl | rfl
    · rw [Queue.count, World.queue, World.cleared, typed]
      exact Nat.zero_mod _
    · have none := ((unread id isLive).2 rfl).1
      rw [Queue.count, World.queue, typed] at none
      rw [Queue.count, World.queue, World.cleared, typed]
      exact none
  refine ⟨?_, World.exists_renews plain wellformed live, ?_⟩
  · intro id isLive
    refine ⟨empty id isLive, ?_⟩
    rw [Queue.get, empty id isLive]
    rfl
  · intro fresh renews actions uses
    exact (renews.alike plain wellformed unread).replies actions uses

/-- A simple queue with a message that nobody has looked at. -/
theorem clear_renews_unread : ∃ world : World, world.memory.count = 1 ∧
    (∀ id ∈ world.live, (world.cleared.queue id).count = 0 ∧
      (world.cleared.queue id).get = .ok ([], world.cleared.queue id)) ∧
    (∃ fresh, World.Renews .simple world fresh) ∧
    ∀ fresh, World.Renews .simple world fresh →
      ∀ actions : List Action, (∀ action ∈ actions, action.Uses world.live) →
        world.cleared.replies actions = fresh.replies actions := by
  have new : World.Used .simple (World.created 0 (Queue.created .simple 100 1 [])) :=
    .created (Queue.create_eq_created rfl)
  rcases World.exists_run (fun _ => Action.KeepsClass .simple)
    (show World.runs _ (World.created 0 (Queue.created .simple 100 1 []))
      [(.attach 1 .simple 2 [], .done), (.push 0 3 [7, 8] 10, .pushed true)]
      (fun world => decide (world.memory.count = 1 ∧ world.live = {0, 1} ∧
        (world.handle 0).messageDesc.first = [] ∧ (world.handle 1).messageDesc.first = [])) =
      true by decide +kernel) with ⟨world, run, observed⟩
  rcases of_decide_eq_true observed with ⟨count, live, first, second⟩
  have unread : world.Unread .simple := by
    intro id isLive
    rw [live, Finset.mem_insert, Finset.mem_singleton] at isLive
    have cached : (world.handle id).messageDesc.first = [] := by
      rcases isLive with rfl | rfl
      · exact first
      · exact second
    exact ⟨cached, fun shared => by cases shared⟩
  have owner : 0 ∈ world.live := by
    rw [live]
    exact Finset.mem_insert_self 0 {1}
  exact ⟨world, count, clear_renews (.inl rfl) (new.run run) unread owner⟩

/-- The object 1 of a cleared queue finds a message that is no longer there. -/
theorem clear_leaves_count : ∃ world : World, World.Used .shared world ∧ 0 ∈ world.live ∧
    1 ∈ world.live ∧ (world.cleared.queue 1).count = 1 := by
  have new : World.Used .shared (World.created 0 (Queue.created .shared 100 1 [])) :=
    .created (Queue.create_eq_created rfl)
  rcases World.exists_run (fun _ => Action.KeepsClass .shared)
    (show World.runs _ (World.created 0 (Queue.created .shared 100 1 []))
      [(.attach 1 .shared 2 [], .done), (.push 0 3 [7, 8] 10, .pushed true)]
      (fun world => decide (0 ∈ world.live ∧ 1 ∈ world.live ∧
        (world.cleared.queue 1).count = 1)) = true by decide +kernel) with
    ⟨world, run, observed⟩
  exact ⟨world, new.run run, of_decide_eq_true observed⟩

end Qbus
