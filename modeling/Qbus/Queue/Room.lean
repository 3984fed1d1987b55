import Qbus.Queue.Fragments
import Qbus.Queue.References

/-! # Room for service messages

The constructor and the destructor of a smart queue push a service message until it is
accepted. Nobody else can read meanwhile, so only what the first attempt collects becomes
free. -/

namespace Qbus

open ByteMemory Message Circular Placement Storage MachineWord

namespace QueueMemory

/-- A message of one byte fits behind the first message with a reference and those behind
it, once the messages in front of that have been collected. -/
def Roomy (memory : QueueMemory) : Prop :=
  (memory.removed memory.garbage).occupied + extent memory.capacity memory.tail 1 ≤
    memory.capacity

instance : DecidablePred QueueMemory.Roomy := fun memory =>
  inferInstanceAs (Decidable ((memory.removed memory.garbage).occupied +
    extent memory.capacity memory.tail 1 ≤ memory.capacity))

end QueueMemory

namespace Ring

variable {memory : QueueMemory} {log : List Entry} {base : Nat} {refs : Nat → Nat}

theorem extent_tail (ring : Ring memory log base refs) (size : Nat) :
    extent memory.capacity memory.tail size =
      extent memory.capacity (start memory.capacity log log.length) size := by
  have same : tillEnd memory.capacity memory.tail =
      tillEnd memory.capacity (start memory.capacity log log.length) := by
    rw [tillEnd, tillEnd, ring.tailEq, Nat.mod_mod]
  rw [extent, extent, same]

theorem fits_iff (ring : Ring memory log base refs) (size : Nat) :
    Fits memory.capacity log base size ↔
      memory.occupied + extent memory.capacity memory.tail size ≤ memory.capacity := by
  have occupied := ring.spans.occupied_eq
  have ordered := ring.ordered
  rw [Fits, ring.extent_tail]
  omega

end Ring

theorem Ledger.Garbage.unique {ledger : Ledger Nat Entry} {count other : Nat}
    (garbage : ledger.Garbage count) (otherGarbage : ledger.Garbage other)
    (inside : ledger.collected + count ≤ ledger.log.length)
    (otherInside : ledger.collected + other ≤ ledger.log.length) : count = other := by
  have swept := garbage.sweeps _ otherInside otherGarbage.unreferenced
  have otherSwept := otherGarbage.sweeps _ inside garbage.unreferenced
  exact Nat.le_antisymm (Nat.le_of_add_le_add_left otherSwept)
    (Nat.le_of_add_le_add_left swept)

theorem Tracks.roomy_iff {memory : QueueMemory} {ledger : Ledger Nat Entry}
    (tracks : Tracks memory ledger) {count : Nat} (garbage : ledger.Garbage count)
    (inside : ledger.collected + count ≤ ledger.log.length) :
    memory.Roomy ↔ Fits memory.capacity ledger.log (ledger.collected + count) 1 := by
  have collects := Queue.collects_removed tracks
  have same := garbage.unique collects.garbage inside collects.tracks.valid.collectedLe
  rw [same]
  exact (collects.tracks.ring.fits_iff 1).symm

namespace Queue

variable {queue next : Queue} {ledger : Ledger Nat Entry}

/-- An object that pushes a service message, and has no expired message to remove for it. -/
structure Announcer (queue : Queue) (ledger : Ledger Nat Entry) : Prop where
  smart : queue.self.type = .smart
  tracks : Tracks queue.memory ledger
  walkable : queue.Walkable
  patient : queue.count = 0 ∨ queue.memory.keepaliveTimeout = 0
  subscribed : queue.memory.subscriptionsCount = ledger.members.card
  few : ledger.members.card < 2 ^ 32

namespace Announcer

/-- An attempt is accepted if there is room, and otherwise there is no room for the next
one either. -/
theorem push (announcer : queue.Announcer ledger)
    (isSpecial : queue.self.state = .pushSpecialMessage) {payload : List UInt8}
    (size : payload.length = 1) (tag now : Nat) :
    ∃ next, queue.push tag payload now = .ok (decide queue.memory.Roomy, next) ∧
      (¬queue.memory.Roomy → next.self = queue.self ∧ ¬next.memory.Roomy ∧
        ∃ after, next.Announcer after) := by
  have nonempty : payload ≠ [] := List.ne_nil_of_length_pos (by omega)
  have counted : queue.self.type ≠ .simple := by simp [announcer.smart]
  rcases cleanMessages_eq counted announcer.tracks announcer.walkable with
    ⟨count, info, cleaned, cleans, -, collects, -⟩
  have self := queue.collector_of_ne count (by simp [announcer.smart])
  have capacity := collects.settings.capacity
  have inside := collects.tracks.valid.collectedLe
  have roomy := announcer.tracks.roomy_iff collects.garbage inside
  rcases @exists_makes ⟨cleaned, queue.collector count⟩ _ _ _ collects.tracks.ring
    (.inr (by rw [self]; exact isSpecial)) _ nonempty now with ⟨made, makes⟩
  rw [size] at makes
  change Makes _ ledger.log (ledger.collected + count) payload now
    (decide (Fits cleaned.capacity ledger.log (ledger.collected + count) 1)) made at makes
  rw [capacity] at makes
  rw [decide_eq_decide.mpr roomy]
  rcases @doPush_of_makes _ _ counted _ _ _ cleans collects _ nonempty tag _ _ _ makes
    announcer.subscribed announcer.few with ⟨memory, result, pushes, -⟩
  rw [self] at result
  by_cases fits : Fits queue.memory.capacity ledger.log (ledger.collected + count) 1
  · rw [decide_eq_true fits] at result ⊢
    exact ⟨_, push_accepted result, fun crowded => absurd (roomy.mpr fits) crowded⟩
  · rw [decide_eq_false fits] at result pushes ⊢
    have tracks : Tracks memory (ledger.collect count) := pushes.tracks
    have sameCount : Queue.count ⟨memory, queue.self⟩ = queue.count := by
      have sameCounter : memory.counter = queue.memory.counter := by
        rw [tracks.counter, announcer.tracks.counter]
        rfl
      rw [count_of_counted (by simp [announcer.smart]),
        count_of_counted (by simp [announcer.smart]), sameCounter]
    have sameTimeout : memory.keepaliveTimeout = queue.memory.keepaliveTimeout :=
      pushes.settings.keepaliveTimeout
    refine ⟨⟨memory, queue.self⟩, ?_, fun _ => ⟨rfl, ?_, ledger.collect count, ?_⟩⟩
    · rw [Queue.push]
      simp only [result, Bind.bind, Except.bind]
      rw [if_neg (by simp)]
      rcases announcer.patient with isEmpty | noTimeout
      · have positive : ∃ fuel, 2 ^ 32 = fuel + 1 := ⟨2 ^ 32 - 1, rfl⟩
        rcases positive with ⟨fuel, isFuel⟩
        rw [← sameCount] at isEmpty
        rw [isFuel, Queue.removeExpired, empty, if_pos (decide_eq_true isEmpty)]
        split <;> rfl
      · rw [if_neg (Nat.not_lt_of_le (Nat.le_of_eq (sameTimeout.trans noTimeout)))]
        rfl
    · have nothing : (ledger.collect count).Garbage 0 :=
        ⟨fun index lower upper => absurd upper (Nat.not_lt_of_le lower),
          pushes.garbage.stops⟩
      rw [tracks.roomy_iff nothing inside]
      rw [pushes.settings.capacity]
      exact fits
    · refine ⟨announcer.smart, tracks, ?_, ?_, ?_, announcer.few⟩
      · rw [Walkable, sameCount]
        rcases announcer.walkable with none | some
        · left
          have before := announcer.tracks.ring.countEq
          have after := tracks.ring.countEq
          change memory.count = ledger.log.length - (ledger.collected + count) at after
          change memory.count = 0
          omega
        · exact .inr some
      · rw [sameCount]
        change _ ∨ memory.keepaliveTimeout = 0
        rw [sameTimeout]
        exact announcer.patient
      · exact pushes.settings.subscriptionsCount.trans announcer.subscribed

theorem special (announcer : queue.Announcer ledger) : queue.special.Announcer ledger :=
  ⟨announcer.smart, announcer.tracks, announcer.walkable, announcer.patient,
    announcer.subscribed, announcer.few⟩

theorem restored (announcer : next.Announcer ledger) (queue : Queue) :
    (queue.restored next).Announcer ledger :=
  ⟨announcer.smart, announcer.tracks, announcer.walkable, announcer.patient,
    announcer.subscribed, announcer.few⟩

theorem pushServiceMessage_returns (announcer : queue.Announcer ledger)
    (roomy : queue.memory.Roomy) (code : ServiceMessage.Code) (now : Nat) :
    ∃ next, queue.pushServiceMessage code [now] = .ok next := by
  rcases @announcer.special.push _ _ rfl [code.toByte] rfl ServiceMessage.tag now with
    ⟨pushed, pushes, -⟩
  rw [decide_eq_true (show queue.special.memory.Roomy from roomy)] at pushes
  rw [Queue.special] at pushes
  refine ⟨queue.restored pushed, ?_⟩
  rw [Queue.pushServiceMessage]
  simp only [pushes, Bind.bind, Except.bind, if_true]
  rfl

theorem pushServiceMessage_endless (announcer : queue.Announcer ledger)
    (crowded : ¬queue.memory.Roomy) (code : ServiceMessage.Code) (clock : List Nat) :
    queue.pushServiceMessage code clock = .error .endless := by
  induction clock generalizing queue ledger with
  | nil => rfl
  | cons now clock induction =>
      rcases @announcer.special.push _ _ rfl [code.toByte] rfl ServiceMessage.tag now with
        ⟨pushed, pushes, refused⟩
      rcases refused crowded with ⟨-, still, after, later⟩
      rw [decide_eq_false (show ¬queue.special.memory.Roomy from crowded)] at pushes
      rw [Queue.special] at pushes
      have rest := induction (later.restored queue) still
      rw [Queue.pushServiceMessage]
      simp only [pushes, Bind.bind, Except.bind]
      rw [if_neg (by simp)]
      exact rest

end Announcer

theorem SmartMember.announcer {metered : Prop} {member : Nat}
    (reader : SmartMember metered queue ledger member)
    (untimed : queue.memory.keepaliveTimeout = 0) : queue.Announcer ledger :=
  ⟨reader.smart, reader.tracks, reader.walkable, .inr untimed, reader.subscribed, reader.few⟩

theorem Announcer.constructed {metered : Prop} {world : World}
    (smart : SmartWorld metered ∅ world ledger) (sid : Nat) :
    Queue.Announcer ⟨world.memory, newHandle .smart sid world.memory.counter⟩ ledger := by
  have nothing : Queue.count ⟨world.memory, newHandle .smart sid world.memory.counter⟩ = 0 := by
    rw [count_of_counted (by simp [newHandle])]
    change sub32 world.memory.counter world.memory.counter = 0
    rw [sub32_of_le (Nat.le_refl _) (by
      rw [smart.tracks.counter]
      exact Nat.mod_lt _ (by decide)), Nat.sub_self]
  exact ⟨rfl, smart.tracks, .inr (by simp [nothing]), .inl nothing, smart.subscribed, smart.few⟩

end Queue

/-! ## Runs -/

/-- The call ends at its first attempt, at whatever time, when there is room for its message,
and otherwise it does not end however often it tries. -/
def World.EndsWithRoom (world : World) (call : (clock : List Nat) → Action) : Prop :=
  (world.memory.Roomy → ∀ now, ∃ next, world.perform (call [now]) = .ok (.done, next)) ∧
  (¬world.memory.Roomy → ∀ clock, world.perform (call clock) = .error .endless)

namespace SmartWorld

variable {metered : Prop} {world : World} {ledger : Ledger Nat Entry}

theorem attach_endsWithRoom (smart : SmartWorld metered ∅ world ledger) (id sid : Nat) :
    world.EndsWithRoom (.attach id .smart sid) := by
  have announcer := Queue.Announcer.constructed smart sid
  constructor
  · intro roomy now
    rcases announcer.pushServiceMessage_returns roomy .connect now with ⟨opened, pushed⟩
    rw [World.perform, Queue.attach, Queue.initializeQueue, pushed]
    exact ⟨_, rfl⟩
  · intro crowded clock
    have fails := announcer.pushServiceMessage_endless crowded .connect clock
    rw [World.perform, Queue.attach, Queue.initializeQueue, fails]
    rfl

theorem destroy_endsWithRoom (smart : SmartWorld metered ∅ world ledger) {id : Nat}
    (live : id ∈ world.live) (untimed : world.memory.keepaliveTimeout = 0) :
    world.EndsWithRoom (.destroy id) := by
  have reader := smart.member live
  have announcer := reader.announcer untimed
  constructor
  · intro roomy now
    rcases announcer.pushServiceMessage_returns roomy .disconnect now with ⟨closing, pushed⟩
    rcases smart.destroy_returns live pushed with ⟨next, performed⟩
    exact ⟨next, performed⟩
  · intro crowded clock
    have fails := announcer.pushServiceMessage_endless crowded .disconnect clock
    rw [World.perform, Queue.destroy, reader.smart]
    simp only [fails]
    rfl

end SmartWorld

/-- In every reachable world of smart queue objects, opening the queue ends when there is
room for one more service message behind the messages that somebody has still to read, and
otherwise it never does; so does closing it, when no messages expire. -/
theorem smart_queue_ends_with_room {first world : World} {labels : List (Action × Result)}
    (fresh : first.FreshSmart)
    (run : Run (fun world label next => world.SmartSound label.1 ∧ world.Step label next)
      first labels world) :
    (∀ id sid, world.EndsWithRoom (.attach id .smart sid)) ∧
    (world.memory.keepaliveTimeout = 0 → ∀ id ∈ world.live, world.EndsWithRoom (.destroy id)) := by
  have advances : ∀ {world : World} {label : Action × Result} {next : World},
      (∃ ledger, SmartWorld True ∅ world ledger) →
      world.SmartSound label.1 ∧ world.Step label next →
      ∃ ledger, SmartWorld True ∅ next ledger := by
    rintro world ⟨action, result⟩ next ⟨ledger, smart⟩ ⟨sound, step⟩
    rcases smart.perform sound step.1 step.2 with ⟨after, effect⟩
    exact ⟨after, effect.smart⟩
  rcases fresh.opened with ⟨owner, sid, ledger, smart, -⟩
  rcases run.invariant (fun world => ∃ ledger, SmartWorld True ∅ world ledger) advances
    ⟨ledger, smart⟩ with ⟨last, still⟩
  exact ⟨still.attach_endsWithRoom, fun untimed id live => still.destroy_endsWithRoom live untimed⟩

/-- The object 1 comes and goes three times, and the object 0 reads nothing. The queue is as
large as the reserved space of three subscribers; no object can come or go any more. -/
theorem smart_queue_ends_with_room_crowded : ∃ world : World,
    world.live = {0} ∧ world.memory.capacity = 2 * Message.staticSize 1 * 3 ∧
    (∀ id sid clock, world.perform (.attach id .smart sid clock) = .error .endless) ∧
    ∀ clock, world.perform (.destroy 0 clock) = .error .endless := by
  have fresh := World.freshSmart_created (by decide) (by decide) (by decide)
    (show (Queue.create .zeros .smart 0 150 1 [5]).isOk = true by decide +kernel)
  rcases World.exists_run World.SmartSound
    (show World.runs _ (World.created 0 (Queue.created .smart 150 1 [5]))
      [(.attach 1 .smart 2 [6], .done), (.destroy 1 [7], .done),
        (.attach 1 .smart 2 [8], .done), (.destroy 1 [9], .done),
        (.attach 1 .smart 2 [10], .done), (.destroy 1 [11], .done)]
      (fun world => decide (world.live = {0} ∧ world.memory.capacity = 150 ∧
        world.memory.keepaliveTimeout = 0 ∧ ¬world.memory.Roomy)) = true by decide +kernel) with
    ⟨world, run, observed⟩
  rcases of_decide_eq_true observed with ⟨live, capacity, untimed, crowded⟩
  rcases smart_queue_ends_with_room fresh run with ⟨opening, closing⟩
  refine ⟨world, live, capacity, fun id sid => (opening id sid).2 crowded, ?_⟩
  exact (closing untimed 0 (by rw [live]; exact Finset.mem_singleton_self 0)).2 crowded

end Qbus
