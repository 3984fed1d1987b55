import Qbus.Queue.Refused
import Qbus.Queue.Whole

/-! # Pushes of every length

A push makes a message at each of its attempts. Every attempt of a push with data finds a
ring, in which the message is made whole; a push without data calls an empty pointer. -/

namespace Qbus

open ByteMemory Message Circular Placement Storage MachineWord

namespace Queue

variable {queue next : Queue} {tag now limit fuel : Nat} {payload : List UInt8}

def PassedOnRings (check : Queue → Bool) : Prop :=
  ∀ (queue : Queue) (log : List Entry) (base : Nat) (refs : Nat → Nat),
    Ring queue.memory log base refs → check queue = true

theorem makesWhole_passed (nonempty : payload ≠ []) (now : Nat) :
    PassedOnRings (makesWhole payload now) := fun _ _ _ _ ring =>
  makesWhole_of_spans ring.spans nonempty now

/-! ## The attempts of the loop -/

section Loop

variable {check : Queue → Bool} {Holds : Nat → Queue → Prop}

theorem attempt_of_cleans {info : GarbageInfo} {cleaned : Queue} {log : List Entry}
    {base : Nat} {refs : Nat → Nat} (passed : PassedOnRings check)
    (cleans : queue.cleanMessages = .ok (info, cleaned))
    (ring : Ring cleaned.memory log base refs) : queue.attempt check = true := by
  rw [attempt, cleans]
  exact passed cleaned log base refs ring

/-- `Holds` is an invariant of the loop that removes expired messages, with which every
attempt of the loop passes the test. -/
def Retries (check : Queue → Bool) (Holds : Nat → Queue → Prop) (tag : Nat)
    (payload : List UInt8) (now limit : Nat) : Prop :=
  ∀ fuel queue message found position rest popped, Holds (fuel + 1) queue →
    queue.empty = false → queue.getMessage = .ok (message, found) →
    message.first = position :: rest → timestamp found.memory.data position ≤ limit →
    found.popMessage message = .ok popped →
    popped.attempt check = true ∧
      ∀ refused, popped.doPush tag payload now = .ok (false, refused) → Holds fuel refused

theorem Retries.removalAttempts (retries : Retries check Holds tag payload now limit)
    (holds : Holds fuel queue) :
    removalAttempts check tag payload now limit fuel queue = true := by
  induction fuel generalizing queue with
  | zero => rfl
  | succ fuel induction =>
      rw [Queue.removalAttempts, Bool.or_eq_true]
      by_cases isEmpty : queue.empty = true
      · exact .inl isEmpty
      · right
        rw [Bool.not_eq_true] at isEmpty
        cases gets : queue.getMessage with
        | error fault => rfl
        | ok read =>
            rcases read with ⟨message, found⟩
            cases first : message.first with
            | nil => simp only [first]
            | cons position rest =>
                simp only [first, Bool.or_eq_true, decide_eq_true_iff]
                by_cases fresh : timestamp found.memory.data position > limit
                · exact .inl fresh
                · right
                  cases pops : found.popMessage message with
                  | error fault => rfl
                  | ok popped =>
                      rcases retries fuel queue message found position rest popped holds isEmpty
                        gets first (Nat.le_of_not_lt fresh) pops with ⟨attempted, again⟩
                      simp only [attempted, Bool.true_and]
                      cases pushes : popped.doPush tag payload now with
                      | error fault => rfl
                      | ok pushed =>
                          rcases pushed with ⟨accepted, refused⟩
                          cases accepted with
                          | true => rfl
                          | false => exact induction (again refused pushes)

theorem attempts_of_retries (attempted : queue.attempt check = true)
    (begins : ∀ refused, queue.doPush tag payload now = .ok (false, refused) →
      refused.memory.keepaliveTimeout ≠ 0 →
      ∃ Holds, Holds (2 ^ 32) refused ∧ Retries check Holds tag payload now
        (sub64 now refused.memory.keepaliveTimeout)) :
    queue.attempts check tag payload now = true := by
  rw [attempts, attempted, Bool.true_and]
  cases pushes : queue.doPush tag payload now with
  | error fault => rfl
  | ok pushed =>
      rcases pushed with ⟨accepted, refused⟩
      cases accepted with
      | true => rfl
      | false =>
          simp only [Bool.or_eq_true, decide_eq_true_iff]
          by_cases none : refused.memory.keepaliveTimeout = 0
          · exact .inl none
          · right
            rcases begins refused pushes none with ⟨Holds, holds, retries⟩
            exact retries.removalAttempts holds

end Loop

/-! ## The classes of queues -/

variable {check : Queue → Bool} {ledger : Ledger Nat Entry} {member : Nat} {metered : Prop}

theorem simple_attempts (passed : PassedOnRings check) (simple : queue.self.type = .simple)
    {log : List Entry} {base : Nat} (ring : Ring queue.memory log base fun _ => 0)
    (nonempty : payload ≠ []) (tag now : Nat) :
    queue.attempts check tag payload now = true := by
  have cleans : ∀ other : Queue, other.self.type = .simple →
      other.cleanMessages = .ok (⟨0, 0⟩, other) := by
    intro other isSimple
    rw [cleanMessages, isSimple]
    rfl
  have attempted : queue.attempt check = true :=
    attempt_of_cleans passed (cleans queue simple) ring
  refine attempts_of_retries attempted fun refused attempt _ => ?_
  rcases simple_doPush simple ring nonempty tag now with
    ⟨accepted, next, result, self, -, -, -, still⟩
  rw [attempt] at result
  cases result
  refine ⟨fun _ queue => ∃ log base, queue.self.type = .simple ∧
    Ring queue.memory log base fun _ => 0, ⟨log, base, self ▸ simple, still⟩, ?_⟩
  rintro fuel queue message found position rest popped ⟨log, base, simple, ring⟩ unempty gets
    first - pops
  have below : base < log.length := by
    have countEq := ring.countEq
    rw [empty, count, simple] at unempty
    have some : ¬queue.memory.count = 0 := of_decide_eq_false unempty
    omega
  have foundEntry := List.getElem?_eq_getElem below
  rw [simple_getMessage simple ring foundEntry] at gets
  cases gets
  rcases simple_popMessage simple ring foundEntry with ⟨memory, popsTo, -, -, dropped⟩
  rw [pops] at popsTo
  cases popsTo
  have poppedSimple : (queue.setMemory memory).self.type = .simple := simple
  refine ⟨attempt_of_cleans passed (cleans _ poppedSimple) dropped, fun refused pushes => ?_⟩
  rcases simple_doPush poppedSimple dropped nonempty tag now with
    ⟨accepted, next, result, self, -, -, -, still⟩
  rw [pushes] at result
  cases result
  exact ⟨log, base + 1, self ▸ poppedSimple, still⟩

theorem counted_attempt (passed : PassedOnRings check) (counted : queue.self.type ≠ .simple)
    (tracks : Tracks queue.memory ledger) (walkable : queue.Walkable) :
    queue.attempt check = true := by
  rcases cleanMessages_eq counted tracks walkable with
    ⟨count, info, memory, cleans, -, collects, -⟩
  exact attempt_of_cleans passed cleans collects.tracks.ring

theorem SharedPusher.attempt (pusher : SharedPusher queue ledger member)
    (passed : PassedOnRings check) : queue.attempt check = true :=
  counted_attempt passed pusher.counted pusher.tracks
    (member_walkable pusher.counted pusher.tracks pusher.isMember pusher.follows)

theorem shared_retries (passed : PassedOnRings check) (nonempty : payload ≠ []) :
    Retries check (fun _ queue => ∃ ledger, SharedPusher queue ledger member) tag payload now
      limit := by
  rintro fuel queue message found position rest popped ⟨ledger, pusher⟩ unempty gets first -
    pops
  have below : ledger.cursor member < ledger.log.length := by
    rw [empty, pusher.count_eq] at unempty
    have some : ¬ledger.log.length - ledger.cursor member = 0 := of_decide_eq_false unempty
    omega
  have foundEntry := List.getElem?_eq_getElem below
  rw [pusher.getMessage foundEntry] at gets
  cases gets
  rcases pusher.pop foundEntry with ⟨next, popsTo, acts, still⟩
  rw [pops] at popsTo
  cases popsTo
  have pusherStill : SharedPusher popped (ledger.advance member) member :=
    ⟨still, acts.settings.subscriptionsCount.trans pusher.subscribed, pusher.few⟩
  refine ⟨pusherStill.attempt passed, fun refused pushes => ?_⟩
  rcases pusherStill.refused nonempty pushes with ⟨after, later, -⟩
  exact ⟨after, later⟩

theorem shared_attempts (passed : PassedOnRings check) (shared : queue.self.type = .shared)
    (tracks : Tracks queue.memory ledger) (isMember : member ∈ ledger.members)
    (follows : Follows queue.memory.capacity ledger.log queue.self (ledger.cursor member))
    (unreferenced : queue.self.head = sharedHead → ∀ index, ledger.collected ≤ index →
      index < ledger.cursor member → ledger.refs index = 0)
    (subscribed : queue.memory.subscriptionsCount = ledger.members.card)
    (few : ledger.members.card < 2 ^ 32) (nonempty : payload ≠ []) (tag now : Nat) :
    queue.attempts check tag payload now = true := by
  have counted : queue.self.type ≠ .simple := by simp [shared]
  have inside := tracks.valid.cursorLe member isMember
  refine attempts_of_retries (counted_attempt passed counted tracks
    (member_walkable counted tracks isMember follows)) fun refused attempt _ => ?_
  rcases member_doPush shared tracks isMember follows subscribed few nonempty tag now with
    ⟨count, accepted, memory, result, pushes⟩
  rw [attempt] at result
  cases result
  have made := Pushes.memberPushes pushes shared follows inside
  refine ⟨_, ⟨_, ⟨⟨shared, made.acts.tracks, isMember, made.follows, fun missing _ => ?_⟩,
    made.acts.settings.subscriptionsCount.trans subscribed, few⟩⟩,
    shared_retries passed nonempty⟩
  exact Nat.le_antisymm (made.sweeps _ inside (unreferenced missing))
    (made.acts.tracks.valid.cursorGe member isMember)

theorem keepsExpired_attempts (passed : PassedOnRings check)
    (counted : queue.self.type ≠ .simple) (plain : queue.self.type ≠ .smart)
    (tracks : Tracks queue.memory ledger) (walkable : queue.Walkable)
    (subscribed : queue.memory.subscriptionsCount = ledger.members.card)
    (few : ledger.members.card < 2 ^ 32) (nonempty : payload ≠ [])
    (keeps : queue.memory.keepaliveTimeout = 0 ∨
      queue.keepsExpired tag payload now = true) :
    queue.attempts check tag payload now = true := by
  refine attempts_of_retries (counted_attempt passed counted tracks walkable)
    fun refused attempt some => ?_
  rcases plain_doPush counted plain tracks walkable subscribed few nonempty tag now with
    ⟨count, accepted, memory, result, pushes⟩
  replace keeps : queue.keepsExpired tag payload now = true :=
    keeps.elim (keepsExpired_of_timeout result pushes) id
  rw [attempt] at result
  cases result
  refine ⟨fun _ other => other = ⟨memory, queue.collector count⟩, rfl, ?_⟩
  rintro fuel other message found position rest popped rfl unempty gets first expired -
  have reads : (Queue.mk memory (queue.collector count)).getMessage = (do
      let desc ← (Queue.mk memory (queue.collector count)).baseGetMessage
      return (desc, Queue.mk memory (queue.collector count))) := by
    rw [getMessage, collector_type]
    cases kind : queue.self.type <;> first | rfl | exact absurd kind plain
  rw [reads] at gets
  have unread : ¬(Queue.mk memory (queue.collector count)).count = 0 :=
    of_decide_eq_false unempty
  simp only [keepsExpired, attempt, decide_eq_false some, decide_eq_false unread,
    Bool.false_or] at keeps
  cases based : (Queue.mk memory (queue.collector count)).baseGetMessage with
  | error fault => simp [based] at keeps
  | ok desc =>
      simp only [based, Bind.bind, Except.bind, pure, Except.pure] at gets keeps
      cases gets
      simp only [first, decide_eq_true_iff] at keeps
      exact absurd expired (Nat.not_le.mpr keeps)

theorem SmartMember.attempt (reader : SmartMember metered queue ledger member)
    (passed : PassedOnRings check) : queue.attempt check = true :=
  counted_attempt passed reader.counted reader.tracks reader.walkable

theorem smart_retries (passed : PassedOnRings check) (nonempty : payload ≠ []) :
    Retries check (fun fuel queue => (∃ ledger, SmartMember metered queue ledger member) ∧
      (queue.self.state ≠ .pushSpecialMessage →
        removalAttempts (contained payload.length) tag payload now limit fuel queue = true))
      tag payload now limit := by
  rintro fuel queue message found position rest popped ⟨⟨ledger, reader⟩, inside⟩ unempty gets
    first expired pops
  have unread : ledger.cursor member < ledger.log.length := by
    rw [empty, reader.count_eq] at unempty
    have some : ¬ledger.log.length - ledger.cursor member = 0 := of_decide_eq_false unempty
    omega
  rcases reader.getMessage unread with ⟨index, desc, next, getsTo, skips⟩
  rw [gets] at getsTo
  cases getsTo
  rcases skips.popFound first with ⟨next, popsTo, acts, still, -⟩
  rw [pops] at popsTo
  cases popsTo
  refine ⟨still.attempt passed, fun refused pushes => ?_⟩
  have sameState := acts.state_eq
  have attempts := fun user =>
    removalAttempts_next (inside user) unempty gets first expired pops pushes
  rcases still.refused nonempty (fun user => (attempts (by rwa [← sameState])).1) pushes with
    ⟨after, later, state, -⟩
  exact ⟨⟨after, later⟩, fun user => (attempts (by rwa [← sameState, ← state])).2⟩

theorem smart_attempts (passed : PassedOnRings check)
    (reader : SmartMember metered queue ledger member) (nonempty : payload ≠ []) {tag now : Nat}
    (inside : queue.attempts (contained payload.length) tag payload now = true) :
    queue.attempts check tag payload now = true := by
  rw [attempts, Bool.and_eq_true] at inside
  refine attempts_of_retries (reader.attempt passed) fun refused attempt some => ?_
  rcases reader.refused nonempty (fun _ => inside.1) attempt with ⟨after, later, -⟩
  have loop := inside.2
  rw [attempt] at loop
  simp only [decide_eq_false some, Bool.false_or] at loop
  exact ⟨_, ⟨⟨after, later⟩, fun _ => loop⟩, smart_retries passed nonempty⟩

end Queue

/-! ## Runs -/

variable {world : World} {id : Nat} {tag : UInt32} {data : List UInt8} {now : Nat}

/-- The push returns, and its message is made whole at every attempt. -/
def World.PushDefined (world : World) (id : Nat) (tag : UInt32) (data : List UInt8)
    (now : Nat) : Prop :=
  (∃ accepted next, world.perform (.push id tag data now) = .ok (.pushed accepted, next)) ∧
    (world.queue id).attempts (Queue.makesWhole data now) tag.toNat data now = true

theorem SimpleHolds.pushDefined {log : List Entry} {base : Nat}
    (holds : SimpleHolds world log base) (live : id ∈ world.live) (nonempty : data ≠ []) :
    world.PushDefined id tag data now := by
  have simple : (world.queue id).self.type = .simple := holds.types id live
  rcases Queue.simple_forcedPush simple holds.ring nonempty tag.toNat now with
    ⟨accepted, next, gone, result, -⟩
  refine ⟨⟨accepted, world.update id next, ?_⟩, Queue.simple_attempts
    (Queue.makesWhole_passed nonempty now) simple holds.ring nonempty tag.toNat now⟩
  simp only [World.perform, result, Bind.bind, Except.bind, pure, Except.pure]

theorem SharedWorld.pushDefined {ledger : Ledger Nat Entry} (shared : SharedWorld world ledger)
    (live : id ∈ world.live) (sound : world.Sound (.push id tag data now))
    (nonempty : data ≠ []) : world.PushDefined id tag data now := by
  have passed := Queue.makesWhole_passed nonempty now
  refine ⟨?_, ?_⟩
  · rcases shared.push sound nonempty live with ⟨result, next, after, performed, effect⟩
    cases effect.step with
    | push shown evolves kept inside sweeps => exact ⟨_, next, performed⟩
  · rcases shared.types id live with isShared | unreadable
    · rw [World.Sound, if_neg (by simp [isShared])] at sound
      have isMember := shared.mem_members.mpr ⟨live, isShared⟩
      have follows := shared.follows id isMember
      rcases sound with keeps | unreferenced
      · have counted : (world.queue id).self.type ≠ .simple := by
          simp [World.queue, isShared]
        exact Queue.keepsExpired_attempts passed counted (by simp [World.queue, isShared])
          shared.tracks (Queue.member_walkable counted shared.tracks isMember follows)
          shared.subscribed shared.few nonempty keeps
      · exact Queue.shared_attempts passed isShared shared.tracks isMember follows
          (fun missing => (shared.passed_iff isMember).mp (unreferenced missing))
          shared.subscribed shared.few nonempty tag.toNat now
    · rw [World.Sound, if_pos unreadable] at sound
      exact Queue.keepsExpired_attempts passed (by simp [World.queue, unreadable])
        (by simp [World.queue, unreadable]) shared.tracks sound.1 shared.subscribed shared.few
        nonempty sound.2

theorem SmartWorld.pushDefined {metered : Prop} {booked : Finset Nat}
    {ledger : Ledger Nat Entry} (smart : SmartWorld metered booked world ledger)
    (live : id ∈ world.live) (sound : world.SmartSound (.push id tag data now)) :
    world.PushDefined id tag data now := by
  rcases smart.push sound.1 sound.2 live with ⟨accepted, next, after, -, performed, -⟩
  exact ⟨⟨accepted, _, performed⟩, Queue.smart_attempts
    (Queue.makesWhole_passed sound.1 now) (smart.member live) sound.1 sound.2⟩

/-- A push through any object is defined exactly when it has data: then it returns, and
makes no message or all of one at each of its attempts. -/
theorem push_defined_iff {sound : World → Action → Prop} (reached : World.Reached sound world)
    (live : id ∈ world.live) (allowed : data ≠ [] → sound world (.push id tag data now)) :
    world.PushDefined id tag data now ↔ data ≠ [] := by
  constructor
  · rintro ⟨⟨accepted, next, performed⟩, -⟩ rfl
    rcases World.perform_push performed with ⟨queue, pushes, -⟩
    exact Queue.push_nil pushes
  · intro nonempty
    cases reached with
    | simple fresh run =>
        rcases fresh.run run with ⟨log, base, holds⟩
        exact holds.pushDefined live nonempty
    | shared fresh run =>
        rcases fresh.run run with ⟨ledger, shared⟩
        exact shared.pushDefined live (allowed nonempty) nonempty
    | smart fresh run =>
        rcases fresh.run run with ⟨ledger, smart⟩
        exact smart.pushDefined live (allowed nonempty)

/-- A message of 30 bytes that is split at the end of a ring. -/
theorem push_defined_iff_split : ∃ world : World,
    world.memory.tail = 34 ∧ world.PushDefined 0 5 (List.replicate 30 9) 12 := by
  have fresh : (World.created 0 (Queue.created .simple 80 1 [])).FreshSimple :=
    ⟨.zeros, 0, 80, 1, [], _, 0, by decide, by decide, rfl, rfl⟩
  rcases World.exists_run World.SimpleSound
    (show World.runs _ (World.created 0 (Queue.created .simple 80 1 []))
      [(.push 0 3 (List.replicate 10 7) 10, .pushed true), (.pop 0, .popped true)]
      (fun world => decide (0 ∈ world.live ∧ world.memory.tail = 34)) = true by
      decide +kernel) with ⟨world, run, observed⟩
  rcases of_decide_eq_true observed with ⟨live, tail⟩
  exact ⟨world, tail, (push_defined_iff (.simple fresh run) live fun _ => trivial).mpr
    (by decide)⟩

/-- Without data a method is called through an empty pointer. -/
theorem push_undefined :
    (World.created 0 (Queue.created .simple 80 1 [])).perform (.push 0 5 [] 12) =
      .error .nullMessage ∧
    ¬(World.created 0 (Queue.created .simple 80 1 [])).PushDefined 0 5 [] 12 := by
  have fails : (World.created 0 (Queue.created .simple 80 1 [])).perform (.push 0 5 [] 12) =
      .error .nullMessage := rfl
  refine ⟨fails, ?_⟩
  rintro ⟨⟨accepted, next, performed⟩, -⟩
  rw [fails] at performed
  cases performed

end Qbus
