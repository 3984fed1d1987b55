import Qbus.Queue.Reached

/-! # Refused pushes

A push that is refused may have removed expired messages for nothing. The messages that the
objects can still get tell which: those at the front of what the pushing object can get. -/

namespace Qbus

open ByteMemory Message Circular Placement Storage MachineWord

/-- Messages at the front are lost, all of which are expired at `limit`. -/
def LosesExpired (limit : Nat) (before after : List StampedView) : Prop :=
  ∃ gone, after = before.drop gone ∧ ∀ message ∈ before.take gone, message.timestamp ≤ limit

namespace LosesExpired

variable {limit : Nat} {before after : List StampedView}

theorem of_eq (same : after = before) : LosesExpired limit before after :=
  ⟨0, same, by simp⟩

theorem cons (loses : LosesExpired limit before after) {message : StampedView}
    (expired : message.timestamp ≤ limit) : LosesExpired limit (message :: before) after := by
  rcases loses with ⟨gone, rest, old⟩
  refine ⟨gone + 1, rest, ?_⟩
  rw [List.take_succ_cons]
  exact List.forall_mem_cons.mpr ⟨expired, old⟩

end LosesExpired

namespace Queue

variable {queue next : Queue} {tag now limit fuel : Nat} {payload : List UInt8}

/-! ## What the loop loses -/

section Loop

/-- `Holds` is an invariant of the loop that removes expired messages, which says that the
message it removes is the first one that the object can get, and that a refused attempt
changes nothing of what the object can get. It depends on the iterations that are left. -/
def ShedsFirst (Holds : Nat → Queue → Prop) (tag : Nat) (payload : List UInt8)
    (now limit : Nat) : Prop :=
  ∀ fuel queue, Holds (fuel + 1) queue → queue.empty = false →
    ∃ desc found, queue.getMessage = .ok (desc, found) ∧ found.stamped = queue.stamped ∧
      ∀ position rest, desc.first = position :: rest →
        timestamp found.memory.data position ≤ limit →
        ∃ seen popped, found.popMessage desc = .ok popped ∧
          queue.stamped = seen :: popped.stamped ∧ seen.timestamp ≤ limit ∧
          ∀ refused, popped.doPush tag payload now = .ok (false, refused) →
            refused.stamped = popped.stamped ∧ Holds fuel refused

variable {Holds : Nat → Queue → Prop}

theorem ShedsFirst.removeExpired (sheds : ShedsFirst Holds tag payload now limit)
    (holds : Holds fuel queue)
    (loops : queue.removeExpired tag payload now limit fuel = .ok (false, next)) :
    LosesExpired limit queue.stamped next.stamped := by
  induction fuel generalizing queue with
  | zero => cases loops
  | succ fuel induction =>
      rw [Queue.removeExpired] at loops
      by_cases isEmpty : queue.empty = true
      · rw [if_pos isEmpty] at loops
        cases loops
        exact .of_eq rfl
      · rw [Bool.not_eq_true] at isEmpty
        rcases sheds fuel queue holds isEmpty with ⟨desc, found, gets, kept, shed⟩
        simp only [isEmpty, Bool.false_eq_true, if_false, gets, Bind.bind, Except.bind] at loops
        cases first : desc.first with
        | nil =>
            simp only [first] at loops
            cases loops
            exact .of_eq kept
        | cons position rest =>
            simp only [first] at loops
            by_cases fresh : timestamp found.memory.data position > limit
            · rw [if_pos fresh] at loops
              cases loops
              exact .of_eq kept
            · have expired := Nat.le_of_not_lt fresh
              rcases shed position rest first expired with
                ⟨seen, popped, pops, front, old, again⟩
              rw [if_neg fresh] at loops
              simp only [pops] at loops
              cases pushes : popped.doPush tag payload now with
              | error fault =>
                  rw [pushes] at loops
                  cases loops
              | ok pushed =>
                  rcases pushed with ⟨accepted, refused⟩
                  cases accepted with
                  | true =>
                      rw [pushes] at loops
                      cases loops
                  | false =>
                      rcases again refused pushes with ⟨same, still⟩
                      simp only [pushes, Bool.false_eq_true, if_false] at loops
                      rw [front]
                      refine LosesExpired.cons ?_ old
                      rw [← same]
                      exact induction still loops

theorem ShedsFirst.push
    (sheds : ShedsFirst Holds tag payload now (sub64 now queue.memory.keepaliveTimeout))
    (begins : ∀ refused, queue.doPush tag payload now = .ok (false, refused) →
      refused.stamped = queue.stamped ∧
      refused.memory.keepaliveTimeout = queue.memory.keepaliveTimeout ∧
      (queue.memory.keepaliveTimeout ≠ 0 → Holds (2 ^ 32) refused))
    (pushes : queue.push tag payload now = .ok (false, next)) :
    LosesExpired (sub64 now queue.memory.keepaliveTimeout) queue.stamped next.stamped ∧
      (queue.memory.keepaliveTimeout = 0 → next.stamped = queue.stamped) := by
  rw [Queue.push] at pushes
  cases attempt : queue.doPush tag payload now with
  | error fault =>
      rw [attempt] at pushes
      cases pushes
  | ok pushed =>
      rcases pushed with ⟨accepted, refused⟩
      simp only [attempt, Bind.bind, Except.bind] at pushes
      cases accepted with
      | true => cases pushes
      | false =>
          rcases begins refused attempt with ⟨same, timeout, holds⟩
          rw [if_neg (by simp), timeout] at pushes
          by_cases expires : queue.memory.keepaliveTimeout > 0
          · rw [if_pos expires] at pushes
            have loses := sheds.removeExpired (holds (Nat.ne_of_gt expires)) pushes
            rw [same] at loses
            exact ⟨loses, fun none => absurd none (Nat.ne_of_gt expires)⟩
          · rw [if_neg expires] at pushes
            cases pushes
            exact ⟨.of_eq same, fun _ => same⟩

end Loop

/-! ## Simple queues -/

theorem simple_shedsFirst (nonempty : payload ≠ []) :
    ShedsFirst (fun _ queue => ∃ log base, queue.self.type = .simple ∧
      Ring queue.memory log base fun _ => 0) tag payload now limit := by
  rintro fuel queue ⟨log, base, simple, ring⟩ unempty
  have below : base < log.length := by
    have countEq := ring.countEq
    rw [empty, count, simple] at unempty
    have some : ¬queue.memory.count = 0 := of_decide_eq_false unempty
    omega
  have found := List.getElem?_eq_getElem below
  rcases simple_popMessage simple ring found with ⟨memory, pops, -, -, dropped⟩
  have popped : (queue.setMemory memory).self.type = .simple := simple
  refine ⟨_, queue, simple_getMessage simple ring found, rfl, ?_⟩
  intro position rest first expired
  have shown := ring.ofStamped_eq (Nat.le_refl _) found
  rw [first] at shown
  refine ⟨_, _, pops, ?_, (StampedView.timestamp_eq shown).trans_le expired, ?_⟩
  · rw [simple_stamped simple ring, simple_stamped popped dropped,
      List.drop_eq_getElem_cons below]
    rfl
  · intro refused pushes
    rcases simple_doPush popped dropped nonempty tag now with
      ⟨accepted, next, result, self, -, -, -, still⟩
    rw [pushes] at result
    cases result
    have same : refused.self.type = .simple := self ▸ popped
    exact ⟨(simple_stamped same still).trans (simple_stamped popped dropped).symm,
      log, base + 1, same, still⟩

/-! ## Shared queues -/

variable {ledger : Ledger Nat Entry} {member : Nat}

structure SharedPusher (queue : Queue) (ledger : Ledger Nat Entry) (member : Nat) : Prop
    extends SharedReader queue ledger member where
  subscribed : queue.memory.subscriptionsCount = ledger.members.card
  few : ledger.members.card < 2 ^ 32

theorem SharedPusher.refused (pusher : SharedPusher queue ledger member)
    (nonempty : payload ≠ []) (pushes : queue.doPush tag payload now = .ok (false, next)) :
    ∃ after, SharedPusher next after member ∧ next.stamped = queue.stamped ∧
      next.memory.keepaliveTimeout = queue.memory.keepaliveTimeout := by
  rcases member_doPush pusher.shared pusher.tracks pusher.isMember pusher.follows
    pusher.subscribed pusher.few nonempty tag now with ⟨count, accepted, memory, result, made⟩
  rw [pushes] at result
  cases result
  have tracks : Tracks memory (ledger.collect count) := made.tracks
  have still : SharedPusher ⟨memory, queue.self⟩ (ledger.collect count) member := by
    refine ⟨⟨pusher.shared, tracks, pusher.isMember, ?_, ?_⟩, ?_, pusher.few⟩
    · rw [made.settings.capacity]
      exact pusher.follows
    · intro missing unread
      refine Nat.le_antisymm ?_ (tracks.valid.cursorGe member pusher.isMember)
      exact (pusher.aligned missing unread).trans_le (Nat.le_add_right _ _)
    · exact made.settings.subscriptionsCount.trans pusher.subscribed
  exact ⟨_, still, still.stamped_eq.trans pusher.stamped_eq.symm, made.settings.keepaliveTimeout⟩

theorem shared_shedsFirst (nonempty : payload ≠ []) :
    ShedsFirst (fun _ queue => ∃ ledger, SharedPusher queue ledger member) tag payload now
      limit := by
  rintro fuel queue ⟨ledger, pusher⟩ unempty
  have below : ledger.cursor member < ledger.log.length := by
    rw [empty, pusher.count_eq] at unempty
    have some : ¬ledger.log.length - ledger.cursor member = 0 := of_decide_eq_false unempty
    omega
  have found := List.getElem?_eq_getElem below
  rcases pusher.pop found with ⟨popped, pops, acts, still⟩
  refine ⟨_, queue, pusher.getMessage found, rfl, ?_⟩
  intro position rest first expired
  have shown := pusher.tracks.ring.ofStamped_eq pusher.stored found
  rw [first] at shown
  refine ⟨_, _, pops, ?_, (StampedView.timestamp_eq shown).trans_le expired, ?_⟩
  · rw [pusher.stamped_eq, still.stamped_eq, SharedReader.drop_eq, List.drop_eq_getElem_cons below]
    rfl
  · intro refused pushes
    have pusherStill : SharedPusher popped (ledger.advance member) member :=
      ⟨still, acts.settings.subscriptionsCount.trans pusher.subscribed, pusher.few⟩
    rcases pusherStill.refused nonempty pushes with ⟨after, later, same, -⟩
    exact ⟨same, after, later⟩

/-! ## Smart queues -/

variable {metered : Prop}

theorem SmartMember.refused (reader : SmartMember metered queue ledger member)
    (nonempty : payload ≠ []) (inside : queue.self.state ≠ .pushSpecialMessage →
      queue.attempt (contained payload.length) = true)
    (pushes : queue.doPush tag payload now = .ok (false, next)) :
    ∃ after, SmartMember metered next after member ∧ next.self.state = queue.self.state ∧
      next.stamped = queue.stamped ∧
      next.memory.keepaliveTimeout = queue.memory.keepaliveTimeout := by
  rcases reader.doPush nonempty tag now inside with
    ⟨accepted, pushed, after, result, acts, still, cursor, -⟩
  rw [pushes] at result
  cases result
  refine ⟨after, still, acts.state_eq, ?_, acts.settings.keepaliveTimeout⟩
  have log : after.log = ledger.log := by
    rw [acts.evolves.log]
    exact List.append_nil _
  rw [still.stamped_eq, reader.stamped_eq, acts.sid_eq, foreign, foreign, log, cursor]

theorem Skips.stamped_eq {index : Nat} {message : MessageDesc}
    (skips : Skips metered queue next ledger member index message)
    (reader : SmartMember metered queue ledger member) : next.stamped = queue.stamped := by
  rw [skips.reader.stamped_eq, reader.stamped_eq, skips.acts.sid_eq, foreign, foreign,
    skips.filter_eq, Ledger.seek_cursor_self]
  rfl

theorem smart_shedsFirst (nonempty : payload ≠ []) :
    ShedsFirst (fun fuel queue => (∃ ledger, SmartMember metered queue ledger member) ∧
      (queue.self.state ≠ .pushSpecialMessage →
        removalAttempts (contained payload.length) tag payload now limit fuel queue = true))
      tag payload now limit := by
  rintro fuel queue ⟨⟨ledger, reader⟩, inside⟩ unempty
  have unread : ledger.cursor member < ledger.log.length := by
    rw [empty, reader.count_eq] at unempty
    have some : ¬ledger.log.length - ledger.cursor member = 0 := of_decide_eq_false unempty
    omega
  rcases reader.getMessage unread with ⟨index, message, found, gets, skips⟩
  refine ⟨message, found, gets, skips.stamped_eq reader, ?_⟩
  intro position rest first expired
  rcases skips.popFound first with ⟨popped, pops, acts, still, -⟩
  have shown := skips.shown
  rw [first] at shown
  cases foundEntry : ledger.log[index]? with
  | none =>
      rw [foundEntry] at shown
      cases shown
  | some entry =>
      rw [foundEntry] at shown
      have front := skips.foreign_eq
      rw [foundEntry] at front
      refine ⟨_, popped, pops, ?_, (StampedView.timestamp_eq shown).trans_le expired, ?_⟩
      · rw [reader.stamped_eq, still.stamped_eq, front, acts.sid_eq]
        rfl
      · intro refused pushes
        have sameState := acts.state_eq
        have attempts : queue.self.state ≠ .pushSpecialMessage →
            popped.attempt (contained payload.length) = true ∧
            removalAttempts (contained payload.length) tag payload now limit fuel refused =
              true :=
          fun user => removalAttempts_next (inside user) unempty gets first expired pops pushes
        rcases still.refused nonempty (fun user => (attempts (by rwa [← sameState])).1)
          pushes with ⟨after, later, state, same, -⟩
        exact ⟨same, ⟨after, later⟩, fun user =>
          (attempts (by rwa [← sameState, ← state])).2⟩

end Queue

/-! ## Runs -/

variable {world next : World} {id other : Nat} {tag : UInt32} {data : List UInt8} {now : Nat}

/-- What a push that is refused takes from an object: expired messages at the front, and
nothing if there is no timeout. -/
structure Refuses (world next : World) (now other : Nat) : Prop where
  loses : LosesExpired (sub64 now world.memory.keepaliveTimeout) (world.queue other).stamped
    (next.queue other).stamped
  kept : world.memory.keepaliveTimeout = 0 →
    (next.queue other).stamped = (world.queue other).stamped

theorem Refuses.of_eq (same : (next.queue other).stamped = (world.queue other).stamped) :
    Refuses world next now other :=
  ⟨.of_eq same, fun _ => same⟩

theorem SimpleHolds.refuses {log : List Entry} {base : Nat} (holds : SimpleHolds world log base)
    (step : world.Step (.push id tag data now, .pushed false) next) (live : other ∈ world.live) :
    Refuses world next now other := by
  have nonempty : data ≠ [] := step.hasData
  have simple : (world.queue id).self.type = .simple := holds.types id step.1
  have simpleOther : (world.queue other).self.type = .simple := holds.types other live
  rcases World.perform_push step.2 with ⟨queue, pushes, rfl⟩
  rcases Queue.simple_forcedPush simple holds.ring nonempty tag.toNat now with
    ⟨accepted, pushed, gone, result, forced, -⟩
  rw [pushes] at result
  cases result
  have ring : Ring queue.memory log (base + gone) fun _ => 0 := forced.ring
  have kept : SimpleHolds (world.update id queue) log (base + gone) :=
    holds.update (forced.self ▸ simple) ring
  have pusher : queue.self.type = .simple := forced.self ▸ simple
  have before : (world.queue other).stamped = (world.queue id).stamped :=
    (Queue.simple_stamped simpleOther holds.ring).trans
      (Queue.simple_stamped simple holds.ring).symm
  have otherAfter : ((world.update id queue).queue other).self.type = .simple :=
    kept.types other live
  have after : ((world.update id queue).queue other).stamped = queue.stamped :=
    (@Queue.simple_stamped ((world.update id queue).queue other) _ _ otherAfter ring).trans
      (Queue.simple_stamped pusher ring).symm
  rcases Queue.ShedsFirst.push (Queue.simple_shedsFirst nonempty) (fun refused attempt => by
    rcases Queue.simple_doPush simple holds.ring nonempty tag.toNat now with
      ⟨accepted, next, attempted, self, -, timeout, -, still⟩
    rw [attempt] at attempted
    cases attempted
    have same : refused.self.type = .simple := self ▸ simple
    exact ⟨(Queue.simple_stamped same still).trans (Queue.simple_stamped simple holds.ring).symm,
      timeout, fun _ => ⟨log, base, same, still⟩⟩) pushes with ⟨loses, same⟩
  refine ⟨?_, fun none => ?_⟩
  · rw [before, after]
    exact loses
  · rw [before, after]
    exact same none

namespace SharedWorld

variable {ledger : Ledger Nat Entry}

theorem reader (shared : SharedWorld world ledger) (isMember : id ∈ ledger.members)
    (aligned : world.Aligned id) : (world.queue id).SharedReader ledger id := by
  refine ⟨(shared.mem_members.mp isMember).2, shared.tracks, isMember,
    shared.follows id isMember, fun missing unread => ?_⟩
  have countEq := shared.count_eq isMember
  have storedEq := shared.tracks.ring.countEq
  have stored := shared.tracks.valid.cursorGe id isMember
  rcases aligned with none | privateHead | same
  · omega
  · exact absurd missing privateHead
  · omega

theorem refused (shared : SharedWorld world ledger)
    (sound : world.Sound (.push id tag data now))
    (step : world.Step (.push id tag data now, .pushed false) next) :
    ∃ after, SharedWorld next after ∧ ledger.Evolves after id [] := by
  rcases shared.push sound step.hasData step.1 with ⟨result, returned, after, performed, effect⟩
  cases performed.symm.trans step.2
  cases effect.step with
  | push shown evolves kept inside sweeps => exact ⟨after, effect.shared, evolves⟩

theorem refuses_other (shared : SharedWorld world ledger)
    (sound : world.Sound (.push id tag data now))
    (step : world.Step (.push id tag data now, .pushed false) next)
    (isMember : other ∈ ledger.members) (aligned : world.Aligned other)
    (different : other ≠ id) : (next.queue other).stamped = (world.queue other).stamped := by
  rcases shared.refused sound step with ⟨after, still, evolves⟩
  have reader := shared.reader isMember aligned
  have memberAfter : other ∈ after.members := evolves.members ▸ isMember
  have cursor := evolves.others other different
  have log : after.log = ledger.log := by
    rw [evolves.log, List.append_nil]
  have sameHandle : next.handle other = world.handle other := by
    rcases World.perform_push step.2 with ⟨queue, -, rfl⟩
    exact World.update_handle_of_ne world queue different
  have readerAfter : (next.queue other).SharedReader after other := by
    refine ⟨(still.mem_members.mp memberAfter).2, still.tracks, memberAfter,
      still.follows other memberAfter, fun missing unread => ?_⟩
    have stored := still.tracks.valid.cursorGe other memberAfter
    have ordered := evolves.collected
    rw [World.queue, sameHandle] at missing
    rw [cursor, log] at unread
    have before := reader.aligned missing unread
    omega
  rw [readerAfter.stamped_eq, reader.stamped_eq, log, cursor]

theorem refuses (shared : SharedWorld world ledger)
    (sound : world.Sound (.push id tag data now))
    (step : world.Step (.push id tag data now, .pushed false) next)
    (isMember : other ∈ ledger.members) (aligned : world.Aligned other) :
    Refuses world next now other := by
  rcases eq_or_ne other id with rfl | different
  · have nonempty : data ≠ [] := step.hasData
    have pusher : (world.queue other).SharedPusher ledger other :=
      ⟨shared.reader isMember aligned, shared.subscribed, shared.few⟩
    rcases World.perform_push step.2 with ⟨queue, pushes, rfl⟩
    rcases Queue.ShedsFirst.push (Queue.shared_shedsFirst nonempty) (fun refused attempt => by
      rcases pusher.refused nonempty attempt with ⟨after, later, same, timeout⟩
      exact ⟨same, timeout, fun _ => ⟨after, later⟩⟩) pushes with ⟨loses, same⟩
    refine ⟨?_, fun none => ?_⟩
    · rw [World.update_queue_self]
      exact loses
    · rw [World.update_queue_self]
      exact same none
  · exact .of_eq (shared.refuses_other sound step isMember aligned different)

end SharedWorld

namespace SmartWorld

variable {metered : Prop} {ledger : Ledger Nat Entry}

theorem refuses_other (smart : SmartWorld metered ∅ world ledger)
    (sound : world.SmartSound (.push id tag data now))
    (step : world.Step (.push id tag data now, .pushed false) next)
    (live : other ∈ world.live) (different : other ≠ id) :
    (next.queue other).stamped = (world.queue other).stamped := by
  rcases smart.push sound.1 sound.2 step.1 with
    ⟨accepted, pushed, after, -, performed, effect, -⟩
  cases performed.symm.trans step.2
  cases effect.step with
  | push shown own evolves kept inside =>
      have sameHandle : (world.update id pushed).handle other = world.handle other :=
        World.update_handle_of_ne world pushed different
      have sameSid : ((world.update id pushed).queue other).self.sid =
          (world.queue other).self.sid := congrArg Handle.sid sameHandle
      have log : after.log = ledger.log := evolves.log.trans (List.append_nil _)
      rw [(effect.smart.member live).stamped_eq, (smart.member live).stamped_eq, sameSid,
        Queue.foreign, Queue.foreign, log, evolves.others other different]

theorem refuses (smart : SmartWorld metered ∅ world ledger)
    (sound : world.SmartSound (.push id tag data now))
    (step : world.Step (.push id tag data now, .pushed false) next)
    (live : other ∈ world.live) : Refuses world next now other := by
  rcases eq_or_ne other id with rfl | different
  · have nonempty := sound.1
    have inside := sound.2
    rcases World.perform_push step.2 with ⟨queue, pushes, rfl⟩
    rw [Queue.attempts, Bool.and_eq_true] at inside
    rcases Queue.ShedsFirst.push (Queue.smart_shedsFirst nonempty) (fun refused attempt => by
      rcases (smart.member live).refused nonempty (fun _ => inside.1) attempt with
        ⟨after, later, state, same, timeout⟩
      refine ⟨same, timeout, fun expires => ⟨⟨after, later⟩, fun _ => ?_⟩⟩
      have passed := inside.2
      rw [attempt] at passed
      simpa only [timeout, decide_eq_false expires, Bool.false_or] using passed) pushes with
      ⟨loses, same⟩
    refine ⟨?_, fun none => ?_⟩
    · rw [World.update_queue_self]
      exact loses
    · rw [World.update_queue_self]
      exact same none
  · exact .of_eq (smart.refuses_other sound step live different)

end SmartWorld

/-- A push that is refused takes nothing but expired messages, and these only from the front
of what the pushing object can get; the objects of a simple queue all get the same. -/
theorem refused_push_loses_expired {sound : World → Action → Prop}
    (reached : World.Reached sound world) (allowed : sound world (.push id tag data now))
    (step : world.Step (.push id tag data now, .pushed false) next) (live : other ∈ world.live)
    (readable : (world.handle other).type ≠ .unreadable) (aligned : world.Aligned other) :
    LosesExpired (sub64 now world.memory.keepaliveTimeout) (world.queue other).stamped
        (next.queue other).stamped ∧
      (world.memory.keepaliveTimeout = 0 ∨ other ≠ id ∧ (world.handle id).type ≠ .simple →
        (next.queue other).stamped = (world.queue other).stamped) := by
  cases reached with
  | simple fresh run =>
      rcases fresh.run run with ⟨log, base, holds⟩
      have refuses := holds.refuses step live
      refine ⟨refuses.loses, ?_⟩
      rintro (none | ⟨-, notSimple⟩)
      · exact refuses.kept none
      · exact absurd (holds.types id step.1) notSimple
  | shared fresh run =>
      rcases fresh.run run with ⟨ledger, shared⟩
      have isShared := (shared.types other live).resolve_right readable
      have isMember := shared.mem_members.mpr ⟨live, isShared⟩
      have refuses := shared.refuses allowed step isMember aligned
      refine ⟨refuses.loses, ?_⟩
      rintro (none | ⟨different, -⟩)
      · exact refuses.kept none
      · exact shared.refuses_other allowed step isMember aligned different
  | smart fresh run =>
      rcases fresh.run run with ⟨ledger, smart⟩
      have refuses := smart.refuses allowed step live
      refine ⟨refuses.loses, ?_⟩
      rintro (none | ⟨different, -⟩)
      · exact refuses.kept none
      · exact smart.refuses_other allowed step live different

/-- The push removes one of two messages, and is refused as the other one is not expired. -/
theorem refused_push_loses_expired_first : ∃ world next : World,
    world.perform (.push 0 5 (List.replicate 60 9) 200) = .ok (.pushed false, next) ∧
    (world.queue 0).pending = [⟨3, 10, List.replicate 10 7⟩, ⟨4, 10, List.replicate 10 8⟩] ∧
    LosesExpired 190 (world.queue 0).stamped (next.queue 0).stamped := by
  have fresh : (World.created 0 (Queue.created .simple 80 1 [])).FreshSimple :=
    ⟨.zeros, 0, 80, 1, [], _, 0, by decide, by decide, rfl, rfl⟩
  rcases World.exists_run World.SimpleSound
    (show World.runs _ (World.created 0 (Queue.created .simple 80 1 []))
      [(.keepaliveTimeout 10, .done),
        (.push 0 3 (List.replicate 10 7) 100, .pushed true),
        (.push 0 4 (List.replicate 10 8) 195, .pushed true)]
      (fun world => decide (0 ∈ world.live ∧ (world.handle 0).type = .simple ∧
        world.Aligned 0 ∧ sub64 200 world.memory.keepaliveTimeout = 190 ∧
        (world.queue 0).pending =
          [⟨3, 10, List.replicate 10 7⟩, ⟨4, 10, List.replicate 10 8⟩]) &&
        world.runs (fun _ _ => True)
          [(.push 0 5 (List.replicate 60 9) 200, .pushed false)] fun _ => true) = true by
      decide +kernel) with ⟨world, run, observed⟩
  rw [Bool.and_eq_true, decide_eq_true_iff] at observed
  rcases observed with ⟨⟨live, simple, aligned, limit, pending⟩, pushes⟩
  rcases World.exists_run (fun _ _ => True) pushes with ⟨next, pushed, -⟩
  cases pushed with
  | cons step _ =>
      have loses := (refused_push_loses_expired (.simple fresh run) trivial step.2 live
        (by simp [simple]) aligned).1
      rw [limit] at loses
      exact ⟨world, _, step.2.2, pending, loses⟩

/-- A push that can never be accepted removes the only message, which has expired. -/
theorem refused_push_loses : ∃ world next : World,
    Run World.Step (World.created 0 (Queue.created .simple 80 1 []))
      [(.keepaliveTimeout 10, .done), (.push 0 3 (List.replicate 10 7) 100, .pushed true)]
      world ∧
    world.Step (.push 0 4 (List.replicate 60 8) 200, .pushed false) next ∧
    (world.queue 0).pending = [⟨3, 10, List.replicate 10 7⟩] ∧ (next.queue 0).pending = [] := by
  rcases World.exists_run (fun _ _ => True)
    (show World.runs _ (World.created 0 (Queue.created .simple 80 1 []))
      [(.keepaliveTimeout 10, .done), (.push 0 3 (List.replicate 10 7) 100, .pushed true)]
      (fun world => decide ((world.queue 0).pending = [⟨3, 10, List.replicate 10 7⟩]) &&
        world.runs (fun _ _ => True) [(.push 0 4 (List.replicate 60 8) 200, .pushed false)]
          fun next => decide ((next.queue 0).pending = [])) = true by
      decide +kernel) with ⟨world, run, observed⟩
  rw [Bool.and_eq_true, decide_eq_true_iff] at observed
  rcases World.exists_run (fun _ _ => True) observed.2 with ⟨next, pushed, emptied⟩
  cases pushed with
  | cons step rest =>
      cases rest
      exact ⟨world, _, run.mono fun step => step.2, step.2, observed.1,
        of_decide_eq_true emptied⟩

end Qbus
