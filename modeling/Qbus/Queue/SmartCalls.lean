import Qbus.Queue.SmartWorld

/-! # Calls in a world of smart queues

Every call on a world of smart queue objects that returns has the effect that it is meant
to have. -/

namespace Qbus

open ByteMemory Message Circular Placement Storage MachineWord

namespace Queue

variable {metered : Prop} {queue next : Queue} {ledger after : Ledger Nat Entry} {member index : Nat}
  {message : MessageDesc}

theorem Skips.seeks (skips : Skips metered queue next ledger member index message) :
    ledger.Seeks member queue.self.sid index :=
  ⟨skips.lower, skips.skipped⟩

theorem Skips.inside (skips : Skips metered queue next ledger member index message) :
    index ≤ ledger.log.length := by
  have inside := skips.reader.inside
  rwa [Ledger.seek_cursor_self] at inside

theorem Skips.refl (reader : SmartMember metered queue ledger member)
    (read : ledger.cursor member = ledger.log.length) :
    Skips metered queue queue ledger member ledger.log.length .none := by
  rw [← read]
  refine ⟨?_, ?_, Nat.le_refl _, fun _ _ lower upper => by omega, .inl ⟨rfl, read⟩⟩
  · rw [Ledger.seek_cursor]
    exact .refl reader.tracks member
  · rw [Ledger.seek_cursor]
    exact reader

theorem Skips.shows (skips : Skips metered queue next ledger member index message) :
    MessageView.ofChain next.memory.data message.first =
      ledger.log[index]?.map Entry.view := by
  rw [← StampedView.map_ofChain, skips.shown, Option.map_map]
  rfl

namespace SmartMember

theorem get (reader : SmartMember metered queue ledger member) :
    ∃ index message found, Skips metered queue found ledger member index message ∧
      (queue.count > 0 → queue.getMessage = .ok (message, found)) ∧
      queue.get = .ok (message.first, { found with self := { found.self with
        messageDesc := if queue.count > 0 then message else queue.self.messageDesc } }) := by
  have countEq := reader.count_eq
  have inside := reader.inside
  rw [Queue.get]
  by_cases unread : queue.count > 0
  · rcases reader.getMessage (by omega) with ⟨index, message, found, gets, skips⟩
    refine ⟨index, message, found, skips, fun _ => gets, ?_⟩
    rw [if_pos unread, if_pos unread]
    simp only [gets, Bind.bind, Except.bind, pure, Except.pure]
  · refine ⟨_, _, queue, .refl reader (by omega), fun some => absurd some unread, ?_⟩
    rw [if_neg unread, if_neg unread]
    rfl

end SmartMember

theorem pop_uncached_none (uncached : queue.self.messageDesc.first = []) (some : queue.count > 0)
    (gets : queue.getMessage = .ok (message, next)) (missing : message.first = []) :
    queue.pop = .error .nullMessage := by
  rw [Queue.pop, if_pos some, if_pos uncached]
  simp only [gets, Bind.bind, Except.bind, popMessage, missing]
  rfl

theorem Skips.pop_uncached (skips : Skips metered queue next ledger member index message)
    (uncached : queue.self.messageDesc.first = []) (some : queue.count > 0)
    (gets : queue.getMessage = .ok (message, next)) (present : message.first ≠ []) :
    index < ledger.log.length ∧ ∃ popped,
      queue.pop = .ok (true, { popped with self := { popped.self with
        messageDesc := { message with first := [] } } }) ∧
      Acts queue popped ledger (ledger.seek member (index + 1)) member [] ∧
      SmartMember metered popped (ledger.seek member (index + 1)) member := by
  rcases List.exists_cons_of_ne_nil present with ⟨position, rest, first⟩
  rcases skips.popFound first with ⟨popped, pops, acts, still, -⟩
  refine ⟨?_, popped, ?_, acts, still⟩
  · rcases skips.found with ⟨none, -⟩ | ⟨entry, foundEntry, -⟩
    · rw [none] at first
      cases first
    · exact (List.getElem?_eq_some_iff.mp foundEntry).1
  · rw [Queue.pop, if_pos some, if_pos uncached]
    simp only [gets, pops, Bind.bind, Except.bind, pure, Except.pure]

namespace SmartMember

theorem pop_cached (reader : SmartMember metered queue ledger member)
    (cached : queue.self.messageDesc.first ≠ []) (some : queue.count > 0)
    (current : queue.baseGetMessage = .ok queue.self.messageDesc) :
    ∃ entry popped, ledger.log[ledger.cursor member]? = Option.some entry ∧
      queue.self.messageDesc = desc queue.memory.capacity
        (start queue.memory.capacity ledger.log (ledger.cursor member)) entry.size ∧
      queue.pop = .ok (true, { popped with self := { popped.self with
        messageDesc := { queue.self.messageDesc with first := [] } } }) ∧
      Acts queue popped ledger (ledger.seek member (ledger.cursor member + 1)) member [] ∧
      SmartMember metered popped (ledger.seek member (ledger.cursor member + 1)) member := by
  have countEq := reader.count_eq
  have found := List.getElem?_eq_getElem (show ledger.cursor member < ledger.log.length by omega)
  have described := (Except.ok.inj ((reader.reads found).symm.trans current)).symm
  rcases reader.pop found with ⟨popped, pops, acts, still⟩
  rw [← described] at pops
  refine ⟨_, popped, found, described, ?_, ?_, ?_⟩
  · rw [Queue.pop, if_pos some, if_neg cached]
    simp only [pops, Bind.bind, Except.bind, pure, Except.pure]
  · rw [← Ledger.seek_advance, Ledger.seek_cursor]
    exact acts
  · rw [← Ledger.seek_advance, Ledger.seek_cursor]
    exact still

end SmartMember

theorem destroy_smart_error {clock : List Nat} {fault : Fault}
    (smart : queue.self.type = .smart)
    (pushed : queue.pushServiceMessage .disconnect clock = .error fault) :
    queue.destroy clock = .error fault := by
  simp only [destroy, smart, pushed, Bind.bind, Except.bind]

theorem destroy_smart {closing final : Queue} {clock : List Nat}
    (smart : queue.self.type = .smart)
    (pushed : queue.pushServiceMessage .disconnect clock = .ok closing)
    (reads : (closing.setMemory closing.memory.decSubscriptionsCount).readOut (2 ^ 32) =
      .ok final) : queue.destroy clock = .ok final.memory := by
  simp only [destroy, smart, pushed, reads, Bind.bind, Except.bind, pure, Except.pure]

end Queue

namespace SmartWorld

variable {metered : Prop} {booked : Finset Nat} {world next : World} {ledger : Ledger Nat Entry}
  {id : Nat} {result : Result}

theorem attach (smart : SmartWorld metered booked world ledger) {sid : Nat} {clock : List Nat}
    (room : (world.live ∪ booked).card + 1 < 2 ^ 32) (word : sid < 2 ^ 32)
    (newcomer : id ∉ world.live) (unbooked : id ∉ booked)
    (performed : world.perform (.attach id .smart sid clock) = .ok (result, next)) :
    ∃ after, Effect metered booked world ledger (.attach id .smart sid clock, result) next after := by
  rw [← smart.members] at room
  have notMember : id ∉ ledger.members := by
    rw [smart.members, Finset.mem_union]
    exact fun isMember => isMember.elim newcomer unbooked
  rw [World.perform] at performed
  cases opened : Queue.attach world.memory .smart sid clock with
  | error fault =>
      rw [opened] at performed
      cases performed
  | ok queue =>
      simp only [opened, Bind.bind, Except.bind, pure, Except.pure] at performed
      cases performed
      have isNew : Queue.Newcomer metered ⟨world.memory, Queue.newHandle .smart sid world.memory.counter⟩
          ledger id :=
        .behind rfl smart.tracks smart.accounted notMember rfl smart.subscribed smart.few
      rcases isNew.initializeQueue room opened with
        ⟨now, during, evolves, cursor, reader, capacity, timeout, self⟩
      have step : SmartStep world.memory.keepaliveTimeout (fun id => (world.handle id).sid) ledger
          (.attach id .smart sid clock, .done) (during.join id) := by
        refine .attach notMember rfl ?_ evolves cursor
        exact Nat.mod_eq_of_lt word
      refine ⟨during.join id, ⟨reader.tracks, reader.accounted, ?_, ?_, ?_, reader.subscribed,
        reader.few, ?_, ?_⟩, step, capacity, timeout, ?_⟩
      · change insert id during.members = insert id world.live ∪ booked
        rw [evolves.members, smart.members, Finset.insert_union]
      · exact Finset.disjoint_insert_left.mpr ⟨unbooked, smart.apart⟩
      · intro other isBooked
        have different : other ≠ id := fun same => unbooked (same ▸ isBooked)
        rw [← smart.unread other isBooked, ← cursor]
        exact Function.update_of_ne different _ _
      · intro other otherLive
        change (Function.update world.handle id queue.self other).Smart
        rcases eq_or_ne other id with rfl | different
        · rw [Function.update_self]
          refine ⟨reader.smart, reader.placed, ?_, ?_⟩
          · rw [self]
            rfl
          · rw [self]
            exact word
        · rw [Function.update_of_ne different]
          exact smart.handles other (Finset.mem_of_mem_insert_of_ne otherLive different)
      · intro other otherLive
        change Follows queue.memory.capacity during.log
          (Function.update world.handle id queue.self other) ((during.join id).cursor other)
        rcases eq_or_ne other id with rfl | different
        · rw [Function.update_self]
          exact reader.follows
        · have isLive := Finset.mem_of_mem_insert_of_ne otherLive different
          have sameCursor : (during.join id).cursor other = ledger.cursor other := by
            rw [← cursor]
            exact Function.update_of_ne different _ _
          rw [Function.update_of_ne different, sameCursor, evolves.log, capacity]
          exact (smart.follows other isLive).append
            (smart.tracks.valid.cursorLe other (smart.mem_members isLive)) _
      · intro other notActor
        exact Function.update_of_ne (fun same => notActor (congrArg some same.symm)) _ _

theorem push (smart : SmartWorld metered booked world ledger) {tag : UInt32} {data : List UInt8} {now : Nat}
    (nonempty : data ≠ []) (inside : (world.queue id).attempts (Queue.contained data.length)
      tag.toNat data now = true) (live : id ∈ world.live) :
    ∃ accepted next after, (world.queue id).push tag.toNat data now = .ok (accepted, next) ∧
      world.perform (.push id tag data now) = .ok (.pushed accepted, world.update id next) ∧
      Effect metered booked world ledger (.push id tag data now, .pushed accepted) (world.update id next) after ∧
      (metered → (world.queue id).attempts (Queue.covers data now) tag.toNat data now = true) ∧
      (metered → ((world.queue id).attempts (Queue.spares data now) tag.toNat data now = true ↔
        (accepted = true → next.reservedSpace ≤ next.memory.freeSpace))) := by
  rcases (smart.member live).push nonempty tag.toNat now (fun _ => inside) with
    ⟨accepted, pushed, after, pushes, acts, reader, readerInside, kept, covered, keeps⟩
  have user : (world.queue id).self.state ≠ .pushSpecialMessage := by
    have unknown : (world.queue id).self.state = .unknown := (smart.handles id live).state
    simp [unknown]
  refine ⟨accepted, pushed, after, pushes, ?_, ?_, covered, fun isMetered => keeps isMetered user⟩
  · rw [World.perform]
    simp only [pushes, Bind.bind, Except.bind, pure, Except.pure]
  · have step : SmartStep world.memory.keepaliveTimeout (fun id => (world.handle id).sid) ledger
        (.push id tag data now, .pushed accepted) after := by
      refine .push ?_ ?_ acts.evolves kept readerInside
      · change MessageView.mk (tag.toNat % 2 ^ 32) data.length data = _
        rw [Nat.mod_eq_of_lt tag.toNat_lt]
      · exact Nat.mod_eq_of_lt (smart.handles id live).sid
    exact smart.effect live rfl acts reader pushed.self.messageDesc step

theorem get (smart : SmartWorld metered booked world ledger) (live : id ∈ world.live) :
    ∃ result next after, world.perform (.get id) = .ok (result, next) ∧
      Effect metered booked world ledger (.get id, result) next after := by
  rcases (smart.member live).get with ⟨index, message, found, skips, -, gets⟩
  refine ⟨.message (ledger.log[index]?.map Entry.view), _, ledger.seek id index, ?_,
    smart.effect live rfl skips.acts skips.reader
      (if (world.queue id).count > 0 then message else (world.queue id).self.messageDesc)
      (.get skips.seeks ?_ skips.inside)⟩
  · rw [World.perform]
    simp only [gets, Bind.bind, Except.bind, pure, Except.pure, skips.shows]
  · intro entry foundEntry
    rcases skips.found with ⟨-, rfl⟩ | ⟨other, foundOther, isForeign, -⟩
    · rw [List.getElem?_eq_none (Nat.le_refl _)] at foundEntry
      cases foundEntry
    · rw [foundOther] at foundEntry
      cases foundEntry
      exact isForeign

theorem pop (smart : SmartWorld metered booked world ledger) (current : world.Current id)
    (live : id ∈ world.live) (performed : world.perform (.pop id) = .ok (result, next)) :
    ∃ after, Effect metered booked world ledger (.pop id, result) next after := by
  have reader := smart.member live
  have countEq := reader.count_eq
  rw [World.perform] at performed
  by_cases some : (world.queue id).count > 0
  · by_cases uncached : (world.queue id).self.messageDesc.first = []
    · rcases reader.getMessage (by omega) with ⟨index, message, found, gets, skips⟩
      by_cases missing : message.first = []
      · simp only [Queue.pop_uncached_none uncached some gets missing, Bind.bind, Except.bind]
          at performed
        cases performed
      · rcases skips.pop_uncached uncached some gets missing with
          ⟨unread, popped, pops, acts, still⟩
        simp only [pops, Bind.bind, Except.bind, pure, Except.pure] at performed
        cases performed
        exact ⟨_, smart.effect live rfl acts still _ (.pop skips.seeks unread)⟩
    · have same := (current.resolve_left (by omega)).resolve_left uncached
      rcases reader.pop_cached uncached some same with
        ⟨entry, popped, found, -, pops, acts, still⟩
      simp only [pops, Bind.bind, Except.bind, pure, Except.pure] at performed
      cases performed
      have below := (List.getElem?_eq_some_iff.mp found).1
      exact ⟨_, smart.effect live rfl acts still _
        (.pop ⟨Nat.le_refl _, fun _ _ lower upper => by omega⟩ below)⟩
  · have pops : (world.queue id).pop = .ok (false, world.queue id) := by
      rw [Queue.pop, if_neg some]
      rfl
    simp only [pops, Bind.bind, Except.bind, pure, Except.pure] at performed
    cases performed
    exact ⟨_, smart.effect live rfl (.refl reader.tracks id) reader
      (world.queue id).self.messageDesc (.popNone (by omega))⟩

theorem clean (smart : SmartWorld metered booked world ledger) (live : id ∈ world.live) :
    ∃ result next after, world.perform (.clean id) = .ok (result, next) ∧
      Effect metered booked world ledger (.clean id, result) next after := by
  have reader := smart.member live
  have isSmart := (smart.handles id live).smart
  rcases Queue.cleanMessages_eq reader.counted reader.tracks reader.walkable with
    ⟨count, info, memory, cleans, number, collects, space⟩
  have acts := Queue.Collects.acts collects id
  rw [Queue.collector_of_ne _ _ (by simp [reader.smart])] at cleans acts
  have accounted : metered → Accounted memory ledger.log (ledger.collected + count) :=
    fun isMetered => (reader.accounted isMetered).collect reader.tracks.ring
      collects.tracks.valid.collectedLe (space isSmart ((reader.accounted isMetered).space_lt
        reader.tracks.ring)) collects.settings.capacity
  have still := reader.of_acts acts accounted (by
    rw [collects.settings.capacity]
    exact reader.follows) reader.placed
  refine ⟨.cleaned count, world.update id ⟨memory, (world.queue id).self⟩,
    ledger.collect count, ?_, ?_⟩
  · simp only [World.perform, Queue.clean, cleans, Bind.bind, Except.bind, pure, Except.pure,
      number]
  · exact smart.effect live rfl acts still _ (.clean collects.garbage)

theorem destroy (smart : SmartWorld metered booked world ledger) {clock : List Nat} (live : id ∈ world.live)
    (performed : world.perform (.destroy id clock) = .ok (result, next)) :
    ∃ after, Effect metered booked world ledger (.destroy id clock, result) next after := by
  have handle := smart.handles id live
  have isSmart : (world.queue id).self.type = .smart := handle.smart
  cases pushed : (world.queue id).pushServiceMessage .disconnect clock with
  | error fault =>
      simp only [World.perform, Queue.destroy_smart_error isSmart pushed, Bind.bind,
        Except.bind] at performed
      cases performed
  | ok closing =>
      rcases (smart.member live).pushServiceMessage pushed with ⟨now, during, acts, reader, inside⟩
      have length : during.log[ledger.log.length]? =
          some ((world.queue id).serviceEntry .disconnect now) := by
        rw [acts.evolves.log]
        simp
      have sid : closing.self.sid = (world.handle id).sid := acts.sid_eq
      have small := reader.unread_lt
      have leaver : Queue.Leaver metered
          (closing.setMemory closing.memory.decSubscriptionsCount) during id :=
        ⟨by
          rw [Queue.setMemory_self]
          exact reader.smart, reader.tracks.decSubscriptionsCount,
          fun isMetered => (reader.accounted isMetered).congr
            (QueueMemory.decSubscriptionsCount_freeSpace _)
            (QueueMemory.decSubscriptionsCount_capacity _), reader.isMember, by
            rw [Queue.setMemory_memory, Queue.setMemory_self,
              QueueMemory.decSubscriptionsCount_capacity]
            exact reader.follows, by
            rw [Queue.setMemory_self]
            exact reader.placed⟩
      have own : ((world.queue id).serviceEntry .disconnect now).Disconnects
          (closing.setMemory closing.memory.decSubscriptionsCount).self.sid := by
        rw [Queue.setMemory_self, sid]
        exact ⟨Nat.mod_eq_of_lt handle.sid, rfl, rfl⟩
      have below := (List.getElem?_eq_some_iff.mp length).1
      rcases leaver.readOut inside length own
          (show ledger.log.length - during.cursor id < 2 ^ 32 by omega) with
        ⟨last, entry, final, reads, lower, found, closes, first, lastActs, left⟩
      have returns : (.ok (.done, { world with
          memory := final.memory
          live := world.live.erase id }) : Outcome (Result × World)) = .ok (result, next) := by
        rw [← performed, World.perform, Queue.destroy_smart isSmart pushed reads]
        rfl
      cases returns
      have members : during.members = world.live ∪ booked :=
        acts.evolves.members.trans smart.members
      have unbooked := Finset.disjoint_left.mp smart.apart live
      have capacity : final.memory.capacity = world.memory.capacity :=
        lastActs.settings.capacity.trans ((QueueMemory.decSubscriptionsCount_capacity _).trans
          acts.settings.capacity)
      have step : SmartStep world.memory.keepaliveTimeout (fun id => (world.handle id).sid) ledger
          (.destroy id clock, .done) ((during.seek id (last + 1)).leave id) := by
        have notOwn := first
        rw [Queue.setMemory_self, sid] at closes notOwn
        refine .destroy (smart.mem_members live) rfl ?_ acts.evolves lower found closes notOwn
        exact Nat.mod_eq_of_lt handle.sid
      have erased : ((during.seek id (last + 1)).leave id).members = during.members.erase id := rfl
      have positive := Finset.card_pos.mpr ⟨id, reader.isMember⟩
      have few := reader.few
      have card : (during.members.erase id).card = during.members.card - 1 :=
        Finset.card_erase_of_mem reader.isMember
      have sameCursor : ∀ other ≠ id, ((during.seek id (last + 1)).leave id).cursor other =
          ledger.cursor other := fun other different =>
        (Function.update_of_ne different _ _).trans (acts.evolves.others other different)
      refine ⟨_, ⟨left.tracks.leave left.isMember, left.accounted, ?_, ?_, ?_, ?_, ?_, ?_, ?_⟩,
        step, capacity, ?_, fun _ _ => rfl⟩
      · rw [erased, members, Finset.erase_union_distrib, Finset.erase_eq_of_notMem unbooked]
      · exact Finset.disjoint_of_subset_left (Finset.erase_subset _ _) smart.apart
      · intro other isBooked
        rw [sameCursor other fun same => unbooked (same ▸ isBooked)]
        exact smart.unread other isBooked
      · rw [erased, card]
        refine lastActs.settings.subscriptionsCount.trans ?_
        change sub32 closing.memory.subscriptionsCount 1 = _
        rw [reader.subscribed, sub32_of_le (by omega) few]
      · rw [erased, card]
        omega
      · exact fun other otherLive => smart.handles other (Finset.mem_of_mem_erase otherLive)
      · intro other otherLive
        have different := Finset.ne_of_mem_erase otherLive
        have isLive := Finset.mem_of_mem_erase otherLive
        have sameLog : ((during.seek id (last + 1)).leave id).log = during.log := rfl
        rw [sameCursor other different, sameLog, acts.evolves.log]
        change Follows final.memory.capacity _ _ _
        rw [capacity]
        exact (smart.follows other isLive).append
          (smart.tracks.valid.cursorLe other (smart.mem_members isLive)) _
      · exact lastActs.settings.keepaliveTimeout.trans
          ((QueueMemory.decSubscriptionsCount_keepaliveTimeout _).trans
            acts.settings.keepaliveTimeout)

theorem keepaliveTimeout (smart : SmartWorld metered booked world ledger) (value : Nat) :
    ∃ result next after, world.perform (.keepaliveTimeout value) = .ok (result, next) ∧
      Effect metered booked world ledger (.keepaliveTimeout value, result) next after := by
  refine ⟨.done, { world with memory := world.memory.setKeepaliveTimeout value }, ledger, rfl,
    ⟨⟨smart.tracks.ring.congr rfl rfl rfl rfl rfl, smart.tracks.counter, smart.tracks.valid⟩,
      fun isMetered => (smart.accounted isMetered).congr rfl rfl, smart.members, smart.apart,
      smart.unread, smart.subscribed, smart.few, smart.handles, smart.follows⟩, .keepaliveTimeout, rfl, rfl, fun _ _ => rfl⟩

theorem perform (smart : SmartWorld metered ∅ world ledger) {action : Action}
    (sound : world.SmartSound action) (enabled : world.Enabled action)
    (performed : world.perform action = .ok (result, next)) :
    ∃ after, Effect metered ∅ world ledger (action, result) next after := by
  have same : ∀ {other : Result × World}, world.perform action = .ok other →
      other = (result, next) := fun returned =>
    Except.ok.inj (returned.symm.trans performed)
  cases action with
  | attach id type sid clock =>
      rcases sound with ⟨rfl, room, word⟩
      exact smart.attach (by rwa [Finset.union_empty]) word enabled (Finset.notMem_empty id)
        performed
  | push id tag data now =>
      rcases smart.push sound.1 sound.2 enabled with ⟨accepted, pushed, after, -, returns, effect, -⟩
      cases same returns
      exact ⟨after, effect⟩
  | get id =>
      rcases smart.get enabled.1 with ⟨other, got, after, returns, effect⟩
      cases same returns
      exact ⟨after, effect⟩
  | pop id => exact smart.pop sound enabled.1 performed
  | clean id =>
      rcases smart.clean enabled with ⟨other, cleaned, after, returns, effect⟩
      cases same returns
      exact ⟨after, effect⟩
  | destroy id clock => exact smart.destroy enabled performed
  | keepaliveTimeout value =>
      rcases smart.keepaliveTimeout value with ⟨other, set, after, returns, effect⟩
      cases same returns
      exact ⟨after, effect⟩

theorem run (smart : SmartWorld metered ∅ world ledger) {labels : List (Action × Result)} {final : World}
    (run : Run (fun world label next => world.SmartSound label.1 ∧ world.Step label next)
      world labels final) : ∃ last, SmartWorld metered ∅ final last := by
  induction run generalizing ledger with
  | nil => exact ⟨ledger, smart⟩
  | cons step _ induction =>
      rcases smart.perform step.1 step.2.1 step.2.2 with ⟨after, effect⟩
      exact induction effect.smart

end SmartWorld

/-! ## New queues -/

/-- A world in which an object has just constructed a new smart queue. -/
def World.FreshSmart (world : World) : Prop :=
  ∃ id raw qid capacity sid clock queue, 0 < capacity ∧ capacity < 2 ^ 32 ∧ sid < 2 ^ 32 ∧
    Queue.create raw .smart qid capacity sid clock = .ok queue ∧ world = .created id queue

theorem World.freshSmart_created {capacity sid : Nat} {clock : List Nat} (positive : 0 < capacity)
    (bounded : capacity < 2 ^ 32) (word : sid < 2 ^ 32)
    (returns : (Queue.create .zeros .smart 0 capacity sid clock).isOk = true) :
    (World.created 0 (Queue.created .smart capacity sid clock)).FreshSmart :=
  ⟨0, .zeros, 0, capacity, sid, clock, _, positive, bounded, word,
    Queue.create_eq_created returns, rfl⟩

theorem World.FreshSmart.exists_ledger {world : World} (fresh : world.FreshSmart) :
    ∃ ledger, SmartWorld True ∅ world ledger := by
  rcases fresh with ⟨id, raw, qid, capacity, sid, clock, queue, positive, bounded, word, creates,
    rfl⟩
  have isNew : Queue.Newcomer True ⟨{ QueueMemory.clear { raw with
      id := qid % 2 ^ 32
      capacity := capacity % 2 ^ 32
      keepaliveTimeout := 0 } with
    counter := 0
    subscriptionsCount := 0
    freeSpace := capacity % 2 ^ 32 }, Queue.newHandle .smart sid 0⟩ (Ledger.empty ∅) id := by
    have cleared : Ring (QueueMemory.clear { raw with
        id := qid % 2 ^ 32
        capacity := capacity % 2 ^ 32
        keepaliveTimeout := 0 }) [] 0 (Ledger.empty ∅ : Ledger Nat Entry).refs :=
      Ring.cleared rfl (by rw [Nat.mod_eq_of_lt bounded]; exact positive)
        (Nat.mod_lt _ (by decide))
    exact .behind rfl ⟨cleared.congr rfl rfl rfl rfl rfl, rfl, Ledger.valid_empty _⟩
      (fun _ => rfl) (Finset.notMem_empty id) rfl rfl (by simp [Ledger.empty])
  rcases isNew.initializeQueue (by simp [Ledger.empty]) creates with
    ⟨now, during, evolves, -, reader, -, -, self⟩
  have members : (during.join id).members = {id} ∪ ∅ := by
    change insert id during.members = {id} ∪ ∅
    rw [evolves.members]
    rfl
  refine ⟨during.join id, reader.tracks, reader.accounted, members,
    Finset.disjoint_empty_right _, fun other isBooked => absurd isBooked (Finset.notMem_empty _),
    reader.subscribed, reader.few, fun other _ => ⟨reader.smart, reader.placed, ?_, ?_⟩, fun other live => ?_⟩
  · change queue.self.state = _
    rw [self]
    rfl
  · change queue.self.sid < _
    rw [self]
    exact word
  · cases Finset.mem_singleton.mp live
    exact reader.follows

theorem World.FreshSmart.run {first world : World} (fresh : first.FreshSmart)
    {labels : List (Action × Result)}
    (run : Run (fun world label next => world.SmartSound label.1 ∧ world.Step label next)
      first labels world) : ∃ ledger, SmartWorld True ∅ world ledger := by
  rcases fresh.exists_ledger with ⟨ledger, smart⟩
  exact smart.run run

end Qbus
