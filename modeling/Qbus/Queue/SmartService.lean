import Qbus.Queue.SmartPush

/-! # Service messages

Opening and closing a smart queue push a service message, whatever the free space. An
opening object reads on behind its message, and a closing one reads up to its own. -/

namespace Qbus

open ByteMemory Message Circular Placement Storage MachineWord

def Entry.Disconnects (entry : Entry) (sid : Nat) : Prop :=
  entry.sid = sid ∧ entry.tag = ServiceMessage.tag ∧
    entry.payload.head entry.nonempty = ServiceMessage.Code.disconnect.toByte

namespace Queue

variable {metered : Prop} {queue next : Queue} {ledger after : Ledger Nat Entry} {member : Nat}

def serviceEntry (queue : Queue) (code : ServiceMessage.Code) (now : Nat) : Entry :=
  queue.pushedEntry ServiceMessage.tag now [code.toByte] (List.cons_ne_nil _ _)

def special (queue : Queue) : Queue :=
  { queue with self := { queue.self with state := .pushSpecialMessage } }

def restored (queue pushed : Queue) : Queue :=
  { pushed with self := { pushed.self with state := queue.self.state } }

theorem pushServiceMessage_induction {code : ServiceMessage.Code} {clock : List Nat}
    (Before After : Queue → Prop) (begins : Before queue)
    (attempts : ∀ current, Before current → ∀ now, ∃ accepted pushed,
      current.special.push ServiceMessage.tag [code.toByte] now = .ok (accepted, pushed) ∧
      if accepted then After (current.restored pushed) else Before (current.restored pushed))
    (pushes : queue.pushServiceMessage code clock = .ok next) : After next := by
  induction clock generalizing queue with
  | nil => cases pushes
  | cons now clock induction =>
      rcases attempts queue begins now with ⟨accepted, pushed, result, holds⟩
      rw [special] at result
      simp only [pushServiceMessage, result, Bind.bind, Except.bind] at pushes
      cases accepted with
      | true =>
          cases pushes
          exact holds
      | false => exact induction holds pushes

theorem Acts.of_special {more : List Entry}
    (acts : Acts queue.special next ledger after member more) :
    Acts queue (queue.restored next) ledger after member more :=
  ⟨acts.tracks, acts.evolves, acts.settings, acts.frame, by
    change { next.self with state := queue.self.state } = _
    rw [acts.kept]
    rfl⟩

/-! ## Newcomers -/

structure Newcomer (metered : Prop) (queue : Queue) (ledger : Ledger Nat Entry)
    (member : Nat) : Prop where
  smart : queue.self.type = .smart
  tracks : Tracks queue.memory ledger
  accounted : metered → Accounted queue.memory ledger.log ledger.collected
  notMember : member ∉ ledger.members
  walkable : queue.count ≠ 2 ^ 32 - 1
  /-- There is nothing to remove for a message of the newcomer. -/
  idle : queue.count = 0 ∨ queue.memory.keepaliveTimeout = 0
  subscribed : queue.memory.subscriptionsCount = ledger.members.card
  few : ledger.members.card < 2 ^ 32

namespace Newcomer

theorem behind (smart : queue.self.type = .smart) (tracks : Tracks queue.memory ledger)
    (accounted : metered → Accounted queue.memory ledger.log ledger.collected)
    (notMember : member ∉ ledger.members) (counter : queue.self.counter = queue.memory.counter)
    (subscribed : queue.memory.subscriptionsCount = ledger.members.card)
    (few : ledger.members.card < 2 ^ 32) : Newcomer metered queue ledger member := by
  have countEq : queue.count = 0 := by
    rw [count_of_counted (by simp [smart]), counter, sub32_of_le (Nat.le_refl _) (by
      rw [tracks.counter]
      exact Nat.mod_lt _ (by decide)), Nat.sub_self]
  exact ⟨smart, tracks, accounted, notMember, by simp [countEq], .inl countEq, subscribed, few⟩

theorem special (newcomer : Newcomer metered queue ledger member) :
    Newcomer metered queue.special ledger member :=
  ⟨newcomer.smart, newcomer.tracks, newcomer.accounted, newcomer.notMember, newcomer.walkable,
    newcomer.idle, newcomer.subscribed, newcomer.few⟩

theorem of_acts (newcomer : Newcomer metered queue ledger member)
    (acts : Acts queue next ledger after member [])
    (accounted : metered → Accounted next.memory after.log after.collected)
    (self : next.self = queue.self) : Newcomer metered next after member := by
  have sameCount : next.count = queue.count := by
    have sameCounter : next.memory.counter = queue.memory.counter := by
      rw [acts.tracks.counter, newcomer.tracks.counter, acts.evolves.log, List.append_nil]
    rw [count_of_counted (by simp [self, newcomer.smart]),
      count_of_counted (by simp [newcomer.smart]), sameCounter, self]
  refine ⟨by rw [self]; exact newcomer.smart, acts.tracks, accounted, ?_, ?_, ?_, ?_, ?_⟩
  · rw [acts.evolves.members]
    exact newcomer.notMember
  · rw [sameCount]
    exact newcomer.walkable
  · rw [sameCount, acts.settings.keepaliveTimeout]
    exact newcomer.idle
  · rw [acts.evolves.members]
    exact acts.settings.subscriptionsCount.trans newcomer.subscribed
  · rw [acts.evolves.members]
    exact newcomer.few

theorem push (newcomer : Newcomer metered queue ledger member) (isSpecial :
      queue.self.state = .pushSpecialMessage) {payload : List UInt8} (nonempty : payload ≠ [])
    (tag now : Nat) :
    ∃ accepted next after, queue.push tag payload now = .ok (accepted, next) ∧
      Acts queue next ledger after member
        (if accepted then [queue.pushedEntry tag now payload nonempty] else []) ∧
      (metered → Accounted next.memory after.log after.collected) ∧
      after.cursor = ledger.cursor ∧ next.self = queue.self ∧
      (metered → queue.attempts (covers payload now) tag payload now = true) := by
  rcases smart_doPush newcomer.smart newcomer.tracks (.inr newcomer.walkable)
    newcomer.accounted newcomer.subscribed newcomer.few nonempty tag now
    (fun user => absurd isSpecial user) with
      ⟨count, accepted, memory, result, pushes, accounted, covered, -⟩
  have acts := Pushes.acts pushes member
  rw [collector_of_ne _ _ (by simp [newcomer.smart])] at acts
  rw [← @pushedLedger_collected ledger count (queue.pushedEntry tag now payload nonempty)
    accepted] at accounted
  rw [Queue.push, attempts]
  simp only [result, Bind.bind, Except.bind, Bool.and_eq_true]
  cases accepted with
  | true =>
      exact ⟨true, _, _, rfl, acts, accounted, pushedLedger_cursor, rfl,
        fun isMetered => ⟨covered isMetered, rfl⟩⟩
  | false =>
      have still := newcomer.of_acts acts accounted rfl
      have positive : ∃ fuel, 2 ^ 32 = fuel + 1 := ⟨2 ^ 32 - 1, rfl⟩
      rcases positive with ⟨fuel, isFuel⟩
      refine ⟨false, ⟨memory, queue.self⟩, _, ?_, acts, accounted, pushedLedger_cursor, rfl,
        fun isMetered => ⟨covered isMetered, ?_⟩⟩
      · rw [if_neg (by simp)]
        rcases still.idle with isEmpty | noTimeout
        · rw [isFuel, Queue.removeExpired, empty, if_pos (decide_eq_true isEmpty)]
          split <;> rfl
        · rw [if_neg (Nat.not_lt_of_le (Nat.le_of_eq noTimeout))]
          rfl
      · simp only [Bool.or_eq_true, decide_eq_true_iff]
        rcases still.idle with isEmpty | noTimeout
        · right
          rw [isFuel, removalAttempts, empty, decide_eq_true isEmpty, Bool.true_or]
        · exact .inl noTimeout

theorem pushServiceMessage (newcomer : Newcomer metered queue ledger member)
    {code : ServiceMessage.Code} {clock : List Nat}
    (pushes : queue.pushServiceMessage code clock = .ok next) :
    ∃ now after, Acts queue next ledger after member [queue.serviceEntry code now] ∧
      (metered → Accounted next.memory after.log after.collected) ∧
      after.cursor = ledger.cursor ∧ next.self = queue.self := by
  refine pushServiceMessage_induction (fun current => ∃ after,
    Acts queue current ledger after member [] ∧ Newcomer metered current after member ∧
      after.cursor = ledger.cursor ∧ current.self = queue.self) (fun next => ∃ now after,
    Acts queue next ledger after member [queue.serviceEntry code now] ∧
      (metered → Accounted next.memory after.log after.collected) ∧
      after.cursor = ledger.cursor ∧ next.self = queue.self)
    ⟨ledger, .refl newcomer.tracks member, newcomer, rfl, rfl⟩ ?_ pushes
  rintro current ⟨middle, acts, still, sameCursor, same⟩ now
  rcases still.special.push rfl (List.cons_ne_nil code.toByte []) ServiceMessage.tag now with
    ⟨accepted, pushed, after, result, pushActs, accounted, cursor, self, -⟩
  have whole := acts.trans (Acts.of_special pushActs)
  have restoredSelf : (current.restored pushed).self = queue.self := by
    rw [restored, self, ← same]
    rfl
  refine ⟨accepted, pushed, result, ?_⟩
  cases accepted with
  | true =>
      refine ⟨now, after, ?_, accounted, cursor.trans sameCursor, restoredSelf⟩
      have sameEntry : current.serviceEntry code now = queue.serviceEntry code now :=
        pushedEntry_eq acts _ _ _
      rw [← sameEntry]
      exact whole
  | false =>
      exact ⟨after, whole, newcomer.of_acts whole accounted restoredSelf, cursor.trans sameCursor,
        restoredSelf⟩

theorem initializeQueue (newcomer : Newcomer metered queue ledger member)
    (room : ledger.members.card + 1 < 2 ^ 32) {clock : List Nat}
    (initializes : queue.initializeQueue clock = .ok next) :
    ∃ now during, ledger.Evolves during member [queue.serviceEntry .connect now] ∧
      during.cursor = ledger.cursor ∧
      SmartMember metered next (during.join member) member ∧
      next.memory.capacity = queue.memory.capacity ∧
      next.memory.keepaliveTimeout = queue.memory.keepaliveTimeout ∧
      next.self = { queue.self with head := next.self.head, counter := next.self.counter } := by
  rw [Queue.initializeQueue] at initializes
  cases pushed : queue.pushServiceMessage .connect clock with
  | error fault =>
      rw [pushed] at initializes
      cases initializes
  | ok opened =>
      simp only [pushed, Bind.bind, Except.bind, pure, Except.pure] at initializes
      rcases newcomer.pushServiceMessage pushed with ⟨now, during, acts, accounted, cursor, same⟩
      have notMember : member ∉ during.members := by
        rw [acts.evolves.members]
        exact newcomer.notMember
      have joined := acts.tracks.join notMember
      have card : (during.join member).members.card = ledger.members.card + 1 := by
        rw [Ledger.join, Finset.card_insert_of_notMem notMember, acts.evolves.members]
      have positive := acts.tracks.ring.positive
      have bounded := acts.tracks.ring.bounded
      have tailEq := acts.tracks.ring.tailEq
      have inside := Nat.mod_lt (start opened.memory.capacity during.log during.log.length) positive
      cases initializes
      refine ⟨now, during, acts.evolves, cursor, ⟨?_, joined, ?_, Finset.mem_insert_self _ _, ?_,
        ?_, ?_, ?_⟩, acts.settings.capacity, acts.settings.keepaliveTimeout, ?_⟩
      · exact (congrArg Handle.type same).trans newcomer.smart
      · exact fun isMetered => (accounted isMetered).congr rfl rfl
      · rw [show (during.join member).cursor member = during.log.length by simp [Ledger.join]]
        exact ⟨acts.tracks.counter, .inr tailEq⟩
      · change opened.memory.tail ≠ sharedHead
        rw [sharedHead]
        omega
      · rw [card]
        change (opened.memory.subscriptionsCount + 1) % 2 ^ 32 = _
        rw [acts.settings.subscriptionsCount, newcomer.subscribed, Nat.mod_eq_of_lt room]
      · rw [card]
        exact room
      · simp only [same]

end Newcomer

/-! ## Leaving -/

namespace SmartMember

theorem special (reader : SmartMember metered queue ledger member) :
    SmartMember metered queue.special ledger member :=
  ⟨reader.smart, reader.tracks, reader.accounted, reader.isMember,
    reader.follows.of_cursor_eq rfl rfl, reader.placed, reader.subscribed, reader.few⟩

theorem restored (reader : SmartMember metered next ledger member) (queue : Queue) :
    SmartMember metered (queue.restored next) ledger member :=
  ⟨reader.smart, reader.tracks, reader.accounted, reader.isMember,
    reader.follows.of_cursor_eq rfl rfl, reader.placed, reader.subscribed, reader.few⟩

theorem pushServiceMessage (reader : SmartMember metered queue ledger member)
    {code : ServiceMessage.Code} {clock : List Nat}
    (pushes : queue.pushServiceMessage code clock = .ok next) :
    ∃ now after, Acts queue next ledger after member [queue.serviceEntry code now] ∧
      SmartMember metered next after member ∧ after.cursor member ≤ ledger.log.length := by
  refine pushServiceMessage_induction (fun current => ∃ after,
    Acts queue current ledger after member [] ∧ SmartMember metered current after member)
    (fun next => ∃ now after, Acts queue next ledger after member
      [queue.serviceEntry code now] ∧ SmartMember metered next after member ∧
        after.cursor member ≤ ledger.log.length)
    ⟨ledger, .refl reader.tracks member, reader⟩ ?_ pushes
  rintro current ⟨middle, acts, still⟩ now
  rcases still.special.push (List.cons_ne_nil code.toByte []) ServiceMessage.tag now
    (fun user => absurd rfl user) with
      ⟨accepted, pushed, after, result, pushActs, again, inside, -⟩
  have whole := acts.trans (Acts.of_special pushActs)
  refine ⟨accepted, pushed, result, ?_⟩
  cases accepted with
  | true =>
      have length : middle.log.length = ledger.log.length := by
        rw [acts.evolves.log, List.append_nil]
      refine ⟨now, after, ?_, again.restored current, inside.trans_eq length⟩
      have sameEntry : current.serviceEntry code now = queue.serviceEntry code now :=
        pushedEntry_eq acts _ _ _
      rw [← sameEntry]
      exact whole
  | false => exact ⟨after, whole, again.restored current⟩

end SmartMember

structure Leaver (metered : Prop) (queue : Queue) (ledger : Ledger Nat Entry)
    (member : Nat) : Prop where
  smart : queue.self.type = .smart
  tracks : Tracks queue.memory ledger
  accounted : metered → Accounted queue.memory ledger.log ledger.collected
  isMember : member ∈ ledger.members
  follows : Follows queue.memory.capacity ledger.log queue.self (ledger.cursor member)
  placed : queue.self.head ≠ sharedHead

namespace Leaver

theorem readOut (leaver : Leaver metered queue ledger member) {bound fuel : Nat} {closing : Entry}
    (unread : ledger.cursor member ≤ bound) (found : ledger.log[bound]? = some closing)
    (own : closing.Disconnects queue.self.sid)
    (enough : bound - ledger.cursor member < fuel) :
    ∃ last entry next, queue.readOut fuel = .ok next ∧
      ledger.cursor member ≤ last ∧ ledger.log[last]? = some entry ∧
      entry.Disconnects queue.self.sid ∧
      (∀ other earlier, ledger.cursor member ≤ other → other < last →
        ledger.log[other]? = some earlier → ¬earlier.Disconnects queue.self.sid) ∧
      Acts queue next ledger (ledger.seek member (last + 1)) member [] ∧
      Leaver metered next (ledger.seek member (last + 1)) member := by
  induction fuel generalizing queue ledger with
  | zero => exact absurd enough (Nat.not_lt_zero _)
  | succ fuel induction =>
      have counted : queue.self.type ≠ .simple := by simp [leaver.smart]
      have stored := leaver.tracks.valid.cursorGe member leaver.isMember
      have below := (List.getElem?_eq_some_iff.mp found).1
      have next := List.getElem?_eq_getElem (show ledger.cursor member < ledger.log.length by omega)
      have reads := baseGetMessage_of_follows counted leaver.tracks leaver.follows stored next
        fun missing => absurd missing leaver.placed
      have header := (leaver.tracks.ring.view stored next).2.2
      have code := (leaver.tracks.ring.holds _ _ stored next).code_eq
        (ledger.log[ledger.cursor member]).nonempty
      rcases desc_first queue.memory.capacity (start queue.memory.capacity ledger.log
        (ledger.cursor member)) (ledger.log[ledger.cursor member]).size with ⟨rest, first⟩
      rcases member_pop counted leaver.tracks leaver.isMember leaver.follows next with
        ⟨popped, pops, acts, follows, placed, space⟩
      have sid : Message.sid queue.memory.data (headerPlace queue.memory.capacity
          (start queue.memory.capacity ledger.log (ledger.cursor member))
            (ledger.log[ledger.cursor member]).size) = (ledger.log[ledger.cursor member]).sid :=
        congrArg Header.sid header
      have tag : Message.tag queue.memory.data (headerPlace queue.memory.capacity
          (start queue.memory.capacity ledger.log (ledger.cursor member))
            (ledger.log[ledger.cursor member]).size) = (ledger.log[ledger.cursor member]).tag :=
        congrArg Header.tag header
      have moved : (ledger.advance member).cursor member = ledger.cursor member + 1 := by
        simp [Ledger.advance]
      have still : Leaver metered popped (ledger.advance member) member :=
        ⟨acts.type_eq.trans leaver.smart, acts.tracks,
          fun isMetered => (leaver.accounted isMetered).congr space acts.settings.capacity,
          leaver.isMember, by
            rw [moved, acts.settings.capacity]
            exact follows, placed⟩
      rw [Queue.readOut]
      simp only [reads, Bind.bind, Except.bind, first, pops, sid, tag]
      by_cases closes : (ledger.log[ledger.cursor member]).Disconnects queue.self.sid
      · refine ⟨ledger.cursor member, _, popped, ?_, Nat.le_refl _, next, closes,
          fun _ _ lower upper => by omega, ?_, ?_⟩
        · rw [if_pos ⟨closes.1, closes.2.1, code.trans closes.2.2⟩]
          rfl
        · rw [← Ledger.seek_advance, Ledger.seek_cursor]
          exact acts
        · rw [← Ledger.seek_advance, Ledger.seek_cursor]
          exact still
      · have later : ledger.cursor member ≠ bound := by
          intro same
          subst same
          rw [next] at found
          cases found
          exact closes own
        rcases induction still (by omega) found (by rwa [acts.sid_eq]) (by omega) with
          ⟨last, entry, final, loops, lower, foundLast, ownLast, noneBefore, laterActs,
            laterLeaver⟩
        rw [moved] at lower noneBefore
        rw [acts.sid_eq] at ownLast noneBefore
        rw [Ledger.advance_seek] at laterActs laterLeaver
        refine ⟨last, entry, final, ?_, by omega, foundLast, ownLast, ?_, acts.trans laterActs,
          laterLeaver⟩
        · rw [if_neg (fun isOwn => closes ⟨isOwn.1, isOwn.2.1, code.symm.trans isOwn.2.2⟩)]
          exact loops
        · intro other earlier otherLower upper foundOther
          rcases Nat.lt_or_ge other (ledger.cursor member + 1) with isNext | behind
          · rw [show other = ledger.cursor member by omega, next] at foundOther
            cases foundOther
            exact closes
          · exact noneBefore other earlier behind upper foundOther

end Leaver

end Queue

end Qbus
