import Qbus.Queue.Accounting

/-! # Popping from a smart queue

`pop` takes the cached description, or reads one when nothing is cached. It looks at the
number of messages only to decide whether there is one: when all of them are own messages
or service messages, there is none. -/

namespace Qbus

open ByteMemory Message Circular Placement Storage MachineWord

namespace Queue

variable {metered : Prop} {queue next found : Queue} {ledger : Ledger Nat Entry}
  {member index : Nat} {message : MessageDesc}

/-- `pop` returns what it should: it removes the message that `get` returns in the same
state, if there is one. -/
structure PopsAsGet (queue next found : Queue) (removed : Bool) (chain : Chain) : Prop where
  pops : queue.pop = .ok (removed, next)
  gets : queue.get = .ok (chain, found)
  agrees : removed = true ↔ chain ≠ []
  removes : (MessageView.ofChain found.memory.data chain).toList ++ next.pending = queue.pending

/-- The cached description is that of the next message, which comes from another process
and is no service message. -/
def CachesNext (queue : Queue) : Prop :=
  ∃ position rest, queue.self.messageDesc.first = position :: rest ∧
    queue.baseGetMessage = .ok queue.self.messageDesc ∧
    sid queue.memory.data position ≠ queue.self.sid ∧
    tag queue.memory.data position ≠ ServiceMessage.tag

/-- There is no message, or nothing is cached and there is a message to get, or the message
to get is cached. -/
def PopSafe (queue : Queue) : Prop :=
  queue.count = 0 ∨ queue.self.messageDesc.first = [] ∧ queue.pending ≠ [] ∨ queue.CachesNext

/-- The message that is found is the first one to get, and no longer to get when it has
been popped. -/
theorem Skips.removes (skips : Skips metered queue found ledger member index message)
    (reader : SmartMember metered queue ledger member) (desc : MessageDesc)
    (still : SmartMember metered next (ledger.seek member (index + 1)) member)
    (sameSid : next.self.sid = queue.self.sid) (unread : index < ledger.log.length) :
    (MessageView.ofChain found.memory.data message.first).toList ++
      pending { next with self := { next.self with messageDesc := desc } } = queue.pending := by
  rw [skips.shows, reader.pending_eq, (still.cache desc).pending_eq, skips.foreign_eq,
    List.getElem?_eq_getElem unread]
  change _ ++ (foreign _ _ next.self.sid).map _ = _
  rw [sameSid]
  rfl

namespace SmartMember

theorem pending_of_unforeign (reader : SmartMember metered queue ledger member) {entry : Entry}
    (isNext : ledger.log[ledger.cursor member]? = some entry)
    (unforeign : ¬entry.Foreign queue.self.sid) (desc : MessageDesc)
    (still : SmartMember metered next (ledger.seek member (ledger.cursor member + 1)) member)
    (sameSid : next.self.sid = queue.self.sid) :
    pending { next with self := { next.self with messageDesc := desc } } = queue.pending := by
  have below := (List.getElem?_eq_some_iff.mp isNext).1
  rw [reader.pending_eq, (still.cache desc).pending_eq]
  change (foreign _ _ next.self.sid).map _ = _
  rw [sameSid, foreign, foreign, Ledger.seek_cursor_self, List.drop_eq_getElem_cons below,
    List.filter_cons_of_neg]
  · rfl
  · rw [(List.getElem?_eq_some_iff.mp isNext).2]
    simpa using unforeign

theorem foreign_iff (reader : SmartMember metered queue ledger member) {entry : Entry}
    (isNext : ledger.log[ledger.cursor member]? = some entry) {position : Nat} {rest : Chain}
    (first : (desc queue.memory.capacity (start queue.memory.capacity ledger.log
      (ledger.cursor member)) entry.size).first = position :: rest) :
    sid queue.memory.data position ≠ queue.self.sid ∧
      tag queue.memory.data position ≠ ServiceMessage.tag ↔ entry.Foreign queue.self.sid := by
  have header := reader.header_eq isNext
  rcases desc_first queue.memory.capacity (start queue.memory.capacity ledger.log
    (ledger.cursor member)) entry.size with ⟨others, isCons⟩
  rw [isCons] at first
  rcases List.cons.inj first with ⟨rfl, -⟩
  have sameSid : sid queue.memory.data (headerPlace queue.memory.capacity
      (start queue.memory.capacity ledger.log (ledger.cursor member)) entry.size) = entry.sid :=
    congrArg Header.sid header
  have sameTag : tag queue.memory.data (headerPlace queue.memory.capacity
      (start queue.memory.capacity ledger.log (ledger.cursor member)) entry.size) = entry.tag :=
    congrArg Header.tag header
  rw [sameSid, sameTag, Entry.Foreign]

theorem popsAsGet_of_empty (isEmpty : queue.count = 0) :
    PopsAsGet queue queue queue false [] := by
  refine ⟨?_, ?_, by simp, rfl⟩
  · rw [Queue.pop, if_neg (by omega)]
    rfl
  · rw [Queue.get, if_neg (by omega)]
    rfl

theorem popsAsGet_uncached (reader : SmartMember metered queue ledger member)
    (some : queue.count > 0) (uncached : queue.self.messageDesc.first = []) :
    (∃ next found removed chain, PopsAsGet queue next found removed chain) ↔
      queue.pending ≠ [] := by
  rcases reader.get with ⟨index, message, found, skips, getsMessage, gets⟩
  have getsFound := getsMessage some
  have shown := skips.shows
  by_cases missing : message.first = []
  · refine iff_of_false ?_ ?_
    · rintro ⟨next, _, removed, _, popsAsGet⟩
      have pops := popsAsGet.pops
      rw [pop_uncached_none uncached some getsFound missing] at pops
      cases pops
    · refine not_not_intro ?_
      rw [missing] at shown
      rw [reader.pending_eq, skips.foreign_eq]
      cases other : ledger.log[index]? with
      | none => rfl
      | some entry =>
          rw [other] at shown
          cases shown
  · rcases skips.pop_uncached uncached some getsFound missing with
      ⟨unread, popped, pops, acts, still⟩
    have removes := skips.removes reader { message with first := [] } still acts.sid_eq unread
    refine iff_of_true ⟨_, _, true, message.first, pops, gets, by simp [missing], removes⟩ ?_
    rw [← removes, shown, List.getElem?_eq_getElem unread]
    simp

theorem popsAsGet_cached (reader : SmartMember metered queue ledger member)
    (some : queue.count > 0) (cached : queue.self.messageDesc.first ≠ [])
    (current : queue.baseGetMessage = .ok queue.self.messageDesc) :
    (∃ next found removed chain, PopsAsGet queue next found removed chain) ↔
      queue.CachesNext := by
  rcases reader.get with ⟨index, message, found, skips, -, gets⟩
  rcases reader.pop_cached cached some current with
    ⟨entry, popped, isNext, described, pops, acts, still⟩
  rcases List.exists_cons_of_ne_nil cached with ⟨position, rest, first⟩
  have foreignIff := reader.foreign_iff isNext (described ▸ first)
  have below := (List.getElem?_eq_some_iff.mp isNext).1
  by_cases isForeign : entry.Foreign queue.self.sid
  · have atCursor : index = ledger.cursor member := by
      refine Nat.le_antisymm (Nat.le_of_not_lt fun later => ?_) skips.lower
      exact skips.skipped _ entry (Nat.le_refl _) later isNext isForeign
    subst atCursor
    have isMessage : message = queue.self.messageDesc := by
      rcases skips.found with ⟨-, read⟩ | ⟨other, foundOther, -, isDesc⟩
      · omega
      · rw [isNext] at foundOther
        cases foundOther
        rw [described, isDesc]
    refine iff_of_true ⟨_, _, true, message.first, pops, gets, ?_,
      skips.removes reader { queue.self.messageDesc with first := [] } still acts.sid_eq below⟩
      ⟨position, rest, first, current, foreignIff.mpr isForeign⟩
    rw [isMessage]
    simp [cached]
  · refine iff_of_false ?_ ?_
    · rintro ⟨next, other, removed, chain, popsAsGet⟩
      have popsTwice := popsAsGet.pops
      rw [pops] at popsTwice
      cases popsTwice
      have present := popsAsGet.agrees.mp rfl
      have removes := congrArg List.length popsAsGet.removes
      rw [reader.pending_of_unforeign isNext isForeign _ still acts.sid_eq] at removes
      rcases List.exists_cons_of_ne_nil present with ⟨place, others, isCons⟩
      rw [isCons] at removes
      simp [MessageView.ofChain] at removes
    · rintro ⟨place, others, isCons, -, isOther⟩
      rw [first] at isCons
      rcases List.cons.inj isCons with ⟨rfl, -⟩
      exact isForeign (foreignIff.mp isOther)

theorem popsAsGet_iff (reader : SmartMember metered queue ledger member)
    (current : queue.count = 0 ∨ queue.self.messageDesc.first = [] ∨
      queue.baseGetMessage = .ok queue.self.messageDesc) :
    (∃ next found removed chain, PopsAsGet queue next found removed chain) ↔
      queue.PopSafe := by
  by_cases isEmpty : queue.count = 0
  · exact iff_of_true ⟨_, _, _, _, popsAsGet_of_empty isEmpty⟩ (.inl isEmpty)
  · have some : queue.count > 0 := by omega
    rw [PopSafe, or_iff_right isEmpty]
    by_cases uncached : queue.self.messageDesc.first = []
    · have notCached : ¬queue.CachesNext := by
        rintro ⟨position, rest, first, -⟩
        rw [uncached] at first
        cases first
      rw [reader.popsAsGet_uncached some uncached, or_iff_left notCached]
      exact (and_iff_right uncached).symm
    · rw [or_iff_right fun absent => uncached absent.1]
      exact reader.popsAsGet_cached some uncached
        ((current.resolve_left isEmpty).resolve_left uncached)

end SmartMember

instance (queue : Queue) : Decidable queue.CachesNext :=
  match isFirst : queue.self.messageDesc.first with
  | [] => isFalse (by
      rintro ⟨position, rest, first, -⟩
      rw [isFirst] at first
      cases first)
  | position :: rest => decidable_of_iff (queue.baseGetMessage = .ok queue.self.messageDesc ∧
      sid queue.memory.data position ≠ queue.self.sid ∧
      tag queue.memory.data position ≠ ServiceMessage.tag) (by
        constructor
        · exact fun reads => ⟨position, rest, isFirst, reads⟩
        · rintro ⟨place, others, first, reads⟩
          rw [isFirst] at first
          cases first
          exact reads)

instance (queue : Queue) : Decidable queue.PopSafe :=
  inferInstanceAs (Decidable (_ ∨ _ ∧ _ ∨ _))

end Queue

/-- In every state that sound calls lead to, it is safe to pop exactly when the cached
description is none or that of the next message, and `pop` does what it should. -/
theorem smart_queue_pops_as_get {first world : World} {labels : List (Action × Result)}
    (fresh : first.FreshSmart)
    (run : Run (fun world label next => world.SmartSound label.1 ∧ world.Step label next)
      first labels world) {id : Nat} (live : id ∈ world.live) :
    (world.queue id).PopSafe ↔ world.Current id ∧
      ∃ next found removed chain, Queue.PopsAsGet (world.queue id) next found removed chain := by
  rcases fresh.run run with ⟨ledger, smart⟩
  have popsAsGet := (smart.member live).popsAsGet_iff
  refine ⟨fun safe => ?_, fun both => (popsAsGet both.1).mp both.2⟩
  have current : world.Current id := by
    rcases safe with isEmpty | ⟨uncached, -⟩ | ⟨position, rest, -, isNext, -⟩
    · exact .inl isEmpty
    · exact .inr (.inl uncached)
    · exact .inr (.inr isNext)
  exact ⟨current, (popsAsGet current).mpr safe⟩

/-- A subscriber that has got nothing pops the message of another one, behind its service
message. -/
theorem smart_queue_pops_as_get_foreign : ∃ (world : World) (next found : Queue)
    (removed : Bool) (chain : Chain),
    (world.queue 0).pending = [⟨4, 3, [7, 7, 7]⟩] ∧
      Queue.PopsAsGet (world.queue 0) next found removed chain := by
  have fresh := World.freshSmart_created (by decide) (by decide) (by decide)
    (show (Queue.create .zeros .smart 0 300 1 [5]).isOk = true by decide +kernel)
  rcases World.exists_run World.SmartSound
    (show World.runs _ (World.created 0 (Queue.created .smart 300 1 [5]))
      [(.attach 1 .smart 2 [6], .done), (.push 1 4 [7, 7, 7] 8, .pushed true)]
      (fun world => decide (0 ∈ world.live ∧ (world.queue 0).PopSafe ∧
        (world.queue 0).pending = [⟨4, 3, [7, 7, 7]⟩])) = true by decide +kernel) with
    ⟨world, run, observed⟩
  rcases of_decide_eq_true observed with ⟨live, safe, pending⟩
  rcases (smart_queue_pops_as_get fresh run live).mp safe with
    ⟨-, next, found, removed, chain, popsAsGet⟩
  exact ⟨world, next, found, removed, chain, pending, popsAsGet⟩

/-- When all that is there is the service message of another subscriber, `pop` is called on
an empty pointer. -/
theorem smart_queue_pops_nothing : ∃ world : World,
    Run World.Step (World.created 0 (Queue.created .smart 300 1 [5]))
      [(.attach 1 .smart 2 [6], .done)] world ∧ 0 ∈ world.live ∧
    (world.queue 0).pop = .error .nullMessage ∧
    ¬∃ next found removed chain, Queue.PopsAsGet (world.queue 0) next found removed chain := by
  rcases World.exists_run (fun _ _ => True)
    (show World.runs _ (World.created 0 (Queue.created .smart 300 1 [5]))
      [(.attach 1 .smart 2 [6], .done)]
      (fun world => decide (0 ∈ world.live) && match (world.queue 0).pop with
        | .error fault => decide (fault = .nullMessage)
        | .ok _ => false) = true by decide +kernel) with ⟨world, run, observed⟩
  rw [Bool.and_eq_true, decide_eq_true_iff] at observed
  have fails : (world.queue 0).pop = .error .nullMessage := by
    cases pops : (world.queue 0).pop with
    | ok returned =>
        rw [pops] at observed
        cases observed.2
    | error fault =>
        rw [pops] at observed
        rw [of_decide_eq_true observed.2]
  refine ⟨world, run.mono fun step => step.2, observed.1, fails, ?_⟩
  rintro ⟨next, found, removed, chain, popsAsGet⟩
  have pops := popsAsGet.pops
  rw [fails] at pops
  cases pops

end Qbus
