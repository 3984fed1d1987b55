import Qbus.Queue.Booking

/-! # Handing over to a booked queue

The subscribers of a parent queue move to a queue that one of them has created with it. They
open it in any order, while those who have already opened it push, get and pop messages. -/

namespace Qbus

open Message Storage MachineWord

inductive HandoverLabel where
  | called (label : Action × Result)
  | opened (id : Nat)

namespace HandoverLabel

def call? : HandoverLabel → Option (Action × Result)
  | called label => some label
  | opened _ => none

end HandoverLabel

namespace World

def HandoverSafe (world : World) : Action → Prop
  | .push id tag data now =>
      world.SmartSound (.push id tag data now) ∧ tag.toNat ≠ ServiceMessage.tag
  | .pop id => (world.handle id).messageDesc.first ≠ []
  | .get _ => True
  | .clean _ => True
  | _ => False

instance (world : World) : DecidablePred world.HandoverSafe
  | .push id tag data now => inferInstanceAs (Decidable
      (world.SmartSound (.push id tag data now) ∧ tag.toNat ≠ ServiceMessage.tag))
  | .pop id => inferInstanceAs (Decidable ((world.handle id).messageDesc.first ≠ []))
  | .get _ => inferInstanceAs (Decidable True)
  | .clean _ => inferInstanceAs (Decidable True)
  | .attach _ _ _ _ => inferInstanceAs (Decidable False)
  | .destroy _ _ => inferInstanceAs (Decidable False)
  | .keepaliveTimeout _ => inferInstanceAs (Decidable False)

namespace HandoverSafe

variable {world : World} {action : Action}

theorem live (safe : world.HandoverSafe action) : world.liveAfter action = world.live := by
  cases action with
  | attach | destroy => cases safe
  | _ => rfl

theorem sids (safe : world.HandoverSafe action) (sids : Nat → Nat) : action.sids sids = sids := by
  cases action with
  | attach => cases safe
  | _ => rfl

theorem timeout (safe : world.HandoverSafe action) (timeout : Nat) :
    action.timeout timeout = timeout := by
  cases action with
  | keepaliveTimeout => cases safe
  | _ => rfl

end HandoverSafe

/-- A step in which a subscriber calls or opens the queue. The subscriber `id` belongs to the
process `sids id`. -/
inductive HandoverStep (subscribers : Finset Nat) (sids : Nat → Nat) :
    World → HandoverLabel → World → Prop
  | called {world label next} (safe : world.HandoverSafe label.1)
      (step : world.Step label next) : HandoverStep subscribers sids world (.called label) next
  | opened {world parent id next} (isSmart : parent.self.type = .smart)
      (expected : id ∈ subscribers) (closed : id ∉ world.live)
      (opens : world.openBooked parent id (sids id) = .ok next) :
      HandoverStep subscribers sids world (.opened id) next

end World

/-! ## Executing a handover -/

namespace World

def hand (subscribers : Finset Nat) (sids : Nat → Nat) (parent : Queue) (world : World) :
    HandoverLabel → Option World
  | .called (action, result) =>
      if world.HandoverSafe action ∧ world.Enabled action then
        match world.perform action with
        | .ok (returned, next) => if returned = result then some next else none
        | .error _ => none
      else none
  | .opened id =>
      if id ∈ subscribers ∧ id ∉ world.live then
        (world.openBooked parent id (sids id)).toOption
      else none

variable {subscribers : Finset Nat} {sids : Nat → Nat} {parent : Queue} {world final : World}

theorem step_of_hand (isSmart : parent.self.type = .smart) {label : HandoverLabel}
    (executed : world.hand subscribers sids parent label = some final) :
    HandoverStep subscribers sids world label final := by
  cases label with
  | called label =>
      rcases label with ⟨action, result⟩
      rw [hand] at executed
      split at executed
      case isFalse => cases executed
      case isTrue allowed =>
        cases performed : world.perform action with
        | error fault =>
            rw [performed] at executed
            cases executed
        | ok returned =>
            rcases returned with ⟨returned, next⟩
            simp only [performed] at executed
            split at executed
            case isFalse => cases executed
            case isTrue same =>
              cases executed
              rw [same] at performed
              exact .called allowed.1 ⟨allowed.2, performed⟩
  | opened id =>
      rw [hand] at executed
      split at executed
      case isFalse => cases executed
      case isTrue allowed =>
        cases opens : world.openBooked parent id (sids id) with
        | error fault =>
            rw [opens] at executed
            cases executed
        | ok next =>
            rw [opens] at executed
            cases executed
            exact .opened isSmart allowed.1 allowed.2 opens

end World

def Mailboxes.booked (subscribers : Finset Nat) (sids : Nat → Nat) : Mailboxes where
  members := subscribers
  sid := sids
  inbox := fun _ => []
  timeout := 0

theorem Mailboxes.Step.sid_eq {boxes next : Mailboxes} {label : Action × Result}
    (step : Step boxes label next) {world : World} (safe : world.HandoverSafe label.1) :
    next.sid = boxes.sid := by
  cases step with
  | attach => cases safe
  | _ => rfl

theorem Booked.append {log more : List Entry} {last : Nat} (isBooked : Booked log last)
    (user : ∀ entry ∈ more, entry.tag ≠ ServiceMessage.tag) : Booked (log ++ more) last := by
  have below := isBooked.below
  constructor
  · intro index entry found
    rcases Nat.lt_or_ge index log.length with older | newer
    · rw [List.getElem?_append_left older] at found
      exact isBooked.books index entry found
    · rw [List.getElem?_append_right newer] at found
      exact iff_of_false (fun books => user entry (List.mem_of_getElem? found) books.1) (by omega)
  · rw [List.getElem?_append_left below]
    exact isBooked.service

namespace Queue

variable {metered : Prop} {queue next : Queue} {ledger after : Ledger Nat Entry}
  {member other : Nat} {more : List Entry}

def Got (queue : Queue) (ledger : Ledger Nat Entry) (member : Nat) : Prop :=
  ∃ entry, ledger.log[ledger.cursor member]? = some entry ∧ entry.Foreign queue.self.sid ∧
    queue.self.messageDesc = desc queue.memory.capacity
      (start queue.memory.capacity ledger.log (ledger.cursor member)) entry.size

namespace Got

theorem of_evolves (got : queue.Got ledger member) (evolves : ledger.Evolves after other more)
    (cursor : after.cursor member = ledger.cursor member)
    (capacity : next.memory.capacity = queue.memory.capacity)
    (sid : next.self.sid = queue.self.sid)
    (desc : next.self.messageDesc = queue.self.messageDesc) : next.Got after member := by
  rcases got with ⟨entry, found, isForeign, described⟩
  have below := (List.getElem?_eq_some_iff.mp found).1
  refine ⟨entry, ?_, ?_, ?_⟩
  · rw [evolves.log, cursor, List.getElem?_append_left below]
    exact found
  · rw [sid]
    exact isForeign
  · rw [desc, capacity, evolves.log, cursor, start_append (Nat.le_of_lt below)]
    exact described

theorem cachesNext (got : queue.Got ledger member)
    (reader : SmartMember metered queue ledger member) : queue.CachesNext := by
  rcases got with ⟨entry, found, isForeign, described⟩
  rcases desc_first queue.memory.capacity
    (start queue.memory.capacity ledger.log (ledger.cursor member)) entry.size with ⟨rest, first⟩
  refine ⟨_, rest, by rw [described, first], ?_, (reader.foreign_iff found first).mpr isForeign⟩
  rw [described]
  exact reader.reads found

theorem of_skips {index : Nat} {message : MessageDesc} {found : Queue}
    (skips : Skips metered queue found ledger member index message)
    (present : message.first ≠ []) :
    Got { found with self := { found.self with messageDesc := message } }
      (ledger.seek member index) member := by
  rcases skips.found with ⟨none, -⟩ | ⟨entry, isEntry, isForeign, described⟩
  · rw [none] at present
    exact absurd rfl present
  · refine ⟨entry, ?_, ?_, ?_⟩
    · rw [Ledger.seek_cursor_self]
      exact isEntry
    · change entry.Foreign found.self.sid
      rw [skips.acts.sid_eq]
      exact isForeign
    · change message = desc found.memory.capacity (start found.memory.capacity ledger.log _) _
      rw [Ledger.seek_cursor_self, skips.acts.settings.capacity]
      exact described

end Got

theorem pop_first {removed : Bool} (pops : queue.pop = .ok (removed, next))
    (some : queue.count > 0) : next.self.messageDesc.first = [] := by
  rw [Queue.pop, if_pos some] at pops
  split at pops
  all_goals
    rcases Outcome.returned pops with ⟨⟨message, found⟩, -, later⟩
    rcases Outcome.returned later with ⟨popped, -, returns⟩
    cases returns
    rfl

end Queue

structure World.Handover (subscribers : Finset Nat) (sids : Nat → Nat) (world : World)
    (ledger : Ledger Nat Entry) : Prop where
  smart : SmartWorld False (subscribers \ world.live) world ledger
  inside : world.live ⊆ subscribers
  opened : world.live.Nonempty
  booked : Booked ledger.log (subscribers.card - 1)
  unleaked : ledger.leaked = fun _ => 0
  noTimeout : world.memory.keepaliveTimeout = 0
  passed : ∀ id ∈ world.live, subscribers.card ≤ ledger.cursor id
  sids : ∀ id ∈ world.live, (world.handle id).sid = sids id
  got : ∀ id ∈ world.live, (world.handle id).messageDesc.first ≠ [] →
    (world.queue id).Got ledger id

namespace World.Handover

variable {subscribers : Finset Nat} {sids : Nat → Nat} {world next : World}
  {ledger after : Ledger Nat Entry} {id other : Nat} {more : List Entry}
  {action : Action} {result : Result}

theorem got_others (handover : world.Handover subscribers sids ledger)
    (effect : SmartWorld.Effect False (subscribers \ world.live) world ledger (action, result)
      next after) (actor : action.actor = some id) (evolves : ledger.Evolves after id more)
    (live : other ∈ world.live) (different : other ≠ id)
    (present : (next.handle other).messageDesc.first ≠ []) : (next.queue other).Got after other := by
  have same : next.handle other = world.handle other := by
    apply effect.others
    change action.actor ≠ some other
    rw [actor]
    exact fun isOther => different (Option.some.inj isOther).symm
  rw [same] at present
  exact (handover.got other live present).of_evolves evolves (evolves.others other different)
    effect.capacity (congrArg Handle.sid same) (congrArg Handle.messageDesc same)

theorem got_kept (handover : world.Handover subscribers sids ledger)
    (effect : SmartWorld.Effect False (subscribers \ world.live) world ledger (action, result)
      next after) (actor : action.actor = some id) (evolves : ledger.Evolves after id more)
    (cursor : after.cursor id = ledger.cursor id)
    (sid : (next.handle id).sid = (world.handle id).sid)
    (kept : (next.handle id).messageDesc = (world.handle id).messageDesc)
    (live : other ∈ world.live) (present : (next.handle other).messageDesc.first ≠ []) :
    (next.queue other).Got after other := by
  by_cases same : other = id
  · subst same
    rw [kept] at present
    exact (handover.got other live present).of_evolves evolves cursor effect.capacity sid kept
  · exact handover.got_others effect actor evolves live same present

theorem called (handover : world.Handover subscribers sids ledger)
    (safe : world.HandoverSafe action) (enabled : world.Enabled action)
    (performed : world.perform action = .ok (result, next)) :
    ∃ after actor more,
      SmartWorld.Effect False (subscribers \ world.live) world ledger (action, result) next after ∧
      ledger.Evolves after actor more ∧ (∀ entry ∈ more, entry.tag ≠ ServiceMessage.tag) ∧
      ∀ other ∈ world.live, (next.handle other).messageDesc.first ≠ [] →
        (next.queue other).Got after other := by
  have same : ∀ {other : Result × World}, world.perform action = .ok other →
      other = (result, next) := fun returned =>
    Except.ok.inj (returned.symm.trans performed)
  have smart := handover.smart
  cases action with
  | push id tag data now =>
      have isLive : id ∈ world.live := enabled
      rcases smart.push safe.1.1 safe.1.2 isLive with
        ⟨accepted, pushed, after, pushes, returns, effect, -⟩
      rcases (smart.member isLive).push safe.1.1 tag.toNat now (fun _ => safe.1.2) with
        ⟨alike, other, during, pushesToo, acts, -⟩
      rw [pushes] at pushesToo
      cases pushesToo
      cases same returns
      have step := effect.step
      cases step with
      | @push _ _ _ _ _ _ entry shown own evolves kept inside =>
          refine ⟨after, id, _, effect, evolves, ?_, ?_⟩
          · intro message isMember
            have isEntry : message = entry := by
              cases accepted with
              | true => exact List.mem_singleton.mp isMember
              | false => cases isMember
            have isTag : entry.tag = tag.toNat := congrArg MessageView.tag shown
            rw [isEntry, isTag]
            exact safe.2
          · intro other otherLive present
            refine handover.got_kept effect rfl evolves (by rw [kept handover.noTimeout]) ?_ ?_
              otherLive present
            · rw [World.update_handle_self]
              exact acts.sid_eq
            · rw [World.update_handle_self]
              exact acts.messageDesc_eq
  | get id =>
      have isLive : id ∈ world.live := enabled.1
      have reader := smart.member isLive
      rcases reader.get with ⟨index, message, found, skips, -, gets⟩
      have returns : world.perform (.get id) = .ok (.message (ledger.log[index]?.map Entry.view),
          world.update id { found with self := { found.self with messageDesc :=
            if (world.queue id).count > 0 then message else
              (world.queue id).self.messageDesc } }) := by
        rw [World.perform]
        simp only [gets, Bind.bind, Except.bind, pure, Except.pure, skips.shows]
      cases same returns
      have effect := smart.effect isLive rfl skips.acts skips.reader
        (if (world.queue id).count > 0 then message else (world.queue id).self.messageDesc)
        (.get skips.seeks (by
          intro entry foundEntry
          rcases skips.found with ⟨-, rfl⟩ | ⟨other, foundOther, isForeign, -⟩
          · rw [List.getElem?_eq_none (Nat.le_refl _)] at foundEntry
            cases foundEntry
          · rw [foundOther] at foundEntry
            cases foundEntry
            exact isForeign) skips.inside)
      refine ⟨_, id, [], effect, .seek skips.lower, fun _ none => absurd none List.not_mem_nil, ?_⟩
      intro other otherLive present
      by_cases isActor : other = id
      · subst isActor
        rw [World.update_handle_self] at present
        rw [World.update_queue_self]
        by_cases some : (world.queue other).count > 0
        · rw [if_pos some] at present ⊢
          exact .of_skips skips present
        · rw [if_neg some] at present
          rcases handover.got other otherLive present with ⟨entry, isEntry, -⟩
          have below := (List.getElem?_eq_some_iff.mp isEntry).1
          have countEq := reader.count_eq
          omega
      · exact handover.got_others effect rfl (.seek skips.lower) otherLive isActor present
  | pop id =>
      have isLive : id ∈ world.live := enabled.1
      have reader := smart.member isLive
      have got := handover.got id isLive safe
      rcases got.cachesNext reader with ⟨position, rest, first, isNext, -⟩
      rcases smart.pop (.inr (.inr isNext)) isLive performed with ⟨after, effect⟩
      rcases got with ⟨entry, found, -⟩
      have below := (List.getElem?_eq_some_iff.mp found).1
      have countEq := reader.count_eq
      rcases Outcome.returned performed with ⟨⟨removed, popped⟩, pops, returns⟩
      cases returns
      have uncached := Queue.pop_first pops (by omega)
      have step := effect.step
      cases step with
      | @pop _ index seeks unread =>
          have lower : ledger.cursor id ≤ index + 1 := Nat.le_succ_of_le seeks.lower
          refine ⟨_, id, [], effect, .seek lower, fun _ none => absurd none List.not_mem_nil, ?_⟩
          intro other otherLive present
          by_cases isActor : other = id
          · subst isActor
            rw [World.update_handle_self] at present
            exact absurd uncached present
          · exact handover.got_others effect rfl (.seek lower) otherLive isActor present
      | popNone read => omega
  | clean id =>
      have isLive : id ∈ world.live := enabled
      have reader := smart.member isLive
      rcases smart.clean isLive with ⟨other, cleaned, after, returns, effect⟩
      rcases Queue.cleanMessages_eq reader.counted reader.tracks reader.walkable with
        ⟨count, info, memory, cleans, -⟩
      rw [Queue.collector_of_ne _ _ (by simp [reader.smart])] at cleans
      have returnsToo : world.perform (.clean id) =
          .ok (.cleaned info.first, world.update id ⟨memory, (world.queue id).self⟩) := by
        simp only [World.perform, Queue.clean, cleans, Bind.bind, Except.bind, pure, Except.pure]
      rw [returns] at returnsToo
      cases returnsToo
      cases same returns
      have step := effect.step
      cases step with
      | @clean _ _ garbage =>
          refine ⟨_, id, [], effect, .collect garbage id,
            fun _ none => absurd none List.not_mem_nil, ?_⟩
          intro other otherLive present
          refine handover.got_kept effect rfl (.collect garbage id) rfl ?_ ?_ otherLive present
          · rw [World.update_handle_self]
            rfl
          · rw [World.update_handle_self]
            rfl
  | attach => cases safe
  | destroy => cases safe
  | keepaliveTimeout => cases safe

theorem call (handover : world.Handover subscribers sids ledger) {boxes : Mailboxes}
    (mails : world.Mails ledger boxes) {label : Action × Result}
    (safe : world.HandoverSafe label.1) (step : world.Step label next) :
    ∃ after nextBoxes, next.Handover subscribers sids after ∧ next.Mails after nextBoxes ∧
      Mailboxes.Step boxes label nextBoxes := by
  have smart := handover.smart
  rcases handover.called safe step.1 step.2 with ⟨after, actor, more, effect, evolves, user, got⟩
  have live := (World.perform_live step.2).trans safe.live
  have sameSid : ∀ other, (next.handle other).sid = (world.handle other).sid := by
    intro other
    rw [World.perform_sids step.2, safe.sids]
  have popped : ∀ id, label = (.pop id, .popped true) → boxes.inbox id ≠ [] ∧
      (Queue.foreign after id (boxes.sid id)).map Entry.view = (boxes.inbox id).tail := by
    rintro id rfl
    have isLive : id ∈ world.live := step.1.1
    have caches := (handover.got id isLive safe).cachesNext (smart.member isLive)
    have current : world.Current id := by
      rcases caches with ⟨position, rest, -, isNext, -⟩
      exact .inr (.inr isNext)
    exact mails.popped smart isLive (.inr (.inr caches)) current effect.smart live step.2
  rcases mails.step smart step.1 effect (World.perform_live step.2)
    (fun other _ => World.perform_sids step.2 other) popped with ⟨nextBoxes, delivers, shown⟩
  refine ⟨after, nextBoxes, ⟨?_, ?_, ?_, ?_, ?_, ?_, ?_, ?_, ?_⟩, shown, delivers⟩
  · rw [live]
    exact effect.smart
  · rw [live]
    exact handover.inside
  · rw [live]
    exact handover.opened
  · rw [evolves.log]
    exact handover.booked.append user
  · exact evolves.leaked.trans handover.unleaked
  · rw [effect.timeout, safe.timeout]
    exact handover.noTimeout
  · intro other isLive
    rw [live] at isLive
    refine (handover.passed other isLive).trans ?_
    by_cases same : other = actor
    · rw [same]
      exact evolves.cursor
    · exact (evolves.others other same).ge
  · intro other isLive
    rw [live] at isLive
    exact (sameSid other).trans (handover.sids other isLive)
  · intro other isLive
    rw [live] at isLive
    exact got other isLive

theorem last_pos (handover : world.Handover subscribers sids ledger) (expected : id ∈ subscribers)
    (closed : id ∉ world.live) : 0 < subscribers.card - 1 := by
  rcases handover.opened with ⟨other, isLive⟩
  have different : other ≠ id := by
    intro same
    rw [same] at isLive
    exact closed isLive
  have two := Finset.one_lt_card.mpr ⟨other, handover.inside isLive, id, expected, different⟩
  omega

theorem opens (handover : world.Handover subscribers sids ledger) {boxes : Mailboxes}
    (mails : world.Mails ledger boxes) (same : ∀ id ∈ subscribers, boxes.sid id = sids id)
    (words : ∀ id ∈ subscribers, sids id < 2 ^ 32) {parent : Queue}
    (isSmart : parent.self.type = .smart) (expected : id ∈ subscribers)
    (closed : id ∉ world.live) :
    ∃ next after, world.openBooked parent id (sids id) = .ok next ∧
      next.Handover subscribers sids after ∧ next.Mails after boxes := by
  have smart := handover.smart
  have booked := handover.booked
  have member := Finset.mem_sdiff.mpr ⟨expected, closed⟩
  have positive := handover.last_pos expected closed
  have last : subscribers.card - 1 + 1 = subscribers.card := by omega
  rcases smart.openBooked isSmart member booked positive (words id expected) with
    ⟨queue, opens, still, sid, uncached, settings⟩
  have seeks := smart.seeks_books member booked (sids id)
  have handleOf : ∀ other ∈ insert id world.live, other = id ∨
      other ∈ world.live ∧ other ≠ id := by
    intro other isLive
    by_cases isNew : other = id
    · exact .inl isNew
    · exact .inr ⟨Finset.mem_of_mem_insert_of_ne isLive isNew, isNew⟩
  have sidOf : ∀ other ∈ insert id world.live,
      ((world.update id queue).handle other).sid = sids other := by
    intro other isLive
    rcases handleOf other isLive with rfl | ⟨older, different⟩
    · rw [World.update_handle_self]
      exact sid
    · rw [World.update_handle_of_ne world queue different]
      exact handover.sids other older
  refine ⟨_, ledger.seek id (subscribers.card - 1 + 1), opens,
    ⟨?_, ?_, Finset.insert_nonempty id world.live, booked, handover.unleaked,
      settings.keepaliveTimeout.trans handover.noTimeout, ?_, sidOf, ?_⟩,
    ⟨mails.members, mails.timeout.trans settings.keepaliveTimeout.symm, ?_, ?_⟩⟩
  · change SmartWorld False (subscribers \ insert id world.live) _ _
    rw [Finset.sdiff_insert]
    exact still
  · exact Finset.insert_subset expected handover.inside
  · intro other isLive
    rcases handleOf other isLive with rfl | ⟨older, different⟩
    · rw [Ledger.seek_cursor_self, last]
    · rw [ledger.seek_cursor_of_ne different]
      exact handover.passed other older
  · intro other isLive present
    change ((world.update id queue).handle other).messageDesc.first ≠ [] at present
    rcases handleOf other isLive with rfl | ⟨older, different⟩
    · rw [World.update_handle_self, uncached] at present
      exact absurd rfl present
    · have sameHandle := World.update_handle_of_ne world queue different
      rw [sameHandle] at present
      exact (handover.got other older present).of_evolves (.seek seeks.lower)
        (ledger.seek_cursor_of_ne different) settings.capacity (congrArg Handle.sid sameHandle)
        (congrArg Handle.messageDesc sameHandle)
  · intro other isLive
    rw [same other (Finset.insert_subset expected handover.inside isLive)]
    exact (sidOf other isLive).symm
  · intro other isMember
    rw [mails.inboxes other isMember]
    by_cases isNew : other = id
    · rw [isNew, same id expected, Queue.foreign_seek seeks]
    · rw [Queue.foreign_seek_of_ne isNew]

end World.Handover

/-! ## What is observed -/

theorem length_filter_of_first {α : Type} {selects : α → Bool} {list : List α} {last : Nat}
    (inside : last ≤ list.length) (isFirst : ∀ index item, list[index]? = some item →
      (selects item = true ↔ index < last)) : (list.filter selects).length = last := by
  have front : (list.take last).filter selects = list.take last := by
    apply List.filter_eq_self.mpr
    intro item member
    rcases List.getElem?_of_mem member with ⟨index, found⟩
    rw [List.getElem?_take] at found
    split at found
    case isTrue below => exact (isFirst index item found).mpr below
    case isFalse => cases found
  have back : (list.drop last).filter selects = [] := by
    apply List.filter_eq_nil_iff.mpr
    intro item member selected
    rcases List.getElem?_of_mem member with ⟨index, found⟩
    rw [List.getElem?_drop] at found
    have below := (isFirst _ item found).mp selected
    omega
  rw [← List.take_append_drop last list, List.filter_append, front, back, List.append_nil,
    List.length_take, Nat.min_eq_left inside]

theorem Ring.stored_books {memory : QueueMemory} {log : List Entry} {base offset : Nat}
    {refs : Nat → Nat} {desc : MessageDesc} (ring : Ring memory log base refs)
    (stored : memory.stored[offset]? = some desc) :
    ∃ entry, log[base + offset]? = some entry ∧
      (tag memory.data (desc.first.headD 0) = ServiceMessage.tag ∧
        ServiceMessage.code memory.data (desc.first.headD 0) =
          ServiceMessage.Code.book.toByte ↔ entry.Books) ∧
      counter memory.data (desc.first.headD 0) = refs (base + offset) := by
  rw [ring.stored_getElem?, Option.map_eq_some_iff] at stored
  rcases stored with ⟨entry, found, described⟩
  rcases desc_first memory.capacity (start memory.capacity log (base + offset)) entry.size with
    ⟨rest, first⟩
  have header := (ring.view (Nat.le_add_right base offset) found).2.2
  have code := (ring.holds _ _ (Nat.le_add_right base offset) found).code_eq entry.nonempty
  have sameTag : tag memory.data (headerPlace memory.capacity
      (start memory.capacity log (base + offset)) entry.size) = entry.tag :=
    congrArg Header.tag header
  refine ⟨entry, found, ?_, ?_⟩
  · rw [← described, first, List.headD_cons, sameTag]
    exact and_congr_right fun _ => by
      rw [← code]
      rfl
  · rw [← described, first, List.headD_cons]
    exact congrArg Header.counter header

namespace World.Handover

variable {subscribers : Finset Nat} {sids : Nat → Nat} {world : World} {ledger : Ledger Nat Entry}

theorem members (handover : world.Handover subscribers sids ledger) :
    ledger.members = subscribers := by
  rw [handover.smart.members]
  exact Finset.union_sdiff_of_subset handover.inside

theorem refs_eq (handover : world.Handover subscribers sids ledger) {index : Nat}
    (isBook : index < subscribers.card - 1) :
    ledger.refs index = (subscribers \ world.live).card := by
  have waiting : ledger.waiting index = subscribers \ world.live := by
    ext id
    rw [Ledger.mem_waiting, handover.members, Finset.mem_sdiff]
    refine and_congr_right fun isMember => ?_
    by_cases isLive : id ∈ world.live
    · have passed := handover.passed id isLive
      exact iff_of_false (by omega) (not_not_intro isLive)
    · have unread := handover.smart.unread id (Finset.mem_sdiff.mpr ⟨isMember, isLive⟩)
      exact iff_of_true (by omega) isLive
  rw [Ledger.refs, waiting, handover.unleaked]
  exact Nat.add_zero _

theorem bookings_eq (handover : world.Handover subscribers sids ledger) :
    ∀ references ∈ world.memory.bookings, references = (subscribers \ world.live).card := by
  intro references isCounter
  rcases List.mem_map.mp isCounter with ⟨desc, selected, rfl⟩
  rcases List.mem_filter.mp selected with ⟨isStored, books⟩
  rcases List.getElem?_of_mem isStored with ⟨offset, stored⟩
  rcases handover.smart.tracks.ring.stored_books stored with ⟨entry, found, booksIff, counted⟩
  rw [counted]
  apply handover.refs_eq
  exact (handover.booked.books _ entry found).mp (booksIff.mp (of_decide_eq_true books))

theorem length_bookings (handover : world.Handover subscribers sids ledger)
    (closed : world.live ≠ subscribers) :
    world.memory.bookings.length = subscribers.card - 1 := by
  have ring := handover.smart.tracks.ring
  have below := handover.booked.below
  have stored : ledger.collected = 0 := by
    have missing : ∃ id ∈ subscribers, id ∉ world.live := by
      by_contra none
      push Not at none
      exact closed (Finset.Subset.antisymm handover.inside none)
    rcases missing with ⟨id, isMember, isClosed⟩
    have bound := handover.smart.tracks.valid.cursorGe id (by
      rw [handover.members]
      exact isMember)
    rw [handover.smart.unread id (Finset.mem_sdiff.mpr ⟨isMember, isClosed⟩)] at bound
    exact Nat.le_zero.mp bound
  have countEq := ring.countEq
  rw [QueueMemory.bookings, List.length_map]
  apply length_filter_of_first
  · rw [ring.length_stored]
    omega
  · intro offset desc isStored
    rcases ring.stored_books isStored with ⟨entry, found, booksIff, -⟩
    rw [decide_eq_true_iff, booksIff, handover.booked.books _ entry found, stored, Nat.zero_add]

theorem returns (handover : world.Handover subscribers sids ledger) {action : Action}
    (safe : world.HandoverSafe action) (enabled : world.Enabled action) :
    ∃ result next, world.perform action = .ok (result, next) := by
  have smart := handover.smart
  cases action with
  | push id tag data now =>
      rcases smart.push safe.1.1 safe.1.2 enabled with ⟨accepted, next, -, -, performed, -⟩
      exact ⟨_, _, performed⟩
  | get id =>
      rcases smart.get enabled.1 with ⟨result, next, -, performed, -⟩
      exact ⟨_, _, performed⟩
  | pop id =>
      have isLive : id ∈ world.live := enabled.1
      have reader := smart.member isLive
      have caches := (handover.got id isLive safe).cachesNext reader
      rcases caches with ⟨position, rest, first, isNext, isForeign⟩
      rcases (reader.popsAsGet_iff (.inr (.inr isNext))).mpr
        (.inr (.inr ⟨position, rest, first, isNext, isForeign⟩)) with
        ⟨popped, found, removed, chain, popsAsGet⟩
      rw [World.perform, popsAsGet.pops]
      exact ⟨_, _, rfl⟩
  | clean id =>
      rcases smart.clean enabled with ⟨result, next, -, performed, -⟩
      exact ⟨_, _, performed⟩
  | attach => cases safe
  | destroy => cases safe
  | keepaliveTimeout => cases safe

theorem step (handover : world.Handover subscribers sids ledger) {boxes : Mailboxes}
    (mails : world.Mails ledger boxes) (same : boxes.sid = sids)
    (words : ∀ id ∈ subscribers, sids id < 2 ^ 32) {label : HandoverLabel} {next : World}
    (step : World.HandoverStep subscribers sids world label next) :
    ∃ after nextBoxes, next.Handover subscribers sids after ∧ next.Mails after nextBoxes ∧
      nextBoxes.sid = sids ∧ (label.call? = none → nextBoxes = boxes) ∧
      ∀ shown, label.call? = some shown → Mailboxes.Step boxes shown nextBoxes := by
  cases step with
  | called safe step =>
      rcases handover.call mails safe step with ⟨after, nextBoxes, still, shown, delivers⟩
      refine ⟨after, nextBoxes, still, shown, (delivers.sid_eq safe).trans same, ?_, ?_⟩
      · intro none
        cases none
      · intro label isLabel
        cases isLabel
        exact delivers
  | opened isSmart expected closed opens =>
      rcases handover.opens mails (fun id _ => congrFun same id) words isSmart expected closed with
        ⟨other, after, opensToo, still, shown⟩
      rw [opens] at opensToo
      cases opensToo
      refine ⟨after, boxes, still, shown, same, fun _ => rfl, ?_⟩
      intro label isLabel
      cases isLabel

theorem created (raw : QueueMemory) (qid : Nat) {parent : Queue} {creator capacity : Nat}
    {bookClock : Nat → List Nat} {clock : List Nat} (isSmart : parent.self.type = .smart)
    (subscribed : parent.memory.subscriptionsCount = subscribers.card)
    (few : subscribers.card < 2 ^ 32) (isMember : creator ∈ subscribers)
    (word : sids creator < 2 ^ 32) (bounded : capacity < 2 ^ 32)
    (room : subscribers.card * (headerSize + 1) ≤ capacity)
    (attempts : ∀ index, bookClock index ≠ []) (attempt : clock ≠ []) :
    ∃ queue ledger, Queue.createBooked raw qid capacity (sids creator) (some parent) bookClock
        clock = .ok queue ∧
      (World.created creator queue).Handover subscribers sids ledger ∧
      (World.created creator queue).Mails ledger (.booked subscribers sids) := by
  have positive := Finset.card_pos.mpr ⟨creator, isMember⟩
  have card : (subscribers.erase creator).card + 1 = subscribers.card :=
    Finset.card_erase_add_one isMember
  rw [← card] at few room subscribed
  rcases SmartWorld.createdBooked raw qid isSmart (Finset.notMem_erase creator subscribers)
    subscribed few word bounded room attempts attempt with
    ⟨queue, ledger, creates, smart, booked, unleaked, length, cursor, noTimeout, sid, uncached⟩
  rw [card] at length cursor
  have last : (subscribers.erase creator).card = subscribers.card - 1 := by omega
  rw [last] at booked
  have begins : (World.created creator queue).Handover subscribers sids ledger := by
    refine ⟨?_, ?_, Finset.singleton_nonempty creator, booked, unleaked, noTimeout, ?_, ?_, ?_⟩
    · change SmartWorld False (subscribers \ {creator}) _ _
      rw [Finset.sdiff_singleton_eq_erase]
      exact smart
    · exact Finset.singleton_subset_iff.mpr isMember
    · intro id isLive
      rw [Finset.mem_singleton.mp isLive, cursor]
    · intro id isLive
      rw [Finset.mem_singleton.mp isLive]
      exact sid
    · intro id _ present
      change queue.self.messageDesc.first ≠ [] at present
      rw [uncached] at present
      exact absurd rfl present
  refine ⟨queue, ledger, creates, begins, begins.members.symm, noTimeout.symm,
    fun id isLive => (begins.sids id isLive).symm, ?_⟩
  intro id _
  have none : Queue.foreign ledger id (sids id) = [] := by
    apply List.filter_eq_nil_iff.mpr
    intro entry isEntry
    rcases List.getElem?_of_mem (List.mem_of_mem_drop isEntry) with ⟨index, found⟩
    have below := (List.getElem?_eq_some_iff.mp found).1
    have service := booked.service_of_le found (by omega)
    simp [Entry.Foreign, service]
  change [] = (Queue.foreign ledger id (sids id)).map Entry.view
  rw [none]
  rfl

end World.Handover

/-- The subscribers of a parent queue move to a queue that one of them creates with it, if the
booking messages have room there. In every order of opening the queue and of calls of those
who have opened it, a booking message is referenced by those who have not opened the queue
yet, all of them can open it, and every subscriber has a mailbox from the beginning on, in
which it finds what the others push, also before it opens the queue. -/
theorem booked_queue_hands_over (raw : QueueMemory) (qid : Nat) {parent : Queue}
    {subscribers : Finset Nat} {creator capacity : Nat} {sids : Nat → Nat}
    {bookClock : Nat → List Nat} {clock : List Nat} (isSmart : parent.self.type = .smart)
    (subscribed : parent.memory.subscriptionsCount = subscribers.card)
    (few : subscribers.card < 2 ^ 32) (isMember : creator ∈ subscribers)
    (words : ∀ id ∈ subscribers, sids id < 2 ^ 32) (bounded : capacity < 2 ^ 32)
    (room : subscribers.card * (headerSize + 1) ≤ capacity)
    (attempts : ∀ index, bookClock index ≠ []) (attempt : clock ≠ []) :
    ∃ queue, Queue.createBooked raw qid capacity (sids creator) (some parent) bookClock clock =
        .ok queue ∧
      ∀ labels world, Run (World.HandoverStep subscribers sids) (World.created creator queue)
        labels world →
      world.memory.subscriptionsCount = subscribers.card ∧
      (∀ references ∈ world.memory.bookings, references = (subscribers \ world.live).card) ∧
      (world.live ≠ subscribers → world.memory.bookings.length = subscribers.card - 1) ∧
      (∀ id ∈ subscribers, id ∉ world.live → ∀ parent : Queue, parent.self.type = .smart →
        ∃ next, world.openBooked parent id (sids id) = .ok next) ∧
      (∀ action, world.HandoverSafe action → world.Enabled action →
        ∃ result next, world.perform action = .ok (result, next)) ∧
      ∃ boxes, Run Mailboxes.Step (.booked subscribers sids)
          (labels.filterMap HandoverLabel.call?) boxes ∧
        ∀ id ∈ world.live, (world.queue id).pending = boxes.inbox id := by
  rcases World.Handover.created raw qid isSmart subscribed few isMember (words creator isMember)
    bounded room attempts attempt with ⟨queue, ledger, creates, begins, empty⟩
  refine ⟨queue, creates, ?_⟩
  intro labels world run
  rcases run.simulate_shown HandoverLabel.call? Mailboxes.Step
    (fun world boxes => boxes.sid = sids ∧ ∃ ledger, world.Handover subscribers sids ledger ∧
      world.Mails ledger boxes)
    (by
      rintro world boxes label next ⟨same, ledger, handover, mails⟩ step
      rcases handover.step mails same words step with
        ⟨after, nextBoxes, still, shown, sid, silent, delivers⟩
      exact ⟨nextBoxes, ⟨sid, after, still, shown⟩, silent, delivers⟩)
    ⟨rfl, ledger, begins, empty⟩ with ⟨boxes, delivers, same, after, handover, mails⟩
  refine ⟨?_, handover.bookings_eq, handover.length_bookings, ?_,
    fun action => handover.returns, boxes, delivers, ?_⟩
  · rw [handover.smart.subscribed, handover.members]
  · intro id expected closed parent isSmart
    rcases handover.opens mails (fun id _ => congrFun same id) words isSmart expected closed with
      ⟨next, -, opens, -⟩
    exact ⟨next, opens⟩
  · intro id isLive
    have reader := handover.smart.member isLive
    rw [mails.inboxes id reader.isMember, mails.sids id isLive, reader.pending_eq]
    rfl

/-- The object 2 reads the message that the object 0 has pushed before the object 2 has opened
the queue, and the object 1 has not opened it. -/
theorem booked_queue_hands_over_three : ∃ (parent queue : Queue) (world : World)
    (boxes : Mailboxes),
    Queue.createBooked .zeros 1 300 1 (some parent) (fun _ => [7]) [8] = .ok queue ∧
    Run (World.HandoverStep {0, 1, 2} Nat.succ) (World.created 0 queue)
      [.called (.push 0 4 [5, 6] 9, .pushed true), .opened 2,
        .called (.get 2, .message (some ⟨4, 2, [5, 6]⟩)), .called (.pop 2, .popped true)] world ∧
    world.memory.subscriptionsCount = 3 ∧ world.memory.bookings = [1, 1] ∧
    Run Mailboxes.Step (.booked {0, 1, 2} Nat.succ)
      [(.push 0 4 [5, 6] 9, .pushed true), (.get 2, .message (some ⟨4, 2, [5, 6]⟩)),
        (.pop 2, .popped true)] boxes := by
  have handed := @booked_queue_hands_over .zeros 1
    ⟨{ QueueMemory.zeros with subscriptionsCount := 3 }, Queue.newHandle .smart 1 0⟩ {0, 1, 2} 0
    300 Nat.succ (fun _ => [7]) [8] rfl rfl (by decide) (by decide) (by decide) (by decide)
    (by decide) (fun _ => List.cons_ne_nil _ _) (List.cons_ne_nil _ _)
  rcases handed with ⟨queue, creates, runs⟩
  have executed : ((Queue.createBooked .zeros 1 300 1 (some ⟨{ QueueMemory.zeros with
      subscriptionsCount := 3 }, Queue.newHandle .smart 1 0⟩) (fun _ => [7]) [8]).toOption.bind
      fun queue => [.called (.push 0 4 [5, 6] 9, .pushed true), .opened 2,
        .called (.get 2, .message (some ⟨4, 2, [5, 6]⟩)), .called (.pop 2, .popped true)].foldlM
          (World.hand {0, 1, 2} Nat.succ ⟨{ QueueMemory.zeros with subscriptionsCount := 3 },
            Queue.newHandle .smart 1 0⟩) (World.created 0 queue)).any
      (fun world => decide (world.memory.bookings = [1, 1])) = true := by decide +kernel
  rw [creates] at executed
  rcases (Option.any_eq_true _ _).mp executed with ⟨world, ran, observed⟩
  have run := Run.of_foldlM (World.step_of_hand rfl) ran
  rcases runs _ world run with ⟨subscribed, -, -, -, -, boxes, delivers, -⟩
  exact ⟨_, queue, world, boxes, creates, run, subscribed, of_decide_eq_true observed, delivers⟩

end Qbus
