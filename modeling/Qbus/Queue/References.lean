import Qbus.Queue.Mailboxes

/-! # References to the messages of a smart queue

As long as the objects belong to different processes, an object that is destroyed reads up to
the very last message, which is its own. It leaves no reference behind, so that the messages
are referenced by those who still have to read them. -/

namespace Qbus

open Storage MachineWord

/-- The number of objects that have not read a message, for every stored message, the oldest
one first. -/
def World.awaited (world : World) : List Nat :=
  (List.range world.memory.count).map fun offset =>
    {id ∈ world.live | world.memory.count ≤ offset + (world.queue id).count}.card

/-- The steps of smart queues of different processes, whose messages are not taken for service
messages. -/
def World.SmartApart (world : World) (action : Action) : Prop :=
  world.SmartSound action ∧ match action with
    | .attach _ _ sid _ => ∀ id ∈ world.live, (world.handle id).sid ≠ sid
    | .push _ tag _ _ => tag.toNat ≠ ServiceMessage.tag
    | _ => True

instance (world : World) : DecidablePred world.SmartApart
  | .attach id type sid clock => inferInstanceAs
      (Decidable (world.SmartSound (.attach id type sid clock) ∧
        ∀ id ∈ world.live, (world.handle id).sid ≠ sid))
  | .push id tag data now => inferInstanceAs
      (Decidable (world.SmartSound (.push id tag data now) ∧ tag.toNat ≠ ServiceMessage.tag))
  | .get id => inferInstanceAs (Decidable (world.SmartSound (.get id) ∧ True))
  | .pop id => inferInstanceAs (Decidable (world.SmartSound (.pop id) ∧ True))
  | .clean id => inferInstanceAs (Decidable (world.SmartSound (.clean id) ∧ True))
  | .destroy id clock => inferInstanceAs
      (Decidable (world.SmartSound (.destroy id clock) ∧ True))
  | .keepaliveTimeout value => inferInstanceAs
      (Decidable (world.SmartSound (.keepaliveTimeout value) ∧ True))

/-- No reference has been left behind, and no object will find a message of its own process
that closes the queue. -/
structure World.Tidy (world : World) (ledger : Ledger Nat Entry) : Prop where
  unleaked : ledger.leaked = fun _ => 0
  distinct : ∀ id ∈ world.live, ∀ other ∈ world.live,
    (world.handle id).sid = (world.handle other).sid → id = other
  unclosed : ∀ id ∈ world.live, ∀ index entry, ledger.cursor id ≤ index →
    ledger.log[index]? = some entry → ¬entry.Disconnects (world.handle id).sid

theorem Entry.not_disconnects_of_code {entry : Entry} {code : ServiceMessage.Code}
    (shown : entry.view = ⟨ServiceMessage.tag, 1, [code.toByte]⟩) (other : code ≠ .disconnect)
    (sid : Nat) : ¬entry.Disconnects sid := by
  rintro ⟨-, -, closes⟩
  have payload : entry.payload = [code.toByte] := congrArg MessageView.bytes shown
  simp only [payload, List.head_cons] at closes
  cases code with
  | connect => cases closes
  | book => cases closes
  | disconnect => exact other rfl

namespace World.Tidy

variable {metered : Prop} {world next : World} {ledger after : Ledger Nat Entry} {id other : Nat}
  {more : List Entry}

theorem later (tidy : world.Tidy ledger) (evolves : ledger.Evolves after id more)
    (live : other ∈ world.live)
    (harmless : ∀ entry ∈ more, ¬entry.Disconnects (world.handle other).sid) {index : Nat}
    {entry : Entry} (unread : after.cursor other ≤ index)
    (found : after.log[index]? = some entry) : ¬entry.Disconnects (world.handle other).sid := by
  have moved : ledger.cursor other ≤ after.cursor other := by
    by_cases same : other = id
    · rw [same]
      exact evolves.cursor
    · rw [evolves.others other same]
  rw [evolves.log] at found
  rcases Nat.lt_or_ge index ledger.log.length with older | newer
  · rw [List.getElem?_append_left older] at found
    exact tidy.unclosed other live index entry (Nat.le_trans moved unread) found
  · rw [List.getElem?_append_right newer] at found
    exact harmless entry (List.mem_of_getElem? found)

theorem stays (tidy : world.Tidy ledger) (evolves : ledger.Evolves after id more)
    (live : next.live = world.live)
    (sids : ∀ other, (next.handle other).sid = (world.handle other).sid)
    (harmless : ∀ other ∈ world.live, ∀ entry ∈ more,
      ¬entry.Disconnects (world.handle other).sid) : next.Tidy after where
  unleaked := evolves.leaked.trans tidy.unleaked
  distinct := by
    intro first firstLive second secondLive same
    rw [live] at firstLive secondLive
    rw [sids, sids] at same
    exact tidy.distinct first firstLive second secondLive same
  unclosed := by
    intro other isLive index entry unread found
    rw [live] at isLive
    rw [sids]
    exact tidy.later evolves isLive (harmless other isLive) unread found

theorem seek (tidy : world.Tidy ledger) {index : Nat} (forward : ledger.cursor id ≤ index)
    (live : next.live = world.live)
    (sids : ∀ other, (next.handle other).sid = (world.handle other).sid) :
    next.Tidy (ledger.seek id index) := by
  exact tidy.stays (.seek forward) live sids fun _ _ _ member => absurd member List.not_mem_nil

theorem unleaked_leave (unleaked : ledger.leaked = fun _ => 0)
    (read : ledger.log.length ≤ ledger.cursor id) : (ledger.leave id).leaked = fun _ => 0 := by
  funext index
  have outside : ¬(ledger.cursor id ≤ index ∧ index < ledger.log.length) := by omega
  change ledger.leaked index + (if _ then 1 else 0) = 0
  rw [unleaked, if_neg outside]

/-- An object that closes the queue reads up to its own message, which is the last one. -/
theorem last_eq (tidy : world.Tidy ledger) (live : id ∈ world.live) {during : Ledger Nat Entry}
    {entry closing : Entry} {last : Nat} (evolves : ledger.Evolves during id [entry])
    (lower : during.cursor id ≤ last) (found : during.log[last]? = some closing)
    (closes : closing.Disconnects (world.handle id).sid) : last + 1 = during.log.length := by
  have below := (List.getElem?_eq_some_iff.mp found).1
  have length : during.log.length = ledger.log.length + 1 := by
    rw [evolves.log, List.length_append, List.length_singleton]
  have notOlder : ¬last < ledger.log.length := by
    intro older
    rw [evolves.log, List.getElem?_append_left older] at found
    exact tidy.unclosed id live last closing (Nat.le_trans evolves.cursor lower) found closes
  omega

theorem step (tidy : world.Tidy ledger) {label : Action × Result} (apart : world.SmartApart label.1)
    (step : world.Step label next)
    (effect : SmartWorld.Effect metered ∅ world ledger label next after) : next.Tidy after := by
  have live := World.perform_live step.2
  have sids := World.perform_sids step.2
  have enabled := step.1
  cases effect.step with
  | @attach during id process clock entry newcomer shown own evolves kept =>
      have newSid : (next.handle id).sid = process := by
        rw [sids, Action.sids, Function.update_self]
      have sameSid : ∀ other, other ≠ id → (next.handle other).sid = (world.handle other).sid := by
        intro other different
        rw [sids, Action.sids, Function.update_of_ne different]
      have older : ∀ other ∈ next.live, other ≠ id → other ∈ world.live := by
        intro other isLive different
        rw [live] at isLive
        exact Finset.mem_of_mem_insert_of_ne isLive different
      have harmless := Entry.not_disconnects_of_code shown (by decide)
      refine ⟨evolves.leaked.trans tidy.unleaked, ?_, ?_⟩
      · intro first firstLive second secondLive same
        by_cases isFirst : first = id
        · by_cases isSecond : second = id
          · rw [isFirst, isSecond]
          · rw [isFirst, newSid, sameSid second isSecond] at same
            exact absurd same.symm (apart.2 second (older second secondLive isSecond))
        · by_cases isSecond : second = id
          · rw [isSecond, newSid, sameSid first isFirst] at same
            exact absurd same (apart.2 first (older first firstLive isFirst))
          · rw [sameSid first isFirst, sameSid second isSecond] at same
            exact tidy.distinct first (older first firstLive isFirst) second
              (older second secondLive isSecond) same
      · intro other isLive index found unread isFound
        by_cases same : other = id
        · rw [same, during.join_cursor_self] at unread
          have beyond := (List.getElem?_eq_some_iff.mp isFound).1
          exact absurd beyond (Nat.not_lt_of_le unread)
        · rw [during.join_cursor_of_ne same] at unread
          rw [sameSid other same]
          refine tidy.later evolves (older other isLive same) ?_ unread isFound
          intro message member
          rw [List.mem_singleton.mp member]
          exact harmless _
  | @push id tag data now accepted during entry shown own evolves kept inside =>
      refine tidy.stays evolves live sids ?_
      intro other isLive message member
      have isEntry : message = entry := by
        cases accepted with
        | true => exact List.mem_singleton.mp member
        | false => cases member
      rw [isEntry]
      rintro ⟨-, service, -⟩
      have userTag : entry.tag = tag.toNat := congrArg MessageView.tag shown
      exact apart.2 (userTag.symm.trans service)
  | @get id index seeks found inside => exact tidy.seek seeks.lower live sids
  | @pop id index seeks unread =>
      exact tidy.seek (Nat.le_succ_of_le seeks.lower) live sids
  | @popNone id read =>
      exact tidy.stays (.refl ledger id) live sids
        fun _ _ _ member => absurd member List.not_mem_nil
  | @clean id count garbage =>
      exact tidy.stays (.collect garbage id) live sids
        fun _ _ _ member => absurd member List.not_mem_nil
  | @destroy during id clock entry last closing isMember shown own evolves lower found closes first =>
      have ends := tidy.last_eq enabled evolves lower found closes
      have sameSid : ∀ other, (next.handle other).sid = (world.handle other).sid := sids
      have older : ∀ other ∈ next.live, other ∈ world.live ∧ other ≠ id := by
        intro other isLive
        rw [live] at isLive
        exact ⟨Finset.mem_of_mem_erase isLive, Finset.ne_of_mem_erase isLive⟩
      refine ⟨?_, ?_, ?_⟩
      · exact unleaked_leave (evolves.leaked.trans tidy.unleaked)
          (by rw [Ledger.seek_cursor_self]; exact ends.ge)
      · intro first firstLive second secondLive same
        rw [sameSid, sameSid] at same
        exact tidy.distinct first (older first firstLive).1 second (older second secondLive).1 same
      · intro other isLive index message unread isFound
        rcases older other isLive with ⟨otherLive, different⟩
        rw [sameSid]
        have cursor : ((during.seek id (last + 1)).leave id).cursor other = during.cursor other :=
          Ledger.seek_cursor_of_ne during different
        rw [cursor] at unread
        refine tidy.later evolves otherLive ?_ unread isFound
        intro added member
        rw [List.mem_singleton.mp member]
        rintro ⟨same, -⟩
        exact different (tidy.distinct other otherLive id enabled (own.symm.trans same).symm)
  | @keepaliveTimeout value =>
      exact tidy.stays (.refl ledger 0) live sids
        fun _ _ _ member => absurd member List.not_mem_nil

end World.Tidy

namespace SmartWorld

variable {metered : Prop} {world next : World} {ledger : Ledger Nat Entry} {id : Nat}

theorem waiting_eq (smart : SmartWorld metered ∅ world ledger) (offset : Nat) :
    ledger.waiting (ledger.collected + offset) =
      {id ∈ world.live | world.memory.count ≤ offset + (world.queue id).count} := by
  have members : ledger.members = world.live := by
    rw [smart.members, Finset.union_empty]
  rw [Ledger.waiting, members]
  refine Finset.filter_congr fun id live => ?_
  have reader := smart.member live
  have inside := reader.inside
  have stored := smart.tracks.valid.cursorGe id (smart.mem_members live)
  rw [reader.count_eq, smart.tracks.ring.countEq]
  omega

theorem references_eq (smart : SmartWorld metered ∅ world ledger) (tidy : world.Tidy ledger) :
    world.memory.references = world.awaited := by
  rw [smart.tracks.ring.references_eq, World.awaited]
  refine List.map_congr_left fun offset _ => ?_
  rw [Ledger.refs, tidy.unleaked, Nat.add_zero, smart.waiting_eq]

theorem clean_all (smart : SmartWorld True ∅ world ledger) (tidy : world.Tidy ledger)
    (read : ∀ other ∈ world.live, (world.queue other).count = 0) (live : id ∈ world.live) :
    ∃ result next, world.perform (.clean id) = .ok (result, next) ∧ next.memory.count = 0 ∧
      next.memory.freeSpace = next.memory.capacity := by
  rcases smart.clean live with ⟨result, next, after, cleans, effect⟩
  refine ⟨result, next, cleans, ?_⟩
  cases effect.step with
  | @clean _ count garbage =>
      have unread : ∀ index, ledger.collected ≤ index → index < ledger.log.length →
          ledger.refs index = 0 := by
        intro index stored inside
        rw [Ledger.refs, tidy.unleaked, Nat.add_zero, Finset.card_eq_zero]
        apply Finset.eq_empty_of_forall_notMem
        intro other waits
        rcases Ledger.mem_waiting.mp waits with ⟨isMember, behind⟩
        have isLive : other ∈ world.live := by
          rw [smart.members, Finset.union_empty] at isMember
          exact isMember
        have none := read other isLive
        rw [(smart.member isLive).count_eq] at none
        omega
      have swept := garbage.sweeps ledger.log.length (Nat.le_refl _) unread
      have bound := effect.smart.tracks.valid.collectedLe
      have countEq := effect.smart.tracks.ring.countEq
      have accounted := effect.smart.accounted trivial
      have all : ledger.collected + count = ledger.log.length := Nat.le_antisymm bound swept
      constructor
      · rw [countEq]
        change ledger.log.length - (ledger.collected + count) = 0
        omega
      · change next.memory.freeSpace + taken _ ledger.log ledger.log.length =
          next.memory.capacity + taken _ ledger.log (ledger.collected + count) at accounted
        rw [all] at accounted
        omega

end SmartWorld

/-- In every run of objects of different processes, a message has as many references as there
are objects that have not read it, every destructor that has pushed its message returns and
leaves no reference behind, and when everything has been read all space can be collected. -/
theorem smart_queue_references {first world : World} {labels : List (Action × Result)}
    (fresh : first.FreshSmart)
    (run : Run (fun world label next => world.SmartApart label.1 ∧ world.Step label next)
      first labels world) :
    world.memory.references = world.awaited ∧
    world.memory.subscriptionsCount = world.live.card ∧
    (∀ id ∈ world.live, ∀ clock closing,
      (world.queue id).pushServiceMessage .disconnect clock = .ok closing →
      ∃ next, world.perform (.destroy id clock) = .ok (.done, next) ∧
        next.memory.references = next.awaited) ∧
    ((∀ other ∈ world.live, (world.queue other).count = 0) → ∀ id ∈ world.live,
      ∃ result next, world.perform (.clean id) = .ok (result, next) ∧ next.memory.count = 0 ∧
        next.memory.freeSpace = next.memory.capacity) := by
  have advances : ∀ {world : World} {label : Action × Result} {next : World},
      (∃ ledger, SmartWorld True ∅ world ledger ∧ world.Tidy ledger) →
      world.SmartApart label.1 ∧ world.Step label next →
      ∃ ledger, SmartWorld True ∅ next ledger ∧ next.Tidy ledger := by
    rintro world ⟨action, result⟩ next ⟨ledger, smart, tidy⟩ ⟨apart, step⟩
    rcases smart.perform apart.1 step.1 step.2 with ⟨after, effect⟩
    exact ⟨after, effect.smart, tidy.step apart step effect⟩
  rcases fresh.opened with ⟨owner, sid, ledger, smart, -, live, unleaked, read⟩
  have begins : ∃ ledger, SmartWorld True ∅ first ledger ∧ first.Tidy ledger := by
    refine ⟨ledger, smart, unleaked, ?_, ?_⟩
    · intro id isLive other otherLive _
      rw [live, Finset.mem_singleton] at isLive otherLive
      rw [isLive, otherLive]
    · intro id isLive index entry unread found
      rw [live, Finset.mem_singleton] at isLive
      rw [isLive, read] at unread
      exact absurd (List.getElem?_eq_some_iff.mp found).1 (Nat.not_lt_of_le unread)
  rcases run.invariant (fun world => ∃ ledger, SmartWorld True ∅ world ledger ∧ world.Tidy ledger)
    advances begins with ⟨last, still, tidy⟩
  refine ⟨still.references_eq tidy, ?_, ?_, fun read id live => still.clean_all tidy read live⟩
  · rw [still.subscribed, still.members, Finset.union_empty]
  · intro id live clock closing pushed
    rcases still.destroy_returns live pushed with ⟨next, destroys⟩
    rcases @advances world (.destroy id clock, .done) next ⟨last, still, tidy⟩
      ⟨⟨trivial, trivial⟩, live, destroys⟩ with ⟨after, smart, clean⟩
    exact ⟨next, destroys, smart.references_eq clean⟩

/-- The message of the object 2 waits for the object 0 only, since the object 1 has gone. -/
theorem smart_queue_references_left : ∃ world : World,
    world.live = {0, 2} ∧ world.memory.references = world.awaited ∧
    world.memory.subscriptionsCount = 2 ∧
    (∀ id ∈ world.live, ∀ clock closing,
      (world.queue id).pushServiceMessage .disconnect clock = .ok closing →
      ∃ next, world.perform (.destroy id clock) = .ok (.done, next) ∧
        next.memory.references = next.awaited) := by
  have fresh := World.freshSmart_created (by decide) (by decide) (by decide)
    (show (Queue.create .zeros .smart 0 400 1 [5]).isOk = true by decide +kernel)
  rcases World.exists_run World.SmartApart
    (show World.runs _ (World.created 0 (Queue.created .smart 400 1 [5]))
      [(.attach 1 .smart 2 [6], .done), (.attach 2 .smart 3 [7], .done),
        (.push 2 4 [7, 8] 9, .pushed true), (.get 1, .message (some ⟨4, 2, [7, 8]⟩)),
        (.destroy 1 [11], .done)]
      (fun world => decide (world.live = {0, 2})) = true by decide +kernel) with
    ⟨world, run, observed⟩
  have live := of_decide_eq_true observed
  rcases smart_queue_references fresh run with ⟨references, subscribed, destroys, -⟩
  refine ⟨world, live, references, ?_, destroys⟩
  rw [subscribed, live]
  rfl

end Qbus
