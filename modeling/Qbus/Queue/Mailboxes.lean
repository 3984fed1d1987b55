import Qbus.Queue.Owner
import Qbus.Queue.PopAsGet

/-! # Mailboxes

What smart queues are for: every subscriber has a mailbox, in which the messages of the other
processes arrive that are pushed while it subscribes, and from which it takes them in their
order. Runs of smart queue objects refine this. -/

namespace Qbus

open Storage MachineWord

structure Mailboxes where
  members : Finset Nat
  /-- The process of every member. -/
  sid : Nat → Nat
  inbox : Nat → List MessageView
  timeout : Nat

namespace Mailboxes

/-- The mailbox of a subscriber after the process `sender` has sent a message. Nobody receives
what looks like a service message. -/
def received (boxes : Mailboxes) (sender : Nat) (view : MessageView) (id : Nat) :
    List MessageView :=
  if sender ≠ boxes.sid id ∧ view.tag ≠ ServiceMessage.tag then boxes.inbox id ++ [view]
  else boxes.inbox id

def deliver (boxes : Mailboxes) (sender : Nat) (view : MessageView) : Mailboxes :=
  { boxes with inbox := boxes.received sender view }

def take (boxes : Mailboxes) (id count : Nat) : Mailboxes :=
  { boxes with inbox := Function.update boxes.inbox id ((boxes.inbox id).drop count) }

def join (boxes : Mailboxes) (id sid : Nat) : Mailboxes :=
  { boxes with
    members := insert id boxes.members
    sid := Function.update boxes.sid id sid
    inbox := Function.update boxes.inbox id [] }

inductive Step : Mailboxes → Action × Result → Mailboxes → Prop
  | attach {boxes id sid clock} (newcomer : id ∉ boxes.members) :
      Step boxes (.attach id .smart sid clock, .done) (boxes.join id sid)
  | accepted {boxes id tag data now lost} (isMember : id ∈ boxes.members)
      (kept : boxes.timeout = 0 → lost = 0) :
      Step boxes (.push id tag data now, .pushed true)
        ((boxes.take id lost).deliver (boxes.sid id) ⟨tag.toNat, data.length, data⟩)
  | refused {boxes id tag data now lost} (isMember : id ∈ boxes.members)
      (kept : boxes.timeout = 0 → lost = 0) :
      Step boxes (.push id tag data now, .pushed false) (boxes.take id lost)
  | get {boxes id} (isMember : id ∈ boxes.members) :
      Step boxes (.get id, .message (boxes.inbox id).head?) boxes
  | pop {boxes id} (isMember : id ∈ boxes.members) (some : boxes.inbox id ≠ []) :
      Step boxes (.pop id, .popped true) (boxes.take id 1)
  | popNone {boxes id} (isMember : id ∈ boxes.members) (none : boxes.inbox id = []) :
      Step boxes (.pop id, .popped false) boxes
  | clean {boxes id count} (isMember : id ∈ boxes.members) :
      Step boxes (.clean id, .cleaned count) boxes
  | destroy {boxes id clock} (isMember : id ∈ boxes.members) :
      Step boxes (.destroy id clock, .done) { boxes with members := boxes.members.erase id }
  | keepaliveTimeout {boxes value} :
      Step boxes (.keepaliveTimeout value, .done) { boxes with timeout := value % 2 ^ 32 }

section Operations

variable (boxes : Mailboxes) {id other : Nat} (sid count : Nat)

@[simp] theorem join_sid_self : (boxes.join id sid).sid id = sid := by
  simp [join]

theorem join_sid_of_ne (different : other ≠ id) :
    (boxes.join id sid).sid other = boxes.sid other := by
  simp [join, different]

@[simp] theorem join_inbox_self : (boxes.join id sid).inbox id = [] := by
  simp [join]

theorem join_inbox_of_ne (different : other ≠ id) :
    (boxes.join id sid).inbox other = boxes.inbox other := by
  simp [join, different]

@[simp] theorem take_inbox_self : (boxes.take id count).inbox id = (boxes.inbox id).drop count := by
  simp [take]

theorem take_inbox_of_ne (different : other ≠ id) :
    (boxes.take id count).inbox other = boxes.inbox other := by
  simp [take, different]

theorem deliver_inbox (sender : Nat) (view : MessageView) :
    (boxes.deliver sender view).inbox id = boxes.inbox id ++
      if sender ≠ boxes.sid id ∧ view.tag ≠ ServiceMessage.tag then [view] else [] := by
  rw [deliver]
  change boxes.received sender view id = _
  rw [received]
  split
  · rfl
  · exact (List.append_nil _).symm

end Operations

end Mailboxes

/-! ## What a ledger holds for its members -/

theorem filter_drop_eq {α : Type} (selects : α → Bool) (list : List α) {first last : Nat}
    (ordered : first ≤ last) :
    (list.drop last).filter selects = ((list.drop first).filter selects).drop
      (((list.drop first).take (last - first)).filter selects).length := by
  have split := List.take_append_drop (last - first) (list.drop first)
  rw [List.drop_drop, Nat.add_sub_cancel' ordered] at split
  nth_rewrite 2 [← split]
  rw [List.filter_append, List.drop_left]

theorem filter_drop_of_skipped {α : Type} (selects : α → Bool) (list : List α) {first last : Nat}
    (ordered : first ≤ last) (skipped : ∀ index item, first ≤ index → index < last →
      list[index]? = some item → selects item = false) :
    (list.drop last).filter selects = (list.drop first).filter selects := by
  have none : ((list.drop first).take (last - first)).filter selects = [] := by
    apply List.filter_eq_nil_iff.mpr
    intro item member
    rcases List.getElem?_of_mem member with ⟨index, found⟩
    rw [List.getElem?_take] at found
    split at found
    case isFalse => cases found
    case isTrue below =>
      rw [List.getElem?_drop] at found
      rw [skipped (first + index) item (Nat.le_add_right _ _) (by omega) found]
      exact Bool.false_ne_true
  rw [filter_drop_eq selects list ordered, none]
  rfl

namespace Ledger

variable (ledger : Ledger Nat Entry) {member other index : Nat}

theorem seek_log : (ledger.seek member index).log = ledger.log := rfl

theorem seek_cursor_of_ne (different : other ≠ member) :
    (ledger.seek member index).cursor other = ledger.cursor other :=
  Function.update_of_ne different _ _

theorem join_cursor_self : (ledger.join member).cursor member = ledger.log.length :=
  Function.update_self member _ _

theorem join_cursor_of_ne (different : other ≠ member) :
    (ledger.join member).cursor other = ledger.cursor other :=
  Function.update_of_ne different _ _

end Ledger

namespace Queue

variable {ledger after : Ledger Nat Entry} {member other sid index : Nat} {more : List Entry}

theorem foreign_of_evolves (evolves : ledger.Evolves after member more)
    (different : other ≠ member) (inside : ledger.cursor other ≤ ledger.log.length) :
    foreign after other sid =
      foreign ledger other sid ++ more.filter fun entry => entry.Foreign sid := by
  rw [foreign, foreign, evolves.log, evolves.others other different,
    List.drop_append_of_le_length inside, List.filter_append]

theorem foreign_of_acts (evolves : ledger.Evolves after member more)
    (inside : after.cursor member ≤ ledger.log.length) :
    ∃ lost, (after.cursor member = ledger.cursor member → lost = 0) ∧
      foreign after member sid =
        (foreign ledger member sid).drop lost ++ more.filter fun entry => entry.Foreign sid := by
  refine ⟨(((ledger.log.drop (ledger.cursor member)).take
    (after.cursor member - ledger.cursor member)).filter fun entry =>
      entry.Foreign sid).length, ?_, ?_⟩
  · intro kept
    rw [kept, Nat.sub_self]
    rfl
  · rw [foreign, evolves.log, List.drop_append_of_le_length inside, List.filter_append,
      filter_drop_eq _ ledger.log evolves.cursor]
    rfl

theorem foreign_seek (seeks : ledger.Seeks member sid index) :
    foreign (ledger.seek member index) member sid = foreign ledger member sid := by
  rw [foreign, foreign, Ledger.seek_cursor_self]
  apply filter_drop_of_skipped _ ledger.log seeks.lower
  intro other entry lower upper found
  simpa using seeks.skipped other entry lower upper found

theorem foreign_join (newcomer : Nat) (sid : Nat) :
    foreign (ledger.join newcomer) newcomer sid = [] := by
  rw [foreign, ledger.join_cursor_self]
  change (ledger.log.drop ledger.log.length).filter _ = []
  rw [List.drop_length]
  rfl

theorem foreign_join_of_ne (different : other ≠ member) :
    foreign (ledger.join member) other sid = foreign ledger other sid := by
  rw [foreign, foreign, ledger.join_cursor_of_ne different]
  rfl

theorem foreign_seek_of_ne (different : other ≠ member) :
    foreign (ledger.seek member index) other sid = foreign ledger other sid := by
  rw [foreign, foreign, Ledger.seek_cursor_of_ne ledger different, Ledger.seek_log]

theorem head_foreign (seeks : ledger.Seeks member sid index)
    (found : ∀ entry, ledger.log[index]? = some entry → entry.Foreign sid) :
    (foreign ledger member sid).head? = ledger.log[index]? := by
  rw [← foreign_seek seeks, foreign, Ledger.seek_cursor_self, Ledger.seek_log]
  cases isEntry : ledger.log[index]? with
  | none =>
      rw [List.drop_eq_nil_of_le (List.getElem?_eq_none_iff.mp isEntry)]
      rfl
  | some entry =>
      have below := (List.getElem?_eq_some_iff.mp isEntry).1
      have same := (List.getElem?_eq_some_iff.mp isEntry).2
      rw [List.drop_eq_getElem_cons below, same, List.filter_cons_of_pos]
      · rfl
      · simpa using found entry isEntry

theorem view_filter_foreign {entry : Entry} {view : MessageView} (shown : entry.view = view)
    (sid : Nat) : ([entry].filter fun entry => entry.Foreign sid).map Entry.view =
      if entry.sid ≠ sid ∧ view.tag ≠ ServiceMessage.tag then [view] else [] := by
  have tag : entry.tag = view.tag := congrArg MessageView.tag shown
  by_cases isForeign : entry.Foreign sid
  · have arrives : entry.sid ≠ sid ∧ view.tag ≠ ServiceMessage.tag := by
      rw [← tag]
      exact isForeign
    rw [if_pos arrives, List.filter_cons_of_pos (by simpa using isForeign)]
    exact congrArg (fun view => [view]) shown
  · have arrives : ¬(entry.sid ≠ sid ∧ view.tag ≠ ServiceMessage.tag) := by
      rw [← tag]
      exact isForeign
    rw [if_neg arrives, List.filter_cons_of_neg (by simpa using isForeign)]
    rfl

theorem filter_service {entry : Entry} {code : List UInt8}
    (shown : entry.view = ⟨ServiceMessage.tag, 1, code⟩) (sid : Nat) :
    ([entry].filter fun entry => entry.Foreign sid) = [] := by
  have tag : entry.tag = ServiceMessage.tag := congrArg MessageView.tag shown
  rw [List.filter_cons_of_neg]
  · rfl
  · simp [Entry.Foreign, tag]

end Queue

/-! ## Mailboxes of a world -/

structure World.Mails (world : World) (ledger : Ledger Nat Entry) (boxes : Mailboxes) : Prop where
  members : boxes.members = ledger.members
  timeout : boxes.timeout = world.memory.keepaliveTimeout
  sids : ∀ id ∈ world.live, boxes.sid id = (world.handle id).sid
  inboxes : ∀ id ∈ ledger.members,
    boxes.inbox id = (Queue.foreign ledger id (boxes.sid id)).map Entry.view

namespace World.Mails

variable {metered : Prop} {booked : Finset Nat} {world next : World}
  {ledger after : Ledger Nat Entry} {boxes : Mailboxes} {id other : Nat} {more : List Entry}

theorem others (mails : world.Mails ledger boxes) (valid : ledger.Valid)
    (evolves : ledger.Evolves after id more) (isMember : other ∈ ledger.members)
    (different : other ≠ id) :
    (Queue.foreign after other (boxes.sid other)).map Entry.view = boxes.inbox other ++
      (more.filter fun entry => entry.Foreign (boxes.sid other)).map Entry.view := by
  rw [Queue.foreign_of_evolves evolves different (valid.cursorLe other isMember),
    List.map_append, mails.inboxes other isMember]

theorem others_service (mails : world.Mails ledger boxes) (valid : ledger.Valid) {entry : Entry}
    {code : List UInt8} (shown : entry.view = ⟨ServiceMessage.tag, 1, code⟩)
    (evolves : ledger.Evolves after id [entry]) (isMember : other ∈ ledger.members)
    (different : other ≠ id) :
    (Queue.foreign after other (boxes.sid other)).map Entry.view = boxes.inbox other := by
  rw [mails.others valid evolves isMember different, Queue.filter_service shown]
  exact List.append_nil _

theorem acted (mails : world.Mails ledger boxes) (valid : ledger.Valid)
    (evolves : ledger.Evolves after id more) (isMember : id ∈ ledger.members)
    (inside : after.cursor id ≤ ledger.log.length) :
    ∃ lost, (after.cursor id = ledger.cursor id → lost = 0) ∧ ∀ other ∈ ledger.members,
      (Queue.foreign after other (boxes.sid other)).map Entry.view =
        (boxes.take id lost).inbox other ++
          (more.filter fun entry => entry.Foreign (boxes.sid other)).map Entry.view := by
  rcases Queue.foreign_of_acts evolves inside with ⟨lost, kept, same⟩
  refine ⟨lost, kept, ?_⟩
  intro other otherMember
  by_cases equal : other = id
  · rw [equal, same, List.map_append, List.map_drop, Mailboxes.take_inbox_self,
      mails.inboxes id isMember]
  · rw [mails.others valid evolves otherMember equal, Mailboxes.take_inbox_of_ne boxes lost equal]

theorem step (mails : world.Mails ledger boxes) (smart : SmartWorld metered booked world ledger)
    {label : Action × Result} (enabled : world.Enabled label.1)
    (effect : SmartWorld.Effect metered booked world ledger label next after)
    (live : next.live = world.liveAfter label.1)
    (sids : ∀ other ∈ next.live,
      (next.handle other).sid = label.1.sids (fun id => (world.handle id).sid) other)
    (popped : ∀ id, label = (.pop id, .popped true) → boxes.inbox id ≠ [] ∧
      (Queue.foreign after id (boxes.sid id)).map Entry.view = (boxes.inbox id).tail) :
    ∃ nextBoxes, Mailboxes.Step boxes label nextBoxes ∧ next.Mails after nextBoxes := by
  have valid := smart.tracks.valid
  have timeout := effect.timeout
  rw [← mails.timeout] at timeout
  have memberOf : ∀ id ∈ world.live, id ∈ boxes.members := by
    intro id isLive
    rw [mails.members]
    exact smart.mem_members isLive
  have sameSids : next.live = world.live →
      label.1.sids (fun id => (world.handle id).sid) = (fun id => (world.handle id).sid) →
      ∀ id ∈ next.live, boxes.sid id = (next.handle id).sid := by
    intro sameLive same other isLive
    rw [sids other isLive, same]
    rw [sameLive] at isLive
    exact mails.sids other isLive
  cases effect.step with
  | @attach during id process clock entry newcomer shown own evolves kept =>
      refine ⟨_, .attach (by rwa [mails.members]), ?_, timeout.symm, ?_, ?_⟩
      · change insert id boxes.members = insert id during.members
        rw [mails.members, evolves.members]
      · intro other isLive
        rw [sids other isLive, Action.sids]
        by_cases same : other = id
        · rw [same, Mailboxes.join_sid_self, Function.update_self]
        · have older : other ∈ world.live := by
            rw [live] at isLive
            exact Finset.mem_of_mem_insert_of_ne isLive same
          rw [Mailboxes.join_sid_of_ne boxes process same, Function.update_of_ne same,
            mails.sids other older]
      · intro other isMember
        by_cases same : other = id
        · rw [same, Queue.foreign_join, Mailboxes.join_inbox_self]
          rfl
        · have older : other ∈ ledger.members := by
            rw [← evolves.members]
            exact Finset.mem_of_mem_insert_of_ne isMember same
          rw [Queue.foreign_join_of_ne same, Mailboxes.join_inbox_of_ne boxes process same,
            Mailboxes.join_sid_of_ne boxes process same,
            mails.others_service valid shown evolves older same]
  | @push id tag data now accepted during entry shown own evolves kept inside =>
      have isMember := smart.mem_members enabled
      have sender : entry.sid = boxes.sid id := by
        rw [own, mails.sids id enabled]
      have keepsNone : boxes.timeout = 0 → after.cursor id = ledger.cursor id := by
        intro noTimeout
        rw [kept (mails.timeout.symm.trans noTimeout)]
      rcases mails.acted valid evolves isMember inside with ⟨lost, same, inboxes⟩
      cases accepted with
      | true =>
          refine ⟨_, .accepted (memberOf id enabled) fun none => same (keepsNone none), ?_,
            timeout.symm, sameSids live rfl, ?_⟩
          · exact mails.members.trans evolves.members.symm
          · intro other otherMember
            rw [evolves.members] at otherMember
            rw [Mailboxes.deliver_inbox]
            change _ = (Queue.foreign after other (boxes.sid other)).map Entry.view
            rw [inboxes other otherMember, if_pos rfl, Queue.view_filter_foreign shown, sender]
            rfl
      | false =>
          refine ⟨_, .refused (memberOf id enabled) fun none => same (keepsNone none), ?_,
            timeout.symm, sameSids live rfl, ?_⟩
          · exact mails.members.trans evolves.members.symm
          · intro other otherMember
            rw [evolves.members] at otherMember
            change _ = (Queue.foreign after other (boxes.sid other)).map Entry.view
            rw [inboxes other otherMember]
            exact (List.append_nil _).symm
  | @get id index seeks found inside =>
      have isMember := smart.mem_members enabled.1
      have own := mails.sids id enabled.1
      have shown : ledger.log[index]?.map Entry.view = (boxes.inbox id).head? := by
        rw [mails.inboxes id isMember, own, List.head?_map, Queue.head_foreign seeks found]
      rw [shown]
      refine ⟨boxes, .get (memberOf id enabled.1), mails.members, timeout.symm,
        sameSids live rfl, ?_⟩
      intro other otherMember
      rw [mails.inboxes other otherMember]
      by_cases same : other = id
      · rw [same, own, Queue.foreign_seek seeks]
      · rw [Queue.foreign_seek_of_ne same]
  | @pop id index seeks unread =>
      rcases popped id rfl with ⟨some, rest⟩
      refine ⟨_, .pop (memberOf id enabled.1) some, mails.members, timeout.symm,
        sameSids live rfl, ?_⟩
      intro other otherMember
      by_cases same : other = id
      · rw [same, Mailboxes.take_inbox_self, List.drop_one]
        exact rest.symm
      · change _ = (Queue.foreign _ other (boxes.sid other)).map Entry.view
        rw [Mailboxes.take_inbox_of_ne boxes 1 same, mails.inboxes other otherMember,
          Queue.foreign_seek_of_ne same]
  | @popNone id read =>
      have isMember := smart.mem_members enabled.1
      have none : boxes.inbox id = [] := by
        rw [mails.inboxes id isMember, Queue.foreign, List.drop_eq_nil_of_le read]
        rfl
      exact ⟨boxes, .popNone (memberOf id enabled.1) none, mails.members, timeout.symm,
        sameSids live rfl, mails.inboxes⟩
  | @clean id count garbage =>
      exact ⟨boxes, .clean (memberOf id enabled), mails.members, timeout.symm,
        sameSids live rfl, mails.inboxes⟩
  | @destroy during id clock entry last closing isMember shown own evolves lower found closes first =>
      refine ⟨_, .destroy (memberOf id enabled), ?_, timeout.symm, ?_, ?_⟩
      · change boxes.members.erase id = during.members.erase id
        rw [mails.members, evolves.members]
      · intro other isLive
        rw [sids other isLive, Action.sids]
        rw [live] at isLive
        exact mails.sids other (Finset.mem_of_mem_erase isLive)
      · intro other otherMember
        have different : other ≠ id := Finset.ne_of_mem_erase otherMember
        have older : other ∈ ledger.members := by
          rw [← evolves.members]
          exact Finset.mem_of_mem_erase otherMember
        have sought : Queue.foreign ((during.seek id (last + 1)).leave id) other
            (boxes.sid other) = Queue.foreign during other (boxes.sid other) :=
          Queue.foreign_seek_of_ne different
        change boxes.inbox other = (Queue.foreign _ other (boxes.sid other)).map Entry.view
        rw [sought, mails.others_service valid shown evolves older different]
  | @keepaliveTimeout value =>
      exact ⟨_, .keepaliveTimeout, mails.members, timeout.symm, sameSids live rfl, mails.inboxes⟩

end World.Mails

namespace World

/-- The steps of smart queues in which a pop removes what `get` returns. -/
def SmartSafe (world : World) (action : Action) : Prop :=
  world.SmartSound action ∧ match action with
    | .pop id => (world.queue id).PopSafe
    | _ => True

instance (world : World) : DecidablePred world.SmartSafe
  | .pop id => inferInstanceAs (Decidable (world.SmartSound (.pop id) ∧ (world.queue id).PopSafe))
  | .attach id type sid clock => inferInstanceAs
      (Decidable (world.SmartSound (.attach id type sid clock) ∧ True))
  | .push id tag data now => inferInstanceAs
      (Decidable (world.SmartSound (.push id tag data now) ∧ True))
  | .get id => inferInstanceAs (Decidable (world.SmartSound (.get id) ∧ True))
  | .clean id => inferInstanceAs (Decidable (world.SmartSound (.clean id) ∧ True))
  | .destroy id clock => inferInstanceAs
      (Decidable (world.SmartSound (.destroy id clock) ∧ True))
  | .keepaliveTimeout value => inferInstanceAs
      (Decidable (world.SmartSound (.keepaliveTimeout value) ∧ True))

variable {metered : Prop} {booked : Finset Nat} {world next : World} {ledger : Ledger Nat Entry}
  {boxes : Mailboxes}

theorem Mails.popped (mails : world.Mails ledger boxes)
    (smart : SmartWorld metered booked world ledger) {id : Nat} (live : id ∈ world.live)
    (safe : (world.queue id).PopSafe) (current : world.Current id) {after : Ledger Nat Entry}
    (still : SmartWorld metered booked next after) (same : next.live = world.live)
    (performed : world.perform (.pop id) = .ok (.popped true, next)) :
    boxes.inbox id ≠ [] ∧
      (Queue.foreign after id (boxes.sid id)).map Entry.view = (boxes.inbox id).tail := by
  have reader := smart.member live
  rcases (reader.popsAsGet_iff current).mpr safe with ⟨popped, found, removed, chain, popsAsGet⟩
  have returns : world.perform (.pop id) = .ok (.popped removed, world.update id popped) := by
    rw [perform]
    simp only [popsAsGet.pops, Bind.bind, Except.bind, pure, Except.pure]
  cases returns.symm.trans performed
  have inbox : boxes.inbox id = (world.queue id).pending := by
    rw [mails.inboxes id (smart.mem_members live), mails.sids id live, reader.pending_eq]
    rfl
  have left : (Queue.foreign after id (boxes.sid id)).map Entry.view = popped.pending := by
    have stays := still.member (same ▸ live)
    rw [update_queue_self] at stays
    rw [stays.pending_eq, mails.sids id live, Queue.pop_sid popsAsGet.pops]
    rfl
  have removes := popsAsGet.removes
  rcases List.exists_cons_of_ne_nil (popsAsGet.agrees.mp rfl) with ⟨position, rest, first⟩
  rw [first] at removes
  rw [inbox, left, ← removes]
  exact ⟨List.cons_ne_nil _ _, rfl⟩

theorem SmartSafe.current {id : Nat} (safe : world.SmartSafe (.pop id)) : world.Current id :=
  safe.1

theorem Mails.perform (mails : world.Mails ledger boxes)
    (smart : SmartWorld metered ∅ world ledger) {label : Action × Result}
    (safe : world.SmartSafe label.1) (step : world.Step label next) :
    ∃ after nextBoxes, SmartWorld metered ∅ next after ∧ next.Mails after nextBoxes ∧
      Mailboxes.Step boxes label nextBoxes := by
  rcases smart.perform safe.1 step.1 step.2 with ⟨after, effect⟩
  have live := perform_live step.2
  have popped : ∀ id, label = (.pop id, .popped true) → boxes.inbox id ≠ [] ∧
      (Queue.foreign after id (boxes.sid id)).map Entry.view = (boxes.inbox id).tail := by
    rintro id rfl
    exact mails.popped smart step.1.1 safe.2 safe.current effect.smart live step.2
  rcases mails.step smart step.1 effect live (fun other _ => perform_sids step.2 other) popped with
    ⟨nextBoxes, delivers, shown⟩
  exact ⟨after, nextBoxes, effect.smart, shown, delivers⟩

end World

namespace SmartWorld

variable {metered : Prop} {world : World} {ledger : Ledger Nat Entry} {id : Nat}

theorem destroy_returns (smart : SmartWorld metered ∅ world ledger) (live : id ∈ world.live)
    {clock : List Nat} {closing : Queue}
    (pushed : (world.queue id).pushServiceMessage .disconnect clock = .ok closing) :
    ∃ next, world.perform (.destroy id clock) = .ok (.done, next) := by
  have handle := smart.handles id live
  rcases (smart.member live).pushServiceMessage pushed with ⟨now, during, acts, reader, inside⟩
  have small := reader.unread_lt
  have found : during.log[ledger.log.length]? =
      some ((world.queue id).serviceEntry .disconnect now) := by
    rw [acts.evolves.log]
    simp
  have below := (List.getElem?_eq_some_iff.mp found).1
  have leaver : Queue.Leaver metered
      (closing.setMemory closing.memory.decSubscriptionsCount) during id := by
    refine ⟨?_, reader.tracks.decSubscriptionsCount, ?_, reader.isMember, ?_, ?_⟩
    · rw [Queue.setMemory_self]
      exact reader.smart
    · intro isMetered
      exact (reader.accounted isMetered).congr (QueueMemory.decSubscriptionsCount_freeSpace _)
        (QueueMemory.decSubscriptionsCount_capacity _)
    · rw [Queue.setMemory_memory, Queue.setMemory_self,
        QueueMemory.decSubscriptionsCount_capacity]
      exact reader.follows
    · rw [Queue.setMemory_self]
      exact reader.placed
  have own : ((world.queue id).serviceEntry .disconnect now).Disconnects
      (closing.setMemory closing.memory.decSubscriptionsCount).self.sid := by
    rw [Queue.setMemory_self, acts.sid_eq]
    exact ⟨Nat.mod_eq_of_lt handle.sid, rfl, rfl⟩
  have near : ledger.log.length - during.cursor id < 2 ^ 32 := by omega
  rcases leaver.readOut inside found own near with ⟨last, entry, final, reads, -⟩
  refine ⟨{ world with memory := final.memory, live := world.live.erase id }, ?_⟩
  rw [World.perform, Queue.destroy_smart handle.smart pushed reads]
  rfl

end SmartWorld

/-- The service message of the call, if it has one, is pushed at one of the attempts. -/
def World.Announces (world : World) : Action → Prop
  | .attach _ _ sid clock => ∃ opened, Queue.pushServiceMessage .connect clock
      ⟨world.memory, Queue.newHandle .smart sid world.memory.counter⟩ = .ok opened
  | .destroy id clock =>
      ∃ closing, (world.queue id).pushServiceMessage .disconnect clock = .ok closing
  | .push _ _ _ _ | .get _ | .pop _ | .clean _ | .keepaliveTimeout _ => True

theorem SmartWorld.returns {metered : Prop} {world : World} {ledger : Ledger Nat Entry}
    (smart : SmartWorld metered ∅ world ledger) {action : Action} (safe : world.SmartSafe action)
    (enabled : world.Enabled action) (announces : world.Announces action) :
    ∃ result next, world.perform action = .ok (result, next) := by
  cases action with
  | attach id type sid clock =>
      have same : type = .smart := safe.1.1
      subst same
      rcases announces with ⟨opened, pushed⟩
      refine ⟨.done, ?_⟩
      rw [World.perform, Queue.attach, Queue.initializeQueue, pushed]
      exact ⟨_, rfl⟩
  | push id tag data now =>
      rcases smart.push safe.1.1 safe.1.2 enabled with ⟨accepted, next, -, -, performed, -⟩
      exact ⟨_, _, performed⟩
  | get id =>
      rcases smart.get enabled.1 with ⟨result, next, -, performed, -⟩
      exact ⟨_, _, performed⟩
  | pop id =>
      rcases ((smart.member enabled.1).popsAsGet_iff safe.current).mpr safe.2 with
        ⟨popped, found, removed, chain, popsAsGet⟩
      rw [World.perform, popsAsGet.pops]
      exact ⟨_, _, rfl⟩
  | clean id =>
      rcases smart.clean enabled with ⟨result, next, -, performed, -⟩
      exact ⟨_, _, performed⟩
  | destroy id clock =>
      rcases announces with ⟨closing, pushed⟩
      rcases smart.destroy_returns enabled pushed with ⟨next, performed⟩
      exact ⟨_, _, performed⟩
  | keepaliveTimeout value => exact ⟨_, _, rfl⟩

/-! ## Runs -/

def QueueMemory.constructed (raw : QueueMemory) (qid capacity subscribers free : Nat) :
    QueueMemory :=
  { QueueMemory.clear { raw with
      id := qid % 2 ^ 32
      capacity := capacity % 2 ^ 32
      keepaliveTimeout := 0 } with
    counter := 0
    subscriptionsCount := subscribers
    freeSpace := free }

theorem Queue.Newcomer.constructed {metered : Prop} (raw : QueueMemory) (qid sid : Nat)
    {capacity free id : Nat} {members : Finset Nat} (positive : 0 < capacity)
    (bounded : capacity < 2 ^ 32) (notMember : id ∉ members) (few : members.card < 2 ^ 32)
    (all : metered → free = capacity % 2 ^ 32) :
    Queue.Newcomer metered ⟨raw.constructed qid capacity members.card free,
      Queue.newHandle .smart sid 0⟩ (Ledger.empty members) id := by
  have cleared : Ring (QueueMemory.clear { raw with
      id := qid % 2 ^ 32
      capacity := capacity % 2 ^ 32
      keepaliveTimeout := 0 }) [] 0 (Ledger.empty members : Ledger Nat Entry).refs :=
    Ring.cleared rfl (by rw [Nat.mod_eq_of_lt bounded]; exact positive)
      (Nat.mod_lt _ (by decide))
  exact .behind rfl ⟨cleared.congr rfl rfl rfl rfl rfl, rfl, Ledger.valid_empty _⟩
    all notMember rfl rfl few

theorem SmartWorld.created {metered : Prop} {booked : Finset Nat} {queue next : Queue}
    {ledger : Ledger Nat Entry} {id : Nat} (isNew : Queue.Newcomer metered queue ledger id)
    (members : ledger.members = booked) (unread : ∀ other ∈ booked, ledger.cursor other = 0)
    (room : booked.card + 1 < 2 ^ 32) (state : queue.self.state = .unknown)
    (word : queue.self.sid < 2 ^ 32) {clock : List Nat}
    (initializes : queue.initializeQueue clock = .ok next) :
    ∃ now during, ledger.Evolves during id [queue.serviceEntry .connect now] ∧
      during.cursor = ledger.cursor ∧
      SmartWorld metered booked (World.created id next) (during.join id) ∧
      next.memory.keepaliveTimeout = queue.memory.keepaliveTimeout ∧
      next.self = { queue.self with head := next.self.head, counter := next.self.counter } := by
  rw [← members] at room
  rcases isNew.initializeQueue room initializes with
    ⟨now, during, evolves, cursor, reader, -, timeout, self⟩
  have unbooked : id ∉ booked := by
    rw [← members]
    exact isNew.notMember
  refine ⟨now, during, evolves, cursor, ⟨reader.tracks, reader.accounted, ?_,
    Finset.disjoint_singleton_left.mpr unbooked, ?_, reader.subscribed, reader.few, ?_, ?_⟩,
    timeout, self⟩
  · change insert id during.members = {id} ∪ booked
    rw [evolves.members, members]
    rfl
  · intro other isBooked
    have different : other ≠ id := fun same => unbooked (same ▸ isBooked)
    rw [during.join_cursor_of_ne different, cursor]
    exact unread other isBooked
  · intro other _
    change next.self.Smart
    refine ⟨reader.smart, reader.placed, ?_, ?_⟩
    · rw [self]
      exact state
    · rw [self]
      exact word
  · intro other live
    rw [Finset.mem_singleton.mp live]
    exact reader.follows

def Mailboxes.start (owner sid : Nat) : Mailboxes where
  members := {owner}
  sid := fun _ => sid
  inbox := fun _ => []
  timeout := 0

theorem World.FreshSmart.opened {world : World} (fresh : world.FreshSmart) :
    ∃ owner sid ledger, SmartWorld True ∅ world ledger ∧ world.Mails ledger (.start owner sid) ∧
      world.live = {owner} ∧ ledger.leaked = (fun _ => 0) ∧
      ledger.cursor owner = ledger.log.length := by
  rcases fresh with ⟨id, raw, qid, capacity, sid, clock, queue, positive, bounded, word, creates,
    rfl⟩
  have isNew := @Queue.Newcomer.constructed True raw qid sid capacity (capacity % 2 ^ 32) id ∅
    positive bounded (Finset.notMem_empty id) (Nat.two_pow_pos 32) fun _ => rfl
  have noMembers : (Ledger.empty ∅ : Ledger Nat Entry).members = ∅ := rfl
  rcases SmartWorld.created isNew noMembers (fun _ none => absurd none (Finset.notMem_empty _))
    (Nat.one_lt_two_pow (by decide)) rfl word creates with
    ⟨now, during, evolves, cursor, smart, timeout, same⟩
  refine ⟨id, sid, during.join id, smart,
    ⟨?_, timeout.symm, fun _ _ => (congrArg Handle.sid same).symm, ?_⟩, rfl, evolves.leaked,
    during.join_cursor_self⟩
  · rw [smart.members]
    exact (Finset.union_empty {id}).symm
  · intro other isMember
    rw [smart.members, Finset.union_empty] at isMember
    rw [Finset.mem_singleton.mp isMember, Queue.foreign_join]
    rfl

end Qbus
