import Qbus.Queue.Broadcast
import Qbus.Queue.Execution

/-! # Delivery to a fixed set of subscribers

All subscribers are there before the first push and stay. Either they push
themselves, or one write-only object does all the pushing and cleaning. -/

namespace Qbus

open ByteMemory Message Circular Placement Storage MachineWord

def Action.Joins : Action → Prop
  | .attach _ type _ _ => type = .shared ∨ type = .unreadable
  | _ => False

/-- The object that pushes or cleans is the writer, or, if there is none, a
subscriber. -/
def World.Writes (world : World) (writer : Option Nat) (id : Nat) : Prop :=
  match writer with
  | some writer => id = writer
  | none => (world.handle id).type = .shared

def World.Delivers (writer : Option Nat) (world : World) : Action → Prop
  | .push id _ data _ => world.Writes writer id ∧ data ≠ []
  | .get _ => True
  | .pop _ => True
  | .clean id => world.Writes writer id
  | _ => False

instance : DecidablePred Action.Joins
  | .attach _ type _ _ =>
      inferInstanceAs (Decidable (type = .shared ∨ type = .unreadable))
  | .push _ _ _ _ => inferInstanceAs (Decidable False)
  | .get _ => inferInstanceAs (Decidable False)
  | .pop _ => inferInstanceAs (Decidable False)
  | .clean _ => inferInstanceAs (Decidable False)
  | .destroy _ _ => inferInstanceAs (Decidable False)
  | .keepaliveTimeout _ => inferInstanceAs (Decidable False)

instance (world : World) : (writer : Option Nat) → (id : Nat) →
    Decidable (world.Writes writer id)
  | some writer, id => inferInstanceAs (Decidable (id = writer))
  | none, id => inferInstanceAs (Decidable ((world.handle id).type = .shared))

instance (writer : Option Nat) (world : World) : DecidablePred (world.Delivers writer)
  | .push id _ data _ => inferInstanceAs (Decidable (world.Writes writer id ∧ data ≠ []))
  | .get _ => inferInstanceAs (Decidable True)
  | .pop _ => inferInstanceAs (Decidable True)
  | .clean id => inferInstanceAs (Decidable (world.Writes writer id))
  | .attach _ _ _ _ => inferInstanceAs (Decidable False)
  | .destroy _ _ => inferInstanceAs (Decidable False)
  | .keepaliveTimeout _ => inferInstanceAs (Decidable False)

theorem World.Delivers.fixed {writer : Option Nat} {world : World} {action : Action}
    (delivers : world.Delivers writer action) :
    world.liveAfter action = world.live ∧
    (∀ timeout, action.timeout timeout = timeout) ∧
    (∀ id type sid clock, action ≠ .attach id type sid clock) ∧
    (∀ id clock, action ≠ .destroy id clock) := by
  cases action <;> first
    | exact delivers.elim
    | exact ⟨rfl, fun _ => rfl, by simp, by simp⟩

/-- What the steps keep: no timeout and no references left behind, cached
descriptions are current, objects without a private head have read nothing, and
the writer counts what has been collected. -/
structure Delivering (writer : Option Nat) (world : World) (ledger : Ledger Nat Entry) :
    Prop where
  timeout : world.memory.keepaliveTimeout = 0
  unleaked : ledger.leaked = fun _ => 0
  cached : ∀ id ∈ ledger.members,
    Cached world.memory.capacity ledger.log (world.handle id) (ledger.cursor id)
  heads : ∀ id ∈ ledger.members, (world.handle id).head = sharedHead →
    ledger.cursor id = 0
  writes : ∀ id, writer = some id → id ∈ world.live ∧
    (world.handle id).type = .unreadable ∧
    (world.handle id).counter = ledger.collected % 2 ^ 32

namespace Delivering

variable {writer : Option Nat} {world next : World} {ledger after : Ledger Nat Entry}
  {action : Action} {label : Action × Result} {id : Nat}

theorem aligned (delivering : Delivering writer world ledger)
    (shared : SharedWorld world ledger) (isMember : id ∈ ledger.members) :
    world.Aligned id := by
  by_cases missing : (world.handle id).head = sharedHead
  · have unread := delivering.heads id isMember missing
    have stored := shared.tracks.valid.cursorGe id isMember
    refine .inr (.inr ?_)
    rw [shared.count_eq isMember, shared.tracks.ring.countEq]
    omega
  · exact .inr (.inl missing)

theorem walkable (delivering : Delivering writer world ledger)
    (shared : SharedWorld world ledger) (live : id ∈ world.live)
    (writes : world.Writes writer id) : (world.queue id).Walkable := by
  have small := shared.tracks.ring.count_lt
  cases writer with
  | none =>
      have isShared : (world.handle id).type = .shared := writes
      have isMember := shared.mem_members.mpr ⟨live, isShared⟩
      exact Queue.member_walkable (by simp [World.queue, isShared]) shared.tracks isMember
        (shared.follows id isMember)
  | some other =>
      have same : id = other := writes
      subst same
      rcases delivering.writes id rfl with ⟨-, unreadable, counted⟩
      refine .inr ?_
      have distance : sub32 world.memory.counter (world.handle id).counter =
          ledger.log.length - ledger.collected := by
        rw [shared.tracks.counter, counted]
        exact sub_mod_mod shared.tracks.valid.collectedLe (by omega)
      rw [Queue.count_of_counted (by simp [World.queue, unreadable])]
      change sub32 world.memory.counter (world.handle id).counter ≠ _
      omega

theorem sound (delivering : Delivering writer world ledger)
    (shared : SharedWorld world ledger) (delivers : world.Delivers writer action)
    (enabled : world.Enabled action) : world.Sound action := by
  have readable : ∀ id, id ∈ world.live ∧ (world.handle id).type ≠ .unreadable →
      id ∈ ledger.members := fun id enabled =>
    shared.mem_members.mpr ⟨enabled.1, (shared.types id enabled.1).resolve_right enabled.2⟩
  cases action with
  | push id tag data now =>
      have keeps : world.KeepsExpired id tag.toNat data now := .inl delivering.timeout
      have walkable := delivering.walkable shared enabled delivers.1
      rcases shared.types id enabled with isShared | unreadable
      · rw [World.Sound, if_neg (by simp [isShared])]
        exact .inl keeps
      · rw [World.Sound, if_pos unreadable]
        exact ⟨walkable, keeps⟩
  | get id => exact delivering.aligned shared (readable id enabled)
  | pop id =>
      have isMember := readable id enabled
      have aligned := delivering.aligned shared isMember
      exact ⟨aligned, shared.current_of_cached isMember aligned
        (delivering.cached id isMember)⟩
  | clean id => exact delivering.walkable shared enabled delivers
  | attach id type sid clock => exact delivers.elim
  | destroy id clock => exact delivers.elim
  | keepaliveTimeout value => exact delivers.elim

theorem kept (delivering : Delivering writer world ledger) (delivers : world.Delivers writer label.1)
    (step : world.Step label next)
    (effect : SharedWorld.Effect world ledger label next after) :
    Delivering writer next after ∧ after.members = ledger.members := by
  rcases delivers.fixed with ⟨sameLive, sameTimeout, noAttach, noDestroy⟩
  have sameMembers : after.members = ledger.members := by
    cases effect.step with
    | subscribe => exact delivers.elim
    | push shown evolves kept inside sweeps => exact evolves.members
    | leave isMember => exact delivers.elim
    | _ => rfl
  refine ⟨⟨?_, ?_, ?_, ?_, ?_⟩, sameMembers⟩
  · rw [effect.timeout, sameTimeout, delivering.timeout]
  · rw [effect.step.leaked_eq fun id clock same => absurd same (noDestroy id clock),
      delivering.unleaked]
  · intro id isMember
    rw [effect.capacity]
    refine effect.cached id isMember fun wasMember =>
      ⟨delivering.cached id wasMember, ?_⟩
    by_cases isPop : label.1 = .pop id
    · exact .inr isPop
    · exact .inl (effect.step.cursor_eq delivering.timeout wasMember isPop)
  · intro id isMember missing
    rw [sameMembers] at isMember
    rcases effect.heads id isMember missing with ⟨before, sameCursor⟩
    rw [sameCursor, delivering.heads id isMember before]
  · intro id isWriter
    subst isWriter
    rcases delivering.writes id rfl with ⟨live, unreadable, counted⟩
    refine ⟨?_, (effect.types id live).trans unreadable, ?_⟩
    · rw [World.perform_live step.2, sameLive]
      exact live
    by_cases isActor : label.1.actor = some id
    · have ordered := effect.step.collected_le
      rw [effect.writer id live isActor unreadable, counted, Nat.mod_add_mod,
        Nat.add_sub_cancel' ordered]
    · rw [effect.others id isActor, counted, effect.step.collected_eq]
      · intro other tag data now same
        rw [same] at delivers isActor
        exact isActor (congrArg some delivers.1)
      · intro other same
        rw [same] at delivers isActor
        exact isActor (congrArg some delivers)

theorem collected_le (delivering : Delivering writer world ledger)
    (shared : SharedWorld world ledger) (delivers : world.Delivers writer label.1)
    (step : world.Step label next)
    (effect : SharedWorld.Effect world ledger label next after)
    (isMember : id ∈ ledger.members) : after.collected ≤ ledger.cursor id := by
  rcases delivers.fixed with ⟨-, -, noAttach, -⟩
  by_cases isPop : label.1 = .pop id
  · rw [effect.step.collected_eq (by simp [isPop]) (by simp [isPop])]
    exact shared.tracks.valid.cursorGe id isMember
  · rw [← effect.step.cursor_eq delivering.timeout isMember isPop]
    refine effect.shared.tracks.valid.cursorGe id ?_
    rw [(delivering.kept delivers step effect).2]
    exact isMember

end Delivering

/-! ## Objects that attach first -/

section Joining

variable {world next : World} {label : Action × Result}

theorem World.Step.joins (joins : label.1.Joins) (step : world.Step label next) :
    ∃ id type sid clock, label = (.attach id type sid clock, .done) ∧ id ∉ world.live ∧
      (type = .shared ∨ type = .unreadable) ∧ next.live = insert id world.live ∧
      next.handle = Function.update world.handle id
        (Queue.newHandle type sid world.memory.counter) := by
  rcases label with ⟨action, result⟩
  rcases step with ⟨enabled, performed⟩
  cases action with
  | attach id type sid clock =>
      refine ⟨id, type, sid, clock, ?_, enabled, joins, ?_⟩
      · rcases joins with rfl | rfl <;> cases performed <;> rfl
      · rcases joins with rfl | rfl <;> cases performed <;> exact ⟨rfl, rfl⟩
  | _ => exact joins.elim

theorem World.Step.subscribers_le (joins : label.1.Joins) (step : world.Step label next) :
    world.subscribers.card ≤ next.subscribers.card ∧
    ∀ id sid clock, label.1 = .attach id .shared sid clock →
      world.subscribers.card + 1 ≤ next.subscribers.card := by
  rcases step.joins joins with ⟨id, type, sid, clock, rfl, newcomer, -, live, handle⟩
  have older : ∀ other ∈ world.live, other ≠ id := fun other isLive same =>
    newcomer (same ▸ isLive)
  have grows : world.subscribers ⊆ next.subscribers := by
    intro other isSubscriber
    rcases Finset.mem_filter.mp isSubscriber with ⟨isLive, readable⟩
    refine Finset.mem_filter.mpr ⟨?_, ?_⟩
    · rw [live]
      exact Finset.mem_insert_of_mem isLive
    · rw [handle, Function.update_of_ne (older other isLive)]
      exact readable
  refine ⟨Finset.card_le_card grows, ?_⟩
  rintro id sid clock ⟨⟩
  refine Finset.card_lt_card ⟨grows, fun shrinks => newcomer ?_⟩
  refine (Finset.mem_filter.mp (shrinks (Finset.mem_filter.mpr ⟨?_, ?_⟩))).1
  · rw [live]
    exact Finset.mem_insert_self _ _
  · rw [handle, Function.update_self]
    simp [Queue.newHandle]

theorem World.Initial.step (initial : world.Initial) (joins : label.1.Joins)
    (step : world.Step label next) (few : next.subscribers.card < 2 ^ 32) :
    next.Initial := by
  have more := (step.subscribers_le joins).2
  rcases step.joins joins with
      ⟨id, type, sid, clock, rfl, newcomer, readable, live, handle⟩
  have sound : world.Sound (.attach id type sid clock) := by
    rcases readable with rfl | rfl
    · exact .inl ⟨rfl, Nat.lt_of_le_of_lt (more id sid clock rfl) few⟩
    · exact .inr rfl
  rcases initial.shared.perform sound trivial step.1 with
    ⟨result, next', after, performed, effect⟩
  cases step.2.symm.trans performed
  refine ⟨?_, effect.timeout.trans initial.timeout, ?_⟩
  · have shared := effect.shared
    have members := shared.members
    have isEmpty : after = Ledger.empty after.members := by
      cases effect.step with
      | subscribe =>
          simp only [Ledger.join, Ledger.empty, List.length_nil]
          rw [show Function.update (fun _ => 0) id 0 = fun _ : Nat => 0 from
            Function.update_eq_self id _]
      | attach => rfl
    rw [← members, ← isEmpty]
    exact shared
  · intro other isLive
    rw [handle]
    rcases eq_or_ne other id with same | different
    · rw [same, Function.update_self, initial.shared.tracks.counter]
      exact ⟨rfl, rfl, rfl⟩
    · rw [Function.update_of_ne different]
      refine initial.handles other ?_
      rw [live] at isLive
      exact Finset.mem_of_mem_insert_of_ne isLive different

theorem subscribers_le_of_joins {first opened : World}
    {arrivals : List (Action × Result)}
    (arrive : Run (fun world label next => label.1.Joins ∧ world.Step label next)
      first arrivals opened) : first.subscribers.card ≤ opened.subscribers.card := by
  induction arrive with
  | nil => exact Nat.le_refl _
  | cons first _ induction =>
      exact Nat.le_trans (first.2.subscribers_le first.1).1 induction

theorem World.Initial.run {first opened : World} {arrivals : List (Action × Result)}
    (initial : first.Initial)
    (arrive : Run (fun world label next => label.1.Joins ∧ world.Step label next)
      first arrivals opened) (few : opened.subscribers.card < 2 ^ 32) :
    opened.Initial := by
  induction arrive with
  | nil => exact initial
  | cons first rest induction =>
      have fewer := Nat.lt_of_le_of_lt (subscribers_le_of_joins rest) few
      exact induction (initial.step first.1 first.2 fewer) few

theorem World.Initial.delivering {writer : Option Nat} (initial : world.Initial)
    (writes : ∀ id, writer = some id →
      id ∈ world.live ∧ (world.handle id).type = .unreadable) :
    Delivering writer world (Ledger.empty world.subscribers) where
  timeout := initial.timeout
  unleaked := rfl
  cached := fun id isMember =>
    .inl (initial.handles id (Finset.mem_of_mem_filter id isMember)).2.2
  heads := fun _ _ _ => rfl
  writes := fun id isWriter => ⟨(writes id isWriter).1, (writes id isWriter).2,
    (initial.handles id (writes id isWriter).1).2.1⟩

end Joining

/-- A fixed set of subscribers receives every accepted message. In every run the
results are those of the broadcast, `count()` is the number of messages a
subscriber has not popped, the reference counters are the numbers of subscribers
that have not popped the messages, every call returns, and no call changes a byte
of a message that a subscriber has not popped. -/
theorem shared_queue_delivers {first opened world : World} {writer : Option Nat}
    {arrivals labels : List (Action × Result)} (fresh : first.FreshShared)
    (arrive : Run (fun world label next => label.1.Joins ∧ world.Step label next)
      first arrivals opened)
    (few : opened.subscribers.card < 2 ^ 32)
    (writes : ∀ id, writer = some id →
      id ∈ opened.live ∧ (opened.handle id).type = .unreadable)
    (run : Run (fun world label next =>
      world.Delivers writer label.1 ∧ world.Step label next) opened labels world) :
    (∃ board, Run Broadcast.Step .start labels board ∧
      world.subscribers = opened.subscribers ∧
      ∀ id ∈ world.subscribers,
        (world.queue id).count = board.messages.length - board.cursor id) ∧
    world.memory.references = world.unread ∧
    ∀ action, world.Delivers writer action → world.Enabled action →
      ∃ result next, world.perform action = .ok (result, next) ∧
        ∀ offset message, world.memory.stored[offset]? = some message →
          (∃ id ∈ world.subscribers,
            world.memory.count ≤ offset + (world.queue id).count) →
          ∀ byte, message.Occupies world.memory.data byte →
            next.memory.data byte = world.memory.data byte := by
  have initial := fresh.initial.run arrive few
  rcases SharedWorld.run
    (fun world ledger =>
      Delivering writer world ledger ∧ ledger.members = opened.subscribers)
    (fun shared keeps delivers enabled => keeps.1.sound shared delivers enabled)
    (fun shared keeps delivers step effect => by
      rcases keeps.1.kept delivers step effect with ⟨kept, sameMembers⟩
      exact ⟨kept, sameMembers.trans keeps.2⟩)
    run initial.shared ⟨initial.delivering writes, rfl⟩ with
      ⟨ledger, shared, ⟨delivering, members⟩, board⟩
  rw [initial.timeout] at board
  refine ⟨⟨_, board, shared.members.symm.trans members, ?_⟩,
    shared.references_eq delivering.unleaked, ?_⟩
  · intro id isSubscriber
    rw [← shared.members] at isSubscriber
    rw [shared.count_eq isSubscriber, Ledger.board, List.length_map]
  · intro action delivers enabled
    have hasData : action.HasData := by
      cases action with
      | push id tag data now => exact delivers.2
      | _ => trivial
    rcases shared.perform (delivering.sound shared delivers enabled) hasData enabled with
      ⟨result, next, after, performed, effect⟩
    refine ⟨result, next, performed, ?_⟩
    rintro offset message stored ⟨id, isSubscriber, unpopped⟩ byte occupies
    rw [← shared.members] at isSubscriber
    refine shared.bytes_eq effect stored ?_ occupies
    have passed := delivering.collected_le shared delivers ⟨enabled, performed⟩ effect
      isSubscriber
    have behind := shared.tracks.valid.cursorLe id isSubscriber
    have ordered := shared.tracks.valid.collectedLe
    rw [shared.count_eq isSubscriber, shared.tracks.ring.countEq] at unpopped
    omega

/-- Two subscribers and a write-only object, of which one subscriber is behind. -/
theorem shared_queue_delivers_behind : ∃ (world : World) (board : Broadcast),
    Run Broadcast.Step .start
      [(.push 2 3 [7, 8] 10, .pushed true),
        (.push 2 4 [9] 11, .pushed true),
        (.get 0, .message (some ⟨3, 2, [7, 8]⟩)),
        (.pop 0, .popped true),
        (.get 0, .message (some ⟨4, 1, [9]⟩)),
        (.clean 2, .cleaned 0),
        (.get 1, .message (some ⟨3, 2, [7, 8]⟩))] board ∧
    (∀ id ∈ world.subscribers,
      (world.queue id).count = board.messages.length - board.cursor id) ∧
    world.memory.references = world.unread ∧ world.memory.references = [1, 2] := by
  have fresh : (World.created 0 (Queue.created .shared 100 1 [])).FreshShared :=
    ⟨.zeros, .shared, 0, 100, 1, [], _, 0, .inl rfl, by decide, by decide, rfl, rfl⟩
  rcases World.exists_run (fun _ => Action.Joins)
    (show World.runs _ (World.created 0 (Queue.created .shared 100 1 []))
      [(.attach 1 .shared 2 [], .done), (.attach 2 .unreadable 3 [], .done)]
      (fun opened => decide (opened.subscribers.card < 2 ^ 32) &&
        decide (2 ∈ opened.live ∧ (opened.handle 2).type = .unreadable) &&
        opened.runs (World.Delivers (some 2))
          [(.push 2 3 [7, 8] 10, .pushed true),
            (.push 2 4 [9] 11, .pushed true),
            (.get 0, .message (some ⟨3, 2, [7, 8]⟩)),
            (.pop 0, .popped true),
            (.get 0, .message (some ⟨4, 1, [9]⟩)),
            (.clean 2, .cleaned 0),
            (.get 1, .message (some ⟨3, 2, [7, 8]⟩))]
          fun world => decide (world.memory.references = [1, 2])) = true by decide +kernel) with
      ⟨opened, arrive, ready⟩
  rw [Bool.and_eq_true, Bool.and_eq_true, decide_eq_true_iff, decide_eq_true_iff] at ready
  rcases ready with ⟨⟨few, writes⟩, executed⟩
  rcases World.exists_run (World.Delivers (some 2)) executed with ⟨world, run, references⟩
  rcases shared_queue_delivers fresh arrive
    few (fun id isWriter => Option.some.inj isWriter ▸ writes) run with
      ⟨⟨board, broadcast, -, counts⟩, unread, -⟩
  exact ⟨world, board, broadcast, counts, unread, of_decide_eq_true references⟩

/-! ## Too many subscribers -/

namespace World

/-- A queue without messages that `count + 1` objects have subscribed to. -/
def crowd (count : Nat) : World where
  memory := { (Queue.created .shared 100 1 []).memory with
    subscriptionsCount := (count + 1) % 2 ^ 32 }
  live := Finset.range (count + 1)
  handle := fun _ => Queue.newHandle .shared 1 0

theorem crowd_step (count : Nat) :
    (crowd count).Step (.attach (count + 1) .shared 1 [], .done) (crowd (count + 1)) := by
  have same : (⟨(crowd count).memory.incSubscriptionsCount,
      insert (count + 1) (Finset.range (count + 1)),
      Function.update (fun _ => Queue.newHandle .shared 1 0) (count + 1)
        (Queue.newHandle .shared 1 0)⟩ : World) = crowd (count + 1) := by
    rw [Function.update_eq_self (count + 1) (fun _ => Queue.newHandle .shared 1 0),
      ← Finset.range_add_one, QueueMemory.incSubscriptionsCount, crowd, crowd]
    simp only [Nat.mod_add_mod]
  refine ⟨by simp [Enabled, crowd], ?_⟩
  rw [← same]
  rfl

theorem crowd_run (count : Nat) :
    ∃ arrivals, Run (fun world label next => label.1.Joins ∧ world.Step label next)
      (crowd 0) arrivals (crowd count) := by
  induction count with
  | zero => exact ⟨[], .nil⟩
  | succ count induction =>
      rcases induction with ⟨arrivals, run⟩
      have joins : (Action.attach (count + 1) .shared 1 []).Joins := .inl rfl
      exact ⟨_, run.append (.cons ⟨joins, crowd_step count⟩ .nil)⟩

end World

/-- The subscribers are counted with 32 bits: with `2 ^ 32` of them a message is
stored as one that nobody has to pop. -/
theorem shared_queue_counter_overflows :
    ∃ (first opened world : World) (arrivals labels : List (Action × Result)),
      first.FreshShared ∧
      Run (fun world label next => label.1.Joins ∧ world.Step label next)
        first arrivals opened ∧
      Run (fun world label next => world.Delivers none label.1 ∧ world.Step label next)
        opened labels world ∧
      world.memory.references ≠ world.unread := by
  rcases World.crowd_run (2 ^ 32 - 1) with ⟨arrivals, arrive⟩
  have fresh : (World.crowd 0).FreshShared :=
    ⟨.zeros, .shared, 0, 100, 1, [], _, 0, .inl rfl, by decide, by decide, rfl, rfl⟩
  have pushes : (((World.crowd (2 ^ 32 - 1)).queue 0).push 3 [7] 10).toOption.map
      (fun pushed => (pushed.1, pushed.2.memory.references, pushed.2.count,
        pushed.2.memory.count, pushed.2.self.type)) = some (true, [0], 1, 1, .shared) := by
    decide +kernel
  cases pushed : ((World.crowd (2 ^ 32 - 1)).queue 0).push 3 [7] 10 with
  | error fault =>
    rw [pushed] at pushes
    cases pushes
  | ok accepted =>
    rcases accepted with ⟨accepted, next⟩
    rw [pushed] at pushes
    simp only [Except.toOption, Option.map_some, Option.some.injEq, Prod.mk.injEq] at pushes
    rcases pushes with ⟨rfl, references, count, stored, isShared⟩
    have member : 0 ∈ (World.crowd (2 ^ 32 - 1)).live :=
      Finset.mem_range.mpr (Nat.succ_pos _)
    have step : (World.crowd (2 ^ 32 - 1)).Step (.push 0 3 [7] 10, .pushed true)
        ((World.crowd (2 ^ 32 - 1)).update 0 next) := by
      refine ⟨member, ?_⟩
      have tag : UInt32.toNat 3 = 3 := rfl
      simp only [World.perform, tag, pushed, Bind.bind, Except.bind, pure, Except.pure]
    have delivers : (World.crowd (2 ^ 32 - 1)).Delivers none (.push 0 3 [7] 10) :=
      ⟨rfl, by simp⟩
    refine ⟨_, _, _, arrivals, _, fresh, arrive, .cons ⟨delivers, step⟩ .nil, ?_⟩
    rw [World.update_memory, references, World.unread, World.update_memory, stored]
    intro same
    have nobody := Finset.card_eq_zero.mp (List.cons.inj same).1.symm
    have waits : 0 ∈ ({id ∈ ((World.crowd (2 ^ 32 - 1)).update 0 next).subscribers |
        1 ≤ 0 + (((World.crowd (2 ^ 32 - 1)).update 0 next).queue id).count} :
          Finset Nat) := by
      refine Finset.mem_filter.mpr ⟨Finset.mem_filter.mpr ⟨member, ?_⟩, ?_⟩
      · rw [World.update_handle_self, isShared]
        simp
      · rw [World.update_queue_self, count]
    rw [nobody] at waits
    exact absurd waits (Finset.notMem_empty 0)

end Qbus
