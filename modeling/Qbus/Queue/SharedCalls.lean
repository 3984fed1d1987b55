import Qbus.Queue.Shared

/-! # Calls of shared queues

Every sound call on a world of shared queue objects returns, and does to the
ledger what it is meant to do. -/

namespace Qbus

open ByteMemory Message Circular Placement Storage MachineWord

namespace SharedWorld

variable {world : World} {ledger after : Ledger Nat Entry} {id : Nat} {next : Queue}

variable {action : Action}

theorem subscribe (shared : SharedWorld world ledger) {sid : Nat} {clock : List Nat}
    (room : world.subscribers.card + 1 < 2 ^ 32) (newcomer : id ∉ world.live) :
    ∃ result next after,
      world.perform (.attach id .shared sid clock) = .ok (result, next) ∧
      Effect world ledger (.attach id .shared sid clock, result) next after := by
  have notMember : id ∉ ledger.members := fun isMember =>
    newcomer (shared.mem_members.mp isMember).1
  have older : ∀ other ∈ world.live, other ≠ id := fun other live same =>
    newcomer (same ▸ live)
  refine ⟨.done, { world.update id ⟨world.memory.incSubscriptionsCount,
    Queue.newHandle .shared sid world.memory.counter⟩ with
    live := insert id world.live }, ledger.join id, rfl, ?_⟩
  have handleSelf : (world.update id ⟨world.memory.incSubscriptionsCount,
      Queue.newHandle .shared sid world.memory.counter⟩).handle id =
        Queue.newHandle .shared sid world.memory.counter := World.update_handle_self _ _ _
  have handleOther : ∀ other, other ≠ id →
      (world.update id ⟨world.memory.incSubscriptionsCount,
        Queue.newHandle .shared sid world.memory.counter⟩).handle other =
          world.handle other := fun other different =>
    World.update_handle_of_ne world _ different
  rw [← shared.members] at room
  have inserted : (insert id ledger.members).card = ledger.members.card + 1 :=
    Finset.card_insert_of_notMem notMember
  refine ⟨⟨shared.tracks.join notMember, ?_, ?_, ?_, ?_, ?_, ?_⟩, .subscribe notMember, .refl _, rfl,
    rfl, ?_, fun other live => by rw [handleOther other (older other live)], ?_, ?_, ?_⟩
  · ext other
    simp only [Ledger.join, World.subscribers, Finset.mem_insert, Finset.mem_filter]
    rcases eq_or_ne other id with same | different
    · rw [same, handleSelf]
      simp [Queue.newHandle]
    · rw [handleOther other different, shared.members, World.subscribers,
        Finset.mem_filter]
      simp [different]
  · change (world.memory.subscriptionsCount + 1) % 2 ^ 32 = (insert id ledger.members).card
    rw [shared.subscribed, inserted, Nat.mod_eq_of_lt room]
  · change (insert id ledger.members).card < 2 ^ 32
    rw [inserted]
    exact room
  · intro other live
    rcases Finset.mem_insert.mp live with same | otherLive
    · rw [same, handleSelf]
      exact .inl rfl
    · rw [handleOther other (older other otherLive)]
      exact shared.types other otherLive
  · intro other isMember
    rcases Finset.mem_insert.mp isMember with same | otherMember
    · rw [same, handleSelf]
      refine ⟨?_, .inl rfl⟩
      change world.memory.counter = _
      rw [shared.tracks.counter]
      simp [Ledger.join]
    · have different : other ≠ id := fun same => notMember (same ▸ otherMember)
      have follows := shared.follows other otherMember
      rw [handleOther other different]
      change Follows world.memory.capacity _ _ _
      simpa [Ledger.join, different] using follows
  · intro other live
    rcases Finset.mem_insert.mp live with same | otherLive
    · rw [same, handleSelf]
      change world.memory.counter < _
      rw [shared.tracks.counter]
      exact Nat.mod_lt _ (by decide)
    · rw [handleOther other (older other otherLive)]
      exact shared.writers other otherLive
  · intro other different
    exact handleOther other fun same => different (congrArg some same.symm)
  · intro other isMember missing
    have different : other ≠ id := fun same => notMember (same ▸ isMember)
    rw [handleOther other different] at missing
    exact ⟨missing, by simp [Ledger.join, different]⟩
  · intro other isMember before
    rcases Finset.mem_insert.mp isMember with same | otherMember
    · rw [same, handleSelf]
      exact .inl rfl
    · have different : other ≠ id := fun same => notMember (same ▸ otherMember)
      rw [handleOther other different]
      simpa [Ledger.join, different] using (before otherMember).1
  · intro other live isActor
    exact absurd (Option.some.inj isActor).symm (older other live)

theorem attach (shared : SharedWorld world ledger) {sid : Nat} {clock : List Nat}
    (newcomer : id ∉ world.live) :
    ∃ result next after,
      world.perform (.attach id .unreadable sid clock) = .ok (result, next) ∧
      Effect world ledger (.attach id .unreadable sid clock, result) next after := by
  have older : ∀ other ∈ world.live, other ≠ id := fun other live same =>
    newcomer (same ▸ live)
  refine ⟨.done, { world.update id ⟨world.memory,
    Queue.newHandle .unreadable sid world.memory.counter⟩ with
    live := insert id world.live }, ledger, rfl, ?_⟩
  have handleSelf : (world.update id ⟨world.memory,
      Queue.newHandle .unreadable sid world.memory.counter⟩).handle id =
        Queue.newHandle .unreadable sid world.memory.counter :=
    World.update_handle_self _ _ _
  have handleOther : ∀ other, other ≠ id → (world.update id ⟨world.memory,
      Queue.newHandle .unreadable sid world.memory.counter⟩).handle other =
        world.handle other := fun other different =>
    World.update_handle_of_ne world _ different
  refine ⟨⟨shared.tracks, ?_, shared.subscribed, shared.few, ?_, ?_, ?_⟩, .attach fun isMember =>
      newcomer (shared.mem_members.mp isMember).1,
    .refl _, rfl, rfl, ?_, fun other live => by rw [handleOther other (older other live)],
    ?_, ?_, ?_⟩
  · ext other
    rw [shared.members]
    simp only [World.subscribers, Finset.mem_insert, Finset.mem_filter]
    rcases eq_or_ne other id with same | different
    · rw [same, handleSelf]
      simp [Queue.newHandle, newcomer]
    · rw [handleOther other different]
      simp [different]
  · intro other live
    rcases Finset.mem_insert.mp live with same | otherLive
    · rw [same, handleSelf]
      exact .inr rfl
    · rw [handleOther other (older other otherLive)]
      exact shared.types other otherLive
  · intro other isMember
    have different := older other (shared.mem_members.mp isMember).1
    rw [handleOther other different]
    exact shared.follows other isMember
  · intro other live
    rcases Finset.mem_insert.mp live with same | otherLive
    · rw [same, handleSelf]
      change world.memory.counter < _
      rw [shared.tracks.counter]
      exact Nat.mod_lt _ (by decide)
    · rw [handleOther other (older other otherLive)]
      exact shared.writers other otherLive
  · intro other different
    exact handleOther other fun same => different (congrArg some same.symm)
  · intro other isMember missing
    rw [handleOther other (older other (shared.mem_members.mp isMember).1)] at missing
    exact ⟨missing, rfl⟩
  · intro other isMember before
    rw [handleOther other (older other (shared.mem_members.mp isMember).1)]
    exact (before isMember).1
  · intro other live isActor
    exact absurd (Option.some.inj isActor).symm (older other live)

theorem ahead_eq (shared : SharedWorld world ledger) (isMember : id ∈ ledger.members) :
    world.ahead id = (List.range (ledger.cursor id - ledger.collected)).map fun offset =>
      ledger.refs (ledger.collected + offset) := by
  have stored := shared.tracks.valid.cursorGe id isMember
  have inside := shared.tracks.valid.cursorLe id isMember
  have number : world.memory.count - (world.queue id).count =
      ledger.cursor id - ledger.collected := by
    rw [shared.count_eq isMember, shared.tracks.ring.countEq]
    omega
  rw [World.ahead, number, shared.tracks.ring.references_eq, shared.tracks.ring.countEq,
    ← List.map_take, List.take_range, Nat.min_eq_left (by omega)]

theorem passed_iff (shared : SharedWorld world ledger) (isMember : id ∈ ledger.members) :
    world.Passed id ↔ ∀ index, ledger.collected ≤ index → index < ledger.cursor id →
      ledger.refs index = 0 := by
  rw [World.Passed, shared.ahead_eq isMember]
  simp only [List.mem_map, List.mem_range, forall_exists_index, and_imp,
    forall_apply_eq_imp_iff₂]
  constructor
  · intro zero index lower upper
    rw [← zero (index - ledger.collected) (by omega), Nat.add_sub_cancel' lower]
  · intro zero offset below
    exact zero _ (by omega) (by omega)

theorem push (shared : SharedWorld world ledger) {tag : UInt32} {data : List UInt8}
    {now : Nat} (sound : world.Sound (.push id tag data now)) (nonempty : data ≠ [])
    (live : id ∈ world.live) :
    ∃ result next after, world.perform (.push id tag data now) = .ok (result, next) ∧
      Effect world ledger (.push id tag data now, result) next after := by
  have small := tag.toNat_lt
  have shown : ((world.queue id).pushedEntry tag.toNat now data nonempty).view =
      ⟨tag.toNat, data.length, data⟩ := by
    simp [Queue.pushedEntry, Entry.view, Entry.size, Nat.mod_eq_of_lt small]
  rcases shared.types id live with isShared | unreadable
  · rw [World.Sound, if_neg (by simp [isShared])] at sound
    have isMember := shared.mem_members.mpr ⟨live, isShared⟩
    have follows := shared.follows id isMember
    have attempt : ∃ accepted next after,
        (world.queue id).push tag.toNat data now = .ok (accepted, next) ∧
        Queue.MemberPushes (world.queue id) next ledger after id (if accepted then
          [(world.queue id).pushedEntry tag.toNat now data nonempty] else []) := by
      rcases sound with keeps | passed
      · have counted : (world.queue id).self.type ≠ .simple := by
          simp [World.queue, isShared]
        rcases Queue.push_of_keepsExpired
          counted (by simp [World.queue, isShared]) shared.tracks
          (Queue.member_walkable counted shared.tracks isMember follows)
          shared.subscribed shared.few nonempty keeps with
            ⟨accepted, count, memory, result, pushes⟩
        rw [Queue.collector_of_ne _ _ (by simp [World.queue, isShared])] at result
        exact ⟨accepted, _, _, result, Queue.Pushes.memberPushes pushes isShared follows
          (shared.tracks.valid.cursorLe id isMember)⟩
      · exact Queue.member_push isShared shared.tracks isMember follows
          (fun missing => (shared.passed_iff isMember).mp (passed missing))
          shared.subscribed shared.few nonempty tag.toNat now
    rcases attempt with ⟨accepted, next, after, result, pushes⟩
    refine ⟨.pushed accepted, world.update id next, after, ?_, ?_⟩
    · simp only [World.perform, result, Bind.bind, Except.bind, pure, Except.pure]
    · refine shared.effect rfl pushes.acts.tracks pushes.acts.evolves pushes.acts.settings
        pushes.acts.type_eq (fun _ => pushes.follows) (Queue.counter_lt pushes.follows)
        (.push shown pushes.acts.evolves (fun kept => pushes.cursor
          (kept.resolve_right (not_not_intro isMember))) (fun _ => pushes.inside)
          pushes.sweeps) pushes.acts.frame
        (fun _ missing => ?_) (fun _ before moved => ?_) (fun unreadable => ?_)
      · exact ⟨(pushes.head missing).1, by rw [(pushes.head missing).2]⟩
      · have kept := moved.resolve_right (by simp)
        have appended := before.append (if accepted then
          [(world.queue id).pushedEntry tag.toNat now data nonempty] else [])
        rw [← pushes.acts.evolves.log] at appended
        rw [kept]
        rwa [Cached, pushes.acts.messageDesc_eq]
      · rw [isShared] at unreadable
        cases unreadable
  · rw [World.Sound, if_pos unreadable] at sound
    have notMember : id ∉ ledger.members := fun isMember => by
      have isShared := (shared.mem_members.mp isMember).2
      rw [unreadable] at isShared
      cases isShared
    rcases Queue.push_of_keepsExpired
      (by simp [World.queue, unreadable]) (by simp [World.queue, unreadable])
      shared.tracks sound.1 shared.subscribed shared.few nonempty sound.2 with ⟨accepted, count, memory, result, pushes⟩
    have acts := Queue.Pushes.acts pushes id
    refine ⟨.pushed accepted,
      world.update id ⟨memory, (world.queue id).collector count⟩,
      Queue.pushedLedger ledger count
        ((world.queue id).pushedEntry tag.toNat now data nonempty) accepted, ?_, ?_⟩
    · simp only [World.perform, result, Bind.bind, Except.bind, pure, Except.pure]
    · refine shared.effect rfl acts.tracks acts.evolves acts.settings acts.type_eq
        (fun isMember => absurd isMember notMember)
        (Queue.collector_counter_lt _ (shared.writers id live))
        (.push shown acts.evolves (fun _ => Queue.pushedLedger_cursor)
          (fun isMember => absurd isMember notMember) pushes.sweeps) acts.frame
        (fun isMember => absurd isMember notMember)
        (fun isMember => absurd isMember notMember) (fun _ => ?_)
      · rw [Queue.pushedLedger_collected, Nat.add_sub_cancel_left]
        exact Queue.collector_counter _ unreadable

private theorem shared_of_readable (shared : SharedWorld world ledger)
    (live : id ∈ world.live) (readable : (world.handle id).type ≠ .unreadable) :
    (world.queue id).self.type = .shared ∧ id ∈ ledger.members := by
  have isShared := (shared.types id live).resolve_right readable
  exact ⟨isShared, shared.mem_members.mpr ⟨live, isShared⟩⟩

theorem baseGetMessage_eq (shared : SharedWorld world ledger)
    (isMember : id ∈ ledger.members) (aligned : world.Aligned id) {entry : Entry}
    (found : ledger.log[ledger.cursor id]? = some entry) :
    (world.queue id).baseGetMessage = .ok (desc world.memory.capacity
      (start world.memory.capacity ledger.log (ledger.cursor id)) entry.size) := by
  have isShared : (world.queue id).self.type = .shared :=
    (shared.mem_members.mp isMember).2
  have below := (List.getElem?_eq_some_iff.mp found).1
  have stored := shared.tracks.valid.cursorGe id isMember
  have countEq := shared.count_eq isMember
  have storedEq := shared.tracks.ring.countEq
  refine Queue.baseGetMessage_of_follows (by simp [isShared]) shared.tracks
    (shared.follows id isMember) stored found fun missing => ?_
  rcases aligned with none | privateHead | same
  · omega
  · exact absurd missing privateHead
  · omega

theorem current_of_cached (shared : SharedWorld world ledger)
    (isMember : id ∈ ledger.members) (aligned : world.Aligned id)
    (cached : Cached world.memory.capacity ledger.log (world.handle id)
      (ledger.cursor id)) : world.Current id := by
  rcases cached with none | ⟨entry, found, described⟩
  · exact .inr (.inl none)
  · refine .inr (.inr ?_)
    rw [shared.baseGetMessage_eq isMember aligned found, described]

theorem get (shared : SharedWorld world ledger) (aligned : world.Aligned id)
    (live : id ∈ world.live) (readable : (world.handle id).type ≠ .unreadable) :
    ∃ result next after, world.perform (.get id) = .ok (result, next) ∧
      Effect world ledger (.get id, result) next after := by
  rcases shared.shared_of_readable live readable with ⟨isShared, isMember⟩
  have follows := shared.follows id isMember
  have inside := shared.tracks.valid.cursorLe id isMember
  have countEq := shared.count_eq isMember
  cases found : ledger.log[ledger.cursor id]? with
  | none =>
      have beyond := List.getElem?_eq_none_iff.mp found
      refine ⟨.message (ledger.log[ledger.cursor id]?.map Entry.view),
        world.update id (world.queue id), ledger, ?_, ?_⟩
      · rw [found, World.perform, Queue.get, if_neg (by omega)]
        rfl
      · exact shared.effect_refl rfl isMember rfl .get fun before => before
  | some entry =>
      have below := (List.getElem?_eq_some_iff.mp found).1
      have reads := shared.baseGetMessage_eq isMember aligned found
      have stored := shared.tracks.valid.cursorGe id isMember
      have shown : MessageView.ofChain (world.queue id).memory.data (desc
          world.memory.capacity (start world.memory.capacity ledger.log
            (ledger.cursor id)) entry.size).first = some entry.view :=
        shared.tracks.ring.ofChain_eq stored found
      refine ⟨.message (ledger.log[ledger.cursor id]?.map Entry.view),
        world.update id { world.queue id with self := { (world.queue id).self with
          messageDesc := desc world.memory.capacity (start world.memory.capacity
            ledger.log (ledger.cursor id)) entry.size } }, ledger, ?_, ?_⟩
      · rw [found, World.perform, Queue.get, if_pos (by omega), Queue.getMessage, isShared]
        simp only [reads, Bind.bind, Except.bind, pure, Except.pure, shown, Option.map_some]
      · exact shared.effect_refl rfl isMember rfl .get fun _ => .inr ⟨entry, found, rfl⟩

theorem pop (shared : SharedWorld world ledger) (aligned : world.Aligned id)
    (current : world.Current id) (live : id ∈ world.live)
    (readable : (world.handle id).type ≠ .unreadable) :
    ∃ result next after, world.perform (.pop id) = .ok (result, next) ∧
      Effect world ledger (.pop id, result) next after := by
  rcases shared.shared_of_readable live readable with ⟨isShared, isMember⟩
  have follows := shared.follows id isMember
  have inside := shared.tracks.valid.cursorLe id isMember
  have countEq := shared.count_eq isMember
  cases found : ledger.log[ledger.cursor id]? with
  | none =>
      have beyond := List.getElem?_eq_none_iff.mp found
      refine ⟨.popped false, world.update id (world.queue id), ledger, ?_, ?_⟩
      · rw [World.perform, Queue.pop, if_neg (by omega)]
        rfl
      · exact shared.effect_refl rfl isMember rfl (.popNone beyond) fun before => before
  | some entry =>
      have below := (List.getElem?_eq_some_iff.mp found).1
      have reads := shared.baseGetMessage_eq isMember aligned found
      have counted : (world.queue id).self.type ≠ .simple := by simp [isShared]
      rcases Queue.member_pop counted
        shared.tracks isMember follows found with ⟨popped, pops, acts, moved, placed, -⟩
      have popsNext : (world.queue id).popMessage (desc world.memory.capacity
          (start world.memory.capacity ledger.log (ledger.cursor id)) entry.size) =
            .ok popped := pops
      have cursorEq : (ledger.advance id).cursor id = ledger.cursor id + 1 := by
        simp [Ledger.advance]
      have stillFollows : Follows popped.memory.capacity (ledger.advance id).log
          popped.self ((ledger.advance id).cursor id) := by
        rw [cursorEq, acts.settings.capacity]
        exact moved
      refine ⟨.popped true, world.update id { popped with self := { popped.self with
        messageDesc := { desc world.memory.capacity (start world.memory.capacity
          ledger.log (ledger.cursor id)) entry.size with first := [] } } },
        ledger.advance id, ?_, ?_⟩
      · rw [World.perform, Queue.pop, if_pos (by omega)]
        by_cases cached : (world.queue id).self.messageDesc.first = []
        · rw [if_pos cached, Queue.getMessage, isShared]
          simp only [reads, Bind.bind, Except.bind, pure, Except.pure, popsNext]
        · have described : (world.queue id).self.messageDesc = desc world.memory.capacity
              (start world.memory.capacity ledger.log (ledger.cursor id)) entry.size := by
            rcases current with none | missing | same
            · omega
            · exact absurd missing cached
            · rw [reads] at same
              exact (Except.ok.inj same).symm
          rw [if_neg cached, described]
          simp only [Bind.bind, Except.bind, pure, Except.pure, popsNext]
      · have small : popped.self.counter < 2 ^ 32 := Queue.counter_lt stillFollows
        refine shared.effect rfl acts.tracks acts.evolves acts.settings acts.type_eq
          (fun _ => stillFollows.of_cursor_eq rfl rfl) small (.pop below) acts.frame
          (fun _ missing => absurd missing placed) (fun _ _ _ => .inl rfl)
          fun unreadable => ?_
        have isUnreadable : (world.queue id).self.type = .unreadable := unreadable
        rw [isShared] at isUnreadable
        cases isUnreadable

theorem clean (shared : SharedWorld world ledger) (walkable : (world.queue id).Walkable)
    (live : id ∈ world.live) :
    ∃ result next after, world.perform (.clean id) = .ok (result, next) ∧
      Effect world ledger (.clean id, result) next after := by
  have counted : (world.queue id).self.type ≠ .simple := by
    rcases shared.types id live with isShared | unreadable
    · simp [World.queue, isShared]
    · simp [World.queue, unreadable]
  rcases Queue.cleanMessages_eq counted
    shared.tracks walkable with ⟨count, info, memory, cleans, number, collects, -⟩
  have acts := Queue.Collects.acts collects id
  refine ⟨.cleaned count, world.update id ⟨memory, (world.queue id).collector count⟩,
    ledger.collect count, ?_, ?_⟩
  · simp only [World.perform, Queue.clean, cleans, Bind.bind, Except.bind, pure,
      Except.pure, number]
  · have sameSelf : id ∈ ledger.members → (world.queue id).collector count =
        world.handle id := fun isMember => by
      have isShared : (world.queue id).self.type = .shared :=
        (shared.mem_members.mp isMember).2
      exact Queue.collector_of_ne _ _ (by simp [isShared])
    refine shared.effect rfl acts.tracks acts.evolves acts.settings acts.type_eq
      (fun isMember => ?_) (Queue.collector_counter_lt _ (shared.writers id live))
      (.clean collects.garbage) acts.frame (fun isMember missing => ?_) (fun isMember before _ => ?_)
      fun unreadable => ?_
    · rw [sameSelf isMember, collects.settings.capacity]
      exact shared.follows id isMember
    · rw [sameSelf isMember] at missing
      exact ⟨missing, rfl⟩
    · rw [sameSelf isMember]
      exact before
    · rw [Queue.collector_counter _ unreadable]
      change _ = (_ + (ledger.collected + count - ledger.collected)) % _
      rw [Nat.add_sub_cancel_left]
      rfl

theorem destroy (shared : SharedWorld world ledger) {clock : List Nat}
    (live : id ∈ world.live) :
    ∃ result next after, world.perform (.destroy id clock) = .ok (result, next) ∧
      Effect world ledger (.destroy id clock, result) next after := by
  have stays : ∀ other ∈ world.live.erase id, other ∈ world.live := fun other otherLive =>
    Finset.mem_of_mem_erase otherLive
  by_cases isMember : id ∈ ledger.members
  · have isShared : (world.queue id).self.type = .shared :=
      (shared.mem_members.mp isMember).2
    have positive := Finset.card_pos.mpr ⟨id, isMember⟩
    have few := shared.few
    have erased : (ledger.members.erase id).card = ledger.members.card - 1 :=
      Finset.card_erase_of_mem isMember
    refine ⟨.done, { world with
      memory := world.memory.decSubscriptionsCount
      live := world.live.erase id }, ledger.leave id, ?_, ⟨shared.tracks.decSubscriptionsCount.leave isMember,
      ?_, ?_, ?_, fun other otherLive => shared.types other (stays other otherLive), ?_,
      fun other otherLive => shared.writers other (stays other otherLive)⟩,
      .leave isMember, ?_, QueueMemory.decSubscriptionsCount_capacity world.memory, ?_,
      fun _ _ => rfl, fun _ _ => rfl, fun _ _ missing => ⟨missing, rfl⟩,
      fun other isOther before => (before (Finset.mem_of_mem_erase isOther)).1, ?_⟩
    · rw [World.perform, Queue.destroy, isShared]
      rfl
    · ext other
      simp only [Ledger.leave, World.subscribers, Finset.mem_erase, Finset.mem_filter,
        shared.members, and_assoc]
    · change sub32 world.memory.subscriptionsCount 1 = (ledger.members.erase id).card
      rw [shared.subscribed, erased, sub32_of_le (by omega) few]
    · change (ledger.members.erase id).card < 2 ^ 32
      omega
    · intro other otherMember
      have follows := shared.follows other (Finset.mem_of_mem_erase otherMember)
      rw [← QueueMemory.decSubscriptionsCount_capacity world.memory] at follows
      exact follows
    · change AgreeUpToCounters world.memory.decSubscriptionsCount.data _ _ _ _
      rw [QueueMemory.decSubscriptionsCount_data]
      exact .refl _
    · exact QueueMemory.decSubscriptionsCount_keepaliveTimeout world.memory
    · intro other otherLive isActor _
      change (world.handle other).counter = (_ + (ledger.collected - ledger.collected)) % _
      rw [Nat.sub_self, Nat.add_zero, Nat.mod_eq_of_lt (shared.writers other otherLive)]
  · have unreadable : (world.queue id).self.type = .unreadable :=
      (shared.types id live).resolve_left fun isShared =>
        isMember (shared.mem_members.mpr ⟨live, isShared⟩)
    refine ⟨.done, { world with live := world.live.erase id }, ledger, ?_, ⟨shared.tracks,
      ?_, shared.subscribed, shared.few,
      fun other otherLive => shared.types other (stays other otherLive), shared.follows,
      fun other otherLive => shared.writers other (stays other otherLive)⟩,
      .destroy isMember, .refl _, rfl, rfl, fun _ _ => rfl, fun _ _ => rfl,
      fun _ _ missing => ⟨missing, rfl⟩, fun other isOther before => (before isOther).1,
      ?_⟩
    · rw [World.perform, Queue.destroy, unreadable]
      rfl
    · ext other
      rw [shared.mem_members]
      simp only [World.subscribers, Finset.mem_filter, Finset.mem_erase]
      rcases eq_or_ne other id with same | different
      · rw [same]
        have isUnreadable : (world.handle id).type = .unreadable := unreadable
        simp [isUnreadable]
      · constructor
        · rintro ⟨otherLive, isShared⟩
          exact ⟨⟨different, otherLive⟩, by simp [isShared]⟩
        · rintro ⟨⟨-, otherLive⟩, readable⟩
          exact ⟨otherLive, (shared.types other otherLive).resolve_right readable⟩
    · intro other otherLive isActor _
      change (world.handle other).counter = (_ + (ledger.collected - ledger.collected)) % _
      rw [Nat.sub_self, Nat.add_zero, Nat.mod_eq_of_lt (shared.writers other otherLive)]

theorem keepaliveTimeout (shared : SharedWorld world ledger) (value : Nat) :
    ∃ result next after, world.perform (.keepaliveTimeout value) = .ok (result, next) ∧
      Effect world ledger (.keepaliveTimeout value, result) next after := by
  refine ⟨.done, { world with memory := world.memory.setKeepaliveTimeout value }, ledger,
    rfl, ?_, .keepaliveTimeout, .refl _, rfl, rfl, fun _ _ => rfl, fun _ _ => rfl,
    fun _ _ missing => ⟨missing, rfl⟩, fun other isOther before => (before isOther).1,
    fun _ _ isActor => by cases isActor⟩
  exact ⟨⟨shared.tracks.ring.congr rfl rfl rfl rfl rfl, shared.tracks.counter,
    shared.tracks.valid⟩, shared.members, shared.subscribed, shared.few, shared.types,
    shared.follows, shared.writers⟩

theorem perform (shared : SharedWorld world ledger) (sound : world.Sound action)
    (hasData : action.HasData) (enabled : world.Enabled action) :
    ∃ result next after, world.perform action = .ok (result, next) ∧
      Effect world ledger (action, result) next after := by
  cases action with
  | attach id type sid clock =>
      rcases sound with ⟨rfl, room⟩ | rfl
      · exact shared.subscribe room enabled
      · exact shared.attach enabled
  | push id tag data now => exact shared.push sound hasData enabled
  | get id => exact shared.get sound enabled.1 enabled.2
  | pop id => exact shared.pop sound.1 sound.2 enabled.1 enabled.2
  | clean id => exact shared.clean sound enabled
  | destroy id clock => exact shared.destroy enabled
  | keepaliveTimeout value => exact shared.keepaliveTimeout value

end SharedWorld

end Qbus
