import Qbus.Queue.Broadcast
import Qbus.Queue.Execution

/-! # Leaving

A subscriber that is destroyed gives up no reference. When it has popped all
messages before, none is left behind, and the messages that everyone else has
popped can be collected. -/

namespace Qbus

open ByteMemory Message Circular Placement Storage MachineWord

namespace World

/-- The sound steps of shared queues without a timeout whose subscribers only
leave after they have popped all messages. -/
def Releases (world : World) : Action → Prop
  | .attach _ type _ _ =>
      type = .shared ∧ world.subscribers.card + 1 < 2 ^ 32 ∨ type = .unreadable
  | .push id _ _ _ => (world.handle id).type = .unreadable → (world.queue id).Walkable
  | .get id => world.Aligned id
  | .pop id => world.Aligned id
  | .clean id => (world.queue id).Walkable
  | .destroy id _ => (world.handle id).type = .shared → (world.queue id).count = 0
  | .keepaliveTimeout _ => False

instance (world : World) : DecidablePred world.Releases
  | .attach _ type _ _ => inferInstanceAs
      (Decidable (type = .shared ∧ world.subscribers.card + 1 < 2 ^ 32 ∨ type = .unreadable))
  | .push _ _ _ _ => inferInstanceAs (Decidable (_ = _ → _))
  | .get id => inferInstanceAs (Decidable (world.Aligned id))
  | .pop id => inferInstanceAs (Decidable (world.Aligned id))
  | .clean id => inferInstanceAs (Decidable (world.queue id).Walkable)
  | .destroy _ _ => inferInstanceAs (Decidable (_ = _ → _))
  | .keepaliveTimeout _ => inferInstanceAs (Decidable False)

end World

/-- What the steps keep: no timeout, no references left behind, and current cached
descriptions. -/
structure Releasing (world : World) (ledger : Ledger Nat Entry) : Prop where
  timeout : world.memory.keepaliveTimeout = 0
  unleaked : ledger.leaked = fun _ => 0
  cached : ∀ id ∈ ledger.members,
    Cached world.memory.capacity ledger.log (world.handle id) (ledger.cursor id)

namespace Releasing

variable {world next : World} {ledger after : Ledger Nat Entry} {action : Action}
  {label : Action × Result} {id : Nat}

theorem sound (releasing : Releasing world ledger) (shared : SharedWorld world ledger)
    (releases : world.Releases action) (enabled : world.Enabled action) :
    world.Sound action := by
  cases action with
  | attach id type sid clock => exact releases
  | push id tag data now =>
      have keeps : world.KeepsExpired id tag.toNat data now := .inl releasing.timeout
      rcases shared.types id enabled with isShared | unreadable
      · rw [World.Sound, if_neg (by simp [isShared])]
        exact .inl keeps
      · rw [World.Sound, if_pos unreadable]
        exact ⟨releases unreadable, keeps⟩
  | get id => exact releases
  | pop id =>
      have isMember := shared.mem_members.mpr ⟨enabled.1,
        (shared.types id enabled.1).resolve_right enabled.2⟩
      exact ⟨releases, shared.current_of_cached isMember releases
        (releasing.cached id isMember)⟩
  | clean id => exact releases
  | destroy id clock => trivial
  | keepaliveTimeout value => exact releases.elim

theorem kept (releasing : Releasing world ledger) (shared : SharedWorld world ledger)
    (releases : world.Releases label.1)
    (effect : SharedWorld.Effect world ledger label next after) :
    Releasing next after := by
  refine ⟨?_, ?_, ?_⟩
  · rw [effect.timeout, ← releasing.timeout]
    cases isAction : label.1 with
    | keepaliveTimeout value =>
        rw [isAction] at releases
        exact releases.elim
    | _ => rfl
  · rw [effect.step.leaked_eq, releasing.unleaked]
    -- a subscriber that leaves has popped all messages
    intro id clock isDestroy isMember
    rw [isDestroy] at releases
    have read := releases (shared.mem_members.mp isMember).2
    have inside := shared.tracks.valid.cursorLe id isMember
    rw [shared.count_eq isMember] at read
    omega
  · intro id isMember
    rw [effect.capacity]
    refine effect.cached id isMember fun wasMember =>
      ⟨releasing.cached id wasMember, ?_⟩
    by_cases isPop : label.1 = .pop id
    · exact .inr isPop
    · exact .inl (effect.step.cursor_eq releasing.timeout wasMember isPop)

theorem clean_all (releasing : Releasing world ledger) (shared : SharedWorld world ledger)
    (read : ∀ id ∈ world.subscribers, (world.queue id).count = 0)
    (live : id ∈ world.live) (walkable : (world.queue id).Walkable) :
    ∃ count next, world.perform (.clean id) = .ok (.cleaned count, next) ∧
      next.memory.count = 0 := by
  rcases shared.clean walkable live with ⟨result, next, after, performed, effect⟩
  have unreferenced : ∀ index, ledger.collected ≤ index → index < ledger.log.length →
      ledger.refs index = 0 := by
    intro index _ below
    have nobody : ledger.waiting index = ∅ := by
      refine Finset.eq_empty_of_forall_notMem fun member waits => ?_
      rcases Ledger.mem_waiting.mp waits with ⟨isMember, unread⟩
      have popped := read member (shared.members ▸ isMember)
      rw [shared.count_eq isMember] at popped
      omega
    simp [Ledger.refs, nobody, releasing.unleaked]
  have collects : ∃ count, ledger.Garbage count ∧
      result = .cleaned count ∧ after = ledger.collect count := by
    cases effect.step with
    | clean garbage => exact ⟨_, garbage, rfl, rfl⟩
  rcases collects with ⟨count, garbage, rfl, rfl⟩
  have swept := garbage.sweeps ledger.log.length (Nat.le_refl _) unreferenced
  refine ⟨count, next, performed, ?_⟩
  rw [effect.shared.tracks.ring.countEq]
  exact Nat.sub_eq_zero_of_le swept

end Releasing

/-- Nothing is stored for a subscriber that has popped all messages before it
leaves: in every run in which all subscribers do so, the reference counters are
the numbers of remaining subscribers that have not popped the messages, and once
these have popped all of them, `clean()` empties the ring. -/
theorem shared_queue_leaving_releases {first world : World}
    {labels : List (Action × Result)} (fresh : first.FreshShared)
    (run : Run (fun world label next => world.Releases label.1 ∧ world.Step label next)
      first labels world) :
    world.memory.references = world.unread ∧
    ((∀ id ∈ world.subscribers, (world.queue id).count = 0) →
      ∀ id ∈ world.live, (world.queue id).Walkable →
        ∃ count next, world.perform (.clean id) = .ok (.cleaned count, next) ∧
          next.memory.count = 0) := by
  have initial := fresh.initial
  rcases SharedWorld.run Releasing
    (fun shared releasing releases enabled => releasing.sound shared releases enabled)
    (fun shared releasing releases _ effect => releasing.kept shared releases effect)
    run initial.shared ⟨initial.timeout, rfl, fun id isMember =>
      .inl (initial.handles id (Finset.mem_of_mem_filter id isMember)).2.2⟩ with
      ⟨ledger, shared, releasing, -⟩
  exact ⟨shared.references_eq releasing.unleaked, fun read id live walkable =>
    releasing.clean_all shared read live walkable⟩

/-- A subscriber pops all messages and leaves; the other one pops them later. -/
theorem shared_queue_leaving_releases_popped : ∃ (world next : World) (count : Nat),
    world.subscribers = {0} ∧ world.memory.count = 1 ∧
    world.memory.references = world.unread ∧
    world.perform (.clean 0) = .ok (.cleaned count, next) ∧ next.memory.count = 0 := by
  have fresh : (World.created 0 (Queue.created .shared 100 1 [])).FreshShared :=
    ⟨.zeros, .shared, 0, 100, 1, [], _, 0, .inl rfl, by decide, by decide, rfl, rfl⟩
  rcases World.exists_run World.Releases
    (show World.runs _ (World.created 0 (Queue.created .shared 100 1 []))
      [(.attach 1 .shared 2 [], .done),
        (.push 0 3 [1, 2] 10, .pushed true),
        (.pop 1, .popped true),
        (.destroy 1 [], .done),
        (.pop 0, .popped true)]
      (fun world => decide (world.subscribers = {0} ∧ world.memory.count = 1 ∧
        (∀ id ∈ world.subscribers, (world.queue id).count = 0) ∧ 0 ∈ world.live ∧
        (world.queue 0).Walkable)) = true by decide +kernel) with ⟨world, run, observed⟩
  rcases of_decide_eq_true observed with ⟨subscribers, stored, read, live, walkable⟩
  rcases shared_queue_leaving_releases fresh run with ⟨unread, cleans⟩
  rcases cleans read 0 live walkable with ⟨count, next, cleaned, isEmpty⟩
  exact ⟨world, next, count, subscribers, stored, unread, cleaned, isEmpty⟩

/-- A message that was not popped by a subscriber that has left is never collected. -/
theorem shared_queue_leaving_keeps_references : ∃ (first world next : World),
    first.FreshShared ∧
    Run World.Step first
      [(.attach 1 .shared 2 [], .done),
        (.push 0 3 [1, 2] 10, .pushed true),
        (.destroy 1 [], .done),
        (.get 0, .message (some ⟨3, 2, [1, 2]⟩)),
        (.pop 0, .popped true)] world ∧
    (∀ id ∈ world.subscribers, (world.queue id).count = 0) ∧
    world.perform (.clean 0) = .ok (.cleaned 0, next) ∧ next.memory.count ≠ 0 := by
  have fresh : (World.created 0 (Queue.created .shared 100 1 [])).FreshShared :=
    ⟨.zeros, .shared, 0, 100, 1, [], _, 0, .inl rfl, by decide, by decide, rfl, rfl⟩
  rcases World.exists_run (fun _ _ => True)
    (show World.runs _ (World.created 0 (Queue.created .shared 100 1 []))
      [(.attach 1 .shared 2 [], .done),
        (.push 0 3 [1, 2] 10, .pushed true),
        (.destroy 1 [], .done),
        (.get 0, .message (some ⟨3, 2, [1, 2]⟩)),
        (.pop 0, .popped true)]
      (fun world => decide (∀ id ∈ world.subscribers, (world.queue id).count = 0) &&
        world.runs (fun _ _ => True) [(.clean 0, .cleaned 0)]
          fun next => decide (next.memory.count ≠ 0)) = true by decide +kernel) with
      ⟨world, run, observed⟩
  rw [Bool.and_eq_true] at observed
  rcases World.exists_run (fun _ _ => True) observed.2 with ⟨next, cleans, isStored⟩
  cases cleans with
  | cons step rest =>
      cases rest
      exact ⟨_, world, next, fresh, run.mono (fun step => step.2),
        of_decide_eq_true observed.1, step.2.2, of_decide_eq_true isStored⟩

end Qbus
