import Qbus.Queue.Broadcast
import Qbus.Queue.Execution

/-! # Removing expired messages

A push may remove expired messages through the object that pushes. Subscribers
that do so skip their own messages; the others keep theirs, as long as no
write-only object removes messages on their behalf. -/

namespace Qbus

open ByteMemory Message Circular Placement Storage MachineWord

namespace World

/-- The sound steps of shared queues in which no subscriber without a private head
waits behind messages of others when a message is pushed. -/
def Respects (world : World) (action : Action) : Prop :=
  world.Sound action ∧ match action with
    | .push _ _ _ _ => ∀ id ∈ world.subscribers,
        (world.handle id).head = sharedHead → world.Passed id
    | _ => True

instance (world : World) : DecidablePred world.Respects
  | .push _ _ _ _ => inferInstanceAs (Decidable (world.Sound _ ∧
      ∀ id ∈ world.subscribers, (world.handle id).head = sharedHead → world.Passed id))
  | .attach _ _ _ _ => inferInstanceAs (Decidable (world.Sound _ ∧ True))
  | .get _ => inferInstanceAs (Decidable (world.Sound _ ∧ True))
  | .pop _ => inferInstanceAs (Decidable (world.Sound _ ∧ True))
  | .clean _ => inferInstanceAs (Decidable (world.Sound _ ∧ True))
  | .destroy _ _ => inferInstanceAs (Decidable (world.Sound _ ∧ True))
  | .keepaliveTimeout _ => inferInstanceAs (Decidable (world.Sound _ ∧ True))

/-- The cursor of a subscriber stands at the beginning of a stored message or at
the tail, and `count()` is the number of stored messages from there on. -/
structure Stands (world : World) (id : Nat) : Prop where
  inside : (world.queue id).count ≤ world.memory.count
  begins : world.memory.begins[world.memory.count - (world.queue id).count]? =
    some (world.queue id).head

/-- A push keeps the stored messages that a subscriber has not passed: it collects
`gone` messages in front of them, and changes no byte of them but the reference
counters. -/
def Keeps (world next : World) (gone : Nat) : Prop :=
  ∀ offset message, world.memory.stored[offset]? = some message →
    (∃ id ∈ next.subscribers,
      next.memory.count + gone ≤ offset + (next.queue id).count) →
    gone ≤ offset ∧ next.memory.stored[offset - gone]? = some message ∧
    ∀ byte, message.Occupies world.memory.data byte →
      next.memory.data byte = world.memory.data byte

end World

namespace SharedWorld

variable {world next : World} {ledger after : Ledger Nat Entry} {label : Action × Result}
  {id : Nat}

theorem stands (shared : SharedWorld world ledger) (isMember : id ∈ ledger.members)
    (aligned : (world.handle id).head = sharedHead →
      ledger.cursor id = ledger.collected) : world.Stands id := by
  have isShared : (world.queue id).self.type = .shared :=
    (shared.mem_members.mp isMember).2
  have stored := shared.tracks.valid.cursorGe id isMember
  have inside := shared.tracks.valid.cursorLe id isMember
  have countEq := shared.count_eq isMember
  have storedEq := shared.tracks.ring.countEq
  refine ⟨by omega, ?_⟩
  rw [shared.tracks.ring.begins_getElem? (Nat.sub_le _ _),
    Queue.head_eq (by simp [isShared]) shared.tracks (shared.follows id isMember) aligned,
    show ledger.collected + (world.memory.count - (world.queue id).count) =
      ledger.cursor id by omega]
  rfl

/-- After a push a subscriber without a private head reads at the shared head,
when it was not waiting behind messages of others. -/
theorem aligned_after (shared : SharedWorld world ledger)
    (effect : Effect world ledger label next after) (sweeps : ledger.Sweeps after)
    (sameMembers : after.members = ledger.members)
    (passed : (world.handle id).head = sharedHead → world.Passed id)
    (isMember : id ∈ ledger.members) (missing : (next.handle id).head = sharedHead) :
    after.cursor id = after.collected := by
  rcases effect.heads id isMember missing with ⟨before, sameCursor⟩
  have unreferenced := (shared.passed_iff isMember).mp (passed before)
  have swept := sweeps _ (shared.tracks.valid.cursorLe id isMember) unreferenced
  have stored := effect.shared.tracks.valid.cursorGe id (sameMembers ▸ isMember)
  omega

theorem keeps (shared : SharedWorld world ledger)
    (effect : Effect world ledger label next after) {more : List Entry}
    (evolves : ledger.Evolves after id more) :
    next.memory.count + (after.collected - ledger.collected) =
        world.memory.count + more.length ∧
      world.Keeps next (after.collected - ledger.collected) := by
  have ordered := evolves.collected
  have length : after.log.length = ledger.log.length + more.length := by
    rw [evolves.log, List.length_append]
  have collectedLe := shared.tracks.valid.collectedLe
  have afterLe := effect.shared.tracks.valid.collectedLe
  have countEq := shared.tracks.ring.countEq
  have nextCountEq := effect.shared.tracks.ring.countEq
  refine ⟨by omega, ?_⟩
  rintro offset message stored ⟨other, isSubscriber, unpassed⟩
  rw [← effect.shared.members] at isSubscriber
  have behind := effect.shared.tracks.valid.cursorLe other isSubscriber
  have kept := effect.shared.tracks.valid.cursorGe other isSubscriber
  rw [effect.shared.count_eq isSubscriber] at unpassed
  have inside : after.collected ≤ ledger.collected + offset := by omega
  have samePlace : after.collected + (offset - (after.collected - ledger.collected)) =
      ledger.collected + offset := by omega
  refine ⟨by omega, ?_, fun byte occupies => shared.bytes_eq effect stored inside occupies⟩
  rw [shared.tracks.ring.stored_getElem?] at stored
  rcases Option.map_eq_some_iff.mp stored with ⟨entry, found, rfl⟩
  have below := (List.getElem?_eq_some_iff.mp found).1
  rw [effect.shared.tracks.ring.stored_getElem?, samePlace, evolves.log, effect.capacity,
    List.getElem?_append_left below, found, start_append (Nat.le_of_lt below)]
  rfl

end SharedWorld

/-- Pushes respect the subscribers, also those that remove expired messages: in
every run in which no write-only object removes messages and no subscriber
without a private head waits behind messages of others, every push returns, every
subscriber stands at a stored message or at the tail with `count()` messages from
there on, every message has the references of the subscribers that have not
popped it, and the messages that a subscriber has not passed are kept. -/
theorem shared_queue_push_respects_subscribers {first world : World}
    {labels : List (Action × Result)} (fresh : first.FreshShared)
    (run : Run (fun world label next => world.Respects label.1 ∧ world.Step label next)
      first labels world)
    {id : Nat} {tag : UInt32} {data : List UInt8} {now : Nat} (nonempty : data ≠ [])
    (respects : world.Respects (.push id tag data now)) (live : id ∈ world.live) :
    ∃ accepted next gone,
      world.perform (.push id tag data now) = .ok (.pushed accepted, next) ∧
      next.subscribers = world.subscribers ∧
      (∀ id ∈ next.subscribers, next.Stands id) ∧
      List.Forall₂ (· ≤ ·) next.unread next.memory.references ∧
      next.memory.count + gone = world.memory.count + (if accepted then 1 else 0) ∧
      world.Keeps next gone := by
  have initial := fresh.initial
  rcases SharedWorld.run (fun _ _ => True)
    (fun _ _ respects _ => respects.1) (fun _ _ _ _ _ => trivial) run initial.shared trivial with
      ⟨ledger, shared, -, -⟩
  rcases shared.push respects.1 nonempty live with
      ⟨result, next, after, performed, effect⟩
  have returned : ∃ accepted entry,
      result = .pushed accepted ∧
      ledger.Evolves after id (if accepted then [entry] else []) ∧
      ledger.Sweeps after := by
    cases effect.step with
    | push shown evolves kept inside sweeps => exact ⟨_, _, rfl, evolves, sweeps⟩
  rcases returned with ⟨accepted, entry, rfl, evolves, sweeps⟩
  have subscribers : next.subscribers = world.subscribers := by
    rw [← effect.shared.members, evolves.members, shared.members]
  rcases shared.keeps effect evolves with ⟨counts, keeps⟩
  refine ⟨accepted, next, _, performed, subscribers, ?_, effect.shared.unread_le, ?_, keeps⟩
  · intro other isSubscriber
    have passed := respects.2 other (subscribers ▸ isSubscriber)
    rw [← effect.shared.members] at isSubscriber
    exact effect.shared.stands isSubscriber
      (shared.aligned_after effect sweeps evolves.members passed
        (evolves.members ▸ isSubscriber))
  · rw [counts]
    cases accepted <;> rfl

/-- A subscriber removes its own expired message, which the other one has popped. -/
theorem shared_queue_push_respects_subscribers_expired : ∃ (world next : World) (gone : Nat),
    world.perform (.push 0 4 (List.replicate 20 8) 200) = .ok (.pushed true, next) ∧
    (∀ id ∈ next.subscribers, next.Stands id) ∧
    next.memory.count + gone = world.memory.count + 1 ∧ world.Keeps next gone := by
  have fresh : (World.created 0 (Queue.created .shared 60 1 [])).FreshShared :=
    ⟨.zeros, .shared, 0, 60, 1, [], _, 0, .inl rfl, by decide, by decide, rfl, rfl⟩
  rcases World.exists_run World.Respects
    (show World.runs _ (World.created 0 (Queue.created .shared 60 1 []))
      [(.attach 1 .shared 2 [], .done),
        (.keepaliveTimeout 10, .done),
        (.push 1 3 (List.replicate 20 7) 100, .pushed true),
        (.pop 1, .popped true)]
      (fun world => decide (world.Respects (.push 0 4 (List.replicate 20 8) 200) ∧
        0 ∈ world.live) && world.runs (fun _ _ => True)
          [(.push 0 4 (List.replicate 20 8) 200, .pushed true)] fun _ => true) = true by
      decide +kernel) with ⟨world, run, observed⟩
  rw [Bool.and_eq_true, decide_eq_true_iff] at observed
  rcases observed with ⟨⟨respects, live⟩, pushes⟩
  rcases World.exists_run (fun _ _ => True) pushes with ⟨final, pushed, -⟩
  rcases shared_queue_push_respects_subscribers fresh run (by decide) respects live with
    ⟨accepted, next, gone, performed, -, stands, -, counts, keeps⟩
  cases pushed with
  | cons step _ =>
      cases step.2.2.symm.trans performed
      exact ⟨world, _, gone, performed, stands, counts, keeps⟩

/-- A write-only object removes an expired message that a subscriber has not
popped: the subscriber counts two messages, of which one is stored. -/
theorem shared_queue_push_robs_subscriber : ∃ (first world : World),
    first.FreshShared ∧
    Run World.Step first
      [(.attach 1 .unreadable 2 [], .done),
        (.keepaliveTimeout 10, .done),
        (.push 1 3 (List.replicate 20 7) 100, .pushed true),
        (.push 1 4 (List.replicate 20 8) 200, .pushed true)] world ∧
    0 ∈ world.subscribers ∧ (world.queue 0).count = 2 ∧ world.memory.count = 1 ∧
    ¬world.Stands 0 := by
  have fresh : (World.created 0 (Queue.created .shared 60 1 [])).FreshShared :=
    ⟨.zeros, .shared, 0, 60, 1, [], _, 0, .inl rfl, by decide, by decide, rfl, rfl⟩
  rcases World.exists_run (fun _ _ => True)
    (show World.runs _ (World.created 0 (Queue.created .shared 60 1 []))
      [(.attach 1 .unreadable 2 [], .done),
        (.keepaliveTimeout 10, .done),
        (.push 1 3 (List.replicate 20 7) 100, .pushed true),
        (.push 1 4 (List.replicate 20 8) 200, .pushed true)]
      (fun world => decide (0 ∈ world.subscribers ∧ (world.queue 0).count = 2 ∧
        world.memory.count = 1)) = true by decide +kernel) with ⟨world, run, observed⟩
  rcases of_decide_eq_true observed with ⟨isSubscriber, counted, stored⟩
  refine ⟨_, world, fresh, run.mono (fun step => step.2), isSubscriber, counted, stored, ?_⟩
  intro stands
  have inside := stands.inside
  omega

end Qbus
