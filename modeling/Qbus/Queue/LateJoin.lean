import Qbus.Queue.Broadcast
import Qbus.Queue.Execution

/-! # Subscribing late

A subscriber that comes late reads the messages that are pushed after it has
subscribed, as long as it is aligned when it reads at the shared head. -/

namespace Qbus

open ByteMemory Message Circular Placement Storage MachineWord

namespace SharedWorld

variable {world next : World} {ledger after : Ledger Nat Entry} {label : Action × Result}
  {id : Nat}

/-- A call of a subscriber leaves the reference counters of the messages in front
of its own alone; those of them that nobody has to pop may be collected. -/
theorem ahead_kept (shared : SharedWorld world ledger)
    (effect : Effect world ledger label next after) (actor : label.1.actor = some id)
    (isMember : id ∈ ledger.members) (stays : id ∈ after.members) :
    ∃ collected, (∀ references ∈ (world.ahead id).take collected, references = 0) ∧
      (world.ahead id).drop collected <+: next.memory.references := by
  rcases effect.step.evolves actor isMember stays with ⟨more, evolves⟩
  have ordered := evolves.collected
  have inside := shared.tracks.valid.cursorLe id isMember
  have grown : ledger.log.length ≤ after.log.length := by
    rw [evolves.log, List.length_append]
    exact Nat.le_add_right _ _
  refine ⟨after.collected - ledger.collected, ?_, ?_⟩
  · rw [shared.ahead_eq isMember, ← List.map_take, List.take_range]
    intro references isTaken
    rcases List.mem_map.mp isTaken with ⟨offset, below, rfl⟩
    rw [List.mem_range] at below
    rw [← evolves.refs_eq (by omega : ledger.collected + offset < ledger.cursor id)]
    exact evolves.unreferenced _ (by omega) (by omega)
  · rw [shared.ahead_eq isMember, effect.shared.tracks.ring.references_eq,
      effect.shared.tracks.ring.countEq]
    refine List.prefix_iff_getElem?.mpr fun offset below => ?_
    simp only [List.length_drop, List.length_map, List.length_range] at below
    rw [List.getElem?_map, List.getElem?_range (by omega), List.getElem_drop,
      List.getElem_map, List.getElem_range, Option.map_some,
      evolves.refs_eq (by omega : after.collected + offset < ledger.cursor id)]
    exact congrArg (fun index => some (ledger.refs index)) (by omega)

end SharedWorld

/-- In every run of sound steps a subscriber that comes late receives exactly the
messages that are pushed after it has subscribed, and the others receive what
they would have received without it: the results are those of the broadcast. A
call of a subscriber does not change the reference counter of a message in front
of its own. -/
theorem shared_queue_late_join {first world : World} {labels : List (Action × Result)}
    (fresh : first.FreshShared)
    (run : Run (fun world label next => world.Sound label.1 ∧ world.Step label next)
      first labels world) :
    (∃ board, Run Broadcast.Step .start labels board ∧
      ∀ id ∈ world.subscribers,
        (world.queue id).count = board.messages.length - board.cursor id) ∧
    ∀ action : Action, world.Sound action → action.HasData → world.Enabled action →
      ∃ result next, world.perform action = .ok (result, next) ∧
        ∀ id ∈ world.subscribers, action.actor = some id → id ∈ next.subscribers →
          ∃ collected,
            (∀ references ∈ (world.ahead id).take collected, references = 0) ∧
            (world.ahead id).drop collected <+: next.memory.references := by
  have initial := fresh.initial
  rcases SharedWorld.run (fun _ _ => True)
    (fun _ _ sound _ => sound) (fun _ _ _ _ _ => trivial) run initial.shared trivial with
      ⟨ledger, shared, -, board⟩
  rw [initial.timeout] at board
  refine ⟨⟨_, board, ?_⟩, ?_⟩
  · intro id isSubscriber
    rw [← shared.members] at isSubscriber
    rw [shared.count_eq isSubscriber, Ledger.board, List.length_map]
  · intro action sound hasData enabled
    rcases shared.perform sound hasData enabled with ⟨result, next, after, performed, effect⟩
    refine ⟨result, next, performed, fun id isSubscriber actor stays => ?_⟩
    rw [← shared.members] at isSubscriber
    rw [← effect.shared.members] at stays
    exact shared.ahead_kept effect actor isSubscriber stays

/-- A subscriber comes late, when no earlier message is stored any more. -/
theorem shared_queue_late_join_aligned : ∃ (world : World) (board : Broadcast),
    Run Broadcast.Step .start
      [(.push 0 3 [1, 2, 3] 10, .pushed true),
        (.attach 1 .shared 2 [], .done),
        (.pop 0, .popped true),
        (.push 0 4 [5] 11, .pushed true),
        (.get 1, .message (some ⟨4, 1, [5]⟩)),
        (.pop 1, .popped true),
        (.get 0, .message (some ⟨4, 1, [5]⟩))] board ∧
    ∀ id ∈ world.subscribers,
      (world.queue id).count = board.messages.length - board.cursor id := by
  have fresh : (World.created 0 (Queue.created .shared 100 1 [])).FreshShared :=
    ⟨.zeros, .shared, 0, 100, 1, [], _, 0, .inl rfl, by decide, by decide, rfl, rfl⟩
  rcases World.exists_run World.Sound
    (show World.runs _ (World.created 0 (Queue.created .shared 100 1 []))
      [(.push 0 3 [1, 2, 3] 10, .pushed true),
        (.attach 1 .shared 2 [], .done),
        (.pop 0, .popped true),
        (.push 0 4 [5] 11, .pushed true),
        (.get 1, .message (some ⟨4, 1, [5]⟩)),
        (.pop 1, .popped true),
        (.get 0, .message (some ⟨4, 1, [5]⟩))] (fun _ => true) = true by decide +kernel) with
      ⟨world, run, -⟩
  rcases shared_queue_late_join fresh run with ⟨⟨board, broadcast, counts⟩, -⟩
  exact ⟨world, board, broadcast, counts⟩

/-- A subscriber that comes while an earlier message is stored reads this message
instead of the one that is pushed next; an earlier subscriber then never receives
the message. -/
theorem shared_queue_late_join_reads_earlier : ∃ (first world : World),
    first.FreshShared ∧
    Run World.Step first
      [(.push 0 3 [1, 2, 3] 10, .pushed true),
        (.attach 1 .shared 2 [], .done),
        (.push 0 4 [5] 11, .pushed true),
        (.get 1, .message (some ⟨3, 3, [1, 2, 3]⟩)),
        (.pop 1, .popped true),
        (.clean 0, .cleaned 1),
        (.get 0, .message (some ⟨4, 1, [5]⟩))] world ∧
    ¬∃ board, Run Broadcast.Step .start
      [(.push 0 3 [1, 2, 3] 10, .pushed true),
        (.attach 1 .shared 2 [], .done),
        (.push 0 4 [5] 11, .pushed true),
        (.get 1, .message (some ⟨3, 3, [1, 2, 3]⟩)),
        (.pop 1, .popped true),
        (.clean 0, .cleaned 1),
        (.get 0, .message (some ⟨4, 1, [5]⟩))] board := by
  have fresh : (World.created 0 (Queue.created .shared 100 1 [])).FreshShared :=
    ⟨.zeros, .shared, 0, 100, 1, [], _, 0, .inl rfl, by decide, by decide, rfl, rfl⟩
  rcases World.exists_run (fun _ _ => True)
    (show World.runs _ (World.created 0 (Queue.created .shared 100 1 []))
      [(.push 0 3 [1, 2, 3] 10, .pushed true),
        (.attach 1 .shared 2 [], .done),
        (.push 0 4 [5] 11, .pushed true),
        (.get 1, .message (some ⟨3, 3, [1, 2, 3]⟩)),
        (.pop 1, .popped true),
        (.clean 0, .cleaned 1),
        (.get 0, .message (some ⟨4, 1, [5]⟩))] (fun _ => true) = true by decide +kernel) with
      ⟨world, run, -⟩
  refine ⟨_, world, fresh, run.mono (fun step => step.2), ?_⟩
  rintro ⟨board, run⟩
  cases run with
  | cons first run =>
  cases run with
  | cons second run =>
  cases run with
  | cons third run =>
  cases run with
  | cons fourth _ =>
  rcases first.accepted_eq rfl with rfl
  rcases second.subscribe_eq with rfl
  rcases third.accepted_eq rfl with rfl
  exact absurd fourth.get_eq.1 (by simp [Broadcast.start])

end Qbus
