import Qbus.Foundation.Run
import Qbus.Queue.SharedCalls

/-! # Broadcast

What shared queues are for: every subscriber receives the messages that are
accepted after it has subscribed, each once and in their order. Runs of shared
queue objects whose steps are sound refine this. -/

namespace Qbus

open ByteMemory Message Circular Placement Storage MachineWord

/-- The messages that were accepted, the index of the next message of every
subscriber, and the keep alive timeout. -/
structure Broadcast where
  messages : List MessageView
  cursor : Nat → Nat
  timeout : Nat

namespace Broadcast

def start : Broadcast := ⟨[], fun _ => 0, 0⟩

def pass (board : Broadcast) (id count : Nat) : Broadcast :=
  { board with cursor := Function.update board.cursor id (board.cursor id + count) }

/-- The calls of subscribers and writers. A push may be refused, and it may skip
messages of the pushing subscriber if there is a timeout. -/
inductive Step : Broadcast → Action × Result → Broadcast → Prop
  | subscribe {board id sid clock} :
      Step board (.attach id .shared sid clock, .done)
        { board with cursor := Function.update board.cursor id board.messages.length }
  | attach {board id sid clock} :
      Step board (.attach id .unreadable sid clock, .done) board
  | accepted {board id tag data now skipped} (kept : board.timeout = 0 → skipped = 0)
      (inside : skipped ≤ board.messages.length - board.cursor id) :
      Step board (.push id tag data now, .pushed true)
        { board.pass id skipped with
          messages := board.messages ++ [⟨tag.toNat, data.length, data⟩] }
  | refused {board id tag data now skipped} (kept : board.timeout = 0 → skipped = 0)
      (inside : skipped ≤ board.messages.length - board.cursor id) :
      Step board (.push id tag data now, .pushed false) (board.pass id skipped)
  | get {board id} :
      Step board (.get id, .message board.messages[board.cursor id]?) board
  | pop {board id} (unread : board.cursor id < board.messages.length) :
      Step board (.pop id, .popped true) (board.pass id 1)
  | popNone {board id} (read : board.messages.length ≤ board.cursor id) :
      Step board (.pop id, .popped false) board
  | clean {board id count} : Step board (.clean id, .cleaned count) board
  | destroy {board id clock} : Step board (.destroy id clock, .done) board
  | keepaliveTimeout {board value} :
      Step board (.keepaliveTimeout value, .done)
        { board with timeout := value % 2 ^ 32 }

namespace Step

variable {board next : Broadcast} {id : Nat}

theorem get_eq {result : Result} (step : Step board (.get id, result) next) :
    result = .message board.messages[board.cursor id]? ∧ next = board := by
  cases step
  exact ⟨rfl, rfl⟩

theorem subscribe_eq {sid : Nat} {clock : List Nat} {result : Result}
    (step : Step board (.attach id .shared sid clock, result) next) :
    next = { board with cursor := Function.update board.cursor id board.messages.length } := by
  cases step
  rfl

theorem accepted_eq {tag : UInt32} {data : List UInt8} {now : Nat}
    (step : Step board (.push id tag data now, .pushed true) next)
    (noTimeout : board.timeout = 0) :
    next = { board with messages := board.messages ++ [⟨tag.toNat, data.length, data⟩] } := by
  cases step with
  | accepted kept inside =>
      rw [kept noTimeout, pass, Nat.add_zero, Function.update_eq_self]

end Step

end Broadcast

namespace Ledger

variable {ledger after : Ledger Nat Entry}

def board (ledger : Ledger Nat Entry) (timeout : Nat) : Broadcast where
  messages := ledger.log.map Entry.view
  cursor := ledger.cursor
  timeout := timeout

theorem Evolves.cursor_eq {id : Nat} {more : List Entry}
    (evolves : ledger.Evolves after id more) :
    after.cursor = Function.update ledger.cursor id
      (ledger.cursor id + (after.cursor id - ledger.cursor id)) := by
  funext other
  rcases eq_or_ne other id with same | different
  · rw [same, Function.update_self, Nat.add_sub_cancel' evolves.cursor]
  · rw [Function.update_of_ne different, evolves.others other different]

end Ledger

theorem SharedStep.broadcast {timeout : Nat} {ledger after : Ledger Nat Entry}
    {label : Action × Result} (step : SharedStep timeout ledger label after) :
    Broadcast.Step (ledger.board timeout) label
      (after.board (label.1.timeout timeout)) := by
  cases step with
  | subscribe =>
      have listed : (ledger.board timeout).messages.length = ledger.log.length :=
        List.length_map _
      have subscribed := @Broadcast.Step.subscribe (ledger.board timeout)
      rw [listed] at subscribed
      exact subscribed
  | attach => exact .attach
  | @push id tag data now accepted _ entry shown evolves kept inside sweeps =>
      have skipsNone : timeout = 0 → after.cursor id - ledger.cursor id = 0 := by
        intro noTimeout
        rw [kept (.inl noTimeout), Nat.sub_self]
      have skipsInside : after.cursor id - ledger.cursor id ≤
          (ledger.board timeout).messages.length - ledger.cursor id := by
        rw [Ledger.board, List.length_map]
        by_cases isMember : id ∈ ledger.members
        · have within := inside isMember
          omega
        · rw [kept (.inr isMember), Nat.sub_self]
          exact Nat.zero_le _
      cases accepted with
      | true =>
          have shape : after.board timeout = { (ledger.board timeout).pass id
              (after.cursor id - ledger.cursor id) with
                messages := (ledger.board timeout).messages ++
                  [⟨tag.toNat, data.length, data⟩] } := by
            rw [Ledger.board, evolves.log, evolves.cursor_eq, Function.update_self,
              Nat.add_sub_cancel_left, List.map_append]
            simp only [if_pos, List.map_cons, List.map_nil, shown]
            rfl
          change Broadcast.Step _ _ (after.board timeout)
          rw [shape]
          exact .accepted skipsNone skipsInside
      | false =>
          have shape : after.board timeout = (ledger.board timeout).pass id
              (after.cursor id - ledger.cursor id) := by
            rw [Ledger.board, evolves.log, evolves.cursor_eq, Function.update_self,
              Nat.add_sub_cancel_left]
            simp only [Bool.false_eq_true, if_false, List.append_nil]
            rfl
          change Broadcast.Step _ _ (after.board timeout)
          rw [shape]
          exact .refused skipsNone skipsInside
  | @get id =>
      have shown : ledger.log[ledger.cursor id]?.map Entry.view =
          (ledger.board timeout).messages[(ledger.board timeout).cursor id]? :=
        List.getElem?_map.symm
      rw [shown]
      exact .get
  | pop unread => exact .pop (by rwa [Ledger.board, List.length_map])
  | popNone read => exact .popNone (by rwa [Ledger.board, List.length_map])
  | clean => exact .clean
  | leave => exact .destroy
  | destroy => exact .destroy
  | keepaliveTimeout => exact .keepaliveTimeout

namespace World

variable {world next : World} {label : Action × Result}

theorem Step.hasData (step : world.Step label next) : label.1.HasData := by
  rcases label with ⟨action, result⟩
  rcases step with ⟨-, performed⟩
  cases action with
  | push id tag data now =>
      rintro rfl
      rw [perform] at performed
      cases pushes : (world.queue id).push tag.toNat [] now with
      | error fault => simp [pushes, Bind.bind, Except.bind] at performed
      | ok pushed => exact Queue.push_nil pushes
  | _ => trivial

end World

/-! ## What can be observed -/

/-- The number of subscribers that have not popped a message, for every stored
message, the oldest one first. -/
def World.unread (world : World) : List Nat :=
  (List.range world.memory.count).map fun offset =>
    {id ∈ world.subscribers | world.memory.count ≤ offset + (world.queue id).count}.card

namespace SharedWorld

variable {world next : World} {ledger after : Ledger Nat Entry} {label : Action × Result}

theorem waiting_eq (shared : SharedWorld world ledger) (offset : Nat) :
    ledger.waiting (ledger.collected + offset) = {id ∈ world.subscribers |
      world.memory.count ≤ offset + (world.queue id).count} := by
  rw [Ledger.waiting, shared.members]
  refine Finset.filter_congr fun id isSubscriber => ?_
  rw [← shared.members] at isSubscriber
  have behind := shared.tracks.valid.cursorLe id isSubscriber
  have stored := shared.tracks.valid.cursorGe id isSubscriber
  rw [shared.count_eq isSubscriber, shared.tracks.ring.countEq]
  omega

theorem unread_le (shared : SharedWorld world ledger) :
    List.Forall₂ (· ≤ ·) world.unread world.memory.references := by
  rw [shared.tracks.ring.references_eq, World.unread, List.forall₂_map_left_iff,
    List.forall₂_map_right_iff, List.forall₂_same]
  intro offset _
  rw [← shared.waiting_eq, Ledger.refs]
  exact Nat.le_add_right _ _

/-- When no subscriber has left references behind, the reference counters are the
numbers of subscribers that have not popped the messages. -/
theorem references_eq (shared : SharedWorld world ledger)
    (unleaked : ledger.leaked = fun _ => 0) : world.memory.references = world.unread := by
  rw [shared.tracks.ring.references_eq, World.unread]
  refine List.map_congr_left fun offset _ => ?_
  rw [Ledger.refs, unleaked, Nat.add_zero, shared.waiting_eq]

theorem bytes_eq (shared : SharedWorld world ledger)
    (effect : Effect world ledger label next after) {offset byte : Nat}
    {message : MessageDesc} (stored : world.memory.stored[offset]? = some message)
    (kept : after.collected ≤ ledger.collected + offset)
    (occupies : message.Occupies world.memory.data byte) :
    next.memory.data byte = world.memory.data byte := by
  rw [shared.tracks.ring.stored_getElem?] at stored
  rcases Option.map_eq_some_iff.mp stored with ⟨entry, found, rfl⟩
  rcases shared.tracks.ring.occupies_covers (Nat.le_add_right _ _) found occupies with
    ⟨covers, outside⟩
  exact effect.frame _ entry kept found byte covers outside

end SharedWorld

/-! ## Runs -/

/-- An object has just constructed a shared queue. -/
def World.FreshShared (world : World) : Prop :=
  ∃ raw type qid capacity sid clock queue owner,
    (type = .shared ∨ type = .unreadable) ∧ 1 ≤ capacity ∧ capacity < 2 ^ 32 ∧
    Queue.create raw type qid capacity sid clock = .ok queue ∧
    world = World.created owner queue

structure World.Initial (world : World) : Prop where
  shared : SharedWorld world (Ledger.empty world.subscribers)
  timeout : world.memory.keepaliveTimeout = 0
  handles : ∀ id ∈ world.live, (world.handle id).head = sharedHead ∧
    (world.handle id).counter = 0 ∧ (world.handle id).messageDesc.first = []

theorem World.FreshShared.initial {world : World} (fresh : world.FreshShared) :
    world.Initial := by
  rcases fresh with
    ⟨raw, type, qid, capacity, sid, clock, queue, owner, readable, positive, bounded, created,
      rfl⟩
  have self : queue.self = Queue.newHandle type sid 0 := by
    rcases readable with rfl | rfl <;> cases created <;> rfl
  have ring : Ring queue.memory [] 0
      (Ledger.empty (World.created owner queue).subscribers : Ledger Nat Entry).refs := by
    have cleared : Ring (QueueMemory.clear { raw with
        id := qid % 2 ^ 32
        capacity := capacity % 2 ^ 32
        keepaliveTimeout := 0 }) [] 0
        (Ledger.empty (World.created owner queue).subscribers : Ledger Nat Entry).refs :=
      Ring.cleared rfl (by rw [Nat.mod_eq_of_lt bounded]; exact positive)
        (Nat.mod_lt _ (by decide))
    rcases readable with rfl | rfl <;> cases created <;>
      exact cleared.congr rfl rfl rfl rfl rfl
  have counter : queue.memory.counter = 0 := by
    rcases readable with rfl | rfl <;> cases created <;> rfl
  have timeout : queue.memory.keepaliveTimeout = 0 := by
    rcases readable with rfl | rfl <;> cases created <;> rfl
  have subscribed : queue.memory.subscriptionsCount =
      (World.created owner queue).subscribers.card := by
    rcases readable with rfl | rfl <;> cases created
    · simp [World.subscribers, World.created, Queue.newHandle]
    · simp [World.subscribers, World.created, Queue.newHandle]
  have few : (World.created owner queue).subscribers.card ≤ 1 := by
    refine Nat.le_trans (Finset.card_filter_le _ _) ?_
    simp [World.created]
  refine ⟨⟨⟨ring, counter, Ledger.valid_empty _⟩, rfl, subscribed, ?_, ?_, ?_, ?_⟩,
    timeout, fun _ _ => ?_⟩
  · exact Nat.lt_of_le_of_lt few (by decide)
  · intro id live
    change queue.self.type = _ ∨ queue.self.type = _
    rw [self]
    exact readable
  · intro id isMember
    change Follows _ _ queue.self 0
    rw [self]
    exact ⟨rfl, .inl rfl⟩
  · intro id live
    change queue.self.counter < _
    rw [self]
    exact Nat.two_pow_pos 32
  · change queue.self.head = _ ∧ queue.self.counter = _ ∧ queue.self.messageDesc.first = _
    rw [self]
    exact ⟨rfl, rfl, rfl⟩

section Runs

variable {allowed : World → Action → Prop} (Keeps : World → Ledger Nat Entry → Prop)

/-- Runs whose steps are sound, which may follow from a fact that the steps keep,
refine the broadcast. -/
theorem SharedWorld.run {first world : World} {ledger : Ledger Nat Entry}
    {labels : List (Action × Result)}
    (sound : ∀ {world ledger action}, SharedWorld world ledger → Keeps world ledger →
      allowed world action → world.Enabled action → world.Sound action)
    (kept : ∀ {world ledger label next after}, SharedWorld world ledger →
      Keeps world ledger → allowed world label.1 → world.Step label next →
      Effect world ledger label next after → Keeps next after)
    (run : Run (fun world label next => allowed world label.1 ∧ world.Step label next)
      first labels world)
    (shared : SharedWorld first ledger) (begins : Keeps first ledger) :
    ∃ after, SharedWorld world after ∧ Keeps world after ∧
      Run Broadcast.Step (ledger.board first.memory.keepaliveTimeout) labels
        (after.board world.memory.keepaliveTimeout) := by
  have matched : ∀ {world board label next},
      (∃ ledger, SharedWorld world ledger ∧ Keeps world ledger ∧
        board = ledger.board world.memory.keepaliveTimeout) →
      allowed world label.1 ∧ world.Step label next →
      ∃ nextBoard, Broadcast.Step board label nextBoard ∧
        ∃ ledger, SharedWorld next ledger ∧ Keeps next ledger ∧
          nextBoard = ledger.board next.memory.keepaliveTimeout := by
    rintro world _ ⟨action, result⟩ next ⟨ledger, shared, keeps, rfl⟩ ⟨isAllowed, step⟩
    rcases shared.perform (sound shared keeps isAllowed step.1) step.hasData step.1 with
      ⟨result', next', after, performed, effect⟩
    cases step.2.symm.trans performed
    refine ⟨after.board next.memory.keepaliveTimeout, ?_, after, effect.shared,
      kept shared keeps isAllowed step effect, rfl⟩
    rw [effect.timeout]
    exact effect.step.broadcast
  rcases run.simulate Broadcast.Step (fun world board => ∃ ledger, SharedWorld world ledger ∧
      Keeps world ledger ∧ board = ledger.board world.memory.keepaliveTimeout) matched
      ⟨ledger, shared, begins, rfl⟩ with ⟨board, boardRun, after, ends, keeps, rfl⟩
  exact ⟨after, ends, keeps, boardRun⟩

end Runs

end Qbus
