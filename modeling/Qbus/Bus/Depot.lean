import Qbus.Bus.Arrival
import Qbus.Queue.Simple

/-! # Messages in the bytes of simple queues

A bus with its messages whose connectors are simple queues in shared memory. Every attempt
of a participant on a connector is a call on its queue object there, and what the queue
returns decides how the participant goes on. -/

namespace Qbus.Bus

structure Item where
  tag : UInt32
  data : List UInt8
  nonempty : data ≠ []
deriving DecidableEq

def Item.view (item : Item) : MessageView := ⟨item.tag.toNat, item.data.length, item.data⟩

structure Depot where
  mail : Mail Item
  /-- The queue objects of the participants on each connector. -/
  connectors : Nat → World

inductive Shipment
  /-- A participant makes its queue object on a connector. -/
  | attach (connector index sid : Nat)
  /-- A step of a participant, at the time `now`. -/
  | act (index : Nat) (motion : Motion Item) (now : Nat)

def Shipment.motion : Shipment → Option (Nat × Motion Item)
  | .attach _ _ _ => none
  | .act index motion _ => some (index, motion)

/-- The attempt that the participant `index` makes next, and the connector. -/
def Party.call (index now : Nat) (party : Party Item) : Option (Nat × Action) :=
  match party.participant.place with
  | .pushing =>
      party.participant.member.connectors.head?.bind fun id =>
        party.sender.message.map fun item => (id, .push index item.tag item.data now)
  | .reading =>
      party.participant.member.connectors.getLast?.map fun id =>
        (id, if party.reader.popping then .pop index else .get index)
  | _ => none

def Attempt.succeeded : Result → Bool
  | .pushed accepted => accepted
  | .message view => view.isSome
  | .popped removed => removed
  | .done | .cleaned _ => false

def Depot.perform (id : Nat) (action : Action) (state : Depot) : Option (Result × Depot) :=
  if (state.connectors id).Enabled action then
    match (state.connectors id).perform action with
    | .ok (result, world) => some (result,
        { state with connectors := Function.update state.connectors id world })
    | .error _ => none
  else none

def Depot.move (index : Nat) (motion : Motion Item) (state : Depot) : Option Depot :=
  (Threads.move transport state.mail (index, motion)).map fun mail => { state with mail := mail }

def Depot.follow (state : Depot) : Shipment → Option Depot
  | .attach id index sid => (state.perform id (.attach index .simple sid [])).map Prod.snd
  | .act index motion now =>
      match state.mail.places[index]?.bind (Party.call index now), motion with
      | some (id, action), .next result =>
          match state.perform id action with
          | some (returned, next) =>
              if Attempt.succeeded returned = result then next.move index motion else none
          | none => none
      | _, _ => state.move index motion

/-- A step in which the participants keep the conditions of the messages. -/
def Depot.Orderly (state : Depot) (label : Shipment) : Prop :=
  ∀ moved ∈ label.motion, Bus.Orderly state.mail moved ∧ DropsDrained state.mail moved

instance (state : Depot) : DecidablePred state.Orderly := fun label =>
  inferInstanceAs (Decidable (∀ moved ∈ label.motion,
    Bus.Orderly state.mail moved ∧ DropsDrained state.mail moved))

/-! ## One attempt -/

section Attempt

variable {traffic : Traffic Item} {party : Party Item} {index now id reader : Nat}
  {action : Action} {result : Result} {world next : World}

def Traffic.Whole {Message : Type} (traffic : Traffic Message) : Prop :=
  ∀ id, traffic.popped id ≤ (traffic.stored id).length

theorem Traffic.remaining_post {letter : Letter Item} (whole : traffic.Whole) (id : Nat) :
    (traffic.post letter).remaining id =
      if id = letter.connector then traffic.remaining id ++ [letter.message]
      else traffic.remaining id := by
  change ((traffic.post letter).stored id).drop (traffic.popped id) = _
  rw [stored_post]
  split
  · rw [List.drop_append_of_le_length (whole id)]
    rfl
  · rfl

theorem Traffic.remaining_take (id other : Nat) : (traffic.take id).remaining other =
    if other = id then (traffic.remaining other).tail else traffic.remaining other := by
  change (traffic.stored other).drop
    (Function.update traffic.popped id (traffic.popped id + 1) other) = _
  rw [Function.update_apply]
  split
  next same => rw [remaining, List.tail_drop, same]
  next => rfl

theorem Traffic.Whole.post {letter : Letter Item} (whole : traffic.Whole) :
    (traffic.post letter).Whole := by
  intro id
  change traffic.popped id ≤ ((traffic.post letter).stored id).length
  rw [stored_post]
  split
  · rw [List.length_append]
    exact Nat.le_add_right_of_le (whole id)
  · exact whole id

theorem Traffic.Whole.take (whole : traffic.Whole) (left : traffic.remaining id ≠ []) :
    (traffic.take id).Whole := by
  intro other
  change Function.update traffic.popped id (traffic.popped id + 1) other ≤
    (traffic.stored other).length
  rw [Function.update_apply]
  split
  next same =>
    rw [same]
    exact Nat.lt_of_not_le fun short => left (List.drop_eq_nil_of_le short)
  next => exact whole other

structure Delivered (traffic next : Traffic Item) (id : Nat) (messages : List MessageView) :
    Prop where
  whole : next.Whole
  changed : (next.remaining id).map Item.view = messages
  others : ∀ other ≠ id, next.remaining other = traffic.remaining other

namespace Delivered

theorem kept (whole : traffic.Whole) (id : Nat) :
    Delivered traffic traffic id ((traffic.remaining id).map Item.view) :=
  ⟨whole, rfl, fun _ _ => rfl⟩

theorem post (whole : traffic.Whole) (letter : Letter Item) :
    Delivered traffic (traffic.post letter) letter.connector
      ((traffic.remaining letter.connector).map Item.view ++ [letter.message.view]) where
  whole := whole.post
  changed := by
    rw [Traffic.remaining_post whole, if_pos rfl, List.map_append]
    rfl
  others := by
    intro other different
    rw [Traffic.remaining_post whole, if_neg different]

theorem take (whole : traffic.Whole) (left : traffic.remaining id ≠ []) :
    Delivered traffic (traffic.take id) id ((traffic.remaining id).map Item.view).tail where
  whole := whole.take left
  changed := by rw [Traffic.remaining_take, if_pos rfl, List.map_tail]
  others := by
    intro other different
    rw [Traffic.remaining_take, if_neg different]

theorem leaves {motion : Motion Item} {controlBlock : ControlBlock} {messages : List MessageView}
    (delivered : Delivered traffic
      ((traffic.postAll (party.posts traffic motion)).takeAll (party.takes motion)) id messages) :
    Delivered traffic (party.leaves traffic motion controlBlock) id messages :=
  ⟨delivered.whole, delivered.changed, delivered.others⟩

end Delivered

theorem Party.called_push {member : Member} {sender : Sender Item} {reader : Reader}
    (whole : traffic.Whole)
    (called : Party.call index now ⟨⟨member, .pushing⟩, sender, reader⟩ = some (id, action)) :
    ∃ item : Item, action = .push index item.tag item.data now ∧
      ∀ (posted : Bool) (controlBlock : ControlBlock),
        Delivered traffic
          (Party.leaves traffic (.next posted) ⟨⟨member, .pushing⟩, sender, reader⟩ controlBlock)
          id ((traffic.remaining id).map Item.view ++ if posted then [item.view] else []) := by
  rcases Option.bind_eq_some_iff.mp called with ⟨newest, output, mapped⟩
  rcases Option.map_eq_some_iff.mp mapped with ⟨item, message, same⟩
  cases same
  replace output : member.connectors.head? = some id := output
  replace message : sender.message = some item := message
  refine ⟨item, rfl, ?_⟩
  intro posted controlBlock
  cases posted with
  | false =>
      rw [if_neg (by simp), List.append_nil]
      exact (Delivered.kept whole id).leaves
  | true =>
      have posts : Party.posts traffic (.next true) ⟨⟨member, .pushing⟩, sender, reader⟩ =
          some ⟨item, id, (traffic.stored id).length⟩ := by
        simp only [Party.posts, output, message, Option.bind_some, Option.map_some]
      apply Delivered.leaves
      rw [posts]
      exact .post whole ⟨item, id, _⟩

theorem Party.called_read {member : Member} {sender : Sender Item} {reader : Reader}
    (whole : traffic.Whole)
    (called : Party.call index now ⟨⟨member, .reading⟩, sender, reader⟩ = some (id, action)) :
    action = (if reader.popping then .pop index else .get index) ∧
      Party.finds traffic ⟨⟨member, .reading⟩, sender, reader⟩ =
        !(traffic.remaining id).isEmpty ∧
      ∀ (controlBlock : ControlBlock),
        Delivered traffic
          (Party.leaves traffic (.next (!(traffic.remaining id).isEmpty))
            ⟨⟨member, .reading⟩, sender, reader⟩ controlBlock)
          id (if reader.popping then ((traffic.remaining id).map Item.view).tail
            else (traffic.remaining id).map Item.view) := by
  rcases Option.map_eq_some_iff.mp called with ⟨oldest, input, same⟩
  cases same
  replace input : member.connectors.getLast? = some id := input
  refine ⟨rfl, by simp only [Party.finds, input], ?_⟩
  intro controlBlock
  apply Delivered.leaves
  rw [Party.posts_elsewhere (by simp), Traffic.postAll]
  have nothing := Delivered.kept whole id
  cases left : traffic.remaining id with
  | nil =>
      rw [left] at nothing
      rw [List.map_nil, List.tail_nil, ite_self]
      exact nothing
  | cons first rest =>
      simp only [List.isEmpty_cons, Bool.not_false, Party.takes, input]
      cases reader.popping with
      | false =>
          rw [left] at nothing
          exact nothing
      | true =>
          have taken := Delivered.take whole (left ▸ List.cons_ne_nil first rest)
          rw [left] at taken
          exact taken

theorem Party.attempt_matches (whole : traffic.Whole)
    (related : SimpleRelated reader world ((traffic.remaining id).map Item.view))
    (called : party.call index now = some (id, action)) (simple : action.Simple reader)
    (stepped : world.Step (action, result) next) :
    party.answered traffic (.next (Attempt.succeeded result)) = true ∧
      ∀ controlBlock, ∃ messages, SimpleRelated reader next messages ∧
        Delivered traffic
          (party.leaves traffic (.next (Attempt.succeeded result)) controlBlock) id messages := by
  rcases related with ⟨log, base, stores⟩
  rcases stores.perform simple stepped.1 with
    ⟨result', next', messages, log', base', performed, fifo, after⟩
  cases stepped.2.symm.trans performed
  have related : SimpleRelated reader next messages := ⟨log', base', after⟩
  rcases party with ⟨⟨member, place⟩, sender, reader'⟩
  cases place with
  | pushing =>
      refine ⟨rfl, fun controlBlock => ⟨messages, related, ?_⟩⟩
      rcases called_push whole called with ⟨item, rfl, delivered⟩
      cases fifo with
      | accepted => exact delivered true controlBlock
      | refused =>
          have kept := delivered false controlBlock
          rw [if_neg (by simp), List.append_nil] at kept
          exact kept
  | reading =>
      rcases called_read whole called with ⟨rfl, finds, delivered⟩
      have found : Attempt.succeeded result = !(traffic.remaining id).isEmpty ∧
          messages = if reader'.popping then ((traffic.remaining id).map Item.view).tail
            else (traffic.remaining id).map Item.view := by
        cases popping : reader'.popping with
        | true =>
            rw [popping] at fifo
            cases fifo
            simp [Attempt.succeeded]
        | false =>
            rw [popping] at fifo
            cases fifo
            cases left : traffic.remaining id <;> simp [Attempt.succeeded]
      rw [found.1]
      refine ⟨?_, fun controlBlock => ⟨messages, related, ?_⟩⟩
      · simp only [Party.answered, finds, beq_self_eq_true]
      · rw [found.2]
        exact delivered controlBlock
  | _ => cases called

theorem Party.call_simple {shared : ControlBlock} {returned : Bool}
    (orderly : party.Orderly shared (.next returned))
    (reads : party.reader.reads = true → index = reader)
    (called : party.call index now = some (id, action)) : action.Simple reader := by
  rcases party with ⟨⟨member, place⟩, sender, reader'⟩
  cases place with
  | pushing =>
      rcases Option.bind_eq_some_iff.mp called with ⟨newest, _, mapped⟩
      rcases Option.map_eq_some_iff.mp mapped with ⟨item, _, same⟩
      cases same
      exact item.nonempty
  | reading =>
      rcases Option.map_eq_some_iff.mp called with ⟨oldest, _, same⟩
      cases same
      have same := reads orderly
      change Action.Simple reader (if reader'.popping then .pop index else .get index)
      split <;> exact same
  | _ => cases called

theorem Party.uncalled {motion : Motion Item} {stepped : ControlBlock × Participant}
    (uncalled : ∀ returned, motion = .next returned → party.call index now = none)
    (programmed : program motion.event traffic.controlBlock party.participant = some stepped) :
    party.answered traffic motion = true ∧ party.posts traffic motion = none ∧
      party.takes motion = none := by
  rcases party with ⟨⟨member, place⟩, sender, reader⟩
  cases motion with
  | next returned =>
      have none := uncalled returned rfl
      cases place with
      | pushing =>
          refine ⟨rfl, ?_, rfl⟩
          cases returned with
          | false => rfl
          | true =>
              simp only [call, Option.bind_eq_none_iff, Option.map_eq_none_iff] at none
              simp only [posts, Option.bind_eq_none_iff, Option.map_eq_none_iff]
              exact none
      | reading =>
          -- there is no input connector
          simp only [call, Option.map_eq_none_iff, List.getLast?_eq_none_iff] at none
          simp only [Motion.event, program, proceed, none, if_true] at programmed
          cases programmed
      | _ => exact ⟨rfl, rfl, rfl⟩
  | _ => cases place <;> exact ⟨rfl, rfl, rfl⟩

end Attempt

/-! ## Runs -/

structure DepotInv (reader : Nat) (state : Depot) : Prop where
  mail : MailInv state.mail
  whole : state.mail.shared.Whole
  readers : ∀ index party, state.mail.places[index]? = some party →
    party.reader.reads = true → index = reader
  stores : ∀ id, SimpleRelated reader (state.connectors id)
    ((state.mail.shared.remaining id).map Item.view)

section Runs

variable {reader : Nat} {state next : Depot} {label : Shipment}

theorem Depot.perform_cases {id : Nat} {action : Action} {result : Result}
    (performed : state.perform id action = some (result, next)) :
    ∃ world, (state.connectors id).Step (action, result) world ∧
      next = { state with connectors := Function.update state.connectors id world } := by
  unfold perform at performed
  split at performed
  next enabled =>
    split at performed
    next returned world ran =>
      cases performed
      exact ⟨world, ⟨enabled, ran⟩, rfl⟩
    next => cases performed
  next => cases performed

theorem Depot.move_cases {index : Nat} {motion : Motion Item}
    (moved : state.move index motion = some next) :
    ∃ party stepped, state.mail.places[index]? = some party ∧
      transport motion state.mail.shared party = some stepped ∧
      next = ⟨⟨stepped.1, state.mail.places.set index stepped.2⟩, state.connectors⟩ := by
  rcases state with ⟨⟨traffic, parties⟩, connectors⟩
  rcases Option.map_eq_some_iff.mp moved with ⟨mail, followed, rfl⟩
  cases Threads.step_of_move followed with
  | act found transported => exact ⟨_, _, found, transported, rfl⟩

theorem DepotInv.attach {id index sid : Nat} {result : Result} (inv : DepotInv reader state)
    (performed : state.perform id (.attach index .simple sid []) = some (result, next)) :
    DepotInv reader next := by
  rcases Depot.perform_cases performed with ⟨world, stepped, rfl⟩
  refine ⟨inv.mail, inv.whole, inv.readers, ?_⟩
  intro other
  change SimpleRelated reader (Function.update state.connectors id world other) _
  rw [Function.update_apply]
  split
  next same =>
    subst same
    rcases inv.stores other with ⟨log, base, stores⟩
    have simple : Action.Simple reader (.attach index .simple sid []) := rfl
    rcases stores.perform simple stepped.1 with
      ⟨_, _, messages, log, base, performed, fifo, after⟩
    cases stepped.2.symm.trans performed
    cases fifo
    exact ⟨log, base, after⟩
  next => exact inv.stores other

theorem DepotInv.acted {index : Nat} {motion : Motion Item} {party : Party Item}
    {stepped : Traffic Item × Party Item} {connectors : Nat → World}
    (inv : DepotInv reader state) (orderly : Orderly state.mail (index, motion))
    (drained : DropsDrained state.mail (index, motion))
    (found : state.mail.places[index]? = some party)
    (answered : party.answered state.mail.shared motion = true)
    (transported : transport motion state.mail.shared party = some stepped)
    (whole : stepped.1.Whole)
    (stores : ∀ id, SimpleRelated reader (connectors id)
      ((stepped.1.remaining id).map Item.view)) :
    DepotInv reader ⟨⟨stepped.1, state.mail.places.set index stepped.2⟩, connectors⟩ := by
  have carried : carry motion state.mail.shared party = some stepped := by
    rw [carry, if_pos answered, transported]
  refine ⟨inv.mail.step orderly drained (.act found carried), whole, ?_, stores⟩
  intro position other placed reads
  rcases Threads.found_after_set placed with ⟨rfl, rfl⟩ | ⟨-, older⟩
  · rcases transport_cases transported with ⟨_, _, -, same⟩
    rw [same, Party.moved_reads] at reads
    exact inv.readers position party found reads
  · exact inv.readers position other older reads

theorem DepotInv.move {index : Nat} {motion : Motion Item} (now : Nat)
    (inv : DepotInv reader state) (orderly : Orderly state.mail (index, motion))
    (drained : DropsDrained state.mail (index, motion))
    (uncalled : ∀ party returned, state.mail.places[index]? = some party →
      motion = .next returned → party.call index now = none)
    (moved : state.move index motion = some next) : DepotInv reader next := by
  rcases Depot.move_cases moved with ⟨party, stepped, found, transported, rfl⟩
  rcases transport_cases transported with ⟨programmed, isProgrammed, same, -⟩
  rcases Party.uncalled (fun returned isNext => uncalled party returned found isNext)
    isProgrammed with ⟨answered, posts, takes⟩
  have delivered : ∀ id, Delivered state.mail.shared stepped.1 id
      ((state.mail.shared.remaining id).map Item.view) := by
    intro id
    rw [same]
    apply Delivered.leaves
    rw [posts, takes]
    exact .kept inv.whole id
  refine inv.acted orderly drained found answered transported (delivered 0).whole ?_
  intro id
  rw [(delivered id).changed]
  exact inv.stores id

theorem DepotInv.call {index now id : Nat} {action : Action} {returned : Result}
    {party : Party Item} {called : Depot} (inv : DepotInv reader state)
    (orderly : Orderly state.mail (index, .next (Attempt.succeeded returned)))
    (drained : DropsDrained state.mail (index, .next (Attempt.succeeded returned)))
    (found : state.mail.places[index]? = some party)
    (calls : party.call index now = some (id, action))
    (performed : state.perform id action = some (returned, called))
    (moved : called.move index (.next (Attempt.succeeded returned)) = some next) :
    DepotInv reader next := by
  rcases Depot.perform_cases performed with ⟨world, stepped, rfl⟩
  rcases Depot.move_cases moved with ⟨other, after, sameParty, transported, rfl⟩
  cases found.symm.trans sameParty
  rcases transport_cases transported with ⟨programmed, _, same, -⟩
  have simple := Party.call_simple (orderly.orderly party found)
    (inv.readers index party found) calls
  rcases Party.attempt_matches inv.whole (inv.stores id) calls simple stepped with
    ⟨answered, delivers⟩
  rcases delivers programmed.1 with ⟨messages, related, delivered⟩
  rw [← same] at delivered
  refine inv.acted orderly drained found answered transported delivered.whole ?_
  intro other
  change SimpleRelated reader (Function.update state.connectors id world other) _
  rw [Function.update_apply]
  split
  next sameConnector =>
    rw [sameConnector, delivered.changed]
    exact related
  next different =>
    rw [delivered.others other different]
    exact inv.stores other

theorem Depot.act_cases {index now : Nat} {motion : Motion Item}
    (followed : state.follow (.act index motion now) = some next) :
    (∃ party id action returned called, state.mail.places[index]? = some party ∧
      party.call index now = some (id, action) ∧
      state.perform id action = some (returned, called) ∧
      motion = .next (Attempt.succeeded returned) ∧ called.move index motion = some next) ∨
    (∀ party returned, state.mail.places[index]? = some party → motion = .next returned →
      party.call index now = none) ∧ state.move index motion = some next := by
  unfold follow at followed
  dsimp only at followed
  split at followed
  next calls =>
    rcases Option.bind_eq_some_iff.mp calls with ⟨party, found, calls⟩
    split at followed
    next performed =>
      split at followed
      next same =>
        subst same
        exact .inl ⟨party, _, _, _, _, found, calls, performed, rfl, followed⟩
      next => cases followed
    next => cases followed
  next uncalled =>
    refine .inr ⟨?_, followed⟩
    intro party returned found isNext
    cases calls : party.call index now with
    | none => rfl
    | some call => exact (uncalled call.1 call.2 returned (by rw [found]; exact calls) isNext).elim

theorem DepotInv.step (inv : DepotInv reader state) (orderly : state.Orderly label)
    (followed : state.follow label = some next) : DepotInv reader next := by
  cases label with
  | attach id index sid =>
      rcases Option.map_eq_some_iff.mp followed with ⟨⟨result, attached⟩, performed, rfl⟩
      exact inv.attach performed
  | act index motion now =>
      rcases orderly (index, motion) rfl with ⟨orderly, drained⟩
      rcases Depot.act_cases followed with
        ⟨party, id, action, returned, called, found, calls, performed, rfl, moved⟩ |
          ⟨uncalled, moved⟩
      · exact inv.call orderly drained found calls performed moved
      · exact inv.move now orderly drained uncalled moved

/-- A simple queue that has just been constructed. -/
def NewQueue (world : World) : Prop :=
  ∃ (raw : QueueMemory) (qid capacity sid owner : Nat) (queue : Queue),
    Queue.create raw .simple qid capacity sid [] = .ok queue ∧ 1 ≤ capacity ∧
      capacity < 2 ^ 32 ∧ world = World.created owner queue

theorem start_depotInv {reader count : Nat} {connectors : Nat → World}
    (new : ∀ id, NewQueue (connectors id)) :
    DepotInv reader ⟨Mail.start reader count, connectors⟩ where
  mail := start_mailInv reader count
  whole := fun _ => Nat.le_refl _
  readers := by
    intro index party found reads
    cases index with
    | zero =>
        cases found
        exact (of_decide_eq_true reads).symm
    | succ index =>
        rw [Mail.start, List.getElem?_cons_succ, List.getElem?_map] at found
        rcases Option.map_eq_some_iff.mp found with ⟨other, inside, rfl⟩
        rw [List.getElem?_range (by
          have := (List.getElem?_eq_some_iff.mp inside).1
          rwa [List.length_range] at this)] at inside
        cases inside
        exact (of_decide_eq_true reads).symm
  stores := by
    intro id
    rcases new id with ⟨raw, qid, capacity, sid, owner, queue, created, positive, bounded, same⟩
    refine ⟨[], 0, ?_⟩
    change SimpleStores reader (connectors id) [] [] 0
    rw [same]
    exact simple_created created positive bounded owner reader

/-- No message is abandoned when the reader moves to the next connector, in a run in which
the participants go in order and the reader drops a connector only after it has found it
empty with the next connector already added; and what a connector has to deliver is in the
bytes of its queue. -/
theorem bus_messages_arrive {reader count : Nat} {connectors : Nat → World}
    (new : ∀ id, NewQueue (connectors id)) {labels : List Shipment} {final : Depot}
    (run : Run (fun state label next => state.Orderly label ∧ state.follow label = some next)
      ⟨Mail.start reader count, connectors⟩ labels final) :
    Arrives final.mail ∧ ∀ id, SimpleRelated reader (final.connectors id)
      ((final.mail.shared.remaining id).map Item.view) := by
  have inv := run.invariant (DepotInv reader) (fun inv step => inv.step step.1 step.2)
    (start_depotInv new)
  exact ⟨inv.mail.arrives, inv.stores⟩

end Runs

/-! ## Two runs -/

def nexts (index : Nat) (values : List Bool) : List Shipment :=
  values.map fun value => .act index (.next value) 0

def item (tag : UInt32) : Item := ⟨tag, List.replicate 30 7, by simp⟩

/-- The producer fills the connector 0, adds the connector 1 and pushes to it, while the
consumer finds the connector 0 drained and moves on. -/
def movedOn : List Shipment :=
  .act 1 (.open true) 0 :: .attach 0 1 2 ::
    .act 0 (.push (item 10)) 0 :: nexts 0 [true, true, true] ++
    .act 0 (.push (item 20)) 0 :: nexts 0 [true, false, true, true] ++
    .act 1 .pop 0 :: nexts 1 [true] ++
    .act 1 .pop 0 :: nexts 1 [false, true, true] ++
    nexts 0 [true, true, true] ++ nexts 1 [true, true, true] ++ .attach 1 1 2 ::
    nexts 0 [true, true] ++ nexts 1 [true, true, true]

/-- The consumer finds the connector 0 empty, and then the producer pushes to it and adds
the connector 1. -/
def movedEarly : List Shipment :=
  .act 1 (.open true) 0 :: .attach 0 1 2 :: .act 1 .pop 0 :: nexts 1 [false] ++
    .act 0 (.push (item 10)) 0 :: nexts 0 [true, true, true] ++
    .act 0 (.push (item 20)) 0 ::
      nexts 0 [true, false, true, true, true, true, true, true, true] ++
    nexts 1 [true, true, true, true, true, true, true]

def hundredBytes : Nat → World := fun _ => World.created 0 (Queue.created .simple 100 1 [])

theorem hundredBytes_new (id : Nat) : NewQueue (hundredBytes id) :=
  ⟨.zeros, 0, 100, 1, 0, Queue.created .simple 100 1 [], rfl, by decide, by decide, rfl⟩

def Depot.execute (Keeps : Depot → Shipment → Prop) [∀ state, DecidablePred (Keeps state)]
    (state : Depot) (label : Shipment) : Option Depot :=
  if Keeps state label then state.follow label else none

theorem Depot.execute_cases {Keeps : Depot → Shipment → Prop}
    [∀ state, DecidablePred (Keeps state)] {state next : Depot} {label : Shipment}
    (executed : state.execute Keeps label = some next) :
    Keeps state label ∧ state.follow label = some next := by
  unfold execute at executed
  split at executed
  next kept => exact ⟨kept, executed⟩
  next => cases executed

theorem bus_messages_arrive_moved : ∃ final : Depot,
    Run (fun state label next => state.Orderly label ∧ state.follow label = some next)
      ⟨Mail.start 1 1, hundredBytes⟩ movedOn final ∧
    final.mail.shared.popped 0 = 1 ∧ final.mail.shared.popped 1 = 1 ∧
    Arrives final.mail := by
  have executed : (movedOn.foldlM (Depot.execute Depot.Orderly)
      ⟨Mail.start 1 1, hundredBytes⟩).any (fun final => decide
        (final.mail.shared.popped 0 = 1 ∧ final.mail.shared.popped 1 = 1)) = true := by
    decide +kernel
  rcases (Option.any_eq_true _ _).mp executed with ⟨final, followed, passed⟩
  have run := Run.of_foldlM Depot.execute_cases followed
  rcases of_decide_eq_true passed with ⟨first, second⟩
  exact ⟨final, run, first, second, (bus_messages_arrive hundredBytes_new run).1⟩

/-- The consumer goes to the connector 1 and misses the message in the connector 0. -/
theorem bus_message_abandoned : ∃ final : Depot,
    Run (fun state label next => (∀ moved ∈ label.motion, Orderly state.mail moved) ∧
      state.follow label = some next)
      ⟨Mail.start 1 1, hundredBytes⟩ movedEarly final ∧ ¬Arrives final.mail := by
  have executed : (movedEarly.foldlM
      (Depot.execute fun state label => ∀ moved ∈ label.motion, Orderly state.mail moved)
      ⟨Mail.start 1 1, hundredBytes⟩).any (fun final => decide (¬Arrives final.mail)) =
        true := by
    decide +kernel
  rcases (Option.any_eq_true _ _).mp executed with ⟨final, followed, passed⟩
  exact ⟨final, Run.of_foldlM Depot.execute_cases followed, of_decide_eq_true passed⟩

end Qbus.Bus
