import Qbus.Bus.Chain
import Qbus.Bus.Epoch
import Qbus.Bus.PushOnce
import Qbus.Bus.Transparent

/-! # Messages on their way through a bus

The participants of a bus with the messages that they push and read. A connector keeps
what has been pushed to it, and one participant reads it, from its first message on. Who
drops a connector takes its name away, and who closes the bus takes all names away that
it has, that of the bus included. -/

namespace Qbus.Bus

structure Letter (Message : Type) where
  message : Message
  connector : Nat
  position : Nat
deriving DecidableEq, Repr

structure Traffic (Message : Type) where
  controlBlock : ControlBlock := {}
  /-- What has been pushed to a connector, the oldest message first. -/
  stored : Nat → List Message := fun _ => []
  /-- How many of these messages have been popped. -/
  popped : Nat → Nat := fun _ => 0
  /-- How many messages the connector got before the next one was added. -/
  onTime : Nat → Nat := fun _ => 0
  /-- The bus can be opened. -/
  named : Bool := true
  /-- The connectors that cannot be opened any more. -/
  unlinked : List Nat := []

structure Sender (Message : Type) where
  /-- What the last call pushes. -/
  message : Option Message := none
  /-- Where the last call has put the message last. -/
  letter : Option (Letter Message) := none
  /-- The same for all calls that have returned true. -/
  sent : List (Letter Message) := []

structure Reader where
  /-- The object of the participant is one that reads. -/
  reads : Bool := false
  /-- The input connector when the participant opened the bus. -/
  since : Nat := 0
  popping : Bool := false
  /-- The input connector has been found empty after the next one was added. -/
  drained : Bool := false

structure Party (Message : Type) where
  participant : Participant := {}
  sender : Sender Message := {}
  reader : Reader := {}

inductive Motion (Message : Type)
  | open (made : Bool)
  | close
  | push (message : Message)
  | get
  | pop
  /-- The next step of the call under way. -/
  | next (result : Bool)

variable {Message : Type}

def Motion.event : Motion Message → Event
  | .open made => .open made
  | .close => .close
  | .push _ => .push
  | .get | .pop => .read
  | .next result => .next result

namespace Traffic

variable (traffic : Traffic Message)

def remaining (id : Nat) : List Message := (traffic.stored id).drop (traffic.popped id)

def post (letter : Letter Message) : Traffic Message :=
  { traffic with
    stored := Function.update traffic.stored letter.connector
      (traffic.stored letter.connector ++ [letter.message])
    onTime := if letter.connector = traffic.controlBlock.outputId then
      Function.update traffic.onTime letter.connector
        ((traffic.stored letter.connector).length + 1)
    else traffic.onTime }

def postAll (letter : Option (Letter Message)) : Traffic Message :=
  match letter with
  | some letter => traffic.post letter
  | none => traffic

def take (id : Nat) : Traffic Message :=
  { traffic with popped := Function.update traffic.popped id (traffic.popped id + 1) }

def takeAll (id : Option Nat) : Traffic Message :=
  match id with
  | some id => traffic.take id
  | none => traffic

end Traffic

def Place.drops (controlBlock : ControlBlock) : Place → Bool
  | .removing => true
  | .shrinking _ _ => controlBlock.canRemoveConnector
  | _ => false

/-- The bus can be opened as long as it has its name. -/
def Motion.admitted (traffic : Traffic Message) : Motion Message → Bool
  | .open made => made == traffic.named
  | _ => true

namespace Party

variable (traffic : Traffic Message) (motion : Motion Message) (party : Party Message)

def finds : Bool :=
  match party.participant.member.connectors.getLast? with
  | some id => !(traffic.remaining id).isEmpty
  | none => false

def answered : Bool :=
  match party.participant.place, motion with
  | .reading, .next result => result == party.finds traffic
  | _, _ => true

def posts : Option (Letter Message) :=
  match party.participant.place, motion with
  | .pushing, .next true =>
      party.participant.member.connectors.head?.bind fun id =>
        party.sender.message.map fun message => ⟨message, id, (traffic.stored id).length⟩
  | _, _ => none

def takes : Option Nat :=
  match party.participant.place, motion with
  | .reading, .next true =>
      if party.reader.popping then party.participant.member.connectors.getLast? else none
  | _, _ => none

def opens : List Nat :=
  match party.participant.place, motion with
  | .closed, .open true => traffic.controlBlock.chain
  | .growing _ target, .next true =>
      if SameWord target party.participant.member.controlBlock.outputId then []
      else [party.participant.member.controlBlock.outputId + 1]
  | _, _ => []

def unlinks : List Nat :=
  match motion with
  | .close => party.participant.member.connectors
  | .next _ =>
      if party.participant.place.drops party.participant.member.controlBlock then
        party.participant.member.connectors.getLast?.toList
      else []
  | _ => []

def leaves (controlBlock : ControlBlock) : Traffic Message :=
  { (traffic.postAll (party.posts traffic motion)).takeAll (party.takes motion) with
    controlBlock := controlBlock
    named := match motion with
      | .close => false
      | _ => traffic.named
    unlinked := party.unlinks motion ++ traffic.unlinked }

end Party

namespace Sender

def letterAfter (motion : Motion Message) (posted : Option (Letter Message)) (place : Place)
    (sender : Sender Message) : Option (Letter Message) :=
  match place, motion with
  | .pushing, .next true => posted
  | _, _ => sender.letter

def sentAfter (place nextPlace : Place) (sender : Sender Message) : List (Letter Message) :=
  match place.returning, nextPlace with
  | some true, .idle => sender.sent ++ sender.letter.toList
  | _, _ => sender.sent

def record (motion : Motion Message) (posted : Option (Letter Message))
    (place nextPlace : Place) (sender : Sender Message) : Sender Message where
  message := match motion with
    | .push message => some message
    | _ => sender.message
  letter := sender.letterAfter motion posted place
  sent := sender.sentAfter place nextPlace

end Sender

namespace Reader

def unread (member after : Member) (reader : Reader) : Reader :=
  { reader with
    drained := reader.drained && decide (after.connectors.getLast? = member.connectors.getLast?) }

def record (traffic : Traffic Message) (motion : Motion Message)
    (participant after : Participant) (reader : Reader) : Reader :=
  match participant.place, motion with
  | .closed, .open _ => { reads := reader.reads, since := traffic.controlBlock.inputId }
  | .idle, .get => { reader with popping := false }
  | .idle, .pop => { reader with popping := true }
  | .reading, .next false => {
      reader with
      drained := reader.drained ||
        participant.member.connectors.getLast?.any (· < traffic.controlBlock.outputId) }
  | _, _ => reader.unread participant.member after.member

end Reader

def Party.moved (traffic : Traffic Message) (motion : Motion Message) (party : Party Message)
    (after : Participant) : Party Message where
  participant := after
  sender := party.sender.record motion (party.posts traffic motion)
    party.participant.place after.place
  reader := party.reader.record traffic motion party.participant after

/-- The steps of a participant with its messages, whatever a connector returns. -/
def transport (motion : Motion Message) (traffic : Traffic Message) (party : Party Message) :
    Option (Traffic Message × Party Message) :=
  if motion.admitted traffic then
    (program motion.event traffic.controlBlock party.participant).map fun stepped =>
      (party.leaves traffic motion stepped.1, party.moved traffic motion stepped.2)
  else none

/-- The steps of a participant when a connector returns what it stores. -/
def carry (motion : Motion Message) (traffic : Traffic Message) (party : Party Message) :
    Option (Traffic Message × Party Message) :=
  if party.answered traffic motion then transport motion traffic party else none

theorem transport_cases {motion : Motion Message} {traffic next : Traffic Message}
    {party last : Party Message} (carried : transport motion traffic party = some (next, last)) :
    ∃ stepped, program motion.event traffic.controlBlock party.participant = some stepped ∧
      next = party.leaves traffic motion stepped.1 ∧
      last = party.moved traffic motion stepped.2 := by
  unfold transport at carried
  split at carried
  · rcases Option.map_eq_some_iff.mp carried with ⟨stepped, programmed, same⟩
    cases same
    exact ⟨stepped, programmed, rfl, rfl⟩
  · cases carried

theorem carry_cases {motion : Motion Message} {traffic next : Traffic Message}
    {party last : Party Message} (carried : carry motion traffic party = some (next, last)) :
    party.answered traffic motion = true ∧ transport motion traffic party = some (next, last) := by
  unfold carry at carried
  split at carried
  next answered => exact ⟨answered, carried⟩
  next => cases carried

abbrev Mail (Message : Type) := Threads (Traffic Message) (Party Message)

abbrev MailStep : Mail Message → Nat × Motion Message → Mail Message → Prop :=
  Threads.Step (Threads.Follows carry)

/-- The participant that has created the bus, and any number of others that have not
opened it; only the one with the number `reader` reads. -/
def Mail.start (reader count : Nat) : Mail Message where
  shared := {}
  places :=
    { participant := ⟨⟨[0], {}⟩, .idle⟩, reader := { reads := decide (reader = 0) } } ::
      (List.range count).map fun index => { reader := { reads := decide (reader = index + 1) } }

def Mail.system (state : Mail Message) : System where
  shared := state.shared.controlBlock
  places := state.places.map Party.participant

/-! ## The condition -/

/-- Only an object that reads tries an input connector, and it adds a connector only behind
its own output connector. Nobody drops its only connector, and an update after a successful
push is not given up when it has seen connectors that are new. -/
def Place.Orderly (result reads : Bool) (shared : ControlBlock) (member : Member) :
    Place → Prop
  | .adding => reads = true → member.controlBlock.outputId = shared.outputId
  | .reading => reads = true
  | .removing => 2 ≤ member.connectors.length
  | .growing .afterPush target => SameWord target member.controlBlock.outputId ∨
      member.controlBlock.canAddConnector = true ∧ result = true
  | .shrinking caller grown =>
      if member.controlBlock.canRemoveConnector then 2 ≤ member.connectors.length
      else caller = .afterPush → grown = false
  | _ => True

instance (result reads : Bool) (shared : ControlBlock) (member : Member) :
    DecidablePred (Place.Orderly result reads shared member) := fun place =>
  have long : Decidable (2 ≤ member.connectors.length) := Nat.decLe 2 _
  Place.casesOn (motive := fun place =>
      Decidable (place.Orderly result reads shared member)) place
    (isTrue trivial) (isTrue trivial) (isTrue trivial) (isTrue trivial)
    (inferInstanceAs (Decidable (_ → member.controlBlock.outputId = _)))
    (inferInstanceAs (Decidable (reads = true))) (isTrue trivial) long (fun _ => isTrue trivial) (fun _ => isTrue trivial)
    (fun caller target =>
      Caller.casesOn (motive := fun caller =>
          Decidable (Place.Orderly result reads shared member (.growing caller target))) caller
        (isTrue trivial)
        (inferInstanceAs (Decidable (SameWord _ _ ∨ _ = true ∧ result = true)))
        (isTrue trivial))
    (fun _ _ => isTrue trivial)
    (fun caller grown => inferInstanceAs (Decidable (
      if member.controlBlock.canRemoveConnector then 2 ≤ member.connectors.length
      else caller = Caller.afterPush → grown = false)))

def Party.Orderly (shared : ControlBlock) (motion : Motion Message) (party : Party Message) :
    Prop :=
  match motion with
  | .next result => party.participant.place.Orderly result party.reader.reads shared
      party.participant.member
  | _ => True

instance (shared : ControlBlock) (motion : Motion Message) :
    DecidablePred (Party.Orderly shared motion) := fun party => by
  unfold Party.Orderly
  split <;> infer_instance

/-- A reader has opened the connector. -/
def Party.Knows (id : Nat) (party : Party Message) : Prop :=
  party.participant.place ≠ .closed → party.reader.reads = true →
    id ≤ party.participant.member.controlBlock.outputId

instance (id : Nat) : DecidablePred (@Party.Knows Message id) := fun party =>
  inferInstanceAs (Decidable (party.participant.place ≠ .closed → party.reader.reads = true →
    id ≤ party.participant.member.controlBlock.outputId))

/-- The condition of the chain and that of the epochs hold, fewer connectors than
identifiers have been added, and the acting participant does not go out of order. It opens
no connector that has lost its name, and takes no name away that a reader needs. -/
structure Orderly (state : Mail Message) (label : Nat × Motion Message) : Prop where
  checked : StillChecked state.system (label.1, label.2.event)
  apart : KeepsApart state.system (label.1, label.2.event)
  small : state.shared.controlBlock.outputId < 2 ^ 32
  orderly : ∀ party ∈ state.places[label.1]?, party.Orderly state.shared.controlBlock label.2
  linked : ∀ party ∈ state.places[label.1]?, ∀ id ∈ party.opens state.shared label.2,
    id ∉ state.shared.unlinked
  spared : ∀ party ∈ state.places[label.1]?, ∀ id ∈ party.unlinks label.2,
    ∀ other ∈ state.places, other.Knows id

instance (state : Mail Message) : DecidablePred (Orderly state) := fun label =>
  decidable_of_iff
    (StillChecked state.system (label.1, label.2.event) ∧
      KeepsApart state.system (label.1, label.2.event) ∧
      state.shared.controlBlock.outputId < 2 ^ 32 ∧
      (∀ party ∈ state.places[label.1]?, party.Orderly state.shared.controlBlock label.2) ∧
      (∀ party ∈ state.places[label.1]?, ∀ id ∈ party.opens state.shared label.2,
        id ∉ state.shared.unlinked) ∧
      ∀ party ∈ state.places[label.1]?, ∀ id ∈ party.unlinks label.2,
        ∀ other ∈ state.places, other.Knows id)
    ⟨fun all => ⟨all.1, all.2.1, all.2.2.1, all.2.2.2.1, all.2.2.2.2.1, all.2.2.2.2.2⟩,
      fun all =>
        ⟨all.checked, all.apart, all.small, all.orderly, all.linked, all.spared⟩⟩

/-- The acting participant, if it may read, drops its input connector only after it has
found it empty with the next connector already added. -/
def DropsDrained (state : Mail Message) (label : Nat × Motion Message) : Prop :=
  ∀ party ∈ state.places[label.1]?,
    party.participant.place.drops party.participant.member.controlBlock = true →
      party.reader.reads = true → party.reader.drained = true

instance (state : Mail Message) : DecidablePred (DropsDrained state) := fun label =>
  inferInstanceAs (Decidable (∀ party ∈ state.places[label.1]?,
    party.participant.place.drops party.participant.member.controlBlock = true →
      party.reader.reads = true → party.reader.drained = true))

end Qbus.Bus
