import Qbus.Bus.ControlBlock
import Qbus.Foundation.Threads

/-! # Interleaved participants of a bus

The calls of any number of participants, in atomic steps: every read of the
shared control block is one, and so are `add_connector` and `remove_connector`
under the mutex of the bus. What a connector returns, and whether a connector
can be made, is left open. -/

namespace Qbus.Bus

inductive Caller
  /-- `do_push`, before it pushes. -/
  | beforePush
  /-- `do_push`, after a successful push. -/
  | afterPush
  /-- `do_get` and `do_pop`, after an attempt that found nothing. -/
  | afterRead
deriving DecidableEq, Repr

/-- Where a participant is; the comments name its next step. `get` and `pop` go
the same way. -/
inductive Place
  /-- No bus object; opens the bus. -/
  | closed
  /-- Begins a call. -/
  | idle
  /-- `do_push` pushes to the output connector. -/
  | pushing
  /-- `can_add_connector` after a push that failed. -/
  | full
  /-- `add_connector`. -/
  | adding
  /-- `do_get` or `do_pop` tries the input connector. -/
  | reading
  /-- `can_remove_connector` after an attempt that failed. -/
  | drained
  /-- `remove_connector`. -/
  | removing
  /-- `is_updated`. -/
  | checking (caller : Caller)
  /-- Reads the shared `output_id`. -/
  | comparing (caller : Caller)
  /-- Adds the next connector up to `target`. -/
  | growing (caller : Caller) (target : Nat)
  /-- Reads the shared `input_id`; `grown` is the status so far. -/
  | reaching (caller : Caller) (grown : Bool)
  /-- Removes a connector. -/
  | shrinking (caller : Caller) (grown : Bool)
deriving DecidableEq, Repr

def Caller.resume (status : UpdateStatus) : Caller → Place
  | .beforePush => .pushing
  | .afterPush => if status.hasOutput then .pushing else .idle
  | .afterRead => if status.hasInput then .reading else .drained

structure Participant where
  member : Member := {}
  place : Place := .closed
deriving DecidableEq, Repr

def Participant.enter (participant : Participant) (place : Place) : Participant :=
  { participant with place := place }

inductive Event
  /-- `open`, under the mutex of the bus; `made` tells whether all connectors of
  the chain could be opened. -/
  | open (made : Bool)
  /-- The destructor. -/
  | close
  | push
  | read
  /-- The next step of the call under way; `result` is what the connector returns
  in this step, or whether `make_connector` returns one. -/
  | next (result : Bool)
deriving DecidableEq, Repr

/-- The next step of a call. The output or input connector of an empty list is not
defined. -/
def proceed (result : Bool) (shared : ControlBlock) (participant : Participant) :
    Option (ControlBlock × Participant) :=
  let member := participant.member
  match participant.place with
  | .closed | .idle => none
  | .pushing =>
      if member.connectors = [] then none
      else some (shared, participant.enter (if result then .checking .afterPush else .full))
  | .full =>
      some (shared, participant.enter (if shared.canAddConnector then .adding else .idle))
  | .adding =>
      match member.addConnector result shared with
      | (true, next, member) => some (next, ⟨member, .checking .beforePush⟩)
      | (false, next, member) => some (next, ⟨member, .idle⟩)
  | .reading =>
      if member.connectors = [] then none
      else some (shared, participant.enter (if result then .idle else .checking .afterRead))
  | .drained =>
      some (shared, participant.enter (if shared.canRemoveConnector then .removing else .idle))
  | .removing =>
      if member.connectors = [] then none
      else match member.removeConnector result shared with
      | (true, next, member) => some (next, ⟨member, .reading⟩)
      | (false, next, member) => some (next, ⟨member, .idle⟩)
  | .checking caller =>
      match member.isUpdated shared with
      | (true, member) => some (shared, ⟨member, .comparing caller⟩)
      | (false, member) => some (shared, ⟨member, caller.resume .usNone⟩)
  | .comparing caller =>
      some (shared, participant.enter
        (if SameWord shared.outputId member.controlBlock.outputId then .reaching caller false
          else .growing caller shared.outputId))
  | .growing caller target =>
      if SameWord target member.controlBlock.outputId then
        some (shared, participant.enter (.reaching caller true))
      else if member.controlBlock.canAddConnector then
        match member.grow result with
        | (true, member) => some (shared, ⟨member, .growing caller target⟩)
        | (false, member) => some (shared, ⟨member, caller.resume .usNone⟩)
      else
        some (shared, participant.enter (caller.resume .usNone))
  | .reaching caller grown =>
      some (shared, participant.enter
        (if SameWord shared.inputId member.controlBlock.inputId then
          caller.resume (if grown then .usOutput else .usNone)
        else .shrinking caller grown))
  | .shrinking caller grown =>
      if member.controlBlock.canRemoveConnector then
        if member.connectors = [] then none
        else match member.shrink result with
        | (true, member) =>
            some (shared, ⟨member, caller.resume (if grown then .usBoth else .usInput)⟩)
        | (false, member) => some (shared, ⟨member, caller.resume .usNone⟩)
      else
        some (shared, participant.enter (caller.resume .usNone))

theorem proceed_checking (result : Bool) (shared : ControlBlock) (member : Member)
    (caller : Caller) :
    proceed result shared ⟨member, .checking caller⟩ =
      some (shared,
        if SameWord shared.epoch member.controlBlock.epoch then
          ⟨member, caller.resume .usNone⟩
        else
          ⟨{ member with controlBlock := { member.controlBlock with epoch := shared.epoch } },
            .comparing caller⟩) := by
  by_cases same : SameWord shared.epoch member.controlBlock.epoch
  · simp only [proceed, Member.isUpdated, if_pos same]
  · simp only [proceed, Member.isUpdated, if_neg same]

def program : Event → ControlBlock → Participant → Option (ControlBlock × Participant)
  | .open made, shared, participant =>
      if participant.place = .closed then
        some (shared, if made then ⟨⟨shared.chain.reverse, shared⟩, .idle⟩ else participant)
      else none
  | .close, shared, participant =>
      if participant.place = .idle then some (shared, {}) else none
  | .push, shared, participant =>
      if participant.place = .idle then
        some (shared, participant.enter (.checking .beforePush))
      else none
  | .read, shared, participant =>
      if participant.place = .idle then some (shared, participant.enter .reading) else none
  | .next result, shared, participant => proceed result shared participant

abbrev System := Threads ControlBlock Participant

abbrev Step : System → Nat × Event → System → Prop := Threads.Step (Threads.Follows program)

def System.start (count : Nat) : System :=
  ⟨{}, ⟨⟨[0], {}⟩, .idle⟩ :: List.replicate count {}⟩

end Qbus.Bus
