import Qbus.Bus.Growth

/-! # Names of shared memory

The calls of the participants of a bus on shared memory objects with names. A participant
keeps what it has mapped. The name of an object is unlinked when anybody destroys an object
that was made with it, and who asks for the name after that makes a new one. As in
`Qbus.Bus.Growth`, `none` stands for an undefined access and for a loop that does not end. -/

namespace Qbus.Bus

structure Mapped where
  id : Nat
  memory : Nat
deriving DecidableEq, Repr

structure Holder where
  connectors : List Mapped := []
  controlBlock : ControlBlock := {}
deriving DecidableEq, Repr

structure Segments {Message : Type} (channel : Channel Message) where
  spec : Specification
  controlBlock : ControlBlock := {}
  /-- The bus can be opened by its name. -/
  linked : Bool := true
  /-- The connectors that can be opened, by the identifiers in their names. -/
  names : Nat → Option Nat := fun _ => none
  connectors : List (Connector channel) := []

namespace Segments

variable {Message : Type} {channel : Channel Message}

def name (segments : Segments channel) (id : Nat) : Option Nat :=
  segments.names (id % 2 ^ 32)

def create (segments : Segments channel) (id : Nat) (capacity : UInt32) : Segments channel :=
  { segments with
    names := fun name =>
      if name = id % 2 ^ 32 then some segments.connectors.length else segments.names name
    connectors := segments.connectors ++ [⟨capacity, channel.create capacity⟩] }

def unlink (segments : Segments channel) (id : Nat) : Segments channel :=
  { segments with
    names := fun name => if name = id % 2 ^ 32 then none else segments.names name }

def clear (segments : Segments channel) (connectors : List Mapped) : Segments channel :=
  connectors.foldl (fun segments mapped => segments.unlink mapped.id) segments

def setControlBlock (segments : Segments channel) (controlBlock : ControlBlock) :
    Segments channel :=
  { segments with controlBlock := controlBlock }

def setQueue (segments : Segments channel) (memory : Nat) (queue : channel.State) :
    Segments channel :=
  { segments with
    connectors := segments.connectors.modify memory fun connector =>
      { connector with queue := queue } }

def capacity (segments : Segments channel) (memory : Nat) : Option UInt32 :=
  segments.connectors[memory]?.map Connector.capacity

def outputCapacity (segments : Segments channel) : List Mapped → Option UInt32
  | [] => some 0
  | front :: _ => segments.capacity front.memory

/-- `make_connector` for a participant with the given connectors. -/
def makeConnector (segments : Segments channel) (connectors : List Mapped) (id : Nat) :
    Option (Option Mapped × Segments channel) := do
  match segments.name id with
  | some memory => return (some ⟨id, memory⟩, segments)
  | none =>
      let oldCapacity ← segments.outputCapacity connectors
      if connectors = [] ∨ segments.spec.capacityFactor > 0 then
        let newCapacity := segments.spec.newCapacity oldCapacity
        if newCapacity > oldCapacity then
          return (some ⟨id, segments.connectors.length⟩, segments.create id newCapacity)
        else
          return (none, segments)
      else
        return (none, segments)

/-- `base_bus::add_connector` with the control block that `get_controlblock` returns. -/
def addConnector (segments : Segments channel) (connectors : List Mapped)
    (controlBlock : ControlBlock) :
    Option (Bool × Segments channel × List Mapped × ControlBlock) := do
  match ← segments.makeConnector connectors (controlBlock.outputId + 1) with
  | (some mapped, segments) =>
      return (true, segments, mapped :: connectors, controlBlock.added)
  | (none, segments) => return (false, segments, connectors, controlBlock)

/-- `base_bus::remove_connector` with the control block that `get_controlblock` returns. -/
def removeConnector (segments : Segments channel) (connectors : List Mapped)
    (controlBlock : ControlBlock) :
    Option (Bool × Segments channel × List Mapped × ControlBlock) := do
  let back ← connectors.getLast?
  let segments := segments.unlink back.id
  if connectors.dropLast = [] then
    match ← segments.makeConnector [] (controlBlock.inputId + 1) with
    | (some mapped, segments) => return (true, segments, [mapped], controlBlock.removed)
    | (none, segments) => return (false, segments, [], controlBlock.removed)
  else
    return (true, segments, connectors.dropLast, controlBlock.removed)

end Segments

structure View {Message : Type} (channel : Channel Message) where
  segments : Segments channel
  holder : Holder

namespace View

variable {Message : Type} {channel : Channel Message}

def outputCapacity (view : View channel) : Option UInt32 :=
  view.segments.outputCapacity view.holder.connectors

def addConnector (view : View channel) : Option (Bool × View channel) := do
  let (result, segments, connectors, controlBlock) ←
    view.segments.addConnector view.holder.connectors view.segments.controlBlock
  let copy :=
    if result then { view.holder.controlBlock with outputId := controlBlock.outputId }
    else view.holder.controlBlock
  return (result, ⟨segments.setControlBlock controlBlock, ⟨connectors, copy⟩⟩)

def removeConnector (view : View channel) : Option (Bool × View channel) := do
  let (result, segments, connectors, controlBlock) ←
    view.segments.removeConnector view.holder.connectors view.segments.controlBlock
  let copy :=
    if result then { view.holder.controlBlock with inputId := controlBlock.inputId }
    else view.holder.controlBlock
  return (result, ⟨segments.setControlBlock controlBlock, ⟨connectors, copy⟩⟩)

def grow (view : View channel) : Option (Bool × View channel) := do
  let (result, segments, connectors, controlBlock) ←
    view.segments.addConnector view.holder.connectors view.holder.controlBlock
  return (result, ⟨segments, ⟨connectors, controlBlock⟩⟩)

def shrink (view : View channel) : Option (Bool × View channel) := do
  let (result, segments, connectors, controlBlock) ←
    view.segments.removeConnector view.holder.connectors view.holder.controlBlock
  return (result, ⟨segments, ⟨connectors, controlBlock⟩⟩)

def isUpdated (view : View channel) : Bool × View channel :=
  if SameWord view.segments.controlBlock.epoch view.holder.controlBlock.epoch then
    (false, view)
  else
    (true, ⟨view.segments, { view.holder with
      controlBlock := { view.holder.controlBlock with
        epoch := view.segments.controlBlock.epoch } }⟩)

/-- The loop of `update_connectors` that adds connectors up to `target`. -/
def growTo (target : Nat) : (fuel : Nat) → View channel → Option (Bool × View channel)
  | 0, _ => none
  | fuel + 1, view => do
      if SameWord target view.holder.controlBlock.outputId then
        return (true, view)
      if !view.holder.controlBlock.canAddConnector then
        return (false, view)
      let (result, view) ← view.grow
      if result then
        growTo target fuel view
      else
        return (false, view)

def updateConnectors (view : View channel) : Option (UpdateStatus × View channel) := do
  let (updated, view) := view.isUpdated
  if !updated then
    return (.usNone, view)
  let shared := view.segments.controlBlock
  let grown := !decide (SameWord shared.outputId view.holder.controlBlock.outputId)
  let (result, view) ← growTo shared.outputId (2 ^ 32) view
  if !result then
    return (.usNone, view)
  if SameWord shared.inputId view.holder.controlBlock.inputId then
    return (if grown then .usOutput else .usNone, view)
  if !view.holder.controlBlock.canRemoveConnector then
    return (.usNone, view)
  let (result, view) ← view.shrink
  if result then
    return (if grown then .usBoth else .usInput, view)
  else
    return (.usNone, view)

/-! ## Pushing -/

def basePush (message : Message) (view : View channel) : Option (Bool × View channel) := do
  let front ← view.holder.connectors.head?
  let connector ← view.segments.connectors[front.memory]?
  let (result, queue) := channel.push connector.queue message
  return (result, ⟨view.segments.setQueue front.memory queue, view.holder⟩)

def pushLoop (message : Message) : (fuel : Nat) → View channel → Option (Bool × View channel)
  | 0, _ => none
  | fuel + 1, view => do
      let (result, view) ← view.basePush message
      if !result then
        return (false, view)
      let (status, view) ← view.updateConnectors
      if status.hasOutput then
        pushLoop message fuel view
      else
        return (true, view)

def doPush (message : Message) (view : View channel) : Option (Bool × View channel) := do
  let (_, view) ← view.updateConnectors
  pushLoop message (2 ^ 32) view

def pushGrowing (message : Message) : (fuel : Nat) → View channel → Option (Bool × View channel)
  | 0, _ => none
  | fuel + 1, view => do
      let (result, view) ← view.doPush message
      if result then
        return (true, view)
      if !view.segments.controlBlock.canAddConnector then
        return (false, view)
      let (added, view) ← view.addConnector
      if added then
        pushGrowing message fuel view
      else
        return (false, view)

def push (message : Message) (view : View channel) : Option (Bool × View channel) :=
  pushGrowing message (2 ^ 32) view

/-! ## Reading -/

section Read

variable {Value : Type} (operation : channel.State → Option Value × channel.State)

def baseRead (view : View channel) : Option (Option Value × View channel) := do
  let back ← view.holder.connectors.getLast?
  let connector ← view.segments.connectors[back.memory]?
  let (value, queue) := operation connector.queue
  return (value, ⟨view.segments.setQueue back.memory queue, view.holder⟩)

def doRead : (fuel : Nat) → View channel → Option (Option Value × View channel)
  | 0, _ => none
  | fuel + 1, view => do
      let (value, view) ← view.baseRead operation
      if value.isSome then
        return (value, view)
      let (status, view) ← view.updateConnectors
      if status.hasInput then
        doRead fuel view
      else
        return (none, view)

def readShrinking : (fuel : Nat) → View channel → Option (Option Value × View channel)
  | 0, _ => none
  | fuel + 1, view => do
      let (value, view) ← view.doRead operation (2 ^ 32)
      if value.isSome then
        return (value, view)
      if !view.segments.controlBlock.canRemoveConnector then
        return (none, view)
      let (removed, view) ← view.removeConnector
      if removed then
        readShrinking fuel view
      else
        return (none, view)

end Read

def get (view : View channel) : Option (Option Message × View channel) :=
  readShrinking Body.getConnector (2 ^ 32) view

def pop (view : View channel) : Option (Bool × View channel) := do
  let (value, view) ← readShrinking Body.popConnector (2 ^ 32) view
  return (value.isSome, view)

end View

/-! ## Creating, opening and closing -/

namespace Segments

variable {Message : Type} {channel : Channel Message}

def createBus (channel : Channel Message) (spec : Specification) :
    Option (Bool × View channel) := do
  match ← makeConnector { spec := spec } [] 0 with
  | (some mapped, segments) => return (true, ⟨segments, ⟨[mapped], {}⟩⟩)
  | (none, segments) => return (false, ⟨{ segments with linked := false }, {}⟩)

/-- The loop of `base_bus::do_open` over the identifiers of the chain. -/
def openChain : List Nat → Segments channel → List Mapped →
    Option (Bool × Segments channel × List Mapped)
  | [], segments, connectors => some (true, segments, connectors)
  | id :: rest, segments, connectors => do
      match ← segments.makeConnector connectors id with
      | (some mapped, segments) => openChain rest segments (mapped :: connectors)
      | (none, segments) => return (false, segments.clear connectors, [])

def «open» (segments : Segments channel) : Option (Bool × View channel) := do
  if !segments.linked then
    return (false, ⟨segments, {}⟩)
  let (result, segments, connectors) ← openChain segments.controlBlock.chain segments []
  if result then
    return (true, ⟨segments, ⟨connectors, segments.controlBlock⟩⟩)
  else
    return (false, ⟨{ segments with linked := false }, {}⟩)

def close (segments : Segments channel) (holder : Holder) : Segments channel :=
  { segments with linked := false }.clear holder.connectors

end Segments

end Qbus.Bus
