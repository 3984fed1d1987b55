import Qbus.Bus.ControlBlock
import Qbus.Foundation.Channel

/-! # A bus that grows

The calls of one participant as a whole, on connectors that are channels. The
shared memory objects are created and opened as requested. `none` stands for an
undefined access and for a loop that does not end. -/

namespace Qbus.Bus

structure Specification where
  minCapacity : UInt32
  maxCapacity : UInt32
  capacityFactor : UInt32
deriving DecidableEq, Repr

def Specification.newCapacity (spec : Specification) (oldCapacity : UInt32) : UInt32 :=
  min (max spec.minCapacity (oldCapacity * (spec.capacityFactor + 100) / 100)) spec.maxCapacity

structure Connector {Message : Type} (channel : Channel Message) where
  capacity : UInt32
  queue : channel.State

structure Body {Message : Type} (channel : Channel Message) where
  spec : Specification
  controlBlock : ControlBlock := {}
  /-- The connectors by the identifiers in their names. -/
  connectors : Nat → Option (Connector channel) := fun _ => none

namespace Body

variable {Message : Type} {channel : Channel Message}

def connector (body : Body channel) (id : Nat) : Option (Connector channel) :=
  body.connectors (id % 2 ^ 32)

def setConnector (body : Body channel) (id : Nat) (connector : Connector channel) :
    Body channel :=
  { body with
    connectors := fun name => if name = id % 2 ^ 32 then some connector else body.connectors name }

def setControlBlock (body : Body channel) (controlBlock : ControlBlock) : Body channel :=
  { body with controlBlock := controlBlock }

def outputCapacity (body : Body channel) : List Nat → Option UInt32
  | [] => some 0
  | front :: _ => (body.connector front).map Connector.capacity

/-- `make_connector`: whether it returns one, for a participant with the given
connectors. -/
def makeConnector (body : Body channel) (connectors : List Nat) (id : Nat) :
    Option (Bool × Body channel) := do
  match body.connector id with
  | some _ => return (true, body)
  | none =>
      let oldCapacity ← body.outputCapacity connectors
      if connectors = [] ∨ body.spec.capacityFactor > 0 then
        let newCapacity := body.spec.newCapacity oldCapacity
        if newCapacity > oldCapacity then
          return (true, body.setConnector id ⟨newCapacity, channel.create newCapacity⟩)
        else
          return (false, body)
      else
        return (false, body)

def addConnector (body : Body channel) (member : Member) :
    Option (Bool × Body channel × Member) := do
  let (made, body) ← body.makeConnector member.connectors (body.controlBlock.outputId + 1)
  let (result, controlBlock, member) := member.addConnector made body.controlBlock
  return (result, body.setControlBlock controlBlock, member)

/-- The `make_connector` of `remove_connector`, which is called with an empty list
only. -/
def makeForEmpty (body : Body channel) (connectors : List Nat) (id : Nat) :
    Option (Bool × Body channel) :=
  if connectors = [] then none
  else if connectors.dropLast = [] then body.makeConnector [] id
  else some (false, body)

def removeConnector (body : Body channel) (member : Member) :
    Option (Bool × Body channel × Member) := do
  let (made, body) ← body.makeForEmpty member.connectors (body.controlBlock.inputId + 1)
  let (result, controlBlock, member) := member.removeConnector made body.controlBlock
  return (result, body.setControlBlock controlBlock, member)

/-- The loop of `update_connectors` that adds connectors up to `target`. -/
def growTo (target : Nat) : (fuel : Nat) → Body channel → Member →
    Option (Bool × Body channel × Member)
  | 0, _, _ => none
  | fuel + 1, body, member => do
      if SameWord target member.controlBlock.outputId then
        return (true, body, member)
      if !member.controlBlock.canAddConnector then
        return (false, body, member)
      let (made, body) ← body.makeConnector member.connectors (member.controlBlock.outputId + 1)
      let (result, member) := member.grow made
      if result then
        growTo target fuel body member
      else
        return (false, body, member)

def updateConnectors (body : Body channel) (member : Member) :
    Option (UpdateStatus × Body channel × Member) := do
  let (updated, member) := member.isUpdated body.controlBlock
  if !updated then
    return (.usNone, body, member)
  let grown := !decide (SameWord body.controlBlock.outputId member.controlBlock.outputId)
  let (result, body, member) ← growTo body.controlBlock.outputId (2 ^ 32) body member
  if !result then
    return (.usNone, body, member)
  if SameWord body.controlBlock.inputId member.controlBlock.inputId then
    return (if grown then .usOutput else .usNone, body, member)
  if !member.controlBlock.canRemoveConnector then
    return (.usNone, body, member)
  let (made, body) ← body.makeForEmpty member.connectors (member.controlBlock.inputId + 1)
  let (result, member) := member.shrink made
  if result then
    return (if grown then .usBoth else .usInput, body, member)
  else
    return (.usNone, body, member)

/-! ## Pushing -/

def basePush (message : Message) (body : Body channel) (member : Member) :
    Option (Bool × Body channel) := do
  let front ← member.connectors.head?
  let connector ← body.connector front
  let (result, queue) := channel.push connector.queue message
  return (result, body.setConnector front { connector with queue := queue })

def pushLoop (message : Message) : (fuel : Nat) → Body channel → Member →
    Option (Bool × Body channel × Member)
  | 0, _, _ => none
  | fuel + 1, body, member => do
      let (result, body) ← body.basePush message member
      if !result then
        return (false, body, member)
      let (status, body, member) ← body.updateConnectors member
      if status.hasOutput then
        pushLoop message fuel body member
      else
        return (true, body, member)

def doPush (message : Message) (body : Body channel) (member : Member) :
    Option (Bool × Body channel × Member) := do
  let (_, body, member) ← body.updateConnectors member
  pushLoop message (2 ^ 32) body member

def pushGrowing (message : Message) : (fuel : Nat) → Body channel → Member →
    Option (Bool × Body channel × Member)
  | 0, _, _ => none
  | fuel + 1, body, member => do
      let (result, body, member) ← body.doPush message member
      if result then
        return (true, body, member)
      if !body.controlBlock.canAddConnector then
        return (false, body, member)
      let (added, body, member) ← body.addConnector member
      if added then
        pushGrowing message fuel body member
      else
        return (false, body, member)

def push (message : Message) (body : Body channel) (member : Member) :
    Option (Bool × Body channel × Member) :=
  pushGrowing message (2 ^ 32) body member

/-! ## Reading

`get` and `pop` differ in the operation on the input connector. -/

section Read

variable {Value : Type} (operation : channel.State → Option Value × channel.State)

def baseRead (body : Body channel) (member : Member) : Option (Option Value × Body channel) := do
  let back ← member.connectors.getLast?
  let connector ← body.connector back
  let (value, queue) := operation connector.queue
  return (value, body.setConnector back { connector with queue := queue })

def doRead : (fuel : Nat) → Body channel → Member →
    Option (Option Value × Body channel × Member)
  | 0, _, _ => none
  | fuel + 1, body, member => do
      let (value, body) ← body.baseRead operation member
      if value.isSome then
        return (value, body, member)
      let (status, body, member) ← body.updateConnectors member
      if status.hasInput then
        doRead fuel body member
      else
        return (none, body, member)

def readShrinking : (fuel : Nat) → Body channel → Member →
    Option (Option Value × Body channel × Member)
  | 0, _, _ => none
  | fuel + 1, body, member => do
      let (value, body, member) ← body.doRead operation (2 ^ 32) member
      if value.isSome then
        return (value, body, member)
      if !body.controlBlock.canRemoveConnector then
        return (none, body, member)
      let (removed, body, member) ← body.removeConnector member
      if removed then
        readShrinking fuel body member
      else
        return (none, body, member)

end Read

def getConnector (queue : channel.State) : Option Message × channel.State :=
  (channel.get queue, queue)

def get (body : Body channel) (member : Member) :
    Option (Option Message × Body channel × Member) :=
  readShrinking getConnector (2 ^ 32) body member

/-- `pop` of a connector, which finds something to remove or not. -/
def popConnector (queue : channel.State) : Option Unit × channel.State :=
  match channel.pop queue with
  | (true, queue) => (some (), queue)
  | (false, queue) => (none, queue)

def pop (body : Body channel) (member : Member) : Option (Bool × Body channel × Member) := do
  let (value, body, member) ← readShrinking popConnector (2 ^ 32) body member
  return (value.isSome, body, member)

/-! ## Creating and opening -/

def create (channel : Channel Message) (spec : Specification) :
    Option (Bool × Body channel × Member) := do
  let (made, body) ← makeConnector { spec := spec } [] 0
  return (made, body, if made then { connectors := [0] } else {})

def openChain : List Nat → Body channel → List Nat → Option (Bool × Body channel × List Nat)
  | [], body, connectors => some (true, body, connectors)
  | id :: rest, body, connectors => do
      let (made, body) ← body.makeConnector connectors id
      if made then
        openChain rest body (id :: connectors)
      else
        return (false, body, [])

def «open» (body : Body channel) : Option (Bool × Body channel × Member) := do
  let (result, body, connectors) ← openChain body.controlBlock.chain body []
  return (result, body, if result then ⟨connectors, body.controlBlock⟩ else {})

end Body

end Qbus.Bus
