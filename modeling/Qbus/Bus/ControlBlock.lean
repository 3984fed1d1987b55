import Mathlib.Algebra.Ring.Nat

/-! # The control block of a bus

A bus is a chain of connectors whose identifiers run from `input_id` to
`output_id`. The shared memory holds the control block of the chain; every
participant has a copy of it and a list of the connectors that it has opened. -/

namespace Qbus.Bus

/-- `controlblock_type`. Its words are counted without the wrap of their 32 bits,
which the comparisons make up for. -/
structure ControlBlock where
  epoch : Nat := 0
  inputId : Nat := 0
  outputId : Nat := 0
deriving DecidableEq, Repr

/-- Two words of 32 bits are equal. -/
abbrev SameWord (first second : Nat) : Prop := first % 2 ^ 32 = second % 2 ^ 32

namespace ControlBlock

variable (controlBlock : ControlBlock)

def canAddConnector : Bool := !decide (SameWord (controlBlock.outputId + 1) controlBlock.inputId)

def canRemoveConnector : Bool := !decide (SameWord controlBlock.inputId controlBlock.outputId)

def added : ControlBlock :=
  { controlBlock with outputId := controlBlock.outputId + 1, epoch := controlBlock.epoch + 1 }

def removed : ControlBlock :=
  { controlBlock with inputId := controlBlock.inputId + 1, epoch := controlBlock.epoch + 1 }

@[simp] theorem added_inputId : controlBlock.added.inputId = controlBlock.inputId := rfl

@[simp] theorem added_outputId :
    controlBlock.added.outputId = controlBlock.outputId + 1 := rfl

@[simp] theorem added_epoch : controlBlock.added.epoch = controlBlock.epoch + 1 := rfl

@[simp] theorem removed_inputId :
    controlBlock.removed.inputId = controlBlock.inputId + 1 := rfl

@[simp] theorem removed_outputId : controlBlock.removed.outputId = controlBlock.outputId := rfl

@[simp] theorem removed_epoch : controlBlock.removed.epoch = controlBlock.epoch + 1 := rfl

theorem canAddConnector_iff : controlBlock.canAddConnector = true ↔
    ¬SameWord (controlBlock.outputId + 1) controlBlock.inputId := by
  simp [canAddConnector]

theorem canRemoveConnector_iff : controlBlock.canRemoveConnector = true ↔
    ¬SameWord controlBlock.inputId controlBlock.outputId := by
  simp [canRemoveConnector]

end ControlBlock

/-- `base_bus::add_connector` on a control block and a list of connectors, the
output connector first, where `made` tells whether `make_connector` returned a
connector. -/
def addConnector (made : Bool) (controlBlock : ControlBlock) (connectors : List Nat) :
    Bool × ControlBlock × List Nat :=
  if made then
    (true, controlBlock.added, (controlBlock.outputId + 1) :: connectors)
  else
    (false, controlBlock, connectors)

/-- `base_bus::remove_connector`, which makes a connector only when the list has
become empty. -/
def removeConnector (made : Bool) (controlBlock : ControlBlock) (connectors : List Nat) :
    Bool × ControlBlock × List Nat :=
  if connectors.dropLast = [] then
    if made then
      (true, controlBlock.removed, [controlBlock.inputId + 1])
    else
      (false, controlBlock.removed, [])
  else
    (true, controlBlock.removed, connectors.dropLast)

theorem removeConnector_controlBlock (made : Bool) (controlBlock : ControlBlock)
    (connectors : List Nat) :
    (removeConnector made controlBlock connectors).2.1 = controlBlock.removed := by
  unfold removeConnector
  split
  · split <;> rfl
  · rfl

/-- Every connector that `remove_connector` leaves was there before or is the one
behind the input connector. -/
theorem mem_removeConnector {made : Bool} {controlBlock : ControlBlock} {connectors : List Nat}
    {id : Nat} (left : id ∈ (removeConnector made controlBlock connectors).2.2) :
    id ∈ connectors ∨ id = controlBlock.inputId + 1 := by
  unfold removeConnector at left
  split at left
  · split at left
    · exact .inr (List.mem_singleton.mp left)
    · cases left
  · exact .inl (List.dropLast_subset _ left)

structure Member where
  /-- The identifiers of the connectors in `m_pconnectors`. -/
  connectors : List Nat := []
  controlBlock : ControlBlock := {}
deriving DecidableEq, Repr

namespace Member

/-- `shared_bus::add_connector` outside an update: the shared control block
changes, and of the copy only the identifier. -/
def addConnector (made : Bool) (shared : ControlBlock) (member : Member) :
    Bool × ControlBlock × Member :=
  match Bus.addConnector made shared member.connectors with
  | (true, next, connectors) =>
      (true, next, {
        connectors := connectors
        controlBlock := { member.controlBlock with outputId := next.outputId } })
  | (false, next, connectors) => (false, next, { member with connectors := connectors })

def removeConnector (made : Bool) (shared : ControlBlock) (member : Member) :
    Bool × ControlBlock × Member :=
  match Bus.removeConnector made shared member.connectors with
  | (true, next, connectors) =>
      (true, next, {
        connectors := connectors
        controlBlock := { member.controlBlock with inputId := next.inputId } })
  | (false, next, connectors) => (false, next, { member with connectors := connectors })

def grow (made : Bool) (member : Member) : Bool × Member :=
  match Bus.addConnector made member.controlBlock member.connectors with
  | (result, next, connectors) => (result, ⟨connectors, next⟩)

def shrink (made : Bool) (member : Member) : Bool × Member :=
  match Bus.removeConnector made member.controlBlock member.connectors with
  | (result, next, connectors) => (result, ⟨connectors, next⟩)

def isUpdated (shared : ControlBlock) (member : Member) : Bool × Member :=
  if SameWord shared.epoch member.controlBlock.epoch then
    (false, member)
  else
    (true, { member with
      controlBlock := { member.controlBlock with epoch := shared.epoch } })

end Member

/-- The connectors that `do_open` opens one after another, from `input_id` to
`output_id`. -/
def ControlBlock.chain (controlBlock : ControlBlock) : List Nat :=
  List.range' controlBlock.inputId
    ((controlBlock.outputId + 2 ^ 32 - controlBlock.inputId % 2 ^ 32) % 2 ^ 32 + 1)

/-! ## Identifiers in a row -/

/-- The identifiers from `last` down to `first`, as they stand in `m_pconnectors`. -/
def span (first last : Nat) : List Nat := (List.range' first (last + 1 - first)).reverse

section Span

variable {first last : Nat}

theorem span_self (id : Nat) : span id id = [id] := by
  simp [span]

theorem span_succ (ordered : first ≤ last + 1) :
    span first (last + 1) = (last + 1) :: span first last := by
  have count : last + 1 + 1 - first = last + 1 - first + 1 := by omega
  have newest : first + (last + 1 - first) = last + 1 := by omega
  rw [span, count, List.range'_1_concat, List.reverse_append, newest]
  rfl

theorem head?_span (ordered : first ≤ last) : (span first last).head? = some last := by
  have count : last + 1 - first = last - first + 1 := by omega
  have newest : first + (last - first) = last := by omega
  rw [span, count, List.range'_1_concat, List.reverse_append, newest]
  rfl

theorem getLast?_span (ordered : first ≤ last) : (span first last).getLast? = some first := by
  have count : last + 1 - first = last - first + 1 := by omega
  rw [span, count, List.range'_succ, List.reverse_cons, List.getLast?_concat]

theorem dropLast_span (ordered : first ≤ last) :
    (span first last).dropLast = span (first + 1) last := by
  have count : last + 1 - first = last - first + 1 := by omega
  have fewer : last + 1 - (first + 1) = last - first := by omega
  rw [span, count, List.range'_succ, List.reverse_cons, List.dropLast_concat, span, fewer]

theorem mem_span {id : Nat} : id ∈ span first last ↔ first ≤ id ∧ id ≤ last := by
  rw [span, List.mem_reverse, List.mem_range'_1]
  omega

theorem span_ne_nil (ordered : first ≤ last) : span first last ≠ [] := by
  intro empty
  have newest := head?_span ordered
  rw [empty] at newest
  cases newest

end Span

theorem ControlBlock.chain_reverse {controlBlock : ControlBlock}
    (ordered : controlBlock.inputId ≤ controlBlock.outputId)
    (small : controlBlock.outputId < 2 ^ 32) :
    controlBlock.chain.reverse = span controlBlock.inputId controlBlock.outputId := by
  have count : (controlBlock.outputId + 2 ^ 32 - controlBlock.inputId % 2 ^ 32) % 2 ^ 32 + 1 =
      controlBlock.outputId + 1 - controlBlock.inputId := by omega
  rw [chain, count, span]

inductive UpdateStatus
  | usNone
  | usInput
  | usOutput
  | usBoth
deriving DecidableEq, Repr

def UpdateStatus.hasInput : UpdateStatus → Bool
  | .usInput | .usBoth => true
  | .usNone | .usOutput => false

def UpdateStatus.hasOutput : UpdateStatus → Bool
  | .usOutput | .usBoth => true
  | .usNone | .usInput => false

end Qbus.Bus
