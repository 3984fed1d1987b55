import Qbus.Foundation.MachineWord
import Qbus.Foundation.ByteMemory

/-! # Messages

A message is a fragment in the data area of a queue: a header of six 32-bit
fields followed by data bytes. A message that does not fit into one region of
the ring is a chain of fragments. -/

namespace Qbus

inductive Fault where
  /-- A method was called through an empty `pmessage_type`. -/
  | nullMessage
  /-- An `assert` failed. -/
  | assertion
  /-- A loop does not end. -/
  | endless
deriving DecidableEq, Repr

abbrev Outcome := Except Fault

/-- A `pmessage_type`: the positions of the chained fragments in the data area,
beginning with the fragment the pointer refers to. `[]` is the empty pointer. -/
abbrev Chain := List Nat

namespace Message

open ByteMemory

def flgHead : Nat := 1
def flgTail : Nat := 2

def flagsOffset : Nat := 0
def capacityOffset : Nat := 4
def sidOffset : Nat := 8
def tagOffset : Nat := 12
def counterOffset : Nat := 16
def timestampOffset : Nat := 20
def dataOffset : Nat := 24
def headerSize : Nat := 24

def staticSize (capacity : Nat) : Nat := headerSize + capacity

def staticCapacity (size : Nat) : Nat :=
  if size > headerSize then size - headerSize else 0

def flags (memory : ByteMemory) (position : Nat) : Nat :=
  memory.readWord (position + flagsOffset)

def setFlags (memory : ByteMemory) (position value : Nat) : ByteMemory :=
  memory.writeWord (position + flagsOffset) value

def capacity (memory : ByteMemory) (position : Nat) : Nat :=
  memory.readWord (position + capacityOffset)

def setCapacity (memory : ByteMemory) (position value : Nat) : ByteMemory :=
  memory.writeWord (position + capacityOffset) value

def sid (memory : ByteMemory) (position : Nat) : Nat :=
  memory.readWord (position + sidOffset)

def setSid (memory : ByteMemory) (position value : Nat) : ByteMemory :=
  memory.writeWord (position + sidOffset) value

def tag (memory : ByteMemory) (position : Nat) : Nat :=
  memory.readWord (position + tagOffset)

def setTag (memory : ByteMemory) (position value : Nat) : ByteMemory :=
  memory.writeWord (position + tagOffset) value

def counter (memory : ByteMemory) (position : Nat) : Nat :=
  memory.readWord (position + counterOffset)

def setCounter (memory : ByteMemory) (position value : Nat) : ByteMemory :=
  memory.writeWord (position + counterOffset) value

def timestamp (memory : ByteMemory) (position : Nat) : Nat :=
  memory.readWord (position + timestampOffset)

def setTimestamp (memory : ByteMemory) (position value : Nat) : ByteMemory :=
  memory.writeWord (position + timestampOffset) value

def decCounter (memory : ByteMemory) (position : Nat) : Nat × ByteMemory :=
  let value := MachineWord.sub32 (counter memory position) 1
  (value, setCounter memory position value)

/-- The constructor `base_message(ptr, cpct)`: a fresh header at `position`,
stamped with the source identifier and the current time. -/
def make (memory : ByteMemory) (position capacity sid now : Nat) : ByteMemory :=
  let memory := memory.write position (List.replicate headerSize 0)
  let memory := setCapacity memory position capacity
  let memory := setSid memory position sid
  setTimestamp memory position now

def size (memory : ByteMemory) (position : Nat) : Nat :=
  staticSize (capacity memory position)

/-- Copy `source` into the chain. The second component is the number of copied
bytes. Flags are set on the way in and corrected on the way out. -/
def pack (memory : ByteMemory) : Chain → List UInt8 → ByteMemory × Nat
  | [], _ => (memory, 0)
  | [position], source =>
      let cpct := capacity memory position
      if source.length ≤ cpct then
        (setFlags (memory.write (position + dataOffset) source) position
          (flgHead ||| flgTail), source.length)
      else
        (setFlags (memory.write (position + dataOffset) (source.take cpct)) position
          flgHead, cpct)
  | position :: next :: rest, source =>
      let cpct := capacity memory position
      if source.length ≤ cpct then
        (setFlags (memory.write (position + dataOffset) source) position
          (flgHead ||| flgTail), source.length)
      else
        let memory := setFlags
          (memory.write (position + dataOffset) (source.take cpct)) position flgHead
        let (memory, restSize) := pack memory (next :: rest) (source.drop cpct)
        -- `flags() & ~FLG_HEAD` in 32 bits
        (setFlags memory next (flags memory next &&& (2 ^ 32 - 1 - flgHead)),
          cpct + restSize)

def unpack (memory : ByteMemory) : Chain → List UInt8
  | [] => []
  | position :: rest =>
      memory.read (position + dataOffset) (capacity memory position) ++
        unpack memory rest

def totalCapacity (memory : ByteMemory) : Chain → Nat
  | [] => 0
  | position :: rest => capacity memory position + totalCapacity memory rest

def dataSize (memory : ByteMemory) (chain : Chain) : Nat :=
  totalCapacity memory chain

def totalSize (memory : ByteMemory) : Chain → Nat
  | [] => 0
  | position :: rest => staticSize (capacity memory position) + totalSize memory rest

end Message

structure Region where
  first : Nat
  second : Nat
deriving DecidableEq, Repr

structure MessageDesc where
  first : Chain
  second : Nat
deriving DecidableEq, Repr

namespace MessageDesc

/-- The pair `(pmessage_type(), 0)` that stands for "no message". -/
def none : MessageDesc := ⟨[], 0⟩

end MessageDesc

namespace Message

/-- The two nested loops of `static_make_message`. Every iteration asks for the
region behind `previous`; regions that hold no more than a header are skipped,
every other one receives a fragment. `none` in the result stands for running
into a region of length zero, where the fragments made so far stay behind. -/
def makeFragments (freeRegion : Option Region → Region) (sid now : Nat) :
    (fuel : Nat) → (previous : Option Region) → (rest : Nat) → Chain → ByteMemory →
    Outcome (Option (Chain × Region) × ByteMemory)
  | 0, _, _, _, _ => .error .endless
  | fuel + 1, previous, rest, chain, memory =>
      let region := freeRegion previous
      if region.second = 0 then
        .ok (none, memory)
      else if region.second ≤ headerSize then
        makeFragments freeRegion sid now fuel (some region) rest chain memory
      else
        let part := min rest (staticCapacity region.second)
        let memory := make memory region.first part sid now
        let chain := chain ++ [region.first]
        if rest - part > 0 then
          makeFragments freeRegion sid now fuel (some region) (rest - part) chain memory
        else
          .ok (some (chain, region), memory)

/-- Make a message with the given data in the regions that `freeRegion` hands
out. The memory is returned in the failing case, too. -/
def staticMakeMessage (freeRegion : Option Region → Region) (fuel sid now : Nat)
    (memory : ByteMemory) (data : List UInt8) : Outcome (MessageDesc × ByteMemory) := do
  -- without data the loop is not entered and the message pointer stays empty
  if data.length = 0 then
    throw .nullMessage
  let (made, memory) ← makeFragments freeRegion sid now fuel none data.length [] memory
  match made with
  | none => return (.none, memory)
  | some (chain, region) =>
      let (memory, packedSize) := pack memory chain data
      if packedSize ≠ data.length then
        throw .assertion
      return (⟨chain, (region.first + size memory (chain.getLastD 0)) % 2 ^ 32⟩, memory)

def readFragments (busyRegion : Option Region → Region) (memory : ByteMemory) :
    (fuel : Nat) → (previous : Option Region) → Chain → Outcome MessageDesc
  | 0, _, _ => .error .endless
  | fuel + 1, previous, chain =>
      let region := busyRegion previous
      if region.second = 0 then
        .ok .none
      else if region.second ≤ headerSize then
        readFragments busyRegion memory fuel (some region) chain
      else if chain = [] ∧ flags memory region.first &&& flgHead = 0 then
        .error .assertion
      else
        let chain := chain ++ [region.first]
        if flags memory region.first &&& flgTail = 0 then
          readFragments busyRegion memory fuel (some region) chain
        else
          .ok ⟨chain, (region.first + size memory region.first) % 2 ^ 32⟩

/-- Get the message that begins in the regions `busyRegion` hands out. -/
def staticGetMessage (busyRegion : Option Region → Region) (fuel : Nat)
    (memory : ByteMemory) : Outcome MessageDesc :=
  readFragments busyRegion memory fuel none []

end Message

/-! ## Service messages -/

namespace ServiceMessage

def tag : Nat := 2 ^ 32 - 1

inductive Code where
  | connect
  | disconnect
  | book
deriving DecidableEq, Repr

def Code.toByte : Code → UInt8
  | .connect => 0
  | .disconnect => 1
  | .book => 2

def code (memory : ByteMemory) (position : Nat) : UInt8 :=
  memory (position + Message.dataOffset)

end ServiceMessage

end Qbus
