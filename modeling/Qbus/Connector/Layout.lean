import Mathlib.Algebra.Ring.Nat

/-! # The layout of a shared segment

A shared connector and a shared bus begin their segments with a spinlock, an attach
counter and a locker, and a connector with a barrier. The body lies where
`get_memory` says, in a segment of `memory_size` bytes. -/

namespace Qbus

structure ByteRange where
  first : Nat
  length : Nat
deriving DecidableEq, Repr

namespace ByteRange

def Has (range : ByteRange) (byte : Nat) : Prop :=
  range.first ≤ byte ∧ byte < range.first + range.length

def Apart (left right : ByteRange) : Prop :=
  ∀ byte, left.Has byte → ¬right.Has byte

def Inside (range : ByteRange) (size : Nat) : Prop :=
  ∀ byte, range.Has byte → byte < size

theorem inside_iff {range : ByteRange} {size : Nat} :
    range.Inside size ↔ range.length = 0 ∨ range.first + range.length ≤ size := by
  constructor
  · intro inside
    rcases Nat.eq_zero_or_pos range.length with none | some
    · exact .inl none
    · right
      have last := inside (range.first + range.length - 1) ⟨by omega, by omega⟩
      omega
  · rintro inside byte ⟨lower, upper⟩
    omega

theorem apart_of_le {left right : ByteRange} (ordered : left.first + left.length ≤ right.first) :
    left.Apart right := by
  rintro byte ⟨-, before⟩ ⟨behind, -⟩
  omega

end ByteRange

namespace SharedSegment

/-- Pointers and sizes have 64 bits. -/
def advance (ptr size : Nat) : Nat := (ptr + size) % 2 ^ 64

def spinlockSize : Nat := 4

def counterSize : Nat := 4

/-- Where the objects lie in the segment. The body is the memory of the queue or the
`bus_body`. -/
structure Placement where
  spinlock : ByteRange
  counter : ByteRange
  locker : ByteRange
  barrier : Option ByteRange
  body : ByteRange
deriving DecidableEq, Repr

def Placement.ranges (placement : Placement) : List ByteRange :=
  placement.spinlock :: placement.counter :: placement.locker ::
    (placement.barrier.toList ++ [placement.body])

structure Placement.Sound (placement : Placement) (size : Nat) : Prop where
  apart : placement.ranges.Pairwise ByteRange.Apart
  inside : ∀ range ∈ placement.ranges, range.Inside size

/-! ## `base_safe_connector`

`barrier` is the size of a `sharable_barrier`, and `none` for a `stub_barrier`. -/

namespace Connector

def barrierSize : (barrier : Option Nat) → Nat
  | some size => size
  | none => 0

/-- The barrier that is built at `ptr`, and the pointer behind it. -/
def createBarrier : (barrier : Option Nat) → (ptr : Nat) → Option ByteRange × Nat
  | some size, ptr => (some ⟨ptr, size⟩, advance ptr size)
  | none, ptr => (none, ptr)

/-- The barrier that is found at `ptr`, and the pointer behind it. -/
def openBarrier : (barrier : Option Nat) → (ptr : Nat) → Option ByteRange × Nat
  | some size, ptr => (some ⟨ptr, size⟩, advance ptr size)
  | none, ptr => (none, ptr)

def getMemory (locker : Nat) (barrier : Option Nat) : Nat :=
  advance (advance (advance (advance 0 locker) (barrierSize barrier)) spinlockSize) counterSize

def memorySize (locker : Nat) (barrier : Option Nat) (body : Nat) : Nat :=
  advance (advance (advance (advance body locker) (barrierSize barrier)) spinlockSize)
    counterSize

def doCreate (locker : Nat) (barrier : Option Nat) (body : Nat) : Placement :=
  let ptr := 0
  let pspinlock := ptr
  let ptr := advance ptr spinlockSize
  let pcounter := ptr
  let ptr := advance ptr counterSize
  let plocker := ptr
  let ptr := advance ptr locker
  let (pbarrier, _) := createBarrier barrier ptr
  { spinlock := ⟨pspinlock, spinlockSize⟩
    counter := ⟨pcounter, counterSize⟩
    locker := ⟨plocker, locker⟩
    barrier := pbarrier
    body := ⟨getMemory locker barrier, body⟩ }

def doOpen (locker : Nat) (barrier : Option Nat) (body : Nat) : Placement :=
  let ptr := 0
  let pspinlock := ptr
  let ptr := advance ptr spinlockSize
  let pcounter := ptr
  let ptr := advance ptr counterSize
  let plocker := ptr
  let ptr := advance ptr locker
  let (pbarrier, _) := openBarrier barrier ptr
  { spinlock := ⟨pspinlock, spinlockSize⟩
    counter := ⟨pcounter, counterSize⟩
    locker := ⟨plocker, locker⟩
    barrier := pbarrier
    body := ⟨getMemory locker barrier, body⟩ }

end Connector

/-! ## `base_safe_bus`

The spinlock is counted neither in `get_memory` nor in `memory_size`. -/

namespace Bus

def getMemory (locker : Nat) : Nat :=
  advance (advance 0 locker) counterSize

def memorySize (locker body : Nat) : Nat :=
  advance (advance body locker) counterSize

def doCreate (locker body : Nat) : Placement :=
  let ptr := 0
  let pspinlock := ptr
  let ptr := advance ptr spinlockSize
  let pcounter := ptr
  let ptr := advance ptr counterSize
  let plocker := ptr
  { spinlock := ⟨pspinlock, spinlockSize⟩
    counter := ⟨pcounter, counterSize⟩
    locker := ⟨plocker, locker⟩
    barrier := none
    body := ⟨getMemory locker, body⟩ }

def doOpen (locker body : Nat) : Placement :=
  let ptr := 0
  let pspinlock := ptr
  let ptr := advance ptr spinlockSize
  let pcounter := ptr
  let ptr := advance ptr counterSize
  let plocker := ptr
  { spinlock := ⟨pspinlock, spinlockSize⟩
    counter := ⟨pcounter, counterSize⟩
    locker := ⟨plocker, locker⟩
    barrier := none
    body := ⟨getMemory locker, body⟩ }

end Bus

inductive Object where
  | connector (locker : Nat) (barrier : Option Nat) (body : Nat)
  | bus (locker body : Nat)
deriving DecidableEq, Repr

namespace Object

def doCreate : Object → Placement
  | connector locker barrier body => Connector.doCreate locker barrier body
  | bus locker body => Bus.doCreate locker body

def doOpen : Object → Placement
  | connector locker barrier body => Connector.doOpen locker barrier body
  | bus locker body => Bus.doOpen locker body

def memorySize : Object → Nat
  | connector locker barrier body => Connector.memorySize locker barrier body
  | bus locker body => Bus.memorySize locker body

/-- A connector whose parts need less than `2 ^ 64` bytes together. -/
def Counted : Object → Prop
  | connector locker barrier body =>
      spinlockSize + counterSize + locker + Connector.barrierSize barrier + body < 2 ^ 64
  | bus _ _ => False

end Object

/-! ## What overlaps -/

theorem Connector.doOpen_eq (locker : Nat) (barrier : Option Nat) (body : Nat) :
    doOpen locker barrier body = doCreate locker barrier body := by
  cases barrier <;> rfl

theorem Connector.memorySize_eq (locker : Nat) (barrier : Option Nat) (body : Nat) :
    memorySize locker barrier body =
      (spinlockSize + counterSize + locker + barrierSize barrier + body) % 2 ^ 64 := by
  simp only [memorySize, advance, Nat.mod_add_mod]
  congr 1
  omega

theorem Connector.getMemory_eq {locker : Nat} {barrier : Option Nat}
    (small : spinlockSize + counterSize + locker + barrierSize barrier < 2 ^ 64) :
    getMemory locker barrier = spinlockSize + counterSize + locker + barrierSize barrier := by
  simp only [getMemory, advance, Nat.mod_add_mod]
  rw [Nat.mod_eq_of_lt (by omega)]
  omega

theorem Connector.ranges_eq (locker : Nat) (barrier : Option Nat) (body : Nat) :
    (doCreate locker barrier body).ranges =
      ⟨0, spinlockSize⟩ :: ⟨spinlockSize, counterSize⟩ ::
        ⟨spinlockSize + counterSize, locker⟩ ::
        ((barrier.map fun size =>
          ⟨(spinlockSize + counterSize + locker) % 2 ^ 64, size⟩).toList ++
          [⟨getMemory locker barrier, body⟩]) := by
  cases barrier <;> rfl

theorem Connector.sound_iff (locker : Nat) (barrier : Option Nat) (body : Nat) :
    (doCreate locker barrier body).Sound (memorySize locker barrier body) ↔
      spinlockSize + counterSize + locker + barrierSize barrier + body < 2 ^ 64 := by
  have spinlock : spinlockSize = 4 := rfl
  have counter : counterSize = 4 := rfl
  have sized := memorySize_eq locker barrier body
  have placed := @getMemory_eq locker barrier
  have bound := Nat.mod_lt (spinlockSize + counterSize + locker + barrierSize barrier + body)
    (show 0 < 2 ^ 64 by decide)
  constructor
  · rintro ⟨-, inside⟩
    simp only [ranges_eq, List.forall_mem_cons, List.forall_mem_append,
      ByteRange.inside_iff, sized] at inside
    rcases inside with ⟨-, counterInside, lockerInside, barrierInside, bodyInside, -⟩
    cases barrier with
    | none =>
        simp only [barrierSize, Nat.add_zero] at *
        rw [placed (by omega)] at bodyInside
        omega
    | some size =>
        simp only [barrierSize, Option.map_some, Option.toList_some,
          List.forall_mem_singleton] at *
        rw [Nat.mod_eq_of_lt (show spinlockSize + counterSize + locker < 2 ^ 64 by omega)]
          at barrierInside
        rw [placed (by omega)] at bodyInside
        omega
  · intro small
    rw [Nat.mod_eq_of_lt small] at sized
    have placed := placed (by omega)
    constructor
    · refine List.Pairwise.imp ByteRange.apart_of_le ?_
      rw [ranges_eq, placed]
      cases barrier with
      | none =>
          simp [barrierSize]
          omega
      | some size =>
          have before : (spinlockSize + counterSize + locker) % 2 ^ 64 =
              spinlockSize + counterSize + locker := by
            simp only [barrierSize] at small
            exact Nat.mod_eq_of_lt (by omega)
          simp only [barrierSize, Option.map_some, Option.toList_some, before]
          simp
          omega
    · simp only [ranges_eq, placed, sized, List.forall_mem_cons, List.forall_mem_append,
        ByteRange.inside_iff]
      cases barrier with
      | none =>
          simp only [barrierSize] at *
          simp
          omega
      | some size =>
          simp only [barrierSize] at *
          simp
          omega

theorem Bus.not_sound (locker body : Nat) :
    ¬(doCreate locker body).Sound (memorySize locker body) := by
  rintro ⟨apart, inside⟩
  have spinlock : spinlockSize = 4 := rfl
  have counter : counterSize = 4 := rfl
  have ranges : (doCreate locker body).ranges = [⟨0, spinlockSize⟩,
      ⟨spinlockSize, counterSize⟩, ⟨spinlockSize + counterSize, locker⟩,
      ⟨getMemory locker, body⟩] := rfl
  have sized : memorySize locker body = (body + locker + counterSize) % 2 ^ 64 := by
    simp only [memorySize, advance, Nat.mod_add_mod]
  have bound := Nat.mod_lt (body + locker + counterSize) (show 0 < 2 ^ 64 by decide)
  rw [ranges] at apart inside
  simp only [List.forall_mem_cons, ByteRange.inside_iff, sized] at inside
  rcases inside with ⟨-, counterInside, lockerInside, bodyInside, -⟩
  have placed : getMemory locker = locker + counterSize := by
    simp only [getMemory, advance, Nat.mod_add_mod, Nat.zero_add]
    exact Nat.mod_eq_of_lt (by omega)
  rw [placed] at apart bodyInside
  simp only [List.pairwise_cons, List.forall_mem_cons] at apart
  rcases apart with ⟨-, ⟨-, counterBody, -⟩, ⟨lockerBody, -⟩, -⟩
  have begins : ByteRange.Has ⟨locker + counterSize, body⟩ (locker + counterSize) :=
    ⟨Nat.le_refl _, by simp only; omega⟩
  rcases Nat.lt_or_ge locker counterSize with short | long
  · exact counterBody _ ⟨by simp only; omega, by simp only; omega⟩ begins
  · exact lockerBody _ ⟨by simp only; omega, by simp only; omega⟩ begins

/-- The objects of a segment lie apart from each other inside of it exactly when the
segment is that of a connector, and its size can be counted. -/
theorem layout_sound_iff (object : Object) :
    object.doCreate.Sound object.memorySize ∧ object.doOpen.Sound object.memorySize ↔
      object.Counted := by
  cases object with
  | connector locker barrier body =>
      simp only [Object.doCreate, Object.doOpen, Object.memorySize, Object.Counted,
        Connector.doOpen_eq, Connector.sound_iff, and_self]
  | bus locker body =>
      exact iff_of_false (fun sound => Bus.not_sound locker body sound.1) id

/-- A locker of 40 bytes takes the bytes from 8 to 48 of the segment of a bus, and the body
begins at the byte 44. -/
theorem layout_unsound :
    (Object.bus 40 24).doCreate.locker = ⟨8, 40⟩ ∧ (Object.bus 40 24).doCreate.body = ⟨44, 24⟩ ∧
      (Object.bus 40 24).memorySize = 68 ∧
      ¬(Object.bus 40 24).doCreate.Sound (Object.bus 40 24).memorySize :=
  ⟨rfl, rfl, rfl, Bus.not_sound 40 24⟩

end SharedSegment

end Qbus
