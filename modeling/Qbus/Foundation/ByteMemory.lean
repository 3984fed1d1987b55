import Mathlib.Algebra.Ring.Nat

/-! A byte-addressed memory with block reads, block writes and little-endian
32-bit words. The frame lemmas say which bytes a write leaves alone. -/

namespace Qbus

abbrev ByteMemory := Nat → UInt8

namespace ByteMemory

def read (memory : ByteMemory) (address : Nat) : Nat → List UInt8
  | 0 => []
  | count + 1 => memory address :: read memory (address + 1) count

def write (memory : ByteMemory) (address : Nat) (bytes : List UInt8) : ByteMemory :=
  fun position =>
    if position < address then memory position
    else (bytes[position - address]?).getD (memory position)

def wordBytes (value : Nat) : List UInt8 :=
  [UInt8.ofNat value, UInt8.ofNat (value / 256), UInt8.ofNat (value / 65536),
    UInt8.ofNat (value / 16777216)]

def readWord (memory : ByteMemory) (address : Nat) : Nat :=
  (memory address).toNat + 256 * (memory (address + 1)).toNat +
    65536 * (memory (address + 2)).toNat + 16777216 * (memory (address + 3)).toNat

def writeWord (memory : ByteMemory) (address value : Nat) : ByteMemory :=
  memory.write address (wordBytes value)

def AgreeOn (left right : ByteMemory) (first last : Nat) : Prop :=
  ∀ position, first ≤ position → position < last → left position = right position

@[simp] theorem read_length (memory : ByteMemory) (address count : Nat) :
    (memory.read address count).length = count := by
  induction count generalizing address with
  | zero => rfl
  | succ count induction => simp [read, induction]

@[simp] theorem wordBytes_length (value : Nat) : (wordBytes value).length = 4 := rfl

theorem write_outside {memory : ByteMemory} {address position : Nat}
    {bytes : List UInt8}
    (outside : position < address ∨ address + bytes.length ≤ position) :
    memory.write address bytes position = memory position := by
  unfold write
  split
  · rfl
  · rw [List.getElem?_eq_none (by omega), Option.getD_none]

theorem write_inside {memory : ByteMemory} {address position : Nat}
    {bytes : List UInt8} (lower : address ≤ position)
    (upper : position - address < bytes.length) :
    memory.write address bytes position = bytes[position - address] := by
  unfold write
  rw [if_neg (by omega), List.getElem?_eq_getElem upper, Option.getD_some]

theorem write_agreeOn {memory : ByteMemory} {address first last : Nat}
    {bytes : List UInt8}
    (disjoint : last ≤ address ∨ address + bytes.length ≤ first) :
    AgreeOn (memory.write address bytes) memory first last := by
  intro position lower upper
  exact write_outside (by omega)

theorem writeWord_agreeOn {memory : ByteMemory} {address value first last : Nat}
    (disjoint : last ≤ address ∨ address + 4 ≤ first) :
    AgreeOn (memory.writeWord address value) memory first last :=
  write_agreeOn (by simpa using disjoint)

theorem AgreeOn.trans {left middle right : ByteMemory} {first last : Nat}
    (leftAgrees : AgreeOn left middle first last)
    (rightAgrees : AgreeOn middle right first last) :
    AgreeOn left right first last := fun position lower upper =>
  (leftAgrees position lower upper).trans (rightAgrees position lower upper)

theorem AgreeOn.symm {left right : ByteMemory} {first last : Nat}
    (agrees : AgreeOn left right first last) : AgreeOn right left first last :=
  fun position lower upper => (agrees position lower upper).symm

theorem AgreeOn.mono {left right : ByteMemory} {first last first' last' : Nat}
    (agrees : AgreeOn left right first last) (lower : first ≤ first')
    (upper : last' ≤ last) : AgreeOn left right first' last' :=
  fun position inLower inUpper => agrees position (by omega) (by omega)

theorem AgreeOn.read_eq {left right : ByteMemory} {first last address count : Nat}
    (agrees : AgreeOn left right first last) (lower : first ≤ address)
    (upper : address + count ≤ last) :
    left.read address count = right.read address count := by
  induction count generalizing address with
  | zero => rfl
  | succ count induction =>
      rw [read, read, agrees address lower (by omega),
        induction (by omega) (by omega)]

theorem AgreeOn.readWord_eq {left right : ByteMemory} {first last address : Nat}
    (agrees : AgreeOn left right first last) (lower : first ≤ address)
    (upper : address + 4 ≤ last) : left.readWord address = right.readWord address := by
  unfold readWord
  rw [agrees address lower (by omega), agrees (address + 1) (by omega) (by omega),
    agrees (address + 2) (by omega) (by omega),
    agrees (address + 3) (by omega) (by omega)]

theorem read_write_same (memory : ByteMemory) (address : Nat) (bytes : List UInt8) :
    (memory.write address bytes).read address bytes.length = bytes := by
  have shifted : ∀ (skipped rest : List UInt8),
      (memory.write address (skipped ++ rest)).read (address + skipped.length)
        rest.length = rest := by
    intro skipped rest
    induction rest generalizing skipped with
    | nil => rfl
    | cons byte rest induction =>
        have later := induction (skipped ++ [byte])
        rw [List.append_assoc, List.singleton_append, List.length_append,
          List.length_singleton, ← Nat.add_assoc] at later
        rw [List.length_cons, read, later, write_inside (by omega) (by simp)]
        simp
  exact shifted [] bytes

theorem readWord_lt (memory : ByteMemory) (address : Nat) :
    memory.readWord address < 2 ^ 32 := by
  have first := (memory address).toNat_lt
  have second := (memory (address + 1)).toNat_lt
  have third := (memory (address + 2)).toNat_lt
  have fourth := (memory (address + 3)).toNat_lt
  unfold readWord
  omega

@[simp] theorem readWord_writeWord (memory : ByteMemory) (address value : Nat) :
    (memory.writeWord address value).readWord address = value % 2 ^ 32 := by
  have inside : ∀ (offset : Nat) (below : offset < 4),
      memory.writeWord address value (address + offset) =
        (wordBytes value)[offset] := by
    intro offset below
    rw [writeWord, write_inside (by omega) (by simpa using below)]
    simp only [Nat.add_sub_cancel_left]
    rfl
  have first := inside 0 (by omega)
  have second := inside 1 (by omega)
  have third := inside 2 (by omega)
  have fourth := inside 3 (by omega)
  rw [Nat.add_zero] at first
  unfold readWord
  rw [first, second, third, fourth]
  simp only [wordBytes, List.getElem_cons_zero, List.getElem_cons_succ,
    UInt8.toNat_ofNat']
  omega

theorem readWord_write_outside {memory : ByteMemory} {address position : Nat}
    {bytes : List UInt8}
    (disjoint : position + 4 ≤ address ∨ address + bytes.length ≤ position) :
    (memory.write address bytes).readWord position = memory.readWord position :=
  have agrees : AgreeOn (memory.write address bytes) memory position (position + 4) :=
    write_agreeOn disjoint
  agrees.readWord_eq (Nat.le_refl _) (Nat.le_refl _)

theorem readWord_writeWord_outside {memory : ByteMemory} {address position value : Nat}
    (disjoint : position + 4 ≤ address ∨ address + 4 ≤ position) :
    (memory.writeWord address value).readWord position = memory.readWord position :=
  readWord_write_outside (by simpa using disjoint)

end ByteMemory

end Qbus
