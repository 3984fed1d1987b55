import Qbus.Queue.Regions

/-! # Stored messages

The log of a queue lists all messages that were ever accepted. Those from `base`
on are stored in the ring, from the head to the tail; `Ring` relates the bytes of
the queue memory to the log. -/

namespace Qbus

open ByteMemory Message Circular Placement MachineWord

structure Entry where
  sid : Nat
  tag : Nat
  timestamp : Nat
  payload : List UInt8
  nonempty : payload ≠ []

namespace Entry

def size (entry : Entry) : Nat := entry.payload.length

theorem size_pos (entry : Entry) : 0 < entry.size :=
  List.length_pos_iff.mpr entry.nonempty

def header (entry : Entry) (refs : Nat) : Header :=
  ⟨entry.sid, entry.tag, refs, entry.timestamp⟩

end Entry

namespace Storage

variable {capacity position : Nat}

def start (capacity : Nat) (log : List Entry) : Nat → Nat
  | 0 => 0
  | index + 1 =>
      start capacity log index + match log[index]? with
        | some entry => extent capacity (start capacity log index) entry.size
        | none => 0

/-- The description of a message of `size` bytes that begins at `position`. -/
def desc (capacity position size : Nat) : MessageDesc :=
  ⟨(place capacity position size).map Fragment.position,
    chainStop (place capacity position size)⟩

/-- The position of the header of a message that begins at `position`. -/
def headerPlace (capacity position size : Nat) : Nat :=
  chainStart (place capacity position size)

/-- A message of `size` bytes fits into the space between the tail and the head. -/
def Fits (capacity : Nat) (log : List Entry) (base size : Nat) : Prop :=
  start capacity log log.length +
    extent capacity (start capacity log log.length) size ≤
      start capacity log base + capacity

instance (capacity : Nat) (log : List Entry) (base size : Nat) :
    Decidable (Fits capacity log base size) :=
  inferInstanceAs (Decidable (_ ≤ _))

def AgreeOnWindow (left right : ByteMemory) (capacity first last : Nat) : Prop :=
  ∀ byte, Covers capacity first last byte → left byte = right byte

structure Holds (memory : ByteMemory) (capacity position : Nat)
    (payload : List UInt8) (header : Header) : Prop where
  packed : Packed memory true (place capacity position payload.length) payload
  headed : Message.header memory (headerPlace capacity position payload.length) = header

theorem start_succ (capacity : Nat) {log : List Entry} {index : Nat} {entry : Entry}
    (found : log[index]? = some entry) :
    start capacity log (index + 1) = start capacity log index +
      extent capacity (start capacity log index) entry.size := by
  rw [start, found]

theorem start_le_succ (capacity : Nat) (log : List Entry) (index : Nat) :
    start capacity log index ≤ start capacity log (index + 1) := by
  rw [start]
  omega

theorem start_mono (capacity : Nat) (log : List Entry) {earlier later : Nat}
    (ordered : earlier ≤ later) :
    start capacity log earlier ≤ start capacity log later := by
  induction ordered with
  | refl => exact Nat.le_refl _
  | step _ induction => exact Nat.le_trans induction (start_le_succ capacity log _)

theorem start_append {log more : List Entry} {index : Nat} (inside : index ≤ log.length) :
    start capacity (log ++ more) index = start capacity log index := by
  induction index with
  | zero => rfl
  | succ index induction =>
      rw [start, start, induction (by omega), List.getElem?_append_left (by omega)]

theorem start_spread (capacity : Nat) {log : List Entry} {earlier later : Nat}
    (ordered : earlier ≤ later) (inside : later ≤ log.length) :
    start capacity log earlier + (headerSize + 1) * (later - earlier) ≤
      start capacity log later := by
  induction ordered with
  | refl => simp
  | @step later ordered induction =>
      have below : later < log.length := inside
      have size := (log[later]).size_pos
      have taken := lt_extent capacity (start capacity log later) (log[later]).size
      rw [start_succ capacity (List.getElem?_eq_getElem below),
        show later.succ - earlier = later - earlier + 1 from
          Nat.succ_sub ordered, Nat.mul_succ]
      have previous := induction (by omega)
      omega

theorem AgreeOnWindow.trans {left middle right : ByteMemory} {first last : Nat}
    (leftAgrees : AgreeOnWindow left middle capacity first last)
    (rightAgrees : AgreeOnWindow middle right capacity first last) :
    AgreeOnWindow left right capacity first last := fun byte covers =>
  (leftAgrees byte covers).trans (rightAgrees byte covers)

theorem AgreeOnWindow.mono {left right : ByteMemory} {first last first' last' : Nat}
    (agrees : AgreeOnWindow left right capacity first last) (lower : first ≤ first')
    (upper : last' ≤ last) : AgreeOnWindow left right capacity first' last' :=
  fun byte covers => agrees byte (covers.mono lower upper)

/-! ## One message -/

theorem exists_head_place (capacity position size : Nat) :
    ∃ fragment rest, place capacity position size = fragment :: rest ∧
      headerPlace capacity position size = fragment.position := by
  rcases List.exists_cons_of_ne_nil (place_ne_nil capacity position size) with
    ⟨fragment, rest, isCons⟩
  exact ⟨fragment, rest, isCons, by simp [headerPlace, chainStart, isCons]⟩

theorem desc_first (capacity position size : Nat) :
    ∃ rest, (desc capacity position size).first =
      headerPlace capacity position size :: rest := by
  rcases exists_head_place capacity position size with ⟨fragment, rest, isCons, headed⟩
  exact ⟨rest.map Fragment.position, by rw [desc, isCons, headed]; rfl⟩

theorem desc_second_mod {size : Nat} (positive : 0 < capacity) :
    (desc capacity position size).second % capacity =
      (position + extent capacity position size) % capacity :=
  chainStop_place_mod positive

theorem desc_second_lt (position : Nat) {size : Nat} (positive : 0 < capacity)
    (bounded : capacity < 2 ^ 32) (nonempty : 0 < size)
    (fits : extent capacity position size ≤ capacity) :
    (desc capacity position size).second < 2 ^ 32 :=
  Nat.lt_of_le_of_lt (chainStop_place_le positive nonempty fits) bounded

theorem headerPlace_covers {size offset : Nat} (positive : 0 < capacity)
    (nonempty : 0 < size) (fits : extent capacity position size ≤ capacity)
    (inside : offset < headerSize) :
    Covers capacity position (position + extent capacity position size)
      (headerPlace capacity position size + offset) := by
  rcases exists_head_place capacity position size with ⟨fragment, rest, isCons, headed⟩
  rw [headed]
  exact place_covers positive nonempty fits (by rw [isCons]; exact List.mem_cons_self)
    (by omega) (by simp only [Fragment.stop]; omega)

theorem writeWord_agreeOnWindow {memory : ByteMemory} {size offset value : Nat}
    {first last : Nat} (positive : 0 < capacity) (nonempty : 0 < size)
    (fits : extent capacity position size ≤ capacity)
    (inside : offset + 4 ≤ headerSize)
    (apart : last ≤ position ∧ position + extent capacity position size ≤
        first + capacity ∨
      position + extent capacity position size ≤ first ∧ last ≤ position + capacity) :
    AgreeOnWindow (memory.writeWord (headerPlace capacity position size + offset) value)
      memory capacity first last := by
  intro byte covers
  apply write_outside
  rw [wordBytes_length]
  refine Decidable.byContradiction fun hit => ?_
  have counted : ∃ step, step < 4 ∧
      headerPlace capacity position size + offset + step = byte :=
    ⟨byte - (headerPlace capacity position size + offset), by omega, by omega⟩
  rcases counted with ⟨step, below, isByte⟩
  have own := headerPlace_covers positive nonempty fits
    (show offset + step < headerSize by omega)
  rw [← Nat.add_assoc, isByte] at own
  rcases apart with ⟨before, near⟩ | ⟨behind, near⟩
  · exact covers.disjoint own before near rfl
  · exact own.disjoint covers behind near rfl

theorem packed_of_agree {left right : ByteMemory} {payload : List UInt8}
    (packed : Packed left true (place capacity position payload.length) payload)
    (positive : 0 < capacity) (nonempty : 0 < payload.length)
    (fits : extent capacity position payload.length ≤ capacity)
    (agrees : AgreeOnWindow right left capacity position
      (position + extent capacity position payload.length)) :
    Packed right true (place capacity position payload.length) payload := by
  apply packed.of_agree
  intro fragment member
  apply agreeOnFragment_of_agreeOn
  intro byte lower upper
  exact agrees byte (place_covers positive nonempty fits member lower upper)

namespace Holds

variable {memory : ByteMemory} {payload : List UInt8} {header : Header}

theorem of_agree {right : ByteMemory} (holds : Holds memory capacity position payload header)
    (positive : 0 < capacity) (nonempty : 0 < payload.length)
    (fits : extent capacity position payload.length ≤ capacity)
    (agrees : AgreeOnWindow right memory capacity position
      (position + extent capacity position payload.length)) :
    Holds right capacity position payload header := by
  refine ⟨packed_of_agree holds.packed positive nonempty fits agrees, ?_⟩
  · rw [← holds.headed]
    apply header_eq_of_agreeOn
    intro byte lower upper
    rcases Nat.exists_eq_add_of_le
      (show headerPlace capacity position payload.length ≤ byte by omega) with
        ⟨offset, rfl⟩
    simp only [dataOffset] at upper
    exact agrees _ (headerPlace_covers positive nonempty fits
      (by simp only [headerSize]; omega))

theorem packed_writeWord {offset value : Nat}
    (holds : Holds memory capacity position payload header)
    (nonempty : 0 < payload.length)
    (fits : extent capacity position payload.length ≤ capacity)
    (lower : sidOffset ≤ offset) (upper : offset ≤ timestampOffset) :
    Packed (memory.writeWord (headerPlace capacity position payload.length + offset)
      value) true (place capacity position payload.length) payload := by
  apply holds.packed.of_agree
  rcases exists_head_place capacity position payload.length with ⟨first, rest, isCons, headed⟩
  have apart := place_apart nonempty fits
  rw [isCons] at apart
  rw [headed, isCons]
  intro fragment member
  rcases List.mem_cons.mp member with equal | later
  · rw [equal]
    exact agreeOnFragment_writeWord lower upper
  · apply agreeOnFragment_of_agreeOn
    apply writeWord_agreeOn
    have disjoint := (List.pairwise_cons.mp apart).1 fragment later
    simp only [Fragment.Apart, Fragment.stop, headerSize, timestampOffset] at *
    omega

theorem code_eq (holds : Holds memory capacity position payload header)
    (nonempty : payload ≠ []) :
    ServiceMessage.code memory (headerPlace capacity position payload.length) =
      payload.head nonempty := by
  have size : 0 < payload.length := List.length_pos_iff.mpr nonempty
  have packed := holds.packed
  rcases exists_head_place capacity position payload.length with ⟨fragment, rest, isCons, headed⟩
  have positive : 0 < fragment.capacity := by
    rcases place_cases capacity position payload.length with
      ⟨-, placed, -⟩ | ⟨-, -, placed, -⟩ | ⟨some, -, placed, -⟩ <;>
      · rw [placed] at isCons
        rcases List.cons.inj isCons with ⟨rfl, -⟩
        simp only
        omega
  rw [isCons] at packed
  rcases packed with ⟨-, -, -, stored, -⟩
  rcases Nat.exists_eq_add_one_of_ne_zero (Nat.ne_of_gt positive) with ⟨more, isMore⟩
  rw [isMore, ByteMemory.read] at stored
  rw [headed, ServiceMessage.code]
  cases payload with
  | nil => exact absurd rfl nonempty
  | cons byte payload =>
      rw [List.take_succ_cons] at stored
      exact (List.cons.inj stored).1

theorem totalSize_eq (holds : Holds memory capacity position payload header) :
    totalSize memory (desc capacity position payload.length).first =
      footprint capacity position payload.length :=
  holds.packed.totalSize_eq

theorem setTag (holds : Holds memory capacity position payload header) (value : Nat)
    (nonempty : 0 < payload.length)
    (fits : extent capacity position payload.length ≤ capacity) :
    Holds (Message.setTag memory (headerPlace capacity position payload.length) value)
      capacity position payload { header with tag := value % 2 ^ 32 } :=
  ⟨holds.packed_writeWord nonempty fits (by simp [sidOffset, tagOffset])
    (by simp [timestampOffset, tagOffset]), by rw [header_setTag, holds.headed]⟩

theorem setCounter (holds : Holds memory capacity position payload header) (value : Nat)
    (nonempty : 0 < payload.length)
    (fits : extent capacity position payload.length ≤ capacity) :
    Holds (Message.setCounter memory (headerPlace capacity position payload.length) value)
      capacity position payload { header with counter := value % 2 ^ 32 } :=
  ⟨holds.packed_writeWord nonempty fits (by simp [sidOffset, counterOffset])
    (by simp [timestampOffset, counterOffset]), by rw [header_setCounter, holds.headed]⟩

end Holds

end Storage

end Qbus
