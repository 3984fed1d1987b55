import Qbus.Message.Message

/-! # Chains of fragments

What a packed chain looks like in memory, and that `unpack` and the readers of
the header recover from it what was packed. -/

namespace Qbus

structure Fragment where
  position : Nat
  capacity : Nat
deriving DecidableEq, Repr

namespace Fragment

def stop (fragment : Fragment) : Nat :=
  fragment.position + Message.headerSize + fragment.capacity

def Apart (left right : Fragment) : Prop :=
  left.stop ≤ right.position ∨ right.stop ≤ left.position

instance (left right : Fragment) : Decidable (left.Apart right) :=
  inferInstanceAs (Decidable (_ ∨ _))

theorem Apart.symm {left right : Fragment} (apart : Apart left right) :
    Apart right left := Or.symm apart

end Fragment

namespace Message

open ByteMemory

def room (fragments : List Fragment) : Nat :=
  (fragments.map Fragment.capacity).sum

@[simp] theorem room_nil : room [] = 0 := rfl

@[simp] theorem room_cons (fragment : Fragment) (rest : List Fragment) :
    room (fragment :: rest) = fragment.capacity + room rest := rfl

def Sized (memory : ByteMemory) (fragments : List Fragment) : Prop :=
  ∀ fragment ∈ fragments, capacity memory fragment.position = fragment.capacity

instance (memory : ByteMemory) (fragments : List Fragment) :
    Decidable (Sized memory fragments) :=
  inferInstanceAs (Decidable (∀ fragment ∈ fragments, _ = _))

/-- The flags of a fragment that `leads` the chain or not, and ends it or not. -/
def chainFlags (leads ends : Bool) : Nat :=
  (if leads then flgHead else 0) ||| (if ends then flgTail else 0)

/-- The fragments hold `payload` in chain order, with the flags that tell the
first and the last fragment. -/
def Packed (memory : ByteMemory) : (leads : Bool) → List Fragment → List UInt8 → Prop
  | _, [], payload => payload = []
  | leads, fragment :: rest, payload =>
      capacity memory fragment.position = fragment.capacity ∧
      flags memory fragment.position = chainFlags leads rest.isEmpty ∧
      fragment.capacity ≤ payload.length ∧
      memory.read (fragment.position + dataOffset) fragment.capacity =
        payload.take fragment.capacity ∧
      Packed memory false rest (payload.drop fragment.capacity)

/-- As `Packed`, but the last fragment has `FLG_TAIL` only if the chain `ends` there. -/
def PackedPart (memory : ByteMemory) :
    (leads ends : Bool) → List Fragment → List UInt8 → Prop
  | _, _, [], payload => payload = []
  | leads, ends, fragment :: rest, payload =>
      capacity memory fragment.position = fragment.capacity ∧
      flags memory fragment.position = chainFlags leads (rest.isEmpty && ends) ∧
      fragment.capacity ≤ payload.length ∧
      memory.read (fragment.position + dataOffset) fragment.capacity =
        payload.take fragment.capacity ∧
      PackedPart memory false ends rest (payload.drop fragment.capacity)

theorem packed_iff {memory : ByteMemory} {leads : Bool} {fragments : List Fragment}
    {payload : List UInt8} :
    Packed memory leads fragments payload ↔ PackedPart memory leads true fragments payload := by
  induction fragments generalizing leads payload with
  | nil => exact Iff.rfl
  | cons fragment rest induction => rw [Packed, PackedPart, induction, Bool.and_true]

/-- The bytes of a fragment that `pack` writes: its flags and its data. -/
def Written (fragment : Fragment) (position : Nat) : Prop :=
  (fragment.position ≤ position ∧ position < fragment.position + capacityOffset) ∨
  (fragment.position + dataOffset ≤ position ∧ position < fragment.stop)

def AgreeOnFragment (left right : ByteMemory) (fragment : Fragment) : Prop :=
  AgreeOn left right fragment.position (fragment.position + sidOffset) ∧
  AgreeOn left right (fragment.position + dataOffset) fragment.stop

theorem agreeOnFragment_of_agreeOn {left right : ByteMemory} {fragment : Fragment}
    (agrees : AgreeOn left right fragment.position fragment.stop) :
    AgreeOnFragment left right fragment := by
  constructor
  · exact agrees.mono (Nat.le_refl _)
      (by simp [Fragment.stop, sidOffset, headerSize]; omega)
  · exact agrees.mono (by simp [dataOffset]) (Nat.le_refl _)

namespace AgreeOnFragment

theorem capacity_eq {left right : ByteMemory} {fragment : Fragment}
    (agrees : AgreeOnFragment left right fragment) :
    capacity left fragment.position = capacity right fragment.position :=
  agrees.1.readWord_eq (by simp [capacityOffset])
    (by simp [capacityOffset, sidOffset])

theorem flags_eq {left right : ByteMemory} {fragment : Fragment}
    (agrees : AgreeOnFragment left right fragment) :
    flags left fragment.position = flags right fragment.position :=
  agrees.1.readWord_eq (by simp [flagsOffset]) (by simp [flagsOffset, sidOffset])

theorem data_eq {left right : ByteMemory} {fragment : Fragment}
    (agrees : AgreeOnFragment left right fragment) :
    left.read (fragment.position + dataOffset) fragment.capacity =
      right.read (fragment.position + dataOffset) fragment.capacity :=
  agrees.2.read_eq (Nat.le_refl _) (Nat.le_refl _)

end AgreeOnFragment

theorem PackedPart.of_agree {left right : ByteMemory} {leads ends : Bool}
    {fragments : List Fragment} {payload : List UInt8}
    (packed : PackedPart left leads ends fragments payload)
    (agrees : ∀ fragment ∈ fragments, AgreeOnFragment right left fragment) :
    PackedPart right leads ends fragments payload := by
  induction fragments generalizing leads payload with
  | nil => exact packed
  | cons fragment rest induction =>
      rcases packed with ⟨sized, flagged, fits, stored, later⟩
      have same := agrees fragment (List.mem_cons_self)
      refine ⟨same.capacity_eq.trans sized, same.flags_eq.trans flagged, fits,
        same.data_eq.trans stored, induction later ?_⟩
      intro other member
      exact agrees other (List.mem_cons_of_mem _ member)

theorem Packed.of_agree {left right : ByteMemory} {leads : Bool}
    {fragments : List Fragment} {payload : List UInt8}
    (packed : Packed left leads fragments payload)
    (agrees : ∀ fragment ∈ fragments, AgreeOnFragment right left fragment) :
    Packed right leads fragments payload :=
  packed_iff.mpr ((packed_iff.mp packed).of_agree agrees)

section Recovered

variable {memory : ByteMemory} {leads ends : Bool} {fragments : List Fragment}
  {payload : List UInt8}

theorem PackedPart.capacity_eq (packed : PackedPart memory leads ends fragments payload)
    {fragment : Fragment} (member : fragment ∈ fragments) :
    capacity memory fragment.position = fragment.capacity := by
  induction fragments generalizing leads payload with
  | nil => cases member
  | cons first rest induction =>
      rcases packed with ⟨sized, _, _, _, later⟩
      rcases List.mem_cons.mp member with equal | inRest
      · rw [equal, sized]
      · exact induction later inRest

theorem Packed.capacity_eq (packed : Packed memory leads fragments payload)
    {fragment : Fragment} (member : fragment ∈ fragments) :
    capacity memory fragment.position = fragment.capacity :=
  (packed_iff.mp packed).capacity_eq member

theorem PackedPart.unpack_eq (packed : PackedPart memory leads ends fragments payload) :
    unpack memory (fragments.map Fragment.position) = payload := by
  induction fragments generalizing leads payload with
  | nil => exact packed.symm
  | cons fragment rest induction =>
      rcases packed with ⟨sized, _, _, stored, later⟩
      rw [List.map_cons, unpack, sized, stored, induction later,
        List.take_append_drop]

theorem Packed.unpack_eq (packed : Packed memory leads fragments payload) :
    unpack memory (fragments.map Fragment.position) = payload :=
  (packed_iff.mp packed).unpack_eq

theorem PackedPart.totalCapacity_eq (packed : PackedPart memory leads ends fragments payload) :
    totalCapacity memory (fragments.map Fragment.position) = payload.length := by
  induction fragments generalizing leads payload with
  | nil =>
      rw [packed]
      rfl
  | cons fragment rest induction =>
      rcases packed with ⟨sized, _, fits, _, later⟩
      rw [List.map_cons, totalCapacity, sized, induction later, List.length_drop]
      omega

theorem Packed.totalCapacity_eq (packed : Packed memory leads fragments payload) :
    totalCapacity memory (fragments.map Fragment.position) = payload.length :=
  (packed_iff.mp packed).totalCapacity_eq

theorem PackedPart.totalSize_eq (packed : PackedPart memory leads ends fragments payload) :
    totalSize memory (fragments.map Fragment.position) =
      payload.length + headerSize * fragments.length := by
  induction fragments generalizing leads payload with
  | nil =>
      rw [packed]
      rfl
  | cons fragment rest induction =>
      rcases packed with ⟨sized, _, fits, _, later⟩
      rw [List.map_cons, totalSize, sized, induction later, List.length_drop,
        List.length_cons, staticSize, Nat.mul_succ]
      omega

theorem Packed.totalSize_eq (packed : Packed memory leads fragments payload) :
    totalSize memory (fragments.map Fragment.position) =
      payload.length + headerSize * fragments.length :=
  (packed_iff.mp packed).totalSize_eq

theorem PackedPart.flags_eq (packed : PackedPart memory leads ends fragments payload)
    {index : Nat} {fragment : Fragment} (found : fragments[index]? = some fragment) :
    flags memory fragment.position = chainFlags (decide (index = 0) && leads)
      (decide (index + 1 = fragments.length) && ends) := by
  induction fragments generalizing leads payload index with
  | nil => cases found
  | cons first rest induction =>
      rcases packed with ⟨_, flagged, _, _, later⟩
      cases index with
      | zero =>
          cases found
          rw [flagged]
          cases rest <;> simp
      | succ index =>
          rw [List.getElem?_cons_succ] at found
          rw [induction later found]
          simp

end Recovered

structure Header where
  sid : Nat
  tag : Nat
  counter : Nat
  timestamp : Nat
deriving DecidableEq, Repr

def header (memory : ByteMemory) (position : Nat) : Header where
  sid := sid memory position
  tag := tag memory position
  counter := counter memory position
  timestamp := timestamp memory position

theorem header_eq_of_agreeOn {left right : ByteMemory} {position : Nat}
    (agrees : AgreeOn left right (position + sidOffset) (position + dataOffset)) :
    header left position = header right position := by
  unfold header sid tag counter timestamp
  have word : ∀ offset, sidOffset ≤ offset → offset + 4 ≤ dataOffset →
      left.readWord (position + offset) = right.readWord (position + offset) :=
    fun offset lower upper => agrees.readWord_eq (by omega) (by omega)
  rw [word sidOffset (by decide) (by decide), word tagOffset (by decide) (by decide),
    word counterOffset (by decide) (by decide),
    word timestampOffset (by decide) (by decide)]

@[simp] theorem header_setTag (memory : ByteMemory) (position value : Nat) :
    header (setTag memory position value) position =
      { header memory position with tag := value % 2 ^ 32 } := by
  unfold header setTag sid tag counter timestamp
  rw [readWord_writeWord, readWord_writeWord_outside (by simp [tagOffset, sidOffset]),
    readWord_writeWord_outside (by simp [tagOffset, counterOffset]),
    readWord_writeWord_outside (by simp [tagOffset, timestampOffset])]

@[simp] theorem header_setCounter (memory : ByteMemory) (position value : Nat) :
    header (setCounter memory position value) position =
      { header memory position with counter := value % 2 ^ 32 } := by
  unfold header setCounter sid tag counter timestamp
  rw [readWord_writeWord,
    readWord_writeWord_outside (by simp [counterOffset, sidOffset]),
    readWord_writeWord_outside (by simp [counterOffset, tagOffset]),
    readWord_writeWord_outside (by simp [counterOffset, timestampOffset])]

theorem agreeOnFragment_writeWord {memory : ByteMemory} {fragment : Fragment}
    {offset value : Nat} (lower : sidOffset ≤ offset) (upper : offset ≤ timestampOffset) :
    AgreeOnFragment (memory.writeWord (fragment.position + offset) value) memory
      fragment := by
  simp only [sidOffset, timestampOffset] at lower upper
  exact ⟨writeWord_agreeOn (by simp only [sidOffset]; omega),
    writeWord_agreeOn (by simp only [dataOffset]; omega)⟩

/-! ## Packing -/

private theorem written_outside {memory : ByteMemory} {fragment : Fragment}
    {bytes : List UInt8} {value position : Nat}
    (fits : bytes.length = fragment.capacity)
    (outside : ¬Written fragment position) :
    setFlags (memory.write (fragment.position + dataOffset) bytes) fragment.position
      value position = memory position := by
  simp only [Written, Fragment.stop, capacityOffset, dataOffset, headerSize] at outside
  rw [setFlags, writeWord, write_outside (by simp [flagsOffset]; omega),
    write_outside (by simp only [dataOffset]; omega)]

private theorem written_flags (memory : ByteMemory) (fragment : Fragment)
    (bytes : List UInt8) (leads ends : Bool) :
    flags (setFlags (memory.write (fragment.position + dataOffset) bytes)
      fragment.position (chainFlags leads ends)) fragment.position =
        chainFlags leads ends := by
  rw [flags, setFlags, readWord_writeWord]
  cases leads <;> cases ends <;> rfl

private theorem written_capacity (memory : ByteMemory) (fragment : Fragment)
    (bytes : List UInt8) (value : Nat) :
    capacity (setFlags (memory.write (fragment.position + dataOffset) bytes)
      fragment.position value) fragment.position =
        capacity memory fragment.position := by
  rw [capacity, setFlags, readWord_writeWord_outside
      (by simp [flagsOffset, capacityOffset]),
    readWord_write_outside (by simp [capacityOffset, dataOffset]), capacity]

private theorem written_data {memory : ByteMemory} {fragment : Fragment}
    {bytes : List UInt8} {value : Nat} (fits : bytes.length = fragment.capacity) :
    (setFlags (memory.write (fragment.position + dataOffset) bytes)
      fragment.position value).read (fragment.position + dataOffset)
        fragment.capacity = bytes := by
  have unflagged : AgreeOn (setFlags (memory.write (fragment.position + dataOffset)
      bytes) fragment.position value) (memory.write (fragment.position + dataOffset)
      bytes) (fragment.position + dataOffset) fragment.stop :=
    writeWord_agreeOn (by simp [flagsOffset, dataOffset])
  rw [unflagged.read_eq (Nat.le_refl _) (Nat.le_refl _), ← fits, read_write_same]

theorem agreeOnFragment_of_written {left right : ByteMemory}
    (fragments : List Fragment) {other : Fragment}
    (unwritten : ∀ position, (∀ fragment ∈ fragments, ¬Written fragment position) →
      left position = right position)
    (apart : ∀ fragment ∈ fragments, Fragment.Apart other fragment) :
    AgreeOn left right other.position other.stop := by
  intro position lower upper
  apply unwritten
  intro fragment member written
  have disjoint := apart fragment member
  simp only [Fragment.Apart, Written, Fragment.stop, capacityOffset, dataOffset,
    headerSize] at *
  omega

private theorem PackedPart.behead {memory : ByteMemory} {ends : Bool} {fragment : Fragment}
    {rest : List Fragment} {payload : List UInt8}
    (packed : PackedPart memory true ends (fragment :: rest) payload)
    (apart : ∀ other ∈ rest, Fragment.Apart other fragment) :
    PackedPart (setFlags memory fragment.position
      (flags memory fragment.position &&& (2 ^ 32 - 1 - flgHead))) false ends
        (fragment :: rest) payload := by
  rcases packed with ⟨sized, flagged, fits, stored, later⟩
  have dataKept : AgreeOn (setFlags memory fragment.position
      (flags memory fragment.position &&& (2 ^ 32 - 1 - flgHead))) memory
      (fragment.position + dataOffset) fragment.stop :=
    writeWord_agreeOn (by simp [flagsOffset, dataOffset])
  refine ⟨?_, ?_, fits, ?_, later.of_agree ?_⟩
  · rw [← sized, capacity, setFlags, readWord_writeWord_outside
      (by simp [flagsOffset, capacityOffset]), capacity]
  · rw [flagged, flags, setFlags, readWord_writeWord]
    cases rest.isEmpty <;> cases ends <;> rfl
  · rw [dataKept.read_eq (Nat.le_refl _) (Nat.le_refl _), stored]
  · intro other member
    apply agreeOnFragment_of_agreeOn
    apply writeWord_agreeOn
    have disjoint := apart other member
    simp only [Fragment.Apart, Fragment.stop, headerSize, flagsOffset] at *
    omega

/-- Packing at least as many bytes as the chain has room for fills all fragments, with
`FLG_HEAD` on the first fragment only and `FLG_TAIL` on the last one only if no byte is
left, and changes nothing but flags and data of the fragments. -/
theorem pack_part {fragments : List Fragment} {memory : ByteMemory}
    {source : List UInt8} (nonempty : fragments ≠ [])
    (sized : Sized memory fragments) (apart : fragments.Pairwise Fragment.Apart)
    (positive : ∀ fragment ∈ fragments, 0 < fragment.capacity)
    (enough : room fragments ≤ source.length) :
    ∃ packedMemory,
      pack memory (fragments.map Fragment.position) source =
        (packedMemory, room fragments) ∧
      PackedPart packedMemory true (decide (source.length = room fragments)) fragments
        (source.take (room fragments)) ∧
      ∀ position, (∀ fragment ∈ fragments, ¬Written fragment position) →
        packedMemory position = memory position := by
  induction fragments generalizing memory source with
  | nil => exact absurd rfl nonempty
  | cons fragment rest induction =>
      have headSized := sized fragment List.mem_cons_self
      rw [room_cons] at enough ⊢
      have taken : (source.take fragment.capacity).length = fragment.capacity := by
        rw [List.length_take]
        omega
      cases rest with
      | nil =>
          rw [room_nil, Nat.add_zero] at enough ⊢
          have noneLeft : (source.take fragment.capacity).drop fragment.capacity = [] :=
            List.drop_eq_nil_of_le (Nat.le_of_eq taken)
          refine ⟨setFlags (memory.write (fragment.position + dataOffset)
            (source.take fragment.capacity)) fragment.position
            (chainFlags true (decide (source.length = fragment.capacity))), ?_,
            ⟨?_, ?_, Nat.le_of_eq taken.symm, ?_, noneLeft⟩, ?_⟩
          · rw [List.map_cons, List.map_nil, pack, headSized]
            by_cases exactly : source.length = fragment.capacity
            · rw [if_pos (Nat.le_of_eq exactly), List.take_of_length_le (Nat.le_of_eq exactly),
                decide_eq_true exactly, exactly]
              rfl
            · rw [if_neg (by omega), decide_eq_false exactly]
              rfl
          · rw [written_capacity, headSized]
          · exact written_flags _ _ _ true _
          · rw [List.take_take, Nat.min_self]
            exact written_data taken
          · intro position outside
            exact written_outside taken (outside fragment List.mem_cons_self)
      | cons next rest =>
          have parts := List.pairwise_cons.mp apart
          have nextParts := List.pairwise_cons.mp parts.2
          have nextPositive := positive next (by simp)
          rw [room_cons] at enough ⊢
          have kept : ∀ other ∈ next :: rest, AgreeOn
              (setFlags (memory.write (fragment.position + dataOffset)
                (source.take fragment.capacity)) fragment.position flgHead)
              memory other.position other.stop := by
            intro other member
            apply agreeOnFragment_of_written [fragment]
            · intro position outside
              exact written_outside taken (outside fragment (by simp))
            · intro only onlyMember
              rw [List.mem_singleton.mp onlyMember]
              exact (parts.1 other member).symm
          rcases @induction
            (setFlags (memory.write (fragment.position + dataOffset)
              (source.take fragment.capacity)) fragment.position flgHead)
            (source.drop fragment.capacity) (by simp)
            (fun other member =>
              (agreeOnFragment_of_agreeOn (kept other member)).capacity_eq.trans
                (sized other (List.mem_cons_of_mem _ member)))
            parts.2 (fun other member =>
              positive other (List.mem_cons_of_mem _ member))
            (by
              rw [List.length_drop, room_cons]
              omega) with ⟨tailMemory, tailPack, tailPacked, tailFrame⟩
          have beheaded := tailPacked.behead
            (fun other member => (nextParts.1 other member).symm)
          have frame : ∀ position,
              (∀ other ∈ next :: rest, ¬Written other position) →
              setFlags tailMemory next.position (flags tailMemory next.position &&&
                (2 ^ 32 - 1 - flgHead)) position =
              setFlags (memory.write (fragment.position + dataOffset)
                (source.take fragment.capacity)) fragment.position flgHead
                position := by
            intro position outside
            have nextOutside := outside next List.mem_cons_self
            simp only [Written, capacityOffset] at nextOutside
            rw [← tailFrame position outside]
            exact write_outside (by simp [flagsOffset]; omega)
          have headKept := agreeOnFragment_of_agreeOn
            (agreeOnFragment_of_written (next :: rest) frame parts.1)
          have sameEnd : decide ((source.drop fragment.capacity).length =
              room (next :: rest)) = decide (source.length =
                fragment.capacity + (next.capacity + room rest)) := by
            rw [List.length_drop, room_cons, decide_eq_decide]
            omega
          have samePart : (source.take (fragment.capacity + (next.capacity + room rest))).drop
              fragment.capacity = (source.drop fragment.capacity).take (room (next :: rest)) := by
            rw [List.drop_take, Nat.add_sub_cancel_left, room_cons]
          refine ⟨setFlags tailMemory next.position
            (flags tailMemory next.position &&& (2 ^ 32 - 1 - flgHead)), ?_,
            ⟨?_, ?_, ?_, ?_, ?_⟩, ?_⟩
          · rw [List.map_cons, List.map_cons, pack, headSized,
              if_neg (by omega : ¬source.length ≤ fragment.capacity)]
            rw [List.map_cons] at tailPack
            simp only [tailPack, room_cons]
          · rw [headKept.capacity_eq, written_capacity, headSized]
          · rw [headKept.flags_eq]
            exact written_flags _ _ _ true false
          · rw [List.length_take]
            omega
          · rw [headKept.data_eq, List.take_take, Nat.min_eq_left (Nat.le_add_right _ _)]
            exact written_data taken
          · rw [samePart, ← sameEnd]
            exact beheaded
          · intro position outside
            rw [frame position fun other member =>
              outside other (List.mem_cons_of_mem _ member)]
            exact written_outside taken (outside fragment List.mem_cons_self)

/-- Packing as many bytes as the chain has room for stores them all, with
`FLG_HEAD` on the first and `FLG_TAIL` on the last fragment only, and changes
nothing but flags and data of the fragments. -/
theorem pack_packed {fragments : List Fragment} {memory : ByteMemory}
    {source : List UInt8} (nonempty : fragments ≠ [])
    (sized : Sized memory fragments) (apart : fragments.Pairwise Fragment.Apart)
    (positive : ∀ fragment ∈ fragments, 0 < fragment.capacity)
    (exactly : source.length = room fragments) :
    ∃ packedMemory,
      pack memory (fragments.map Fragment.position) source =
        (packedMemory, source.length) ∧
      Packed packedMemory true fragments source ∧
      ∀ position, (∀ fragment ∈ fragments, ¬Written fragment position) →
        packedMemory position = memory position := by
  rcases pack_part nonempty sized apart positive (Nat.le_of_eq exactly.symm) with
    ⟨packedMemory, packs, packed, frame⟩
  rw [decide_eq_true exactly, List.take_of_length_le (Nat.le_of_eq exactly)] at packed
  exact ⟨packedMemory, exactly ▸ packs, packed_iff.mpr packed, frame⟩

/-- The headers of a chain carry its capacities, of at least one byte, and the fragments do
not share a byte. -/
structure Attached (memory : ByteMemory) (fragments : List Fragment) : Prop where
  nonempty : fragments ≠ []
  sized : Sized memory fragments
  apart : fragments.Pairwise Fragment.Apart
  positive : ∀ fragment ∈ fragments, 0 < fragment.capacity

/-- What a chain of messages is after a payload that it has no room to spare for has been
packed into it. -/
theorem pack_unpack {fragments : List Fragment} {memory : ByteMemory} {payload : List UInt8}
    (attached : Attached memory fragments) (enough : room fragments ≤ payload.length) :
    ∃ packed,
      pack memory (fragments.map Fragment.position) payload = (packed, room fragments) ∧
      (∀ index fragment, fragments[index]? = some fragment →
        flags packed fragment.position = chainFlags (decide (index = 0))
          (decide (index + 1 = fragments.length ∧ payload.length = room fragments))) ∧
      unpack packed (fragments.map Fragment.position) = payload.take (room fragments) ∧
      dataSize packed (fragments.map Fragment.position) = room fragments ∧
      totalSize packed (fragments.map Fragment.position) =
        room fragments + headerSize * fragments.length ∧
      ∀ position, (∀ fragment ∈ fragments, ¬Written fragment position) →
        packed position = memory position := by
  rcases pack_part attached.nonempty attached.sized attached.apart attached.positive enough with
    ⟨packed, packs, isPacked, frame⟩
  have taken : (payload.take (room fragments)).length = room fragments := by
    rw [List.length_take]
    omega
  refine ⟨packed, packs, ?_, isPacked.unpack_eq, isPacked.totalCapacity_eq.trans taken, ?_, frame⟩
  · intro index fragment found
    rw [isPacked.flags_eq found, Bool.and_true, Bool.decide_and]
  · rw [isPacked.totalSize_eq, taken]

/-- Two fragments of two bytes each take four bytes of a payload of five. -/
theorem pack_unpack_longer : ∃ packed,
    pack (make (make (fun _ => 0) 0 2 1 5) 30 2 1 5) [0, 30] [1, 2, 3, 4, 5] = (packed, 4) ∧
    flags packed 30 = 0 ∧ unpack packed [0, 30] = [1, 2, 3, 4] := by
  have attached : Attached (make (make (fun _ => 0) 0 2 1 5) 30 2 1 5) [⟨0, 2⟩, ⟨30, 2⟩] :=
    ⟨by decide, by decide, by decide, by decide⟩
  rcases @pack_unpack _ _ [1, 2, 3, 4, 5] attached (by decide) with
    ⟨packed, packs, flagged, unpacks, -⟩
  exact ⟨packed, packs, flagged 1 ⟨30, 2⟩ rfl, unpacks⟩

end Message

end Qbus
