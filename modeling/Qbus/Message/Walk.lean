import Qbus.Message.Chain

/-! # Walks over regions

The loops of `static_make_message` and `static_get_message` ask for one region
after the other. The results of the loops are described here by the list of the
regions they are handed out, so that the arithmetic of the regions is left to
the queues. -/

namespace Qbus.Message

open ByteMemory

variable {freeRegion busyRegion : Option Region → Region}

inductive Regions (next : Option Region → Region) : Option Region → List Region → Prop
  | done {previous} : (next previous).second = 0 → Regions next previous []
  | step {previous region rest} : next previous = region → 0 < region.second →
      Regions next (some region) rest → Regions next previous (region :: rest)

/-- The fragments that a message of `size` bytes is cut into, and whether the
regions have room for all of it. -/
def cut : List Region → (size : Nat) → List Fragment × Bool
  | [], _ => ([], false)
  | region :: rest, size =>
      if region.second ≤ headerSize then
        cut rest size
      else if size ≤ region.second - headerSize then
        ([⟨region.first, size⟩], true)
      else
        let later := cut rest (size - (region.second - headerSize))
        (⟨region.first, region.second - headerSize⟩ :: later.1, later.2)

def makeAll (memory : ByteMemory) (sid now : Nat) : List Fragment → ByteMemory
  | [] => memory
  | fragment :: rest =>
      makeAll (make memory fragment.position fragment.capacity sid now) sid now rest

theorem exists_region_of_mem_cut {regions : List Region} {size : Nat}
    {fragment : Fragment} (member : fragment ∈ (cut regions size).1) :
    ∃ region ∈ regions, fragment.position = region.first ∧
      headerSize + fragment.capacity ≤ region.second := by
  induction regions generalizing size with
  | nil => simp [cut] at member
  | cons region rest induction =>
      unfold cut at member
      split at member
      · rcases induction member with ⟨found, foundMem, placed⟩
        exact ⟨found, List.mem_cons_of_mem _ foundMem, placed⟩
      · split at member
        · rw [List.mem_singleton.mp member]
          exact ⟨region, List.mem_cons_self, rfl, by simp only; omega⟩
        · rcases List.mem_cons.mp member with equal | later
          · rw [equal]
            exact ⟨region, List.mem_cons_self, rfl, by simp only; omega⟩
          · rcases induction later with ⟨found, foundMem, placed⟩
            exact ⟨found, List.mem_cons_of_mem _ foundMem, placed⟩

theorem room_cut {regions : List Region} {size : Nat}
    (complete : (cut regions size).2 = true) : room (cut regions size).1 = size := by
  induction regions generalizing size with
  | nil => simp [cut] at complete
  | cons region rest induction =>
      unfold cut at complete ⊢
      split
      · rename_i small
        rw [if_pos small] at complete
        exact induction complete
      · rename_i large
        rw [if_neg large] at complete
        split
        · simp
        · rename_i exceeds
          rw [if_neg exceeds] at complete
          rw [room_cons, induction complete]
          simp only
          omega

theorem cut_ne_nil {regions : List Region} {size : Nat}
    (complete : (cut regions size).2 = true) : (cut regions size).1 ≠ [] := by
  induction regions generalizing size with
  | nil => simp [cut] at complete
  | cons region rest induction =>
      unfold cut at complete ⊢
      split
      · rename_i small
        rw [if_pos small] at complete
        exact induction complete
      · split <;> simp

theorem cut_capacity_pos {regions : List Region} {size : Nat} (positive : 0 < size)
    {fragment : Fragment} (member : fragment ∈ (cut regions size).1) :
    0 < fragment.capacity := by
  induction regions generalizing size with
  | nil => simp [cut] at member
  | cons region rest induction =>
      unfold cut at member
      split at member
      · exact induction positive member
      · split at member
        · rw [List.mem_singleton.mp member]
          exact positive
        · rcases List.mem_cons.mp member with equal | later
          · rw [equal]
            simp only
            omega
          · exact induction (by omega) later

theorem makeFragments_eq (sid now : Nat) {previous : Option Region}
    {regions : List Region} (walk : Regions freeRegion previous regions) :
    ∀ (fuel size : Nat) (chain : Chain) (memory : ByteMemory),
      regions.length < fuel → 0 < size →
      ∃ region : Region,
        ((cut regions size).2 = true →
          ∃ fragment, (cut regions size).1.getLast? = some fragment ∧
            region.first = fragment.position) ∧
        makeFragments freeRegion sid now fuel previous size chain memory =
          .ok (if (cut regions size).2 then
              some (chain ++ (cut regions size).1.map Fragment.position, region)
            else none,
            makeAll memory sid now (cut regions size).1) := by
  induction walk with
  | @done previous ended =>
      intro fuel size chain memory enough positive
      have positive : ∃ before, fuel = before + 1 := ⟨fuel - 1, by omega⟩
      rcases positive with ⟨fuel, rfl⟩
      refine ⟨⟨0, 0⟩, by simp [cut], ?_⟩
      simp [makeFragments, ended, cut, makeAll]
  | @step previous region rest handedOut nonempty walk induction =>
      intro fuel size chain memory enough positive
      have positive : ∃ before, fuel = before + 1 := ⟨fuel - 1, by omega⟩
      rcases positive with ⟨fuel, rfl⟩
      rw [List.length_cons] at enough
      rw [makeFragments]
      simp only [handedOut]
      rw [if_neg (by omega : ¬region.second = 0)]
      by_cases small : region.second ≤ headerSize
      · rcases induction fuel size chain memory
          (by omega) positive with ⟨last, lastPlaced, result⟩
        refine ⟨last, ?_, ?_⟩
        · rw [cut, if_pos small]
          exact lastPlaced
        · rw [if_pos small, cut, if_pos small]
          exact result
      · rw [if_neg small]
        have capacity : staticCapacity region.second = region.second - headerSize := by
          rw [staticCapacity, if_pos (by omega)]
        by_cases fits : size ≤ region.second - headerSize
        · refine ⟨region, ?_, ?_⟩
          · rw [cut, if_neg small, if_pos fits]
            exact fun _ => ⟨_, rfl, rfl⟩
          · rw [capacity, Nat.min_eq_left fits, Nat.sub_self,
              if_neg (by omega : ¬0 > 0), cut, if_neg small, if_pos fits]
            simp [makeAll]
        · rcases induction fuel
            (size - (region.second - headerSize)) (chain ++ [region.first])
            (make memory region.first (region.second - headerSize) sid now)
            (by omega) (by omega) with ⟨last, lastPlaced, result⟩
          refine ⟨last, ?_, ?_⟩
          · rw [cut, if_neg small, if_neg fits]
            intro complete
            rcases lastPlaced complete with ⟨fragment, isLast, placed⟩
            exact ⟨fragment, by simp [List.getLast?_cons, isLast], placed⟩
          · rw [capacity, Nat.min_eq_right (by omega), if_pos (by omega), result,
              cut, if_neg small, if_neg fits]
            simp [makeAll, List.append_assoc]

inductive Walks (next : Option Region → Region) : Option Region → List Region → Prop
  | nil {previous} : Walks next previous []
  | cons {previous region rest} : next previous = region →
      Walks next (some region) rest → Walks next previous (region :: rest)

theorem makeFragments_congr {other : Option Region → Region} (sid now : Nat)
    {previous : Option Region} {regions : List Region}
    (walks : Walks freeRegion previous regions) (otherWalks : Walks other previous regions) :
    ∀ (fuel size : Nat) (chain : Chain) (memory : ByteMemory), (cut regions size).2 = true →
      makeFragments freeRegion sid now fuel previous size chain memory =
        makeFragments other sid now fuel previous size chain memory := by
  induction walks with
  | nil =>
      intro fuel size chain memory complete
      simp [cut] at complete
  | @cons previous region rest handedOut walks induction =>
      intro fuel size chain memory complete
      cases otherWalks with
      | cons otherHandedOut otherWalks =>
          cases fuel with
          | zero => rfl
          | succ fuel =>
              rw [makeFragments, makeFragments, handedOut, otherHandedOut]
              simp only
              rw [cut] at complete
              by_cases small : region.second ≤ headerSize
              · rw [if_pos small] at complete
                rw [if_pos small, if_pos small,
                  induction otherWalks fuel size chain memory complete]
              · have capacity : staticCapacity region.second = region.second - headerSize := by
                  rw [staticCapacity, if_pos (by omega)]
                rw [if_neg small] at complete
                rw [if_neg small, if_neg small, capacity]
                by_cases fits : size ≤ region.second - headerSize
                · rw [Nat.min_eq_left fits, Nat.sub_self, if_neg (by omega : ¬0 > 0),
                    if_neg (by omega : ¬0 > 0)]
                · rw [if_neg fits] at complete
                  rw [Nat.min_eq_right (by omega), induction otherWalks fuel _ _ _ complete]

theorem staticMakeMessage_congr {other : Option Region → Region} (fuel sid now : Nat)
    (memory : ByteMemory) {regions : List Region} {data : List UInt8}
    (walks : Walks freeRegion none regions) (otherWalks : Walks other none regions)
    (complete : (cut regions data.length).2 = true) :
    staticMakeMessage freeRegion fuel sid now memory data =
      staticMakeMessage other fuel sid now memory data := by
  rw [staticMakeMessage, staticMakeMessage,
    makeFragments_congr sid now walks otherWalks fuel data.length [] memory complete]

theorem cut_two_complete {first second : Region} {size : Nat} (positive : 0 < size) :
    (cut [first, second] size).2 = true ↔
      size ≤ staticCapacity first.second + staticCapacity second.second := by
  simp only [cut, staticCapacity]
  split_ifs <;> simp <;> omega

/-! ## The memory behind the writing loop -/

theorem make_outside {memory : ByteMemory} {fragment : Fragment} {sid now position : Nat}
    (outside : position < fragment.position ∨
      fragment.position + headerSize ≤ position) :
    make memory fragment.position fragment.capacity sid now position =
      memory position := by
  simp only [headerSize] at outside
  unfold make setTimestamp setSid setCapacity writeWord
  rw [write_outside (by simp [timestampOffset]; omega),
    write_outside (by simp [sidOffset]; omega),
    write_outside (by simp [capacityOffset]; omega),
    write_outside (by simp [headerSize]; omega)]

theorem capacity_make (memory : ByteMemory) (position capacity sid now : Nat) :
    Message.capacity (make memory position capacity sid now) position =
      capacity % 2 ^ 32 := by
  unfold make setTimestamp setSid Message.capacity
  rw [readWord_writeWord_outside (by simp [timestampOffset, capacityOffset]),
    readWord_writeWord_outside (by simp [sidOffset, capacityOffset]), setCapacity,
    readWord_writeWord]

theorem header_make (memory : ByteMemory) (position capacity sid now : Nat) :
    header (make memory position capacity sid now) position =
      ⟨sid % 2 ^ 32, 0, 0, now % 2 ^ 32⟩ := by
  have cleared : ∀ offset, offset + 4 ≤ headerSize →
      (memory.write position (List.replicate headerSize 0)).readWord
        (position + offset) = 0 := by
    intro offset fits
    have zero : ∀ index, index < headerSize →
        memory.write position (List.replicate headerSize 0) (position + index) = 0 := by
      intro index below
      rw [write_inside (by omega) (by rw [List.length_replicate]; omega)]
      exact List.getElem_replicate _
    unfold readWord
    rw [zero offset (by omega), Nat.add_assoc position offset 1,
      Nat.add_assoc position offset 2, Nat.add_assoc position offset 3,
      zero (offset + 1) (by omega), zero (offset + 2) (by omega),
      zero (offset + 3) (by omega)]
    rfl
  unfold header make setTimestamp setSid setCapacity Message.sid tag counter timestamp
  congr 1
  · rw [readWord_writeWord_outside (by simp [timestampOffset, sidOffset]),
      readWord_writeWord]
  · rw [readWord_writeWord_outside (by simp [timestampOffset, tagOffset]),
      readWord_writeWord_outside (by simp [sidOffset, tagOffset]),
      readWord_writeWord_outside (by simp [capacityOffset, tagOffset]),
      cleared tagOffset (by simp [tagOffset, headerSize])]
  · rw [readWord_writeWord_outside (by simp [timestampOffset, counterOffset]),
      readWord_writeWord_outside (by simp [sidOffset, counterOffset]),
      readWord_writeWord_outside (by simp [capacityOffset, counterOffset]),
      cleared counterOffset (by simp [counterOffset, headerSize])]
  · rw [readWord_writeWord]

theorem makeAll_outside {fragments : List Fragment} {memory : ByteMemory}
    {sid now position : Nat}
    (outside : ∀ fragment ∈ fragments, position < fragment.position ∨
      fragment.position + headerSize ≤ position) :
    makeAll memory sid now fragments position = memory position := by
  induction fragments generalizing memory with
  | nil => rfl
  | cons fragment rest induction =>
      rw [makeAll, induction fun other member =>
        outside other (List.mem_cons_of_mem _ member)]
      exact make_outside (outside fragment List.mem_cons_self)

theorem makeAll_agreeOn {fragments : List Fragment} {memory : ByteMemory}
    {sid now : Nat} {other : Fragment}
    (apart : ∀ fragment ∈ fragments, Fragment.Apart other fragment) :
    AgreeOn (makeAll memory sid now fragments) memory other.position other.stop := by
  intro position lower upper
  apply makeAll_outside
  intro fragment member
  have disjoint := apart fragment member
  simp only [Fragment.Apart, Fragment.stop] at *
  omega

theorem makeAll_sized (memory : ByteMemory) (sid now : Nat) {fragments : List Fragment}
    (apart : fragments.Pairwise Fragment.Apart)
    (bounded : ∀ fragment ∈ fragments, fragment.capacity < 2 ^ 32) :
    Sized (makeAll memory sid now fragments) fragments := by
  induction fragments generalizing memory with
  | nil => simp [Sized]
  | cons fragment rest induction =>
      have parts := List.pairwise_cons.mp apart
      intro other member
      rcases List.mem_cons.mp member with equal | later
      · rw [equal, makeAll,
          (agreeOnFragment_of_agreeOn (makeAll_agreeOn parts.1)).capacity_eq,
          capacity_make, Nat.mod_eq_of_lt (bounded fragment List.mem_cons_self)]
      · exact induction _ parts.2
          (fun another anotherMem => bounded another (List.mem_cons_of_mem _ anotherMem))
          other later

def DisjointRegions (left right : Region) : Prop :=
  left.first + left.second ≤ right.first ∨ right.first + right.second ≤ left.first

theorem cut_apart {regions : List Region} (size : Nat)
    (disjoint : regions.Pairwise DisjointRegions) :
    (cut regions size).1.Pairwise Fragment.Apart := by
  induction regions generalizing size with
  | nil => simp [cut]
  | cons region rest induction =>
      have parts := List.pairwise_cons.mp disjoint
      unfold cut
      split
      · exact induction _ parts.2
      · split
        · simp
        · refine List.pairwise_cons.mpr ⟨?_, induction _ parts.2⟩
          intro fragment member
          rcases exists_region_of_mem_cut member with ⟨other, otherMem, placed, inside⟩
          have separate := parts.1 other otherMem
          simp only [DisjointRegions, Fragment.Apart, Fragment.stop] at *
          omega

theorem header_makeAll (memory : ByteMemory) (sid now : Nat) {fragment : Fragment}
    {rest : List Fragment}
    (apart : ∀ other ∈ rest, Fragment.Apart fragment other) :
    header (makeAll memory sid now (fragment :: rest)) fragment.position =
      ⟨sid % 2 ^ 32, 0, 0, now % 2 ^ 32⟩ := by
  rw [makeAll, ← header_make memory fragment.position fragment.capacity sid now]
  exact header_eq_of_agreeOn ((makeAll_agreeOn apart).mono
    (by simp) (by simp [Fragment.stop, dataOffset, headerSize]))

def chainStop (fragments : List Fragment) : Nat :=
  (fragments.getLast?.map Fragment.stop).getD 0

def chainStart (fragments : List Fragment) : Nat :=
  (fragments.head?.map Fragment.position).getD 0

/-- What `static_make_message` leaves in memory: the fragments hold the payload
behind a fresh header. -/
structure Made (memory : ByteMemory) (fragments : List Fragment)
    (payload : List UInt8) (sid now : Nat) : Prop where
  packed : Packed memory true fragments payload
  headed : header memory (chainStart fragments) = ⟨sid % 2 ^ 32, 0, 0, now % 2 ^ 32⟩

/-- `static_make_message` either makes the message in the regions it is handed
out, or runs out of regions; it changes nothing outside of the fragments. -/
theorem staticMakeMessage_eq (sid now : Nat) (memory : ByteMemory)
    {regions : List Region} {fuel : Nat} {data : List UInt8}
    (walk : Regions freeRegion none regions) (enough : regions.length < fuel)
    (nonempty : data ≠ []) (disjoint : regions.Pairwise DisjointRegions)
    (bounded : ∀ region ∈ regions, region.first + region.second < 2 ^ 32) :
    ∃ made,
      staticMakeMessage freeRegion fuel sid now memory data =
        .ok (if (cut regions data.length).2 then
            ⟨(cut regions data.length).1.map Fragment.position,
              chainStop (cut regions data.length).1⟩
          else .none, made) ∧
      ((cut regions data.length).2 = true →
        Made made (cut regions data.length).1 data sid now) ∧
      ∀ position, (∀ fragment ∈ (cut regions data.length).1,
          position < fragment.position ∨ fragment.stop ≤ position) →
        made position = memory position := by
  have positive : 0 < data.length := List.length_pos_iff.mpr nonempty
  have apart := cut_apart data.length disjoint
  have inside : ∀ fragment ∈ (cut regions data.length).1, fragment.stop < 2 ^ 32 := by
    intro fragment member
    rcases exists_region_of_mem_cut member with ⟨region, regionMem, placed, fits⟩
    have bound := bounded region regionMem
    simp only [Fragment.stop]
    omega
  have sized := makeAll_sized memory sid now apart
    (fun fragment member => Nat.lt_of_le_of_lt
      (by simp only [Fragment.stop]; omega) (inside fragment member))
  rcases makeFragments_eq sid now
    walk fuel data.length [] memory enough positive with ⟨region, lastPlaced, looped⟩
  have unmade : ∀ position, (∀ fragment ∈ (cut regions data.length).1,
      position < fragment.position ∨ fragment.stop ≤ position) →
      makeAll memory sid now (cut regions data.length).1 position =
        memory position := by
    intro position outside
    apply makeAll_outside
    intro fragment member
    have away := outside fragment member
    simp only [Fragment.stop] at away
    omega
  cases complete : (cut regions data.length).2 with
  | false =>
      refine ⟨makeAll memory sid now (cut regions data.length).1, ?_, by simp, unmade⟩
      rw [staticMakeMessage, if_neg (by omega), looped, complete]
      rfl
  | true =>
      rcases pack_packed
        (cut_ne_nil complete) sized apart
        (fun fragment member => cut_capacity_pos positive member)
        (room_cut complete).symm with ⟨packedMemory, packs, packed, unwritten⟩
      rcases lastPlaced complete with ⟨fragment, isLast, placed⟩
      rcases List.getLast?_eq_some_iff.mp isLast with ⟨front, split⟩
      refine ⟨packedMemory, ?_, fun _ => ⟨packed, ?_⟩, ?_⟩
      · have ended : size packedMemory fragment.position =
            headerSize + fragment.capacity := by
          rw [size, staticSize, packed.capacity_eq (List.mem_of_getLast? isLast)]
        have stops : chainStop (cut regions data.length).1 = fragment.stop := by
          simp [chainStop, isLast]
        have bound := inside fragment (List.mem_of_getLast? isLast)
        have lastPosition : ((cut regions data.length).1.map
            Fragment.position).getLastD 0 = fragment.position := by
          simp [split]
        rw [staticMakeMessage, if_neg (by omega), looped, complete, stops]
        simp only [List.nil_append, if_true]
        simp only [Bind.bind, Except.bind, pure, Except.pure, packs, ne_eq,
          not_true_eq_false, if_false, lastPosition, placed, ended]
        rw [← Nat.add_assoc, show fragment.position + headerSize + fragment.capacity =
          fragment.stop from rfl, Nat.mod_eq_of_lt bound]
      · rcases List.exists_cons_of_ne_nil (cut_ne_nil complete) with ⟨first, rest, isCons⟩
        have start : chainStart (cut regions data.length).1 = first.position := by
          simp [chainStart, isCons]
        rw [start, ← header_makeAll memory sid now (List.pairwise_cons.mp (isCons ▸ apart)).1, ← isCons]
        apply header_eq_of_agreeOn
        intro position lower upper
        apply unwritten
        intro other member written
        rw [isCons] at member
        rcases List.mem_cons.mp member with equal | later
        · subst equal
          simp only [Written, capacityOffset, sidOffset] at *
          omega
        · have disjoint := (List.pairwise_cons.mp (isCons ▸ apart)).1 other later
          simp only [Written, Fragment.Apart, Fragment.stop, capacityOffset, sidOffset,
            dataOffset, headerSize] at *
          omega
      · intro position outside
        rw [unwritten position, unmade position outside]
        intro fragment member written
        have away := outside fragment member
        simp only [Written, Fragment.stop, capacityOffset, headerSize] at written away
        omega

/-! ## Reading -/

/-- The walk of the reader passes the fragments in chain order, skipping regions
that hold no more than a header; `count` is the number of regions visited. -/
inductive Visits (next : Option Region → Region) :
    Option Region → List Fragment → (count : Nat) → Prop
  | skip {previous fragments count} : 0 < (next previous).second →
      (next previous).second ≤ headerSize →
      Visits next (some (next previous)) fragments count →
      Visits next previous fragments (count + 1)
  | last {previous} {fragment : Fragment} :
      (next previous).first = fragment.position →
      headerSize < (next previous).second →
      Visits next previous [fragment] 1
  | more {previous} {fragment follower : Fragment} {rest count} :
      (next previous).first = fragment.position →
      headerSize < (next previous).second →
      Visits next (some (next previous)) (follower :: rest) count →
      Visits next previous (fragment :: follower :: rest) (count + 1)

theorem readFragments_eq {memory : ByteMemory} {previous : Option Region}
    {fragments : List Fragment} {count : Nat}
    (visits : Visits busyRegion previous fragments count) :
    ∀ (fuel : Nat) (chain : Chain) {leads : Bool} {payload : List UInt8},
      count ≤ fuel → (chain = [] → leads = true) →
      Packed memory leads fragments payload → chainStop fragments < 2 ^ 32 →
      readFragments busyRegion memory fuel previous chain =
        .ok ⟨chain ++ fragments.map Fragment.position, chainStop fragments⟩ := by
  induction visits with
  | @skip previous fragments count nonempty small visits induction =>
      intro fuel chain leads payload enough leading packed bounded
      have positive : ∃ before, fuel = before + 1 := ⟨fuel - 1, by omega⟩
      rcases positive with ⟨fuel, rfl⟩
      rw [readFragments]
      simp only
      rw [if_neg (by omega), if_pos small]
      exact induction fuel chain (by omega) leading packed bounded
  | @last previous fragment placed large =>
      intro fuel chain leads payload enough leading packed bounded
      have positive : ∃ before, fuel = before + 1 := ⟨fuel - 1, by omega⟩
      rcases positive with ⟨fuel, rfl⟩
      rcases packed with ⟨sized, flagged, -⟩
      have ended : chainFlags leads true &&& flgTail ≠ 0 := by
        cases leads <;> decide
      have begun : ¬(chain = [] ∧ chainFlags leads true &&& flgHead = 0) := by
        rintro ⟨isEmpty, notHead⟩
        rw [leading isEmpty] at notHead
        exact absurd notHead (by decide)
      have stops : chainStop [fragment] = fragment.stop := rfl
      rw [readFragments]
      simp only
      rw [if_neg (by omega), if_neg (by omega), placed, flagged, List.isEmpty_nil,
        if_neg begun, if_neg ended, size, sized, stops]
      rw [stops] at bounded
      have same : fragment.position + staticSize fragment.capacity = fragment.stop := by
        simp [Fragment.stop, staticSize, Nat.add_assoc]
      rw [same, Nat.mod_eq_of_lt bounded]
      rfl
  | @more previous fragment follower rest count placed large visits induction =>
      intro fuel chain leads payload enough leading packed bounded
      have positive : ∃ before, fuel = before + 1 := ⟨fuel - 1, by omega⟩
      rcases positive with ⟨fuel, rfl⟩
      rcases packed with ⟨-, flagged, -, -, later⟩
      have open' : chainFlags leads false &&& flgTail = 0 := by
        cases leads <;> decide
      have begun : ¬(chain = [] ∧ chainFlags leads false &&& flgHead = 0) := by
        rintro ⟨isEmpty, notHead⟩
        rw [leading isEmpty] at notHead
        exact absurd notHead (by decide)
      have stops : chainStop (fragment :: follower :: rest) =
          chainStop (follower :: rest) := by simp [chainStop]
      rw [stops] at bounded ⊢
      rw [readFragments]
      simp only
      rw [if_neg (by omega), if_neg (by omega), placed, flagged, List.isEmpty_cons,
        if_neg begun, if_pos open']
      have result := induction fuel (chain ++ [fragment.position])
        (by omega) (by simp) later bounded
      simpa [List.append_assoc] using result

end Qbus.Message
