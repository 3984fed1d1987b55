import Qbus.Queue.Window

/-! # The ring invariant

The queue memory stores the messages of the log from index `base` on. The
lemmas say what reading a message, making one and removing one does to a memory
with this invariant, and which bytes are left alone. -/

namespace Qbus

open ByteMemory Message Circular Placement Storage MachineWord

private theorem getElem?_append_self {log : List Entry} {entry : Entry} :
    (log ++ [entry])[log.length]? = some entry := by
  simp

/-- The queue memory stores the messages of `log` from `base` on, the message
with index `index` with `refs index` references. -/
structure Ring (memory : QueueMemory) (log : List Entry) (base : Nat)
    (refs : Nat → Nat) : Prop where
  positive : 0 < memory.capacity
  bounded : memory.capacity < 2 ^ 32
  baseLe : base ≤ log.length
  headEq : memory.head = start memory.capacity log base % memory.capacity
  tailEq : memory.tail = start memory.capacity log log.length % memory.capacity
  countEq : memory.count = log.length - base
  near : start memory.capacity log log.length ≤
    start memory.capacity log base + memory.capacity
  holds : ∀ index entry, base ≤ index → log[index]? = some entry →
    Holds memory.data memory.capacity (start memory.capacity log index) entry.payload
      (entry.header (refs index))

namespace Ring

variable {memory : QueueMemory} {log : List Entry} {base : Nat} {refs : Nat → Nat}
  {index : Nat} {entry : Entry}

theorem ordered (ring : Ring memory log base refs) :
    start memory.capacity log base ≤ start memory.capacity log log.length :=
  start_mono memory.capacity log ring.baseLe

theorem count_lt (ring : Ring memory log base refs) :
    log.length - base < 2 ^ 32 - 1 := by
  have spread := start_spread memory.capacity ring.baseLe
    (Nat.le_refl log.length)
  have near := ring.near
  have bounded := ring.bounded
  simp only [headerSize] at spread
  omega

theorem stored_between (_ring : Ring memory log base refs) (stored : base ≤ index)
    (found : log[index]? = some entry) :
    start memory.capacity log base ≤ start memory.capacity log index ∧
    start memory.capacity log index +
      extent memory.capacity (start memory.capacity log index) entry.size ≤
        start memory.capacity log log.length := by
  rcases List.getElem?_eq_some_iff.mp found with ⟨below, -⟩
  refine ⟨start_mono memory.capacity log stored, ?_⟩
  rw [← start_succ memory.capacity found]
  exact start_mono memory.capacity log below

theorem apart (ring : Ring memory log base refs) (stored : base ≤ index)
    (found : log[index]? = some entry) {other : Nat} {otherEntry : Entry}
    (otherStored : base ≤ other) (otherFound : log[other]? = some otherEntry)
    (different : other ≠ index) :
    start memory.capacity log (other + 1) ≤ start memory.capacity log index ∧
      start memory.capacity log index +
        extent memory.capacity (start memory.capacity log index) entry.size ≤
          start memory.capacity log other + memory.capacity ∨
    start memory.capacity log index +
        extent memory.capacity (start memory.capacity log index) entry.size ≤
          start memory.capacity log other ∧
      start memory.capacity log (other + 1) ≤
        start memory.capacity log index + memory.capacity := by
  have between := ring.stored_between stored found
  have otherBetween := ring.stored_between otherStored otherFound
  have near := ring.near
  have stop := start_succ memory.capacity found
  have otherStop := start_succ memory.capacity otherFound
  rcases Nat.lt_or_gt_of_ne different with before | behind
  · have ordered := start_mono memory.capacity log (Nat.succ_le_of_lt before)
    simp only [Nat.succ_eq_add_one] at ordered
    omega
  · have ordered := start_mono memory.capacity log (Nat.succ_le_of_lt behind)
    simp only [Nat.succ_eq_add_one] at ordered
    omega

theorem extent_le (ring : Ring memory log base refs) (stored : base ≤ index)
    (found : log[index]? = some entry) :
    extent memory.capacity (start memory.capacity log index) entry.size ≤
      memory.capacity := by
  have between := ring.stored_between stored found
  have near := ring.near
  omega

theorem refs_lt (ring : Ring memory log base refs) (stored : base ≤ index)
    (found : log[index]? = some entry) : refs index < 2 ^ 32 := by
  have headed := (ring.holds index entry stored found).headed
  have counted := congrArg Header.counter headed
  rw [Entry.header] at counted
  simp only at counted
  rw [← counted]
  exact readWord_lt _ _

theorem view (ring : Ring memory log base refs) (stored : base ≤ index)
    (found : log[index]? = some entry) :
    unpack memory.data (desc memory.capacity (start memory.capacity log index)
      entry.size).first = entry.payload ∧
    dataSize memory.data (desc memory.capacity (start memory.capacity log index)
      entry.size).first = entry.size ∧
    header memory.data (headerPlace memory.capacity
      (start memory.capacity log index) entry.size) = entry.header (refs index) := by
  have holds := ring.holds index entry stored found
  exact ⟨holds.packed.unpack_eq, holds.packed.totalCapacity_eq, holds.headed⟩

theorem setData (ring : Ring memory log base refs) {data : ByteMemory}
    (agrees : AgreeOnWindow data memory.data memory.capacity
      (start memory.capacity log base) (start memory.capacity log log.length)) :
    Ring (memory.setData data) log base refs where
  positive := ring.positive
  bounded := ring.bounded
  baseLe := ring.baseLe
  headEq := ring.headEq
  tailEq := ring.tailEq
  countEq := ring.countEq
  near := ring.near
  holds := by
    intro index entry stored found
    have between := ring.stored_between stored found
    exact (ring.holds index entry stored found).of_agree ring.positive entry.size_pos
      (ring.extent_le stored found) (agrees.mono between.1 between.2)

theorem setCounter (ring : Ring memory log base refs) (stored : base ≤ index)
    (found : log[index]? = some entry) {value : Nat} (small : value < 2 ^ 32) :
    Ring (memory.setData (Message.setCounter memory.data (headerPlace memory.capacity
      (start memory.capacity log index) entry.size) value)) log base
      (fun other => if other = index then value else refs other) where
  positive := ring.positive
  bounded := ring.bounded
  baseLe := ring.baseLe
  headEq := ring.headEq
  tailEq := ring.tailEq
  countEq := ring.countEq
  near := ring.near
  holds := by
    intro other otherEntry otherStored otherFound
    have holds := ring.holds other otherEntry otherStored otherFound
    have fits := ring.extent_le stored found
    by_cases same : other = index
    · subst same
      have same : entry = otherEntry := by
        rw [found] at otherFound
        exact Option.some.inj otherFound
      subst same
      have written := holds.setCounter value entry.size_pos fits
      rw [Nat.mod_eq_of_lt small] at written
      rw [if_pos rfl]
      exact written
    · rw [if_neg same]
      refine holds.of_agree ring.positive otherEntry.size_pos
        (ring.extent_le otherStored otherFound) ?_
      have separate := ring.apart stored found otherStored otherFound same
      rw [start_succ memory.capacity otherFound] at separate
      exact writeWord_agreeOnWindow ring.positive entry.size_pos fits
        (by simp [counterOffset, headerSize]) separate

theorem drop (ring : Ring memory log base refs) (found : log[base]? = some entry)
    {count : Nat} (countEq : count = log.length - (base + 1)) :
    Ring ((memory.setHead (desc memory.capacity (start memory.capacity log base)
      entry.size).second).setCount count) log (base + 1) refs where
  positive := ring.positive
  bounded := ring.bounded
  baseLe := (List.getElem?_eq_some_iff.mp found).1
  headEq := by
    have stop := desc_second_lt _ ring.positive ring.bounded entry.size_pos
      (ring.extent_le (Nat.le_refl _) found)
    change _ % 2 ^ 32 % memory.capacity = _
    rw [Nat.mod_eq_of_lt stop, desc_second_mod ring.positive,
      ← start_succ memory.capacity found]
    rfl
  tailEq := ring.tailEq
  countEq := by
    have small := ring.count_lt
    change count % 2 ^ 32 = _
    rw [countEq, Nat.mod_eq_of_lt (by omega)]
  near := by
    have ordered := start_le_succ memory.capacity log base
    have near := ring.near
    change start memory.capacity log _ ≤ start memory.capacity log _ + memory.capacity
    omega
  holds := fun index entry stored found =>
    ring.holds index entry (Nat.le_of_succ_le stored) found

theorem append (ring : Ring memory log base refs) {entry : Entry}
    (fits : Fits memory.capacity log base entry.size)
    (holds : Holds memory.data memory.capacity (start memory.capacity log log.length)
      entry.payload (entry.header (refs log.length))) :
    Ring ((memory.setTail (desc memory.capacity (start memory.capacity log log.length)
      entry.size).second).setCount (memory.count + 1)) (log ++ [entry]) base refs where
  positive := ring.positive
  bounded := ring.bounded
  baseLe := by
    have baseLe := ring.baseLe
    rw [List.length_append]
    omega
  headEq := by
    change memory.head = start memory.capacity (log ++ [entry]) base % memory.capacity
    rw [start_append ring.baseLe, ring.headEq]
  tailEq := by
    have ordered := ring.ordered
    have stop := desc_second_lt (start memory.capacity log log.length)
      ring.positive ring.bounded entry.size_pos (by unfold Fits at fits; omega)
    change _ % 2 ^ 32 % memory.capacity =
      start memory.capacity (log ++ [entry]) (log ++ [entry]).length % memory.capacity
    rw [Nat.mod_eq_of_lt stop, desc_second_mod ring.positive, List.length_append,
      List.length_singleton, start_succ memory.capacity getElem?_append_self,
      start_append (Nat.le_refl _)]
  countEq := by
    have countEq := ring.countEq
    have small := ring.count_lt
    have baseLe := ring.baseLe
    change (memory.count + 1) % 2 ^ 32 = _
    rw [List.length_append, List.length_singleton, Nat.mod_eq_of_lt (by omega)]
    omega
  near := by
    change start memory.capacity _ _ ≤ start memory.capacity _ _ + memory.capacity
    rw [List.length_append, List.length_singleton,
      start_succ memory.capacity getElem?_append_self, start_append (Nat.le_refl _), start_append ring.baseLe]
    exact fits
  holds := by
    intro index stored storedLe found
    change Holds memory.data memory.capacity
      (start memory.capacity (log ++ [entry]) index) _ _
    rcases List.getElem?_eq_some_iff.mp found with ⟨below, -⟩
    rw [List.length_append, List.length_singleton] at below
    rw [start_append (by omega)]
    rcases Nat.lt_or_ge index log.length with older | newest
    · rw [List.getElem?_append_left older] at found
      exact ring.holds index stored storedLe found
    · have same : index = log.length := by omega
      subst same
      have same : entry = stored := by simpa using found
      subst same
      exact holds

theorem count_eq_zero_iff (ring : Ring memory log base refs) :
    memory.count = 0 ↔
      start memory.capacity log base = start memory.capacity log log.length := by
  have spread := start_spread memory.capacity ring.baseLe (Nat.le_refl log.length)
  have baseLe := ring.baseLe
  rw [ring.countEq]
  simp only [headerSize] at spread
  constructor
  · intro isEmpty
    rw [show base = log.length by omega]
  · intro same
    omega

theorem spans (ring : Ring memory log base refs) :
    memory.Spans (start memory.capacity log base) (start memory.capacity log log.length) where
  positive := ring.positive
  bounded := ring.bounded
  headEq := ring.headEq
  tailEq := ring.tailEq
  ordered := ring.ordered
  near := ring.near
  drained := ring.count_eq_zero_iff

theorem read (ring : Ring memory log base refs) (stored : base ≤ index)
    (found : log[index]? = some entry) :
    staticGetMessage
      (memory.getBusyRegion (start memory.capacity log index % memory.capacity) false)
      memory.fuel memory.data =
        .ok (desc memory.capacity (start memory.capacity log index) entry.size) := by
  have between := ring.stored_between stored found
  exact ring.spans.read entry.nonempty (start_mono memory.capacity log stored) between.2
    (ring.holds index entry stored found).packed

theorem of_refs_eq {refs' : Nat → Nat} (ring : Ring memory log base refs)
    (same : ∀ index, base ≤ index → index < log.length → refs' index = refs index) :
    Ring memory log base refs' where
  positive := ring.positive
  bounded := ring.bounded
  baseLe := ring.baseLe
  headEq := ring.headEq
  tailEq := ring.tailEq
  countEq := ring.countEq
  near := ring.near
  holds := by
    intro index entry stored found
    rw [same index stored (List.getElem?_eq_some_iff.mp found).1]
    exact ring.holds index entry stored found

theorem link (ring : Ring memory log base refs) (entry : Entry) {tag : Nat}
    (fits : Fits memory.capacity log base entry.size) (tagged : entry.tag = tag % 2 ^ 32)
    (holds : Holds memory.data memory.capacity (start memory.capacity log log.length)
      entry.payload ⟨entry.sid, 0, refs log.length, entry.timestamp⟩) :
    Ring (((memory.setData (setTag memory.data (headerPlace memory.capacity
        (start memory.capacity log log.length) entry.size) tag)).setTail
      (desc memory.capacity (start memory.capacity log log.length) entry.size).second).setCount
        (memory.count + 1)) (log ++ [entry]) base refs := by
  have extentLe : extent memory.capacity (start memory.capacity log log.length)
      entry.size ≤ memory.capacity := by
    have ordered := ring.ordered
    unfold Fits at fits
    omega
  have tagWritten := holds.setTag tag entry.size_pos extentLe
  rw [← tagged] at tagWritten
  have apart : AgreeOnWindow (setTag memory.data (headerPlace memory.capacity
      (start memory.capacity log log.length) entry.size) tag) memory.data memory.capacity
      (start memory.capacity log base) (start memory.capacity log log.length) :=
    writeWord_agreeOnWindow ring.positive entry.size_pos extentLe
      (by simp [tagOffset, headerSize]) (.inl ⟨Nat.le_refl _, fits⟩)
  have kept := ring.setData apart
  exact kept.append fits tagWritten

theorem cleared {other : QueueMemory} (isCleared : memory = other.clear)
    (positive : 0 < other.capacity) (bounded : other.capacity < 2 ^ 32) :
    Ring memory [] 0 refs := by
  subst isCleared
  have zero : 0 % 2 ^ 32 % other.capacity = 0 := by simp
  exact {
    positive := positive
    bounded := bounded
    baseLe := Nat.le_refl _
    headEq := zero.trans (Nat.zero_mod _).symm
    tailEq := zero.trans (Nat.zero_mod _).symm
    countEq := Nat.zero_mod _
    near := Nat.le_add_right _ _
    holds := fun _ _ _ found => by simp at found }

theorem congr {other : QueueMemory} (ring : Ring memory log base refs)
    (capacity : other.capacity = memory.capacity) (head : other.head = memory.head)
    (tail : other.tail = memory.tail) (count : other.count = memory.count)
    (data : other.data = memory.data) : Ring other log base refs where
  positive := by rw [capacity]; exact ring.positive
  bounded := by rw [capacity]; exact ring.bounded
  baseLe := ring.baseLe
  headEq := by rw [capacity, head, ring.headEq]
  tailEq := by rw [capacity, tail, ring.tailEq]
  countEq := by rw [count, ring.countEq]
  near := by rw [capacity]; exact ring.near
  holds := by rw [capacity, data]; exact ring.holds

end Ring

end Qbus
