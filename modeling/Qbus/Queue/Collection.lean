import Qbus.Queue.Stored

/-! # Collecting messages

`clean_messages` removes the longest prefix of messages without references, for
any reference counters and any cursor of the object that collects. -/

namespace Qbus

open ByteMemory Message Circular Placement Storage MachineWord

namespace QueueMemory

/-- The number of messages without references in front of the first one with a
reference. -/
def garbage (memory : QueueMemory) : Nat :=
  (memory.references.takeWhile (· = 0)).length

def totalSize (memory : QueueMemory) (count : Nat) : Nat :=
  ((memory.stored.take count).map fun desc => Message.totalSize memory.data desc.first).sum

/-- The memory after the first `count` messages have been removed. -/
def removed (memory : QueueMemory) (count : Nat) : QueueMemory :=
  { memory with
    head := (memory.head :: memory.stored.map fun desc => desc.second % memory.capacity).getD
      count memory.tail
    count := memory.count - count }

theorem removed_zero (memory : QueueMemory) : memory.removed 0 = memory := by
  cases memory
  rfl

theorem garbage_nil {memory : QueueMemory} (none : memory.count = 0) : memory.garbage = 0 := by
  rw [garbage, references, stored, none]
  rfl

end QueueMemory

namespace Ring

variable {memory : QueueMemory} {log : List Entry} {base : Nat} {refs : Nat → Nat}
  {entry : Entry}

theorem stored_eq_cons (ring : Ring memory log base refs) (found : log[base]? = some entry)
    {count : Nat} (countEq : count = log.length - (base + 1)) :
    memory.stored = desc memory.capacity (start memory.capacity log base) entry.size ::
      ((memory.setHead (desc memory.capacity (start memory.capacity log base)
        entry.size).second).setCount count).stored := by
  apply List.ext_getElem?
  intro offset
  rw [ring.stored_getElem?]
  cases offset with
  | zero =>
      rw [Nat.add_zero, found]
      rfl
  | succ offset =>
      rw [List.getElem?_cons_succ, (ring.drop found countEq).stored_getElem?,
        Nat.add_right_comm base 1 offset]
      rfl

theorem removed_succ (ring : Ring memory log base refs) (found : log[base]? = some entry)
    {count : Nat} (countEq : count = log.length - (base + 1)) (more : Nat) :
    ((memory.setHead (desc memory.capacity (start memory.capacity log base)
      entry.size).second).setCount count).removed more = memory.removed (more + 1) := by
  have storedEq := ring.stored_eq_cons found countEq
  have allEq := ring.countEq
  have small := ring.count_lt
  have below := (List.getElem?_eq_some_iff.mp found).1
  have stop := desc_second_lt _ ring.positive ring.bounded entry.size_pos
    (ring.extent_le (Nat.le_refl _) found)
  have counted : count % 2 ^ 32 - more = memory.count - (more + 1) := by
    rw [countEq, allEq, Nat.mod_eq_of_lt (by omega)]
    omega
  rw [QueueMemory.removed, QueueMemory.removed, storedEq, List.map_cons, List.getD_cons_succ]
  simp only [QueueMemory.setCount, QueueMemory.setHead, counted, Nat.mod_eq_of_lt stop]

theorem references_eq_cons (ring : Ring memory log base refs) (found : log[base]? = some entry)
    {count : Nat} (countEq : count = log.length - (base + 1)) :
    memory.references = refs base ::
      ((memory.setHead (desc memory.capacity (start memory.capacity log base)
        entry.size).second).setCount count).references := by
  apply List.ext_getElem?
  intro offset
  rw [ring.references_getElem?]
  cases offset with
  | zero =>
      rw [Nat.add_zero, found]
      rfl
  | succ offset =>
      rw [List.getElem?_cons_succ, (ring.drop found countEq).references_getElem?,
        Nat.add_right_comm base 1 offset]
      rfl

theorem garbage_referenced (ring : Ring memory log base refs) (found : log[base]? = some entry)
    (referenced : 0 < refs base) : memory.garbage = 0 := by
  rw [QueueMemory.garbage, ring.references_eq_cons found rfl,
    List.takeWhile_cons_of_neg (by simpa using Nat.ne_of_gt referenced)]
  rfl

theorem garbage_unreferenced (ring : Ring memory log base refs)
    (found : log[base]? = some entry) (unreferenced : refs base = 0) {count : Nat}
    (countEq : count = log.length - (base + 1)) :
    memory.garbage = ((memory.setHead (desc memory.capacity (start memory.capacity log base)
      entry.size).second).setCount count).garbage + 1 := by
  rw [QueueMemory.garbage, ring.references_eq_cons found countEq,
    List.takeWhile_cons_of_pos (by simpa using unreferenced)]
  rfl

theorem totalSize_succ (ring : Ring memory log base refs) (found : log[base]? = some entry)
    {count : Nat} (countEq : count = log.length - (base + 1)) (more : Nat) :
    memory.totalSize (more + 1) =
      Message.totalSize memory.data
        (desc memory.capacity (start memory.capacity log base) entry.size).first +
      ((memory.setHead (desc memory.capacity (start memory.capacity log base)
        entry.size).second).setCount count).totalSize more := by
  rw [QueueMemory.totalSize, ring.stored_eq_cons found countEq, List.take_succ_cons,
    List.map_cons, List.sum_cons]
  rfl

theorem garbage_spec (ring : Ring memory log base refs) :
    base + memory.garbage ≤ log.length ∧
      (∀ index, base ≤ index → index < base + memory.garbage → refs index = 0) ∧
      (base + memory.garbage = log.length ∨ 0 < refs (base + memory.garbage)) := by
  induction remaining : log.length - base generalizing memory base with
  | zero =>
      have countEq := ring.countEq
      have baseLe := ring.baseLe
      rw [QueueMemory.garbage_nil (by omega)]
      exact ⟨by omega, fun index lower upper => absurd upper (by omega), .inl (by omega)⟩
  | succ remaining induction =>
      have below : base < log.length := by omega
      have found := List.getElem?_eq_getElem below
      by_cases referenced : 0 < refs base
      · rw [ring.garbage_referenced found referenced]
        exact ⟨by omega, fun index lower upper => absurd upper (by omega), .inr referenced⟩
      · have unreferenced := Nat.eq_zero_of_not_pos referenced
        rcases induction (ring.drop found rfl) (by omega) with ⟨inside, before, stops⟩
        rw [ring.garbage_unreferenced found unreferenced rfl, Nat.add_comm _ 1, ← Nat.add_assoc]
        refine ⟨inside, ?_, stops⟩
        intro index lower upper
        rcases Nat.eq_or_lt_of_le lower with same | later
        · rw [← same, unreferenced]
        · exact before index later upper

theorem removed (ring : Ring memory log base refs) {count : Nat}
    (inside : base + count ≤ log.length) : Ring (memory.removed count) log (base + count) refs := by
  induction count generalizing memory base with
  | zero =>
      rw [QueueMemory.removed_zero]
      exact ring
  | succ count induction =>
      have found := List.getElem?_eq_getElem (show base < log.length by omega)
      have dropped := induction (ring.drop found rfl) (by omega)
      rw [ring.removed_succ found rfl, Nat.add_assoc, Nat.add_comm 1 count] at dropped
      exact dropped

theorem garbage_removed (ring : Ring memory log base refs) :
    (memory.removed memory.garbage).garbage = 0 := by
  rcases ring.garbage_spec with ⟨inside, -, stops⟩
  have left := ring.removed inside
  rcases stops with all | referenced
  · apply QueueMemory.garbage_nil
    rw [left.countEq]
    omega
  · by_cases below : base + memory.garbage < log.length
    · exact left.garbage_referenced (List.getElem?_eq_getElem below) referenced
    · apply QueueMemory.garbage_nil
      rw [left.countEq]
      omega

end Ring

namespace Queue

variable {queue : Queue} {log : List Entry} {base : Nat} {refs : Nat → Nat}

theorem count_of_counted (counted : queue.self.type ≠ .simple) :
    queue.count = sub32 queue.memory.counter queue.self.counter := by
  rw [count]
  cases kind : queue.self.type <;> first | rfl | exact absurd kind counted

/-- The walker of `clean_messages` does not mistake the queue for an empty one. -/
def Walkable (queue : Queue) : Prop :=
  queue.memory.count = 0 ∨ queue.count ≠ 2 ^ 32 - 1

theorem cleanLoop_removed (counted : queue.self.type ≠ .simple)
    (ring : Ring queue.memory log base refs) (atHead : queue.self.head = sharedHead)
    (nonempty : sub32 queue.memory.counter queue.self.counter ≠ 0) {cnt : Nat}
    (remaining : cnt = log.length - base) (info : GarbageInfo) :
    cleanLoop cnt queue info =
      .ok (⟨info.first + queue.memory.garbage,
        info.second + queue.memory.totalSize queue.memory.garbage⟩,
        queue.setMemory (queue.memory.removed queue.memory.garbage)) := by
  induction cnt generalizing queue base info with
  | zero =>
      have countEq := ring.countEq
      rw [QueueMemory.garbage_nil (by omega), QueueMemory.removed_zero]
      rfl
  | succ cnt induction =>
      have found := List.getElem?_eq_getElem (show base < log.length by omega)
      have headed : queue.head = queue.memory.head := by
        rw [head]
        cases kind : queue.self.type <;> first | rfl | simp [atHead]
      have reads : queue.baseGetMessage = .ok (desc queue.memory.capacity
          (start queue.memory.capacity log base) (log[base]).size) := by
        apply Queue.baseGetMessage_eq ring (Nat.le_refl _) found
        · rw [headed, ring.headEq]
        · rw [empty, count_of_counted counted, decide_eq_false_iff_not]
          exact nonempty
      rcases desc_first queue.memory.capacity
        (start queue.memory.capacity log base) (log[base]).size with ⟨rest, first⟩
      have references : Message.counter queue.memory.data (headerPlace queue.memory.capacity
          (start queue.memory.capacity log base) (log[base]).size) = refs base :=
        congrArg Header.counter (ring.view (Nat.le_refl _) found).2.2
      rw [cleanLoop]
      simp only [reads, Bind.bind, Except.bind, first, references]
      by_cases referenced : refs base > 0
      · rw [if_pos referenced, ring.garbage_referenced found referenced,
          QueueMemory.removed_zero]
        rfl
      · have unreferenced := Nat.eq_zero_of_not_pos referenced
        have countEq : cnt = log.length - (base + 1) := by omega
        have dropped := ring.drop found countEq
        rw [if_neg referenced]
        have later := @induction (queue.setMemory ((queue.memory.setHead
          (desc queue.memory.capacity (start queue.memory.capacity log base)
            (log[base]).size).second).setCount cnt)) (base + 1) counted dropped atHead
          (by simpa using nonempty) countEq
          ⟨info.first + 1, info.second + Message.totalSize queue.memory.data
            (desc queue.memory.capacity (start queue.memory.capacity log base)
              (log[base]).size).first⟩
        rw [first] at later
        rw [later, ring.garbage_unreferenced found unreferenced countEq]
        simp only [setMemory_memory]
        rw [ring.removed_succ found countEq, ring.totalSize_succ found countEq, first,
          Nat.add_right_comm _ 1, Nat.add_assoc info.second]
        rfl

theorem Walkable.nonempty (walkable : queue.Walkable) (counted : queue.self.type ≠ .simple)
    (some : queue.memory.count ≠ 0) :
    sub32 queue.memory.counter (sub32 queue.self.counter 1) ≠ 0 := by
  have different := walkable.resolve_left some
  have small : sub32 queue.memory.counter queue.self.counter < 2 ^ 32 := sub32_lt _ _
  rw [count_of_counted counted] at different
  rw [sub32, sub32, sub_pred_mod (by decide), Nat.mod_eq_of_lt]
  · exact Nat.succ_ne_zero _
  · simp only [sub32] at small different
    omega

theorem baseCleanMessages_removed (counted : queue.self.type ≠ .simple)
    (ring : Ring queue.memory log base refs) (walkable : queue.Walkable) :
    queue.baseCleanMessages =
      .ok (⟨queue.memory.garbage, queue.memory.totalSize queue.memory.garbage⟩,
        queue.setMemory (queue.memory.removed queue.memory.garbage)) := by
  by_cases isEmpty : queue.memory.count = 0
  · rw [baseCleanMessages, if_neg (by omega), QueueMemory.garbage_nil isEmpty,
      QueueMemory.removed_zero]
    rfl
  · have loops := @cleanLoop_removed { queue with self := { queue.self with
      head := sharedHead
      counter := sub32 queue.self.counter 1 } } log base refs counted ring rfl
      (walkable.nonempty counted isEmpty) queue.memory.count ring.countEq ⟨0, 0⟩
    rw [baseCleanMessages, if_pos (Nat.pos_of_ne_zero isEmpty)]
    simp only [loops, Bind.bind, Except.bind, pure, Except.pure, Nat.zero_add]
    rfl

end Queue

end Qbus
