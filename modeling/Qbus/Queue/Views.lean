import Qbus.Foundation.Sections
import Qbus.Queue.Delivery
import Qbus.Queue.Frame

/-! # Reading while others pop

Objects that get or pop at the same time. A call loads every field and every byte at some time
while it runs, and in the meantime others decrement reference counters; the decrement itself
is atomic. What is loaded so never depends on when it is loaded. -/

namespace Qbus

open ByteMemory Message Circular Placement Storage MachineWord

structure QueueMemory.Torn (seen : List QueueMemory) (view : QueueMemory) : Prop where
  id : ∃ memory ∈ seen, view.id = memory.id
  capacity : ∃ memory ∈ seen, view.capacity = memory.capacity
  keepaliveTimeout : ∃ memory ∈ seen, view.keepaliveTimeout = memory.keepaliveTimeout
  count : ∃ memory ∈ seen, view.count = memory.count
  head : ∃ memory ∈ seen, view.head = memory.head
  tail : ∃ memory ∈ seen, view.tail = memory.tail
  subscriptionsCount : ∃ memory ∈ seen, view.subscriptionsCount = memory.subscriptionsCount
  counter : ∃ memory ∈ seen, view.counter = memory.counter
  freeSpace : ∃ memory ∈ seen, view.freeSpace = memory.freeSpace
  data : ∀ byte, ∃ memory ∈ seen, view.data byte = memory.data byte

/-! ## Calls on a view -/

namespace Queue

/-- `base_queue::get` of a class whose `get_message` changes nothing, where the loads return
what is in the view. -/
def getThrough (queue : Queue) (view : QueueMemory) : Outcome (Chain × Queue) := do
  let (chain, reader) ← (queue.setMemory view).get
  return (chain, reader.setMemory queue.memory)

/-- `base_queue::pop` of a class whose `get_message` changes nothing, where the loads return
what is in the view. The reference counter is decremented in the memory. -/
def popThrough (queue : Queue) (view : QueueMemory) : Outcome (Bool × Queue) := do
  let reader := queue.setMemory view
  if reader.count > 0 then
    let (desc, _) ←
      if queue.self.messageDesc.first = [] then
        reader.getMessage
      else
        pure (queue.self.messageDesc, reader)
    let queue ← queue.popMessage desc
    return (true, { queue with
      self := { queue.self with messageDesc := { desc with first := [] } } })
  else
    return (false, queue)

variable {queue : Queue}

theorem get_memory (plain : queue.self.type.Plain) {chain : Chain} {next : Queue}
    (gets : queue.get = .ok (chain, next)) : next.memory = queue.memory := by
  rw [Queue.get] at gets
  split at gets
  · rcases Outcome.returned gets with ⟨⟨message, read⟩, reads, later⟩
    have same := eq_of_getMessage plain reads
    subst same
    cases later
    rfl
  · cases gets
    rfl

theorem popMessage_fields (isShared : queue.self.type = .shared) {message : MessageDesc}
    {next : Queue} (pops : queue.popMessage message = .ok next) :
    next.memory = queue.memory.setData next.memory.data := by
  cases first : message.first with
  | nil =>
      rw [popMessage, first] at pops
      cases pops
  | cons position rest =>
      rw [popMessage, first] at pops
      simp only [isShared] at pops
      split at pops
      · cases pops
      · have same := Except.ok.inj pops
        subst same
        rfl

theorem pop_fields (isShared : queue.self.type = .shared) {removed : Bool} {next : Queue}
    (pops : queue.pop = .ok (removed, next)) :
    next.memory = queue.memory.setData next.memory.data := by
  rw [Queue.pop] at pops
  split at pops
  · have found : ∃ message, (queue.popMessage message >>= fun popped =>
        pure (true, { popped with
          self := { popped.self with messageDesc := { message with first := [] } } })) =
          .ok (removed, next) := by
      split at pops
      · rcases Outcome.returned pops with ⟨⟨message, read⟩, reads, later⟩
        have same := eq_of_getMessage (.inr isShared) reads
        subst same
        exact ⟨message, later⟩
      · exact ⟨queue.self.messageDesc, pops⟩
    rcases found with ⟨message, pops⟩
    rcases Outcome.returned pops with ⟨popped, removes, pops⟩
    have fields := popMessage_fields isShared removes
    cases pops
    exact fields
  · cases pops
    rfl

end Queue

def World.performThrough (world : World) (view : QueueMemory) :
    Action → Outcome (Result × World)
  | .get id => do
      let (chain, queue) ← (world.queue id).getThrough view
      return (.message (MessageView.ofChain view.data chain), world.update id queue)
  | .pop id => do
      let (removed, queue) ← (world.queue id).popThrough view
      return (.popped removed, world.update id queue)
  | _ => .error .assertion

/-! ## Views that differ in reference counters -/

namespace ByteMemory

theorem writeWord_readWord (memory other : ByteMemory) (address : Nat) {position : Nat}
    (lower : address ≤ position) (upper : position < address + 4) :
    memory.writeWord address (other.readWord address) position = other position := by
  have first := (other address).toNat_lt
  have second := (other (address + 1)).toNat_lt
  have third := (other (address + 2)).toNat_lt
  have fourth := (other (address + 3)).toNat_lt
  rcases Nat.exists_eq_add_of_le lower with ⟨offset, rfl⟩
  rw [writeWord, write_inside (by omega) (by rw [wordBytes_length]; omega)]
  apply UInt8.toNat_inj.mp
  have cases : offset = 0 ∨ offset = 1 ∨ offset = 2 ∨ offset = 3 := by omega
  rcases cases with rfl | rfl | rfl | rfl <;>
    simp only [wordBytes, readWord, Nat.add_sub_cancel_left, List.getElem_cons_zero,
      List.getElem_cons_succ, UInt8.toNat_ofNat', Nat.add_zero, Nat.sub_self] <;>
    omega

end ByteMemory

theorem Storage.Holds.of_agreeUpToCounter {memory other : ByteMemory} {capacity position : Nat}
    {payload : List UInt8} {header : Header}
    (holds : Holds memory capacity position payload header) (positive : 0 < capacity)
    (nonempty : 0 < payload.length)
    (fits : extent capacity position payload.length ≤ capacity)
    (agrees : ∀ byte,
      Covers capacity position (position + extent capacity position payload.length) byte →
      (byte < headerPlace capacity position payload.length + counterOffset ∨
        headerPlace capacity position payload.length + timestampOffset ≤ byte) →
      other byte = memory byte) :
    Holds other capacity position payload { header with
      counter := Message.counter other (headerPlace capacity position payload.length) } := by
  have small := readWord_lt other (headerPlace capacity position payload.length + counterOffset)
  have written := holds.setCounter
    (Message.counter other (headerPlace capacity position payload.length)) nonempty fits
  rw [Message.counter, Nat.mod_eq_of_lt small] at written
  apply written.of_agree positive nonempty fits
  intro byte covers
  by_cases inside : headerPlace capacity position payload.length + counterOffset ≤ byte ∧
      byte < headerPlace capacity position payload.length + counterOffset + 4
  · exact (ByteMemory.writeWord_readWord memory other _ inside.1 inside.2).symm
  · have outside : byte < headerPlace capacity position payload.length + counterOffset ∨
        headerPlace capacity position payload.length + counterOffset + 4 ≤ byte := by omega
    refine (agrees byte covers outside).trans (Eq.symm ?_)
    apply write_outside
    rw [wordBytes_length]
    exact outside

def shownRefs (data : ByteMemory) (capacity : Nat) (log : List Entry) (index : Nat) : Nat :=
  match log[index]? with
  | some entry => Message.counter data (headerPlace capacity (start capacity log index) entry.size)
  | none => 0

theorem Ring.of_agreeUpToCounters {memory : QueueMemory} {log : List Entry} {base : Nat}
    {refs : Nat → Nat} {data : ByteMemory} (ring : Ring memory log base refs)
    (agrees : AgreeUpToCounters data memory.data memory.capacity log base) :
    Ring (memory.setData data) log base (shownRefs data memory.capacity log) where
  positive := ring.positive
  bounded := ring.bounded
  baseLe := ring.baseLe
  headEq := ring.headEq
  tailEq := ring.tailEq
  countEq := ring.countEq
  near := ring.near
  holds := by
    intro index entry stored found
    have same := agrees index entry stored found
    rw [start_succ memory.capacity found] at same
    have shown : shownRefs data memory.capacity log index =
        Message.counter data (headerPlace memory.capacity (start memory.capacity log index)
          entry.size) := by
      rw [shownRefs, found]
    rw [shown]
    exact (ring.holds index entry stored found).of_agreeUpToCounter ring.positive entry.size_pos
      (ring.extent_le stored found) same

structure UpToCounters (ledger : Ledger Nat Entry) (memory other : QueueMemory) : Prop where
  fields : other = memory.setData other.data
  data : AgreeUpToCounters other.data memory.data memory.capacity ledger.log ledger.collected

namespace UpToCounters

variable {ledger after : Ledger Nat Entry} {memory other next view : QueueMemory}
  {seen : List QueueMemory}

theorem refl (memory : QueueMemory) : UpToCounters ledger memory memory := ⟨rfl, .refl _⟩

theorem of_torn (similar : ∀ old ∈ seen, UpToCounters ledger memory old)
    (torn : QueueMemory.Torn seen view) : UpToCounters ledger memory view := by
  have loaded : ∀ {Field : Type} (field : QueueMemory → Field),
      (∀ data, field (memory.setData data) = field memory) →
      (∃ old ∈ seen, field view = field old) → field view = field memory := by
    intro Field field kept isLoaded
    rcases isLoaded with ⟨old, isSeen, same⟩
    rw [same, (similar old isSeen).fields]
    exact kept old.data
  constructor
  · have id := loaded QueueMemory.id (fun _ => rfl) torn.id
    have capacity := loaded QueueMemory.capacity (fun _ => rfl) torn.capacity
    have timeout := loaded QueueMemory.keepaliveTimeout (fun _ => rfl) torn.keepaliveTimeout
    have count := loaded QueueMemory.count (fun _ => rfl) torn.count
    have head := loaded QueueMemory.head (fun _ => rfl) torn.head
    have tail := loaded QueueMemory.tail (fun _ => rfl) torn.tail
    have subscriptions := loaded QueueMemory.subscriptionsCount (fun _ => rfl)
      torn.subscriptionsCount
    have counter := loaded QueueMemory.counter (fun _ => rfl) torn.counter
    have space := loaded QueueMemory.freeSpace (fun _ => rfl) torn.freeSpace
    cases view
    simp only at id capacity timeout count head tail subscriptions counter space
    subst id capacity timeout count head tail subscriptions counter space
    rfl
  · intro index entry stored found byte covers outside
    rcases torn.data byte with ⟨old, isSeen, same⟩
    exact same.trans ((similar old isSeen).data index entry stored found byte covers outside)

theorem popped (similar : UpToCounters ledger memory other) (log : after.log = ledger.log)
    (collected : after.collected = ledger.collected) (fields : next = memory.setData next.data)
    (frame : AgreeUpToCounters next.data memory.data memory.capacity ledger.log
      ledger.collected) : UpToCounters after next other := by
  constructor
  · rw [fields]
    exact similar.fields
  · have capacity : next.capacity = memory.capacity := by
      rw [fields]
      rfl
    rw [capacity, log, collected]
    intro index entry stored found byte covers outside
    exact (similar.data index entry stored found byte covers outside).trans
      (frame index entry stored found byte covers outside).symm

end UpToCounters

namespace SharedWorld

variable {world : World} {ledger : Ledger Nat Entry} {id : Nat} {view : QueueMemory}

theorem baseGetMessage_view (shared : SharedWorld world ledger) (isMember : id ∈ ledger.members)
    (aligned : world.Aligned id) (similar : UpToCounters ledger world.memory view) {entry : Entry}
    (found : ledger.log[ledger.cursor id]? = some entry) :
    ((world.queue id).setMemory view).baseGetMessage = .ok (desc world.memory.capacity
      (start world.memory.capacity ledger.log (ledger.cursor id)) entry.size) := by
  have isShared : (world.queue id).self.type = .shared := (shared.mem_members.mp isMember).2
  have counted : (world.queue id).self.type ≠ .simple := by simp [isShared]
  have stored := shared.tracks.valid.cursorGe id isMember
  have below := (List.getElem?_eq_some_iff.mp found).1
  have countEq := shared.count_eq isMember
  have storedEq := shared.tracks.ring.countEq
  have ring := shared.tracks.ring.of_agreeUpToCounters similar.data
  have placed : (world.queue id).head = start world.memory.capacity ledger.log (ledger.cursor id) %
      world.memory.capacity := by
    apply Queue.head_eq counted shared.tracks (shared.follows id isMember)
    intro missing
    rcases aligned with none | privateHead | same
    · omega
    · exact absurd missing privateHead
    · omega
  have waiting : (world.queue id).empty = false := by
    rw [Queue.empty, decide_eq_false_iff_not]
    omega
  rw [similar.fields]
  exact Queue.baseGetMessage_eq ring stored found placed waiting

theorem count_view (id : Nat) (similar : UpToCounters ledger world.memory view) :
    ((world.queue id).setMemory view).count = (world.queue id).count := by
  rw [similar.fields]
  rfl

theorem performThrough_get (shared : SharedWorld world ledger) (aligned : world.Aligned id)
    (enabled : world.Enabled (.get id)) (similar : UpToCounters ledger world.memory view) :
    world.performThrough view (.get id) = world.perform (.get id) := by
  have isShared : (world.queue id).self.type = .shared :=
    (shared.types id enabled.1).resolve_right enabled.2
  have isMember := shared.mem_members.mpr ⟨enabled.1, isShared⟩
  have reader : ((world.queue id).setMemory view).self.type.Plain := .inr isShared
  have countEq := shared.count_eq isMember
  rw [World.performThrough, World.perform, Queue.getThrough, Queue.get, Queue.get,
    count_view id similar]
  cases found : ledger.log[ledger.cursor id]? with
  | none =>
      have beyond := List.getElem?_eq_none_iff.mp found
      rw [if_neg (by omega), if_neg (by omega)]
      rfl
  | some entry =>
      have below := (List.getElem?_eq_some_iff.mp found).1
      have stored := shared.tracks.valid.cursorGe id isMember
      have shown : MessageView.ofChain world.memory.data (desc world.memory.capacity
          (start world.memory.capacity ledger.log (ledger.cursor id)) entry.size).first =
            some entry.view := shared.tracks.ring.ofChain_eq stored found
      have seen : MessageView.ofChain view.data (desc world.memory.capacity
          (start world.memory.capacity ledger.log (ledger.cursor id)) entry.size).first =
            some entry.view :=
        (shared.tracks.ring.of_agreeUpToCounters similar.data).ofChain_eq stored found
      rw [if_pos (by omega), if_pos (by omega), Queue.getMessage_of_plain reader,
        Queue.getMessage_of_plain (.inr isShared), shared.baseGetMessage_eq isMember aligned found,
        shared.baseGetMessage_view isMember aligned similar found]
      have here : (world.queue id).memory.data = world.memory.data := rfl
      simp only [Bind.bind, Except.bind, pure, Except.pure, shown, seen, here]
      rfl

theorem performThrough_pop (shared : SharedWorld world ledger) (aligned : world.Aligned id)
    (enabled : world.Enabled (.pop id)) (similar : UpToCounters ledger world.memory view) :
    world.performThrough view (.pop id) = world.perform (.pop id) := by
  have isShared : (world.queue id).self.type = .shared :=
    (shared.types id enabled.1).resolve_right enabled.2
  have isMember := shared.mem_members.mpr ⟨enabled.1, isShared⟩
  have reader : ((world.queue id).setMemory view).self.type.Plain := .inr isShared
  have countEq := shared.count_eq isMember
  rw [World.performThrough, World.perform, Queue.popThrough, Queue.pop, count_view id similar]
  cases found : ledger.log[ledger.cursor id]? with
  | none =>
      have beyond := List.getElem?_eq_none_iff.mp found
      have read : ¬(world.queue id).count > 0 := by omega
      rw [if_neg read, if_neg read]
  | some entry =>
      have below := (List.getElem?_eq_some_iff.mp found).1
      have waiting : (world.queue id).count > 0 := by omega
      rw [if_pos waiting, if_pos waiting]
      by_cases missing : (world.queue id).self.messageDesc.first = []
      · rw [if_pos missing, if_pos missing, Queue.getMessage_of_plain reader,
          Queue.getMessage_of_plain (.inr isShared), shared.baseGetMessage_eq isMember aligned found,
          shared.baseGetMessage_view isMember aligned similar found]
        simp only [Bind.bind, Except.bind, pure, Except.pure]
      · rw [if_neg missing, if_neg missing]
        simp only [Bind.bind, Except.bind, pure, Except.pure]

end SharedWorld

end Qbus
