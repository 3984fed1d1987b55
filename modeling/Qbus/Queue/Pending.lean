import Qbus.Queue.ForcedRemoval
import Qbus.Queue.SmartService

/-! # Pending messages

The messages that a queue object can still get: those it returns when it gets and pops
until there is none left, and nobody else calls the queue. -/

namespace Qbus

open ByteMemory Message Circular Placement Storage MachineWord

structure StampedView where
  timestamp : Nat
  view : MessageView
deriving DecidableEq, Repr

def StampedView.ofChain (memory : ByteMemory) : Chain → Option StampedView
  | [] => none
  | position :: rest => (MessageView.ofChain memory (position :: rest)).map
      (.mk (Message.timestamp memory position))

theorem StampedView.timestamp_eq {memory : ByteMemory} {position : Nat} {rest : Chain}
    {seen : StampedView} (shown : ofChain memory (position :: rest) = some seen) :
    seen.timestamp = Message.timestamp memory position := by
  cases shown
  rfl

@[simp] theorem StampedView.map_ofChain (memory : ByteMemory) (chain : Chain) :
    (ofChain memory chain).map view = MessageView.ofChain memory chain := by
  cases chain <;> rfl

def Entry.stamped (entry : Entry) : StampedView := ⟨entry.timestamp, entry.view⟩

theorem Ring.ofStamped_eq {memory : QueueMemory} {log : List Entry} {base index : Nat}
    {refs : Nat → Nat} {entry : Entry} (ring : Ring memory log base refs)
    (stored : base ≤ index) (found : log[index]? = some entry) :
    StampedView.ofChain memory.data (desc memory.capacity
      (start memory.capacity log index) entry.size).first = some entry.stamped := by
  have shown := ring.ofChain_eq stored found
  have timed : timestamp memory.data (headerPlace memory.capacity
      (start memory.capacity log index) entry.size) = entry.timestamp :=
    congrArg Header.timestamp (ring.view stored found).2.2
  rcases desc_first memory.capacity (start memory.capacity log index)
    entry.size with ⟨rest, first⟩
  rw [first] at shown ⊢
  rw [StampedView.ofChain, shown, timed]
  rfl

namespace Queue

/-- What a caller sees when he gets and pops `fuel` times, or until there is no message. -/
def drain : (fuel : Nat) → Queue → List StampedView
  | 0, _ => []
  | fuel + 1, queue =>
      if queue.count > 0 then
        match queue.getMessage with
        | .error _ => []
        | .ok (desc, found) =>
            match StampedView.ofChain found.memory.data desc.first with
            | none => []
            | some seen =>
                seen :: match found.popMessage desc with
                  | .error _ => []
                  | .ok popped => drain fuel popped
      else []

/-- The messages that a queue object can still get, with their timestamps. -/
def stamped (queue : Queue) : List StampedView := queue.drain queue.count

/-- The messages that a queue object can still get. -/
def pending (queue : Queue) : List MessageView := queue.stamped.map StampedView.view

theorem pending_of_stamped {queue : Queue} {rest : List Entry}
    (stamped : queue.stamped = rest.map Entry.stamped) :
    queue.pending = rest.map Entry.view := by
  rw [pending, stamped, List.map_map]
  rfl

theorem drain_eq (Holds : Queue → List Entry → Prop)
    (ends : ∀ queue, Holds queue [] → 0 < queue.count →
      ∃ found, queue.getMessage = .ok (.none, found))
    (pops : ∀ queue entry rest, Holds queue (entry :: rest) → 0 < queue.count ∧
      ∃ desc found popped, queue.getMessage = .ok (desc, found) ∧
        StampedView.ofChain found.memory.data desc.first = some entry.stamped ∧
        found.popMessage desc = .ok popped ∧ Holds popped rest)
    {fuel : Nat} {queue : Queue} {rest : List Entry} (holds : Holds queue rest)
    (enough : rest.length ≤ fuel) : queue.drain fuel = rest.map Entry.stamped := by
  induction fuel generalizing queue rest with
  | zero =>
      cases List.eq_nil_of_length_eq_zero (Nat.le_zero.mp enough)
      rfl
  | succ fuel induction =>
      cases rest with
      | nil =>
          rw [drain]
          by_cases some : queue.count > 0
          · rcases ends queue holds some with ⟨found, gets⟩
            rw [if_pos some]
            simp only [gets, MessageDesc.none, StampedView.ofChain, List.map_nil]
          · rw [if_neg some]
            rfl
      | cons entry rest =>
          rcases pops queue entry rest holds with
            ⟨some, desc, found, popped, gets, shown, popsFound, later⟩
          rw [List.length_cons] at enough
          rw [drain, if_pos some]
          simp only [gets, shown, popsFound, List.map_cons, induction later (by omega)]

/-! ## Simple queues -/

theorem simple_stamped {queue : Queue} {log : List Entry} {base : Nat}
    (simple : queue.self.type = .simple) (ring : Ring queue.memory log base fun _ => 0) :
    queue.stamped = (log.drop base).map Entry.stamped := by
  have countOf : ∀ {queue : Queue} {base : Nat}, queue.self.type = .simple →
      (Ring queue.memory log base fun _ => 0) → queue.count = log.length - base := by
    intro queue base simple ring
    rw [count, simple]
    exact ring.countEq
  refine drain_eq (fun queue rest => ∃ base, queue.self.type = .simple ∧
    (Ring queue.memory log base fun _ => 0) ∧ rest = log.drop base) ?_ ?_
    ⟨base, simple, ring, rfl⟩ ?_
  · rintro queue ⟨base, simple, ring, isNil⟩ some
    have beyond := List.drop_eq_nil_iff.mp isNil.symm
    rw [countOf simple ring] at some
    omega
  · rintro queue entry rest ⟨base, simple, ring, isCons⟩
    have found : log[base]? = some entry := by
      rw [← List.head?_drop, ← isCons]
      rfl
    have below := (List.getElem?_eq_some_iff.mp found).1
    rcases simple_popMessage simple ring found with ⟨memory, pops, -, -, dropped⟩
    refine ⟨by rw [countOf simple ring]; omega, _, queue, queue.setMemory memory,
      simple_getMessage simple ring found, ring.ofStamped_eq (Nat.le_refl _) found, pops,
      base + 1, simple, dropped, ?_⟩
    rw [← List.tail_drop, ← isCons]
    rfl
  · rw [countOf simple ring, List.length_drop]

/-! ## Shared queues -/

variable {metered : Prop} {queue : Queue} {ledger : Ledger Nat Entry} {member : Nat}

/-- `queue` is the object of a member of a shared queue. When it has no private head, the
shared head is where its messages begin. -/
structure SharedReader (queue : Queue) (ledger : Ledger Nat Entry) (member : Nat) : Prop where
  shared : queue.self.type = .shared
  tracks : Tracks queue.memory ledger
  isMember : member ∈ ledger.members
  follows : Follows queue.memory.capacity ledger.log queue.self (ledger.cursor member)
  aligned : queue.self.head = sharedHead → ledger.cursor member < ledger.log.length →
    ledger.cursor member = ledger.collected

namespace SharedReader

theorem counted (reader : SharedReader queue ledger member) : queue.self.type ≠ .simple := by
  simp [reader.shared]

theorem stored (reader : SharedReader queue ledger member) :
    ledger.collected ≤ ledger.cursor member :=
  reader.tracks.valid.cursorGe member reader.isMember

theorem count_eq (reader : SharedReader queue ledger member) :
    queue.count = ledger.log.length - ledger.cursor member :=
  Queue.count_eq reader.counted reader.tracks reader.follows reader.stored
    (reader.tracks.valid.cursorLe member reader.isMember)

theorem getMessage (reader : SharedReader queue ledger member) {entry : Entry}
    (found : ledger.log[ledger.cursor member]? = some entry) :
    queue.getMessage = .ok (desc queue.memory.capacity (start queue.memory.capacity ledger.log
      (ledger.cursor member)) entry.size, queue) := by
  have below := (List.getElem?_eq_some_iff.mp found).1
  have reads := baseGetMessage_of_follows reader.counted reader.tracks reader.follows
    reader.stored found fun missing => reader.aligned missing below
  rw [Queue.getMessage, reader.shared]
  simp only [reads, Bind.bind, Except.bind, pure, Except.pure]

theorem pop (reader : SharedReader queue ledger member) {entry : Entry}
    (found : ledger.log[ledger.cursor member]? = some entry) :
    ∃ popped, queue.popMessage (desc queue.memory.capacity (start queue.memory.capacity
        ledger.log (ledger.cursor member)) entry.size) = .ok popped ∧
      Acts queue popped ledger (ledger.advance member) member [] ∧
      SharedReader popped (ledger.advance member) member := by
  rcases member_pop reader.counted reader.tracks reader.isMember reader.follows found with
    ⟨popped, pops, acts, moved, placed, -⟩
  have cursor : (ledger.advance member).cursor member = ledger.cursor member + 1 := by
    simp [Ledger.advance]
  refine ⟨popped, pops, acts, acts.type_eq.trans reader.shared, acts.tracks, reader.isMember, ?_,
    fun missing => absurd missing placed⟩
  rw [cursor, acts.settings.capacity]
  exact moved

theorem drop_eq (ledger : Ledger Nat Entry) (member : Nat) :
    (ledger.advance member).log.drop ((ledger.advance member).cursor member) =
      (ledger.log.drop (ledger.cursor member)).tail := by
  rw [List.tail_drop]
  simp [Ledger.advance]

theorem stamped_eq (reader : SharedReader queue ledger member) :
    queue.stamped = (ledger.log.drop (ledger.cursor member)).map Entry.stamped := by
  refine drain_eq (fun queue rest => ∃ ledger : Ledger Nat Entry,
    SharedReader queue ledger member ∧ rest = ledger.log.drop (ledger.cursor member)) ?_ ?_
    ⟨ledger, reader, rfl⟩ ?_
  · rintro queue ⟨ledger, reader, isNil⟩ some
    have beyond := List.drop_eq_nil_iff.mp isNil.symm
    rw [reader.count_eq] at some
    omega
  · rintro queue entry rest ⟨ledger, reader, isCons⟩
    have found : ledger.log[ledger.cursor member]? = some entry := by
      rw [← List.head?_drop, ← isCons]
      rfl
    have below := (List.getElem?_eq_some_iff.mp found).1
    rcases reader.pop found with ⟨popped, pops, acts, still⟩
    refine ⟨by rw [reader.count_eq]; omega, _, queue, popped, reader.getMessage found,
      reader.tracks.ring.ofStamped_eq reader.stored found, pops, ledger.advance member, still, ?_⟩
    rw [drop_eq, ← isCons]
    rfl
  · rw [reader.count_eq, List.length_drop]

end SharedReader

/-! ## Smart queues -/

theorem Skips.filter_eq {next : Queue} {index : Nat} {message : MessageDesc}
    (skips : Skips metered queue next ledger member index message) :
    (ledger.log.drop (ledger.cursor member)).filter (fun entry => entry.Foreign queue.self.sid) =
      (ledger.log.drop index).filter (fun entry => entry.Foreign queue.self.sid) := by
  have skipped := skips.skipped
  rcases Nat.exists_eq_add_of_le skips.lower with ⟨steps, rfl⟩
  clear skips
  induction steps with
  | zero => rfl
  | succ steps induction =>
      rw [induction fun other entry lower upper => skipped other entry lower (by omega)]
      cases found : ledger.log[ledger.cursor member + steps]? with
      | none =>
          have beyond := List.getElem?_eq_none_iff.mp found
          rw [List.drop_eq_nil_of_le beyond, List.drop_eq_nil_of_le (by omega)]
      | some entry =>
          have below := (List.getElem?_eq_some_iff.mp found).1
          have unforeign := skipped _ entry (by omega) (by omega) found
          rw [List.drop_eq_getElem_cons below, List.filter_cons_of_neg]
          · rfl
          · rw [(List.getElem?_eq_some_iff.mp found).2]
            simpa using unforeign

def foreign (ledger : Ledger Nat Entry) (member sid : Nat) : List Entry :=
  (ledger.log.drop (ledger.cursor member)).filter fun entry => entry.Foreign sid

theorem Skips.foreign_eq {next : Queue} {index : Nat} {message : MessageDesc}
    (skips : Skips metered queue next ledger member index message) :
    foreign ledger member queue.self.sid = match ledger.log[index]? with
      | none => []
      | some entry => entry :: foreign (ledger.seek member (index + 1)) member queue.self.sid := by
  rw [foreign, skips.filter_eq]
  rcases skips.found with ⟨-, rfl⟩ | ⟨entry, found, isForeign, -⟩
  · rw [List.getElem?_eq_none (Nat.le_refl _), List.drop_length]
    rfl
  · have below := (List.getElem?_eq_some_iff.mp found).1
    have isEntry := (List.getElem?_eq_some_iff.mp found).2
    rw [found, List.drop_eq_getElem_cons below, isEntry, List.filter_cons_of_pos (by
      simpa using isForeign), foreign, Ledger.seek_cursor_self]
    rfl

theorem Skips.shown {next : Queue} {index : Nat} {message : MessageDesc}
    (skips : Skips metered queue next ledger member index message) :
    StampedView.ofChain next.memory.data message.first =
      ledger.log[index]?.map Entry.stamped := by
  rcases skips.found with ⟨rfl, rfl⟩ | ⟨entry, found, -, rfl⟩
  · rw [List.getElem?_eq_none (Nat.le_refl _)]
    rfl
  · have shown := skips.reader.tracks.ring.ofStamped_eq skips.reader.stored
      (by rw [Ledger.seek_cursor_self]; exact found)
    rw [Ledger.seek_cursor_self, skips.acts.settings.capacity] at shown
    rw [found]
    exact shown

theorem SmartMember.stamped_eq (reader : SmartMember metered queue ledger member) :
    queue.stamped = (foreign ledger member queue.self.sid).map Entry.stamped := by
  refine drain_eq (fun current rest => ∃ ledger : Ledger Nat Entry,
    SmartMember metered current ledger member ∧ current.self.sid = queue.self.sid ∧
      rest = foreign ledger member queue.self.sid) ?_ ?_ ⟨ledger, reader, rfl, rfl⟩ ?_
  · rintro current ⟨ledger, reader, sameSid, isNil⟩ some
    rw [reader.count_eq] at some
    rcases reader.getMessage (by omega) with ⟨index, message, found, gets, skips⟩
    have rest := skips.foreign_eq
    rw [sameSid, ← isNil] at rest
    rcases skips.found with ⟨rfl, -⟩ | ⟨entry, foundEntry, -⟩
    · exact ⟨found, gets⟩
    · rw [foundEntry] at rest
      cases rest
  · rintro current entry rest ⟨ledger, reader, sameSid, isCons⟩
    have unread : ledger.cursor member < ledger.log.length := by
      refine Nat.lt_of_not_le fun read => ?_
      rw [foreign, List.drop_eq_nil_of_le read] at isCons
      cases isCons
    rcases reader.getMessage unread with ⟨index, message, found, gets, skips⟩
    have whole := skips.foreign_eq
    rw [sameSid, ← isCons] at whole
    rcases skips.found with ⟨-, rfl⟩ | ⟨other, foundOther, -, described⟩
    · rw [List.getElem?_eq_none (Nat.le_refl _)] at whole
      cases whole
    · rw [foundOther] at whole
      rcases List.cons.inj whole with ⟨rfl, isRest⟩
      rcases desc_first current.memory.capacity (start current.memory.capacity ledger.log index)
        entry.size with ⟨chain, first⟩
      rw [← described] at first
      rcases skips.popFound first with ⟨popped, pops, acts, still, -⟩
      refine ⟨by rw [reader.count_eq]; omega, message, found, popped, gets, ?_, pops,
        _, still, acts.sid_eq.trans sameSid, isRest⟩
      rw [skips.shown, foundOther]
      rfl
  · rw [reader.count_eq, foreign]
    exact (List.length_filter_le _ _).trans_eq List.length_drop

theorem SmartMember.pending_eq (reader : SmartMember metered queue ledger member) :
    queue.pending = (foreign ledger member queue.self.sid).map Entry.view :=
  pending_of_stamped reader.stamped_eq

end Queue

end Qbus
