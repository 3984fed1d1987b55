import Qbus.Queue.Space

/-! # Calls of smart queues

A smart queue skips the messages of its own process and the service messages when it
reads. All its objects are subscribers, and each of them has a private head. -/

namespace Qbus

open ByteMemory Message Circular Placement Storage MachineWord

/-- A message that a smart queue of the process `sid` returns: it comes from another
process and is no service message. -/
def Entry.Foreign (entry : Entry) (sid : Nat) : Prop :=
  entry.sid ≠ sid ∧ entry.tag ≠ ServiceMessage.tag

instance (entry : Entry) (sid : Nat) : Decidable (entry.Foreign sid) :=
  inferInstanceAs (Decidable (_ ∧ _))

namespace Queue

variable {metered : Prop} {queue next : Queue} {ledger after : Ledger Nat Entry} {member : Nat}

/-- The object of a member of the ledger, of a smart queue. If the free space is metered, it
is what the stored messages leave. -/
structure SmartMember (metered : Prop) (queue : Queue) (ledger : Ledger Nat Entry)
    (member : Nat) : Prop where
  smart : queue.self.type = .smart
  tracks : Tracks queue.memory ledger
  accounted : metered → Accounted queue.memory ledger.log ledger.collected
  isMember : member ∈ ledger.members
  follows : Follows queue.memory.capacity ledger.log queue.self (ledger.cursor member)
  placed : queue.self.head ≠ sharedHead
  subscribed : queue.memory.subscriptionsCount = ledger.members.card
  few : ledger.members.card < 2 ^ 32

namespace SmartMember

variable {entry : Entry}

theorem counted (reader : SmartMember metered queue ledger member) : queue.self.type ≠ .simple := by
  simp [reader.smart]

theorem inside (reader : SmartMember metered queue ledger member) :
    ledger.cursor member ≤ ledger.log.length :=
  reader.tracks.valid.cursorLe member reader.isMember

theorem stored (reader : SmartMember metered queue ledger member) :
    ledger.collected ≤ ledger.cursor member :=
  reader.tracks.valid.cursorGe member reader.isMember

theorem count_eq (reader : SmartMember metered queue ledger member) :
    queue.count = ledger.log.length - ledger.cursor member :=
  Queue.count_eq reader.counted reader.tracks reader.follows reader.stored reader.inside

theorem walkable (reader : SmartMember metered queue ledger member) : queue.Walkable :=
  member_walkable reader.counted reader.tracks reader.isMember reader.follows

theorem unread_lt (reader : SmartMember metered queue ledger member) :
    ledger.log.length - ledger.cursor member < 2 ^ 32 - 1 := by
  have small := reader.tracks.ring.count_lt
  have stored := reader.stored
  omega

theorem reads (reader : SmartMember metered queue ledger member)
    (found : ledger.log[ledger.cursor member]? = some entry) :
    queue.baseGetMessage = .ok (desc queue.memory.capacity
      (start queue.memory.capacity ledger.log (ledger.cursor member)) entry.size) :=
  baseGetMessage_of_follows reader.counted reader.tracks reader.follows reader.stored found
    fun missing => absurd missing reader.placed

theorem header_eq (reader : SmartMember metered queue ledger member)
    (found : ledger.log[ledger.cursor member]? = some entry) :
    header queue.memory.data (headerPlace queue.memory.capacity
      (start queue.memory.capacity ledger.log (ledger.cursor member)) entry.size) =
        entry.header (ledger.refs (ledger.cursor member)) :=
  (reader.tracks.ring.view reader.stored found).2.2

theorem of_acts (reader : SmartMember metered queue ledger member) {more : List Entry}
    (acts : Acts queue next ledger after member more)
    (accounted : metered → Accounted next.memory after.log after.collected)
    (follows : Follows next.memory.capacity after.log next.self (after.cursor member))
    (placed : next.self.head ≠ sharedHead) : SmartMember metered next after member where
  smart := acts.type_eq.trans reader.smart
  tracks := acts.tracks
  accounted := accounted
  isMember := by
    rw [acts.evolves.members]
    exact reader.isMember
  follows := follows
  placed := placed
  subscribed := by
    rw [acts.evolves.members]
    exact acts.settings.subscriptionsCount.trans reader.subscribed
  few := by
    rw [acts.evolves.members]
    exact reader.few

theorem pop (reader : SmartMember metered queue ledger member)
    (found : ledger.log[ledger.cursor member]? = some entry) :
    ∃ next,
      queue.popMessage (desc queue.memory.capacity (start queue.memory.capacity ledger.log
        (ledger.cursor member)) entry.size) = .ok next ∧
      Acts queue next ledger (ledger.advance member) member [] ∧
      SmartMember metered next (ledger.advance member) member := by
  rcases member_pop reader.counted reader.tracks reader.isMember reader.follows found with
    ⟨next, pops, acts, follows, placed, space⟩
  refine ⟨next, pops, acts, reader.of_acts acts ?_ ?_ placed⟩
  · exact fun isMetered => (reader.accounted isMetered).congr space acts.settings.capacity
  · rw [acts.settings.capacity]
    simpa [Ledger.advance] using follows

theorem cache (reader : SmartMember metered queue ledger member) (message : MessageDesc) :
    SmartMember metered { queue with self := { queue.self with messageDesc := message } }
      ledger member :=
  ⟨reader.smart, reader.tracks, reader.accounted, reader.isMember,
    reader.follows.of_cursor_eq rfl rfl, reader.placed, reader.subscribed, reader.few⟩

end SmartMember

/-! ## Reading -/

/-- Reading skips the messages up to `index`, which are own or service messages, and
returns the message there, or none behind the last one. -/
structure Skips (metered : Prop) (queue next : Queue) (ledger : Ledger Nat Entry) (member index : Nat)
    (message : MessageDesc) : Prop where
  acts : Acts queue next ledger (ledger.seek member index) member []
  reader : SmartMember metered next (ledger.seek member index) member
  lower : ledger.cursor member ≤ index
  skipped : ∀ other entry, ledger.cursor member ≤ other → other < index →
    ledger.log[other]? = some entry → ¬entry.Foreign queue.self.sid
  found : message = .none ∧ index = ledger.log.length ∨
    ∃ entry, ledger.log[index]? = some entry ∧ entry.Foreign queue.self.sid ∧
      message = desc queue.memory.capacity (start queue.memory.capacity ledger.log index)
        entry.size

theorem Skips.after_pop {popped : Queue} {index : Nat} {message : MessageDesc}
    (skips : Skips metered popped next (ledger.advance member) member index message)
    (acts : Acts queue popped ledger (ledger.advance member) member [])
    (unforeign : ∀ other entry, ledger.cursor member ≤ other → other < ledger.cursor member + 1 →
      ledger.log[other]? = some entry → ¬entry.Foreign queue.self.sid) :
    Skips metered queue next ledger member index message := by
  have cursor : (ledger.advance member).cursor member = ledger.cursor member + 1 := by
    simp [Ledger.advance]
  have lower := skips.lower
  have skipped := skips.skipped
  have found := skips.found
  rw [acts.sid_eq, acts.settings.capacity] at found
  rw [cursor] at lower skipped
  rw [acts.sid_eq] at skipped
  have whole := acts.trans skips.acts
  rw [Ledger.advance_seek] at whole
  refine ⟨whole, ?_, by omega, ?_, found⟩
  · rw [← Ledger.advance_seek]
    exact skips.reader
  · intro other entry otherLower upper foundOther
    rcases Nat.lt_or_ge other (ledger.cursor member + 1) with first | later
    · exact unforeign other entry otherLower first foundOther
    · exact skipped other entry later upper foundOther

namespace SmartMember

theorem smartGetMessage (reader : SmartMember metered queue ledger member)
    (unread : ledger.cursor member < ledger.log.length) {fuel : Nat}
    (enough : ledger.log.length - ledger.cursor member ≤ fuel) :
    ∃ index message next, queue.smartGetMessage fuel = .ok (message, next) ∧
      Skips metered queue next ledger member index message := by
  induction fuel generalizing queue ledger with
  | zero => omega
  | succ fuel induction =>
      have found := List.getElem?_eq_getElem unread
      have header := reader.header_eq found
      have sid : Message.sid queue.memory.data (headerPlace queue.memory.capacity
          (start queue.memory.capacity ledger.log (ledger.cursor member))
            (ledger.log[ledger.cursor member]).size) = (ledger.log[ledger.cursor member]).sid :=
        congrArg Header.sid header
      have tag : Message.tag queue.memory.data (headerPlace queue.memory.capacity
          (start queue.memory.capacity ledger.log (ledger.cursor member))
            (ledger.log[ledger.cursor member]).size) = (ledger.log[ledger.cursor member]).tag :=
        congrArg Header.tag header
      rcases desc_first queue.memory.capacity (start queue.memory.capacity ledger.log
        (ledger.cursor member)) (ledger.log[ledger.cursor member]).size with ⟨rest, first⟩
      rw [Queue.smartGetMessage]
      simp only [reader.reads found, Bind.bind, Except.bind, first, sid, tag]
      by_cases foreign : (ledger.log[ledger.cursor member]).sid ≠ queue.self.sid ∧
          (ledger.log[ledger.cursor member]).tag ≠ ServiceMessage.tag
      · refine ⟨ledger.cursor member, _, queue, if_pos foreign, ?_⟩
        refine ⟨?_, ?_, Nat.le_refl _, fun _ _ lower upper => by omega, .inr ⟨_, found, foreign,
          rfl⟩⟩
        · rw [Ledger.seek_cursor]
          exact .refl reader.tracks member
        · rw [Ledger.seek_cursor]
          exact reader
      · rcases reader.pop found with ⟨popped, pops, acts, moved⟩
        have cursor : (ledger.advance member).cursor member = ledger.cursor member + 1 := by
          simp [Ledger.advance]
        have countEq := moved.count_eq
        rw [cursor] at countEq
        have unforeign : ∀ other entry, ledger.cursor member ≤ other →
            other < ledger.cursor member + 1 → ledger.log[other]? = some entry →
            ¬entry.Foreign queue.self.sid := by
          intro other entry lower upper foundOther
          rw [show other = ledger.cursor member by omega, found] at foundOther
          cases foundOther
          exact foreign
        rw [if_neg foreign]
        simp only [pops]
        by_cases more : popped.count > 0
        · rw [if_pos more]
          have length : (ledger.advance member).log.length = ledger.log.length := rfl
          rcases induction moved (by omega) (by omega) with ⟨index, message, next, loops, skips⟩
          exact ⟨index, message, next, loops, skips.after_pop acts unforeign⟩
        · rw [if_neg more]
          have length : (ledger.advance member).log.length = ledger.log.length := rfl
          have whole : ledger.cursor member + 1 = ledger.log.length := by omega
          refine ⟨ledger.cursor member + 1, .none, popped, rfl, acts, moved, by omega, unforeign,
            .inl ⟨rfl, whole⟩⟩

end SmartMember

end Queue

end Qbus
