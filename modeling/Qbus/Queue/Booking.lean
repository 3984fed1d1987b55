import Qbus.Queue.Mailboxes

/-! # Booked queues

A queue that is created with a parent queue begins with a booking message for each of the
other subscribers of the parent queue, and counts them as its own subscribers. An object that
opens the queue with the parent queue reads the booking messages and the service message
behind them, which the creator has pushed. -/

namespace Qbus

open ByteMemory Message Circular Placement Storage MachineWord

def Entry.Books (entry : Entry) : Prop :=
  entry.tag = ServiceMessage.tag ∧
    entry.payload.head entry.nonempty = ServiceMessage.Code.book.toByte

instance (entry : Entry) : Decidable entry.Books :=
  inferInstanceAs (Decidable (_ ∧ _))

/-- A log begins with `last` booking messages and the service message of the creator, and
nobody books later on. -/
structure Booked (log : List Entry) (last : Nat) : Prop where
  books : ∀ index entry, log[index]? = some entry → (entry.Books ↔ index < last)
  service : ∃ entry, log[last]? = some entry ∧ entry.tag = ServiceMessage.tag

theorem Booked.below {log : List Entry} {last : Nat} (isBooked : Booked log last) :
    last < log.length := by
  rcases isBooked.service with ⟨entry, found, -⟩
  exact (List.getElem?_eq_some_iff.mp found).1

theorem Booked.service_of_le {log : List Entry} {last index : Nat} {entry : Entry}
    (isBooked : Booked log last) (found : log[index]? = some entry) (inside : index ≤ last) :
    entry.tag = ServiceMessage.tag := by
  rcases Nat.lt_or_eq_of_le inside with before | same
  · exact ((isBooked.books index entry found).mpr before).1
  · rcases isBooked.service with ⟨other, isOther, service⟩
    rw [same, isOther] at found
    rw [← Option.some.inj found]
    exact service

def QueueMemory.bookings (memory : QueueMemory) : List Nat :=
  (memory.stored.filter fun desc =>
    Message.tag memory.data (desc.first.headD 0) = ServiceMessage.tag ∧
      ServiceMessage.code memory.data (desc.first.headD 0) =
        ServiceMessage.Code.book.toByte).map
    fun desc => Message.counter memory.data (desc.first.headD 0)

def World.openBooked (world : World) (parent : Queue) (id sid : Nat) : Outcome World := do
  let queue ← Queue.attachBooked world.memory sid (some parent) []
  return { world.update id queue with live := insert id world.live }

namespace Queue

variable {metered : Prop} {queue next : Queue} {ledger after : Ledger Nat Entry}
  {member last : Nat}

/-! ## Opening -/

/-- The object of a booked subscriber that reads its first messages. As long as it has no
private head, its messages begin at the shared head. -/
structure Opener (metered : Prop) (queue : Queue) (ledger : Ledger Nat Entry)
    (member : Nat) : Prop where
  smart : queue.self.type = .smart
  tracks : Tracks queue.memory ledger
  accounted : metered → Accounted queue.memory ledger.log ledger.collected
  isMember : member ∈ ledger.members
  follows : Follows queue.memory.capacity ledger.log queue.self (ledger.cursor member)
  aligned : queue.self.head = sharedHead → ledger.cursor member = ledger.collected

namespace Opener

theorem readBooks (opener : Opener metered queue ledger member) {fuel booked : Nat}
    (isBooked : Booked ledger.log last) (lower : ledger.cursor member ≤ last)
    (enough : last - ledger.cursor member < fuel) :
    ∃ next, queue.readBooks fuel booked = .ok (booked + (last - ledger.cursor member), next) ∧
      Acts queue next ledger (ledger.seek member (last + 1)) member [] ∧
      Leaver metered next (ledger.seek member (last + 1)) member := by
  induction fuel generalizing queue ledger booked with
  | zero => exact absurd enough (Nat.not_lt_zero _)
  | succ fuel induction =>
      have counted : queue.self.type ≠ .simple := by simp [opener.smart]
      have stored := opener.tracks.valid.cursorGe member opener.isMember
      have inside := opener.tracks.valid.cursorLe member opener.isMember
      have below := isBooked.below
      have countEq := Queue.count_eq counted opener.tracks opener.follows stored inside
      have isNext := List.getElem?_eq_getElem (show ledger.cursor member < ledger.log.length by omega)
      have reads := baseGetMessage_of_follows counted opener.tracks opener.follows stored isNext
        opener.aligned
      have header := (opener.tracks.ring.view stored isNext).2.2
      have code : ServiceMessage.code queue.memory.data (headerPlace queue.memory.capacity
          (start queue.memory.capacity ledger.log (ledger.cursor member))
            (ledger.log[ledger.cursor member]).size) =
          (ledger.log[ledger.cursor member]).payload.head
            (ledger.log[ledger.cursor member]).nonempty :=
        (opener.tracks.ring.holds _ _ stored isNext).code_eq _
      have tag : Message.tag queue.memory.data (headerPlace queue.memory.capacity
          (start queue.memory.capacity ledger.log (ledger.cursor member))
            (ledger.log[ledger.cursor member]).size) = (ledger.log[ledger.cursor member]).tag :=
        congrArg Header.tag header
      rcases desc_first queue.memory.capacity (start queue.memory.capacity ledger.log
        (ledger.cursor member)) (ledger.log[ledger.cursor member]).size with ⟨rest, first⟩
      rcases member_pop counted opener.tracks opener.isMember opener.follows isNext with
        ⟨popped, pops, acts, follows, placed, space⟩
      have moved : (ledger.advance member).cursor member = ledger.cursor member + 1 := by
        simp [Ledger.advance]
      have accounted : metered → Accounted popped.memory ledger.log ledger.collected :=
        fun isMetered => (opener.accounted isMetered).congr space acts.settings.capacity
      have movedFollows : Follows popped.memory.capacity ledger.log popped.self
          ((ledger.advance member).cursor member) := by
        rw [moved, acts.settings.capacity]
        exact follows
      rw [Queue.readBooks, if_pos (by omega)]
      simp only [reads, Bind.bind, Except.bind, first, pops, tag]
      rcases Nat.lt_or_eq_of_le lower with before | same
      · have isBook := (isBooked.books _ _ isNext).mpr before
        have still : Opener metered popped (ledger.advance member) member :=
          ⟨acts.type_eq.trans opener.smart, acts.tracks, accounted, opener.isMember, movedFollows,
            fun missing => absurd missing placed⟩
        rcases induction still isBooked (by omega) (by omega) with
          ⟨final, loops, laterActs, leaver⟩
        rw [Ledger.advance_seek] at laterActs leaver
        refine ⟨final, ?_, acts.trans laterActs, leaver⟩
        rw [if_neg (not_not_intro isBook.1)]
        simp only [pure, Except.pure]
        rw [if_neg (not_not_intro (code.trans isBook.2)), loops, moved]
        congr 2
        omega
      · subst same
        rcases isBooked.service with ⟨entry, isEntry, service⟩
        have stops := mt (isBooked.books _ _ isNext).mp (Nat.lt_irrefl _)
        rw [isNext] at isEntry
        rw [← Option.some.inj isEntry] at service
        refine ⟨popped, ?_, ?_, ?_⟩
        · rw [if_neg (not_not_intro service)]
          simp only [pure, Except.pure]
          rw [if_pos fun isBook => stops ⟨service, code.symm.trans isBook⟩, Nat.sub_self]
          rfl
        · rw [← Ledger.seek_advance, Ledger.seek_cursor]
          exact acts
        · rw [← Ledger.seek_advance, Ledger.seek_cursor]
          exact ⟨acts.type_eq.trans opener.smart, acts.tracks, accounted, opener.isMember,
            movedFollows, placed⟩

end Opener

def opening (memory : QueueMemory) (sid : Nat) : Queue where
  memory := memory
  self := { newHandle .smart sid memory.counter with counter := 0 }

theorem Opener.new {memory : QueueMemory} (tracks : Tracks memory ledger)
    (accounted : metered → Accounted memory ledger.log ledger.collected)
    (isMember : member ∈ ledger.members) (unread : ledger.cursor member = 0) (sid : Nat) :
    Opener metered (opening memory sid) ledger member := by
  have stored := tracks.valid.cursorGe member isMember
  refine ⟨rfl, tracks, accounted, isMember, ⟨?_, .inl rfl⟩, fun _ => ?_⟩
  · rw [unread]
    rfl
  · omega

theorem attachBooked_reads {memory : QueueMemory} {parent : Queue} {sid count : Nat}
    (isSmart : parent.self.type = .smart) (positive : 0 < count)
    (reads : readBooks (2 ^ 32) 0 (opening memory sid) = .ok (count, next)) (clock : List Nat) :
    attachBooked memory sid (some parent) clock = .ok next := by
  have unfolded : attachBooked memory sid (some parent) clock =
      if parent.self.type ≠ .smart then throw .assertion else
        readBooks (2 ^ 32) 0 (opening memory sid) >>= fun result =>
          if result.1 > 0 then pure result.2 else throw .assertion := rfl
  rw [unfolded, reads, if_neg (not_not_intro isSmart)]
  exact if_pos positive

theorem attachBooked_eq {memory : QueueMemory} {parent : Queue}
    (isSmart : parent.self.type = .smart) (tracks : Tracks memory ledger)
    (accounted : metered → Accounted memory ledger.log ledger.collected)
    (isMember : member ∈ ledger.members) (unread : ledger.cursor member = 0)
    (isBooked : Booked ledger.log last) (positive : 0 < last) (sid : Nat) (clock : List Nat) :
    ∃ next, attachBooked memory sid (some parent) clock = .ok next ∧
      Acts (opening memory sid) next ledger (ledger.seek member (last + 1)) member [] ∧
      Leaver metered next (ledger.seek member (last + 1)) member := by
  have stored := tracks.valid.cursorGe member isMember
  have small := tracks.ring.count_lt
  have below := isBooked.below
  have opener := Opener.new tracks accounted isMember unread sid
  have enough : last - ledger.cursor member < 2 ^ 32 := by omega
  rcases opener.readBooks isBooked (by omega) enough with ⟨next, reads, acts, leaver⟩
  exact ⟨next, attachBooked_reads isSmart (by omega) reads clock, acts, leaver⟩

/-! ## Creating -/

theorem fits_of_collected {capacity first later size : Nat} {log : List Entry}
    (fits : Fits capacity log first size) (ordered : first ≤ later) :
    Fits capacity log later size :=
  Nat.le_trans fits (Nat.add_le_add_right (start_mono capacity log ordered) capacity)

theorem extent_service {capacity position : Nat} (room : position + (headerSize + 1) ≤ capacity) :
    extent capacity position 1 = headerSize + 1 := by
  have till : tillEnd capacity position = capacity - position := by
    rw [tillEnd, Nat.mod_eq_of_lt (by omega)]
  rw [extent, till, if_neg (by omega), if_pos (by omega)]

theorem start_of_services {capacity : Nat} {log : List Entry}
    (sizes : ∀ entry ∈ log, entry.size = 1) {index : Nat} (inside : index ≤ log.length)
    (room : index * (headerSize + 1) ≤ capacity) :
    start capacity log index = index * (headerSize + 1) := by
  induction index with
  | zero => exact (Nat.zero_mul _).symm
  | succ index induction =>
      have found := List.getElem?_eq_getElem (show index < log.length by omega)
      have size := sizes _ (List.getElem_mem (show index < log.length by omega))
      rw [Nat.succ_mul] at room ⊢
      rw [start_succ capacity found, induction (by omega) (by omega), size, extent_service room]

theorem fits_of_services {capacity base : Nat} {log : List Entry}
    (sizes : ∀ entry ∈ log, entry.size = 1)
    (room : (log.length + 1) * (headerSize + 1) ≤ capacity) : Fits capacity log base 1 := by
  rw [Nat.succ_mul] at room
  have tail := start_of_services sizes (Nat.le_refl log.length) (Nat.le_of_add_right_le room)
  rw [Fits, tail, extent_service room]
  omega

namespace Newcomer

theorem push_fits (newcomer : Newcomer metered queue ledger member)
    (isSpecial : queue.self.state = .pushSpecialMessage) {payload : List UInt8}
    (nonempty : payload ≠ []) (tag now : Nat)
    (fits : Fits queue.memory.capacity ledger.log ledger.collected payload.length) :
    ∃ next, queue.push tag payload now = .ok (true, next) := by
  have counted : queue.self.type ≠ .simple := by simp [newcomer.smart]
  rcases cleanMessages_eq counted newcomer.tracks (.inr newcomer.walkable) with
    ⟨count, info, cleaned, cleans, -, collects, -⟩
  have self := queue.collector_of_ne count (by simp [newcomer.smart])
  rcases @exists_makes ⟨cleaned, queue.collector count⟩ _ _ _ collects.tracks.ring
    (.inr (by rw [self]; exact isSpecial)) _ nonempty now with ⟨made, makes⟩
  have still : Fits cleaned.capacity (ledger.collect count).log (ledger.collect count).collected
      payload.length := by
    rw [collects.settings.capacity]
    exact fits_of_collected fits (Nat.le_add_right _ _)
  simp only [still, decide_true] at makes
  rcases @doPush_of_makes _ _ counted _ _ _ cleans collects _ nonempty tag _ _ _ makes
    newcomer.subscribed newcomer.few with ⟨memory, result, -, -⟩
  exact ⟨_, push_accepted result⟩

theorem pushServiceMessage_returns (newcomer : Newcomer metered queue ledger member)
    (code : ServiceMessage.Code) {clock : List Nat} (some : clock ≠ [])
    (fits : Fits queue.memory.capacity ledger.log ledger.collected 1) :
    ∃ next, queue.pushServiceMessage code clock = .ok next := by
  rcases List.exists_cons_of_ne_nil some with ⟨now, rest, rfl⟩
  rcases newcomer.special.push_fits rfl (List.cons_ne_nil code.toByte []) ServiceMessage.tag now
    fits with ⟨pushed, pushes⟩
  rw [Queue.special] at pushes
  refine ⟨queue.restored pushed, ?_⟩
  rw [Queue.pushServiceMessage]
  simp only [pushes, Bind.bind, Except.bind, if_true]
  rfl

end Newcomer

/-- The object that creates a queue for booked subscribers, when it has pushed some of the
booking messages. -/
structure Booker (booked : Finset Nat) (pushed : Nat) (queue : Queue) (ledger : Ledger Nat Entry)
    (member : Nat) : Prop where
  newcomer : Newcomer False queue ledger member
  members : ledger.members = booked
  cursor : ledger.cursor = fun _ => 0
  unleaked : ledger.leaked = fun _ => 0
  length : ledger.log.length = pushed
  books : ∀ entry ∈ ledger.log, entry.Books ∧ entry.size = 1
  noTimeout : queue.memory.keepaliveTimeout = 0
  counter : queue.self.counter = 0

namespace Booker

variable {booked : Finset Nat} {pushed : Nat}

theorem fits (booker : Booker booked pushed queue ledger member)
    (room : (pushed + 1) * (headerSize + 1) ≤ queue.memory.capacity) :
    Fits queue.memory.capacity ledger.log ledger.collected 1 :=
  fits_of_services (fun entry member => (booker.books entry member).2)
    (by rw [booker.length]; exact room)

theorem push (booker : Booker booked pushed queue ledger member) (some : booked.Nonempty)
    {clock : List Nat} (attempts : clock ≠ [])
    (room : (pushed + 1) * (headerSize + 1) ≤ queue.memory.capacity) :
    ∃ next after, queue.pushServiceMessage .book clock = .ok next ∧
      Booker booked (pushed + 1) next after member ∧ next.self = queue.self ∧
      next.memory.capacity = queue.memory.capacity := by
  rcases booker.newcomer.pushServiceMessage_returns .book attempts (booker.fits room) with
    ⟨next, pushes⟩
  rcases booker.newcomer.pushServiceMessage pushes with ⟨now, after, acts, -, cursor, self⟩
  have members := acts.evolves.members
  have smart : next.self.type = .smart := acts.type_eq.trans booker.newcomer.smart
  have stored : after.collected = 0 := by
    rcases some with ⟨other, isBooked⟩
    have bound := acts.tracks.valid.cursorGe other (by rw [members, booker.members]; exact isBooked)
    rw [cursor, booker.cursor] at bound
    exact Nat.le_zero.mp bound
  have few := acts.tracks.ring.count_lt
  rw [stored, Nat.sub_zero] at few
  have counted : next.count = after.log.length := by
    rw [count_of_counted (by simp [smart]), acts.tracks.counter, self, booker.counter,
      Nat.mod_eq_of_lt (by omega), sub32_of_le (Nat.zero_le _) (by omega), Nat.sub_zero]
  refine ⟨next, after, pushes, ⟨⟨smart, acts.tracks, False.elim, ?_, ?_, .inr ?_, ?_, ?_⟩,
    members.trans booker.members, cursor.trans booker.cursor,
    acts.evolves.leaked.trans booker.unleaked, ?_, ?_, ?_, ?_⟩, self, acts.settings.capacity⟩
  · rw [members]
    exact booker.newcomer.notMember
  · rw [counted]
    omega
  · exact acts.settings.keepaliveTimeout.trans booker.noTimeout
  · rw [members]
    exact acts.settings.subscriptionsCount.trans booker.newcomer.subscribed
  · rw [members]
    exact booker.newcomer.few
  · rw [acts.evolves.log, List.length_append, booker.length]
    rfl
  · intro entry isEntry
    rw [acts.evolves.log, List.mem_append, List.mem_singleton] at isEntry
    rcases isEntry with older | rfl
    · exact booker.books entry older
    · exact ⟨⟨rfl, rfl⟩, rfl⟩
  · exact acts.settings.keepaliveTimeout.trans booker.noTimeout
  · rw [self]
    exact booker.counter

theorem pushBooks (booker : Booker booked pushed queue ledger member) {count : Nat}
    (some : 0 < count → booked.Nonempty) {clock : Nat → List Nat}
    (attempts : ∀ index, clock index ≠ [])
    (room : (pushed + count) * (headerSize + 1) ≤ queue.memory.capacity) :
    ∃ next after, queue.pushBooks clock count = .ok next ∧
      Booker booked (pushed + count) next after member ∧ next.self = queue.self ∧
      next.memory.capacity = queue.memory.capacity := by
  induction count generalizing queue ledger pushed with
  | zero => exact ⟨queue, ledger, rfl, booker, rfl, rfl⟩
  | succ count induction =>
      have nonempty := some (Nat.succ_pos count)
      have less : (pushed + 1) * (headerSize + 1) ≤ (pushed + (count + 1)) * (headerSize + 1) :=
        Nat.mul_le_mul_right _ (by omega)
      rcases booker.push nonempty (attempts count) (less.trans room) with
        ⟨middle, during, pushes, still, self, capacity⟩
      rw [← Nat.add_assoc, Nat.add_right_comm, ← capacity] at room
      rcases induction still (fun _ => nonempty) room with
        ⟨next, after, rest, all, sameSelf, sameCapacity⟩
      rw [← Nat.add_assoc, Nat.add_right_comm]
      refine ⟨next, after, ?_, all, sameSelf.trans self, sameCapacity.trans capacity⟩
      rw [Queue.pushBooks]
      simp only [pushes, Bind.bind, Except.bind]
      exact rest

theorem constructed (raw : QueueMemory) (qid sid : Nat) {capacity : Nat} (positive : 0 < capacity)
    (bounded : capacity < 2 ^ 32) (notMember : member ∉ booked) (few : booked.card < 2 ^ 32) :
    Booker booked 0 ⟨raw.constructed qid capacity booked.card raw.freeSpace,
      newHandle .smart sid 0⟩ (Ledger.empty booked) member :=
  ⟨.constructed raw qid sid positive bounded notMember few False.elim, rfl, rfl, rfl, rfl,
    fun _ isEntry => absurd isEntry List.not_mem_nil, rfl, rfl⟩

theorem booked_log (booker : Booker booked pushed queue ledger member) (now : Nat) :
    Booked (ledger.log ++ [queue.serviceEntry .connect now]) pushed := by
  have length := booker.length
  constructor
  · intro index entry found
    rcases Nat.lt_or_ge index ledger.log.length with older | newer
    · rw [List.getElem?_append_left older] at found
      exact iff_of_true (booker.books entry (List.mem_of_getElem? found)).1 (by omega)
    · rw [List.getElem?_append_right newer] at found
      rw [List.mem_singleton.mp (List.mem_of_getElem? found)]
      refine iff_of_false ?_ (by omega)
      rintro ⟨-, books⟩
      cases books
  · refine ⟨queue.serviceEntry .connect now, ?_, rfl⟩
    rw [← length]
    exact List.getElem?_concat_length

end Booker

theorem createBooked_eq (raw : QueueMemory) (qid capacity sid : Nat) {parent : Queue}
    {count : Nat} (isSmart : parent.self.type = .smart)
    (subscribed : parent.memory.subscriptionsCount = count + 1) (few : count < 2 ^ 32)
    (bookClock : Nat → List Nat) (clock : List Nat) :
    createBooked raw qid capacity sid (some parent) bookClock clock =
      pushBooks bookClock count ⟨raw.constructed qid capacity count raw.freeSpace,
        newHandle .smart sid 0⟩ >>= fun queue => initializeQueue queue clock := by
  have unfolded : createBooked raw qid capacity sid (some parent) bookClock clock =
      if parent.self.type ≠ .smart then throw .assertion else
        if parent.memory.subscriptionsCount > 1 then
          pushBooks bookClock (parent.memory.subscriptionsCount - 1) ⟨raw.constructed qid capacity
            ((parent.memory.subscriptionsCount - 1) % 2 ^ 32) raw.freeSpace,
              newHandle .smart sid 0⟩ >>= fun queue => initializeQueue queue clock
        else
          initializeQueue ⟨raw.constructed qid capacity 0 raw.freeSpace,
            newHandle .smart sid 0⟩ clock := rfl
  rw [unfolded, if_neg (not_not_intro isSmart), subscribed, Nat.add_sub_cancel]
  cases count with
  | zero => rfl
  | succ count => rw [if_pos (by omega), Nat.mod_eq_of_lt few]

end Queue

namespace SmartWorld

variable {metered : Prop} {booked : Finset Nat} {world : World} {ledger : Ledger Nat Entry}
  {id last : Nat}

theorem seeks_books (smart : SmartWorld metered booked world ledger) (member : id ∈ booked)
    (isBooked : Booked ledger.log last) (sid : Nat) : ledger.Seeks id sid (last + 1) := by
  have unread := smart.unread id member
  refine ⟨by omega, ?_⟩
  rintro index entry - upper found ⟨-, isUser⟩
  exact isUser (isBooked.service_of_le found (Nat.le_of_lt_succ upper))

/-- A booked subscriber opens the queue: it is then behind the message that the creator has
pushed last, and nobody else notices. -/
theorem openBooked (smart : SmartWorld metered booked world ledger) {parent : Queue}
    (isSmart : parent.self.type = .smart) (member : id ∈ booked)
    (isBooked : Booked ledger.log last) (positive : 0 < last) {sid : Nat}
    (word : sid < 2 ^ 32) :
    ∃ queue, world.openBooked parent id sid =
        .ok { world.update id queue with live := insert id world.live } ∧
      SmartWorld metered (booked.erase id)
        { world.update id queue with live := insert id world.live }
        (ledger.seek id (last + 1)) ∧
      queue.self.sid = sid ∧ queue.self.messageDesc = .none ∧
      SameSettings queue.memory world.memory := by
  have isMember : id ∈ ledger.members := by
    rw [smart.members]
    exact Finset.mem_union_right _ member
  rcases Queue.attachBooked_eq isSmart smart.tracks smart.accounted isMember
    (smart.unread id member) isBooked positive sid [] with
    ⟨queue, attaches, acts, leaver⟩
  refine ⟨queue, ?_, ⟨leaver.tracks, leaver.accounted, ?_, ?_, ?_, ?_, smart.few, ?_, ?_⟩,
    acts.sid_eq, acts.messageDesc_eq, acts.settings⟩
  · rw [World.openBooked, attaches]
    rfl
  · change ledger.members = insert id world.live ∪ booked.erase id
    rw [smart.members, Finset.insert_union, ← Finset.union_insert, Finset.insert_erase member]
  · apply Finset.disjoint_insert_left.mpr
    exact ⟨Finset.notMem_erase id booked, smart.apart.mono_right (Finset.erase_subset id booked)⟩
  · intro other stillBooked
    have different := Finset.ne_of_mem_erase stillBooked
    rw [ledger.seek_cursor_of_ne different]
    exact smart.unread other (Finset.mem_of_mem_erase stillBooked)
  · exact acts.settings.subscriptionsCount.trans smart.subscribed
  · intro other isLive
    change (Function.update world.handle id queue.self other).Smart
    by_cases same : other = id
    · rw [same, Function.update_self]
      refine ⟨leaver.smart, leaver.placed, acts.state_eq, ?_⟩
      rw [acts.sid_eq]
      exact word
    · rw [Function.update_of_ne same]
      exact smart.handles other (Finset.mem_of_mem_insert_of_ne isLive same)
  · intro other isLive
    change Follows queue.memory.capacity ledger.log
      (Function.update world.handle id queue.self other)
      ((ledger.seek id (last + 1)).cursor other)
    by_cases same : other = id
    · rw [same, Function.update_self]
      exact leaver.follows
    · have capacity : queue.memory.capacity = world.memory.capacity := acts.settings.capacity
      rw [Function.update_of_ne same, ledger.seek_cursor_of_ne same, capacity]
      exact smart.follows other (Finset.mem_of_mem_insert_of_ne isLive same)

/-- A new queue for booked subscribers, in which nobody has anything to read but the service
messages. -/
theorem createdBooked (raw : QueueMemory) (qid : Nat) {capacity sid : Nat} {parent : Queue}
    (isSmart : parent.self.type = .smart) (notMember : id ∉ booked)
    (subscribed : parent.memory.subscriptionsCount = booked.card + 1)
    (few : booked.card + 1 < 2 ^ 32) (word : sid < 2 ^ 32) (bounded : capacity < 2 ^ 32)
    (room : (booked.card + 1) * (headerSize + 1) ≤ capacity) {bookClock : Nat → List Nat}
    {clock : List Nat} (attempts : ∀ index, bookClock index ≠ []) (attempt : clock ≠ []) :
    ∃ queue ledger,
      Queue.createBooked raw qid capacity sid (some parent) bookClock clock = .ok queue ∧
      SmartWorld False booked (World.created id queue) ledger ∧ Booked ledger.log booked.card ∧
      ledger.leaked = (fun _ => 0) ∧ ledger.log.length = booked.card + 1 ∧
      ledger.cursor id = booked.card + 1 ∧ queue.memory.keepaliveTimeout = 0 ∧
      queue.self.sid = sid ∧ queue.self.messageDesc = .none := by
  have header : headerSize = 24 := rfl
  have positive : 0 < capacity := by
    rw [Nat.succ_mul] at room
    omega
  have starts := Queue.Booker.constructed raw qid sid positive bounded notMember (by omega)
  have capacityEq : (raw.constructed qid capacity booked.card raw.freeSpace).capacity =
      capacity := Nat.mod_eq_of_lt bounded
  have enough : (0 + booked.card) * (headerSize + 1) ≤
      (raw.constructed qid capacity booked.card raw.freeSpace).capacity := by
    rw [capacityEq, Nat.zero_add]
    rw [Nat.succ_mul] at room
    omega
  rcases starts.pushBooks Finset.card_pos.mp attempts enough with
    ⟨queue, before, pushes, booker, self, sameCapacity⟩
  rw [Nat.zero_add] at booker
  rcases booker.newcomer.pushServiceMessage_returns .connect attempt (booker.fits (by
    rw [sameCapacity, capacityEq]
    exact room)) with ⟨opened, announces⟩
  have initializes : queue.initializeQueue clock =
      .ok ⟨opened.memory.incSubscriptionsCount, { opened.self with
        head := opened.memory.tail
        counter := opened.memory.counter }⟩ := by
    rw [Queue.initializeQueue, announces]
    rfl
  have unread : ∀ other ∈ booked, before.cursor other = 0 := by
    intro other _
    rw [booker.cursor]
  rcases SmartWorld.created booker.newcomer booker.members unread few (by rw [self]; rfl)
    (by rw [self]; exact word) initializes with
    ⟨now, during, evolves, cursor, smart, timeout, same⟩
  have log : (during.join id).log = before.log ++ [queue.serviceEntry .connect now] := evolves.log
  have length : (during.join id).log.length = booked.card + 1 := by
    rw [log, List.length_append, booker.length]
    rfl
  refine ⟨_, during.join id, ?_, smart, ?_, evolves.leaked.trans booker.unleaked, length, ?_,
    timeout.trans booker.noTimeout, ?_, ?_⟩
  · rw [Queue.createBooked_eq raw qid capacity sid isSmart subscribed (by omega), pushes]
    exact initializes
  · rw [log]
    exact booker.booked_log now
  · rw [during.join_cursor_self]
    exact length
  · rw [same, self]
    rfl
  · rw [same, self]
    rfl

end SmartWorld

end Qbus
