import Qbus.Queue.Smart

/-! # Pushing into a smart queue

A push tries to store its message until it is accepted, and removes expired messages
between the attempts. What is asked of a push here is asked of each attempt. -/

namespace Qbus

open ByteMemory Message Circular Placement Storage MachineWord

namespace Queue

variable {metered : Prop} {queue next : Queue} {ledger after : Ledger Nat Entry} {member : Nat}

/-! ## Attempts -/

def attempt (check : Queue → Bool) (queue : Queue) : Bool :=
  match queue.cleanMessages with
  | .ok (_, cleaned) => check cleaned
  | .error _ => true

/-- The collected queue passes a test at every attempt of the loop that removes expired
messages. -/
def removalAttempts (check : Queue → Bool) (tag : Nat) (payload : List UInt8)
    (now limit : Nat) : (fuel : Nat) → Queue → Bool
  | 0, _ => true
  | fuel + 1, queue =>
      queue.empty ||
        match queue.getMessage with
        | .error _ => true
        | .ok (desc, found) =>
            match desc.first with
            | [] => true
            | position :: _ =>
                decide (timestamp found.memory.data position > limit) ||
                  match found.popMessage desc with
                  | .error _ => true
                  | .ok popped =>
                      popped.attempt check &&
                        match popped.doPush tag payload now with
                        | .ok (false, refused) =>
                            removalAttempts check tag payload now limit fuel refused
                        | _ => true

/-- The collected queue passes a test at every attempt of a push. -/
def attempts (check : Queue → Bool) (queue : Queue) (tag : Nat) (payload : List UInt8)
    (now : Nat) : Bool :=
  queue.attempt check &&
    match queue.doPush tag payload now with
    | .ok (false, refused) =>
        decide (refused.memory.keepaliveTimeout = 0) ||
          removalAttempts check tag payload now (sub64 now refused.memory.keepaliveTimeout)
            (2 ^ 32) refused
    | _ => true

theorem removalAttempts_next {check : Queue → Bool} {tag now limit fuel position : Nat}
    {payload : List UInt8} {found popped refused : Queue} {message : MessageDesc} {rest : Chain}
    (passes : removalAttempts check tag payload now limit (fuel + 1) queue = true)
    (unempty : queue.empty = false) (gets : queue.getMessage = .ok (message, found))
    (first : message.first = position :: rest)
    (expired : timestamp found.memory.data position ≤ limit)
    (pops : found.popMessage message = .ok popped)
    (pushes : popped.doPush tag payload now = .ok (false, refused)) :
    popped.attempt check = true ∧
      removalAttempts check tag payload now limit fuel refused = true := by
  have old : ¬timestamp found.memory.data position > limit := Nat.not_lt.mpr expired
  rw [removalAttempts] at passes
  simpa only [unempty, gets, first, old, pops, pushes, Bool.false_or, decide_false,
    Bool.and_eq_true] using passes

/-- A user message of `size` bytes sees two regions at most. -/
def contained (size : Nat) (queue : Queue) : Bool :=
  decide (queue.TwoRegions size)

/-- The free space covers the reserved space when a message is stored. -/
def spares (payload : List UInt8) (now : Nat) (queue : Queue) : Bool :=
  match queue.sharedPushMessage payload now with
  | .ok (desc, _) => decide (desc.first = [] ∨ queue.reservedSpace ≤ queue.memory.freeSpace)
  | .error _ => true

/-- The free space covers what a message takes of it, if it is stored. -/
def covers (payload : List UInt8) (now : Nat) (queue : Queue) : Bool :=
  match queue.sharedPushMessage payload now with
  | .ok (desc, made) =>
      decide (desc.first = [] ∨
        Message.totalSize made.memory.data desc.first ≤ made.memory.freeSpace)
  | .error _ => true

/-! ## One attempt -/

/-- A user message that is accepted leaves the reserved space free exactly when a test of
the attempts says so. -/
def SparesReserve (queue next : Queue) (accepted tested : Bool) : Prop :=
  queue.self.state ≠ .pushSpecialMessage →
    (tested = true ↔ (accepted = true → next.reservedSpace ≤ next.memory.freeSpace))

theorem SparesReserve.of_state_eq {other : Queue} {accepted tested : Bool}
    (spares : other.SparesReserve next accepted tested)
    (same : other.self.state = queue.self.state) : queue.SparesReserve next accepted tested := by
  rw [SparesReserve, ← same]
  exact spares

theorem SparesReserve.refused (queue next : Queue) : queue.SparesReserve next false true :=
  fun _ => iff_of_true rfl fun absent => by cases absent

theorem smart_doPush (smart : queue.self.type = .smart) (tracks : Tracks queue.memory ledger)
    (walkable : queue.Walkable)
    (accounted : metered → Accounted queue.memory ledger.log ledger.collected)
    (subscribed : queue.memory.subscriptionsCount = ledger.members.card)
    (few : ledger.members.card < 2 ^ 32) {payload : List UInt8} (nonempty : payload ≠ [])
    (tag now : Nat) (inside : queue.self.state ≠ .pushSpecialMessage →
      queue.attempt (contained payload.length) = true) :
    ∃ count accepted memory,
      queue.doPush tag payload now = .ok (accepted, ⟨memory, queue.self⟩) ∧
      Pushes queue.memory memory ledger count
        (queue.pushedEntry tag now payload nonempty) accepted ∧
      (metered → Accounted memory (pushedLedger ledger count
        (queue.pushedEntry tag now payload nonempty) accepted).log (ledger.collected + count)) ∧
      (metered → queue.attempt (covers payload now) = true) ∧
      (metered → queue.SparesReserve ⟨memory, queue.self⟩ accepted
        (queue.attempt (spares payload now))) := by
  have counted : queue.self.type ≠ .simple := by simp [smart]
  have sameSelf := fun count => queue.collector_of_ne count (by simp [smart])
  rcases cleanMessages_eq counted tracks walkable with
    ⟨count, info, cleaned, cleans, -, collects, space⟩
  have ring := collects.tracks.ring
  have capacity := collects.settings.capacity
  have cleanedAccounted : metered → Accounted cleaned ledger.log (ledger.collected + count) :=
    fun isMetered => (accounted isMetered).collect tracks.ring collects.tracks.valid.collectedLe
      (space smart ((accounted isMetered).space_lt tracks.ring)) capacity
  have size : 0 < payload.length := List.length_pos_iff.mpr nonempty
  have makes : ∃ accepted made, Makes ⟨cleaned, queue.self⟩ ledger.log
      (ledger.collected + count) payload now accepted made ∧
      (queue.self.state ≠ .pushSpecialMessage → accepted = true →
        extent cleaned.capacity (start cleaned.capacity ledger.log ledger.log.length)
          payload.length ≤ availableSpace ⟨cleaned, queue.self⟩) := by
    by_cases user : queue.self.state ≠ .pushSpecialMessage
    · have two : TwoRegions ⟨cleaned, queue.self⟩ payload.length := by
        have passed := inside user
        rw [attempt, cleans, sameSelf] at passed
        exact of_decide_eq_true passed
      rcases @exists_makes_user ⟨cleaned, queue.self⟩ _ _ _ smart user ring _ nonempty two now with
        ⟨made, makes⟩
      exact ⟨_, made, makes, fun _ taken => Nat.le_trans (of_decide_eq_true taken)
        (Nat.min_le_right _ _)⟩
    · rcases @exists_makes ⟨cleaned, queue.self⟩ _ _ _ ring (.inr (not_not.mp user)) _
        nonempty now with ⟨made, makes⟩
      exact ⟨_, made, makes, fun isUser => absurd isUser user⟩
  rcases makes with ⟨accepted, made, makes, limited⟩
  have makesCollector : Makes ⟨cleaned, queue.collector count⟩ ledger.log
      (ledger.collected + count) payload now accepted made := by
    rw [sameSelf]
    exact makes
  rcases doPush_of_makes counted cleans collects nonempty makesCollector subscribed few with
    ⟨memory, result, pushes, after⟩
  replace after := after smart
  rw [sameSelf] at result after
  have sameCapacity : memory.capacity = cleaned.capacity :=
    pushes.settings.capacity.trans capacity.symm
  have tested : ∀ check, queue.attempt check = check ⟨cleaned, queue.self⟩ := by
    intro check
    rw [attempt, cleans, sameSelf]
  rw [tested, tested]
  cases accepted with
  | false =>
      refine ⟨count, false, memory, result, pushes,
        fun isMetered => (cleanedAccounted isMetered).congr after sameCapacity, fun _ => ?_,
        fun _ => ?_⟩
      · rw [covers, sharedPushMessage_refused makes]
        exact decide_eq_true (.inl rfl)
      · rw [spares, sharedPushMessage_refused makes]
        exact .refused queue _
  | true =>
      have published := fun isMetered => (cleanedAccounted isMetered).publish ring
        (queue.pushedEntry tag now payload nonempty) (makes.fits rfl) after sameCapacity
      rcases sharedPushMessage_accepted ring nonempty makes with
        ⟨made, shared, -, madeSpace, sized⟩
      refine ⟨count, true, memory, result, pushes, fun isMetered => (published isMetered).2,
        fun isMetered => ?_, fun isMetered => ?_⟩
      · rw [covers, shared]
        refine decide_eq_true (.inr ?_)
        rw [setMemory_memory, sized, madeSpace]
        exact (published isMetered).1
      · intro user
        have small := limited user rfl
        have fewer := footprint_le_extent cleaned.capacity
          (start cleaned.capacity ledger.log ledger.log.length) payload.length
        have bound := (cleanedAccounted isMetered).space_lt ring
        have enough : footprint cleaned.capacity (start cleaned.capacity ledger.log
            ledger.log.length) payload.length ≤ cleaned.freeSpace := (published isMetered).1
        have sameReserve : reservedSpace ⟨memory, queue.self⟩ =
            reservedSpace ⟨cleaned, queue.self⟩ := by
          simp only [reservedSpace]
          rw [pushes.settings.subscriptionsCount, collects.settings.subscriptionsCount]
        have first : (desc cleaned.capacity (start cleaned.capacity ledger.log
            ledger.log.length) payload.length).first ≠ [] := by
          rcases desc_first cleaned.capacity (start cleaned.capacity ledger.log
            ledger.log.length) payload.length with ⟨rest, isCons⟩
          rw [isCons]
          exact List.cons_ne_nil _ _
        have space : memory.freeSpace = cleaned.freeSpace - footprint cleaned.capacity
            (start cleaned.capacity ledger.log ledger.log.length) payload.length := by
          rw [spaceAfter, if_pos rfl] at after
          exact after.trans (sub32_of_le enough bound)
        rw [spares, shared, decide_eq_true_iff, or_iff_right first, sameReserve, space]
        constructor
        · intro reserved _
          rw [availableSpace, sub64_of_le reserved (by
            change cleaned.freeSpace < 2 ^ 64
            omega)] at small
          simp only at small reserved ⊢
          omega
        · intro kept
          exact Nat.le_trans (kept rfl) (Nat.sub_le _ _)

theorem Skips.popFound {index position : Nat} {message : MessageDesc} {rest : Chain}
    (skips : Skips metered queue next ledger member index message)
    (first : message.first = position :: rest) :
    ∃ popped, next.popMessage message = .ok popped ∧
      Acts queue popped ledger (ledger.seek member (index + 1)) member [] ∧
      SmartMember metered popped (ledger.seek member (index + 1)) member ∧
      ledger.cursor member < (ledger.seek member (index + 1)).cursor member := by
  have lower := skips.lower
  rcases skips.found with ⟨none, -⟩ | ⟨entry, found, -, described⟩
  · rw [none] at first
    cases first
  · have foundNext : (ledger.seek member index).log[(ledger.seek member index).cursor member]? =
        some entry := by
      rw [Ledger.seek_cursor_self]
      exact found
    rcases skips.reader.pop foundNext with ⟨popped, pops, acts, reader⟩
    rw [Ledger.seek_cursor_self, skips.acts.settings.capacity] at pops
    rw [Ledger.seek_advance] at acts reader
    refine ⟨popped, ?_, skips.acts.trans acts, reader, ?_⟩
    · rw [described]
      exact pops
    · rw [Ledger.seek_cursor_self]
      omega

namespace SmartMember

variable {payload : List UInt8}

theorem getMessage (reader : SmartMember metered queue ledger member)
    (unread : ledger.cursor member < ledger.log.length) :
    ∃ index message next, queue.getMessage = .ok (message, next) ∧
      Skips metered queue next ledger member index message := by
  have few := reader.unread_lt
  rcases reader.smartGetMessage unread
    (show ledger.log.length - ledger.cursor member ≤ 2 ^ 32 by omega) with
      ⟨index, message, next, gets, skips⟩
  refine ⟨index, message, next, ?_, skips⟩
  rw [Queue.getMessage, reader.smart]
  exact gets

theorem doPush (reader : SmartMember metered queue ledger member) (nonempty : payload ≠ [])
    (tag now : Nat) (inside : queue.self.state ≠ .pushSpecialMessage →
      queue.attempt (contained payload.length) = true) :
    ∃ accepted next after, queue.doPush tag payload now = .ok (accepted, next) ∧
      Acts queue next ledger after member
        (if accepted then [queue.pushedEntry tag now payload nonempty] else []) ∧
      SmartMember metered next after member ∧ after.cursor = ledger.cursor ∧
      (metered → queue.attempt (covers payload now) = true) ∧
      (metered → queue.SparesReserve next accepted (queue.attempt (spares payload now))) := by
  rcases smart_doPush reader.smart reader.tracks reader.walkable reader.accounted
    reader.subscribed reader.few nonempty tag now inside with
      ⟨count, accepted, memory, result, pushes, accounted, covered, keeps⟩
  have acts := Pushes.acts pushes member
  rw [collector_of_ne _ _ (by simp [reader.smart])] at acts
  have follows := follows_pushedLedger reader.follows count accepted
    (queue.pushedEntry tag now payload nonempty) reader.inside
  rw [← pushes.settings.capacity, ← @pushedLedger_cursor ledger count
    (queue.pushedEntry tag now payload nonempty) accepted] at follows
  rw [← @pushedLedger_collected ledger count (queue.pushedEntry tag now payload nonempty)
    accepted] at accounted
  exact ⟨accepted, _, _, result, acts, reader.of_acts acts accounted follows reader.placed,
    pushedLedger_cursor, covered, keeps⟩

/-- The loop that removes expired messages of other processes, and with them the own
messages and the service messages in front of them. -/
theorem removeExpired (reader : SmartMember metered queue ledger member) (nonempty : payload ≠ [])
    (tag now limit : Nat) {fuel : Nat}
    (enough : ledger.log.length - ledger.cursor member < fuel)
    (inside : queue.self.state ≠ .pushSpecialMessage →
      removalAttempts (contained payload.length) tag payload now limit fuel queue = true) :
    ∃ accepted next after,
      queue.removeExpired tag payload now limit fuel = .ok (accepted, next) ∧
      Acts queue next ledger after member
        (if accepted then [queue.pushedEntry tag now payload nonempty] else []) ∧
      SmartMember metered next after member ∧ after.cursor member ≤ ledger.log.length ∧
      (metered → removalAttempts (covers payload now) tag payload now limit fuel queue = true) ∧
      (metered → queue.SparesReserve next accepted
        (removalAttempts (spares payload now) tag payload now limit fuel queue)) := by
  induction fuel generalizing queue ledger with
  | zero => exact absurd enough (Nat.not_lt_zero _)
  | succ fuel induction =>
      rw [Queue.removeExpired]
      rw [removalAttempts] at inside
      rw [removalAttempts, removalAttempts]
      by_cases isEmpty : queue.empty = true
      · rw [if_pos isEmpty]
        simp only [isEmpty, Bool.true_or, implies_true, true_and]
        exact ⟨false, queue, ledger, rfl, .refl reader.tracks member, reader, reader.inside,
          fun _ => .refused _ _⟩
      · have countEq := reader.count_eq
        have unread : ledger.cursor member < ledger.log.length := by
          rw [empty, decide_eq_true_iff] at isEmpty
          omega
        rcases reader.getMessage unread with ⟨index, message, found, gets, skips⟩
        rw [Bool.not_eq_true] at isEmpty
        simp only [isEmpty, gets, Bool.false_or, Bool.false_eq_true, if_false, Bind.bind,
          Except.bind] at inside ⊢
        have stopped : ∃ accepted next after,
            (pure (false, found) : Outcome (Bool × Queue)) = .ok (accepted, next) ∧
            Acts queue next ledger after member
              (if accepted then [queue.pushedEntry tag now payload nonempty] else []) ∧
            SmartMember metered next after member ∧ after.cursor member ≤ ledger.log.length ∧
            (metered → queue.SparesReserve next accepted true) :=
          ⟨false, found, _, rfl, skips.acts, skips.reader, skips.reader.inside,
            fun _ => .refused _ _⟩
        cases first : message.first with
        | nil => simpa only [first, implies_true, true_and] using stopped
        | cons position rest =>
            simp only [first] at inside ⊢
            by_cases fresh : timestamp found.memory.data position > limit
            · simpa only [fresh, if_true, decide_true, Bool.true_or, implies_true, true_and]
                using stopped
            · simp only [fresh, if_false, decide_false, Bool.false_or] at inside ⊢
              rcases skips.popFound first with ⟨popped, pops, popActs, popReader, cursor⟩
              simp only [pops, Bool.and_eq_true] at inside ⊢
              rcases popReader.doPush nonempty tag now (fun user =>
                  (inside (by rwa [← popActs.state_eq])).1) with
                ⟨accepted, pushed, middle, result, pushActs, pushReader, sameCursor, covered, keeps⟩
              rw [pushedEntry_eq popActs tag now nonempty] at pushActs
              have acts := popActs.trans pushActs
              simp only [result] at inside ⊢
              cases accepted with
              | true =>
                  refine ⟨true, pushed, middle, rfl, acts, pushReader, ?_,
                    fun isMetered => ⟨covered isMetered, rfl⟩, fun isMetered => ?_⟩
                  · rw [sameCursor]
                    exact popReader.inside
                  · rw [Bool.and_true]
                    exact (keeps isMetered).of_state_eq popActs.state_eq
              | false =>
                  have length : middle.log.length = ledger.log.length := by
                    rw [acts.evolves.log]
                    exact congrArg List.length (List.append_nil _)
                  rcases induction pushReader (by
                      rw [sameCursor, length]
                      omega) (fun user => (inside (by rwa [← acts.state_eq])).2) with
                    ⟨accepted, next, after, loops, laterActs, laterReader, laterInside,
                      laterCovered, laterKeeps⟩
                  rw [pushedEntry_eq acts tag now nonempty] at laterActs
                  rw [length] at laterInside
                  refine ⟨accepted, next, after, loops, acts.trans laterActs, laterReader,
                    laterInside, fun isMetered => ⟨covered isMetered, laterCovered isMetered⟩,
                    fun isMetered user => ?_⟩
                  rw [← popActs.state_eq] at user
                  have tested := (keeps isMetered user).mpr fun absent => by cases absent
                  rw [tested, Bool.true_and]
                  exact laterKeeps isMetered (by rwa [acts.state_eq, ← popActs.state_eq])

theorem push (reader : SmartMember metered queue ledger member) (nonempty : payload ≠ [])
    (tag now : Nat) (inside : queue.self.state ≠ .pushSpecialMessage →
      queue.attempts (contained payload.length) tag payload now = true) :
    ∃ accepted next after, queue.push tag payload now = .ok (accepted, next) ∧
      Acts queue next ledger after member
        (if accepted then [queue.pushedEntry tag now payload nonempty] else []) ∧
      SmartMember metered next after member ∧ after.cursor member ≤ ledger.log.length ∧
      (queue.memory.keepaliveTimeout = 0 → after.cursor = ledger.cursor) ∧
      (metered → queue.attempts (covers payload now) tag payload now = true) ∧
      (metered → queue.SparesReserve next accepted
        (queue.attempts (spares payload now) tag payload now)) := by
  rcases reader.doPush nonempty tag now (fun user => by
      have passed := inside user
      rw [attempts, Bool.and_eq_true] at passed
      exact passed.1) with
    ⟨accepted, refused, middle, result, acts, still, sameCursor, covered, keeps⟩
  rw [attempts] at inside
  rw [attempts, attempts, Queue.push]
  have sameInside : middle.cursor member ≤ ledger.log.length := by
    rw [sameCursor]
    exact reader.inside
  simp only [result, Bind.bind, Except.bind, Bool.and_eq_true] at inside ⊢
  cases accepted with
  | true =>
      exact ⟨true, refused, middle, rfl, acts, still, sameInside, fun _ => sameCursor,
        fun isMetered => ⟨covered isMetered, rfl⟩, by simpa only [Bool.and_true] using keeps⟩
  | false =>
      have sameTimeout := acts.settings.keepaliveTimeout
      by_cases none : refused.memory.keepaliveTimeout = 0
      · simp only [none, Nat.lt_irrefl, if_false, decide_true, Bool.true_or, Bool.false_eq_true,
          gt_iff_lt]
        exact ⟨false, refused, middle, rfl, acts, still, sameInside, fun _ => sameCursor,
          fun isMetered => ⟨covered isMetered, trivial⟩,
          by simpa only [Bool.and_true] using keeps⟩
      · have positive : 0 < refused.memory.keepaliveTimeout := Nat.pos_of_ne_zero none
        have unread := still.unread_lt
        simp only [none, positive, if_true, decide_false, Bool.false_or,
          Bool.false_eq_true, if_false] at inside ⊢
        rcases still.removeExpired nonempty tag now
            (sub64 now refused.memory.keepaliveTimeout)
            (show middle.log.length - middle.cursor member < 2 ^ 32 by omega)
            (fun user => (inside (by rwa [← acts.state_eq])).2) with
          ⟨accepted, next, after, loops, laterActs, laterReader, laterInside, laterCovered,
            laterKeeps⟩
        rw [pushedEntry_eq acts tag now nonempty] at laterActs
        have length : middle.log.length = ledger.log.length := by
          rw [acts.evolves.log]
          exact congrArg List.length (List.append_nil _)
        rw [length] at laterInside
        refine ⟨accepted, next, after, loops, acts.trans laterActs, laterReader, laterInside,
          fun absent => ?_, fun isMetered => ⟨covered isMetered, laterCovered isMetered⟩,
          fun isMetered user => ?_⟩
        · omega
        · have tested := (keeps isMetered user).mpr fun absent => by cases absent
          rw [tested, Bool.true_and]
          exact laterKeeps isMetered (by rwa [acts.state_eq])

end SmartMember

end Queue

end Qbus
