import Qbus.Queue.Tracking

/-! # Calls of subscribers

What a call on a shared queue object does to the ledger that the queue memory
tracks, and to the cursor of the object. -/

namespace Qbus

open ByteMemory Message Circular Placement Storage MachineWord

/-- The effect of a call on the object `id`: the queue memory tracks a later
ledger, and only the cursor fields of the object change. -/
structure Acts (queue next : Queue) (before after : Ledger Nat Entry) (id : Nat)
    (more : List Entry) : Prop where
  tracks : Tracks next.memory after
  evolves : before.Evolves after id more
  settings : SameSettings next.memory queue.memory
  frame : AgreeUpToCounters next.memory.data queue.memory.data queue.memory.capacity
    before.log after.collected
  kept : next.self =
    { queue.self with head := next.self.head, counter := next.self.counter }

theorem AgreeUpToCounters.of_append {left right : ByteMemory} {capacity first : Nat}
    {log more : List Entry} (agrees : AgreeUpToCounters left right capacity (log ++ more) first) :
    AgreeUpToCounters left right capacity log first := by
  intro index entry stored found
  have below := (List.getElem?_eq_some_iff.mp found).1
  have same := agrees index entry stored (by rw [List.getElem?_append_left below, found])
  rwa [start_append (Nat.le_of_lt below), start_append below] at same

namespace Acts

variable {queue middle next : Queue} {before during after : Ledger Nat Entry} {id : Nat}
  {more later : List Entry}

theorem refl (tracks : Tracks queue.memory before) (id : Nat) :
    Acts queue queue before before id [] :=
  ⟨tracks, .refl _ _, .refl _, .refl _, rfl⟩

theorem trans (first : Acts queue middle before during id more)
    (second : Acts middle next during after id later) :
    Acts queue next before after id (more ++ later) := by
  refine ⟨second.tracks, first.evolves.trans second.evolves,
    second.settings.trans first.settings, ?_, ?_⟩
  · have frame := second.frame
    rw [first.settings.capacity, first.evolves.log] at frame
    exact frame.of_append.trans (first.frame.mono second.evolves.collected)
  · rw [second.kept, first.kept]

theorem type_eq (acts : Acts queue next before after id more) :
    next.self.type = queue.self.type := by
  rw [acts.kept]

theorem sid_eq (acts : Acts queue next before after id more) :
    next.self.sid = queue.self.sid := by
  rw [acts.kept]

theorem messageDesc_eq (acts : Acts queue next before after id more) :
    next.self.messageDesc = queue.self.messageDesc := by
  rw [acts.kept]

theorem state_eq (acts : Acts queue next before after id more) :
    next.self.state = queue.self.state := by
  rw [acts.kept]

end Acts

namespace Queue

variable {queue : Queue} {ledger : Ledger Nat Entry}

theorem collector_kept (queue : Queue) (count : Nat) :
    queue.collector count = { queue.self with
      head := (queue.collector count).head
      counter := (queue.collector count).counter } := by
  unfold collector
  split <;> rfl

theorem Collects.acts {memory : QueueMemory} {count : Nat}
    (collects : Collects queue.memory memory ledger count) (id : Nat) :
    Acts queue ⟨memory, queue.collector count⟩ ledger (ledger.collect count) id [] :=
  ⟨collects.tracks, .collect collects.garbage _, collects.settings,
    by rw [collects.data]; exact .refl _, queue.collector_kept count⟩

def pushedLedger (ledger : Ledger Nat Entry) (count : Nat) (entry : Entry)
    (accepted : Bool) : Ledger Nat Entry :=
  if accepted then (ledger.collect count).publish entry else ledger.collect count

theorem pushedLedger_cursor {count : Nat} {entry : Entry} {accepted : Bool} :
    (pushedLedger ledger count entry accepted).cursor = ledger.cursor := by
  cases accepted <;> rfl

theorem pushedLedger_collected {count : Nat} {entry : Entry} {accepted : Bool} :
    (pushedLedger ledger count entry accepted).collected = ledger.collected + count := by
  cases accepted <;> rfl

theorem Pushes.acts {memory : QueueMemory} {count : Nat} {entry : Entry}
    {accepted : Bool} (pushes : Pushes queue.memory memory ledger count entry accepted)
    (id : Nat) :
    Acts queue ⟨memory, queue.collector count⟩ ledger
      (pushedLedger ledger count entry accepted) id (if accepted then [entry] else []) := by
  refine ⟨pushes.tracks, ?_, pushes.settings, ?_, queue.collector_kept count⟩
  · cases accepted with
    | true => exact (Ledger.Evolves.collect pushes.garbage id).trans (.publish _ _ _)
    | false => exact .collect pushes.garbage id
  · rw [pushedLedger_collected]
    exact .of_window pushes.frame

theorem follows_pushedLedger {capacity index : Nat} {handle : Handle}
    (follows : Follows capacity ledger.log handle index) (count : Nat) (accepted : Bool)
    (entry : Entry) (inside : index ≤ ledger.log.length) :
    Follows capacity (pushedLedger ledger count entry accepted).log handle index := by
  cases accepted with
  | true => exact follows.append inside [entry]
  | false => exact follows

theorem Pushes.sweeps {memory : QueueMemory} {count : Nat} {entry : Entry}
    {accepted : Bool} (pushes : Pushes queue.memory memory ledger count entry accepted) :
    ledger.Sweeps (pushedLedger ledger count entry accepted) := by
  intro bound inside unreferenced
  rw [pushedLedger_collected]
  exact pushes.garbage.sweeps bound inside unreferenced

section Member

variable {member : Nat} {entry : Entry}

theorem member_pop (counted : queue.self.type ≠ .simple)
    (tracks : Tracks queue.memory ledger) (isMember : member ∈ ledger.members)
    (follows : Follows queue.memory.capacity ledger.log queue.self (ledger.cursor member))
    (found : ledger.log[ledger.cursor member]? = some entry) :
    ∃ next,
      queue.popMessage (desc queue.memory.capacity (start queue.memory.capacity ledger.log
        (ledger.cursor member)) entry.size) = .ok next ∧
      Acts queue next ledger (ledger.advance member) member [] ∧
      Follows queue.memory.capacity ledger.log next.self (ledger.cursor member + 1) ∧
      next.self.head ≠ sharedHead ∧ next.memory.freeSpace = queue.memory.freeSpace := by
  rcases popMessage_of_member counted tracks isMember follows found with
    ⟨memory, pops, popped, settings, moved, frame, space⟩
  refine ⟨_, pops, ⟨popped, .advance _ _, settings, frame, rfl⟩, moved, ?_, space⟩
  have bounded := tracks.ring.bounded
  have inside := Nat.mod_lt (desc queue.memory.capacity (start queue.memory.capacity
    ledger.log (ledger.cursor member)) entry.size).second tracks.ring.positive
  change _ % queue.memory.capacity ≠ _
  simp only [sharedHead]
  omega

theorem counter_lt {capacity index : Nat} {log : List Entry} {handle : Handle}
    (follows : Follows capacity log handle index) : handle.counter < 2 ^ 32 := by
  rw [follows.counted]
  exact Nat.mod_lt _ (by decide)

theorem member_walkable (counted : queue.self.type ≠ .simple)
    (tracks : Tracks queue.memory ledger) (isMember : member ∈ ledger.members)
    (follows : Follows queue.memory.capacity ledger.log queue.self
      (ledger.cursor member)) : queue.Walkable := by
  have stored := tracks.valid.cursorGe member isMember
  have small := tracks.ring.count_lt
  refine .inr ?_
  rw [count_eq counted tracks follows stored (tracks.valid.cursorLe member isMember)]
  omega

theorem plain_doPush (counted : queue.self.type ≠ .simple) (plain : queue.self.type ≠ .smart)
    (tracks : Tracks queue.memory ledger) (walkable : queue.Walkable)
    (subscribed : queue.memory.subscriptionsCount = ledger.members.card)
    (few : ledger.members.card < 2 ^ 32) {payload : List UInt8} (nonempty : payload ≠ [])
    (tag now : Nat) :
    ∃ count accepted memory,
      queue.doPush tag payload now = .ok (accepted, ⟨memory, queue.collector count⟩) ∧
      Pushes queue.memory memory ledger count
        (queue.pushedEntry tag now payload nonempty) accepted :=
  doPush_eq counted tracks walkable subscribed few nonempty tag now
    (fun count memory collects => by
      rcases @exists_makes ⟨memory, queue.collector count⟩ _ _ _
        collects.tracks.ring (.inl (by simpa using plain)) _ nonempty now with ⟨made, makes⟩
      exact ⟨_, made, makes⟩)

theorem member_doPush (shared : queue.self.type = .shared)
    (tracks : Tracks queue.memory ledger) (isMember : member ∈ ledger.members)
    (follows : Follows queue.memory.capacity ledger.log queue.self (ledger.cursor member))
    (subscribed : queue.memory.subscriptionsCount = ledger.members.card)
    (few : ledger.members.card < 2 ^ 32) {payload : List UInt8} (nonempty : payload ≠ [])
    (tag now : Nat) :
    ∃ count accepted memory,
      queue.doPush tag payload now = .ok (accepted, ⟨memory, queue.self⟩) ∧
      Pushes queue.memory memory ledger count
        (queue.pushedEntry tag now payload nonempty) accepted := by
  have counted : queue.self.type ≠ .simple := by simp [shared]
  have sameSelf := fun count => queue.collector_of_ne count (by simp [shared])
  rcases plain_doPush counted (by simp [shared]) tracks
    (member_walkable counted tracks isMember follows) subscribed few nonempty tag now with
    ⟨count, accepted, memory, result, pushes⟩
  rw [sameSelf] at result
  exact ⟨count, accepted, memory, result, pushes⟩

theorem pushedEntry_eq {next : Queue} {after : Ledger Nat Entry} {id : Nat}
    {more : List Entry} (acts : Acts queue next ledger after id more) (tag now : Nat)
    {payload : List UInt8} (nonempty : payload ≠ []) :
    next.pushedEntry tag now payload nonempty =
      queue.pushedEntry tag now payload nonempty := by
  simp only [pushedEntry, acts.sid_eq]

theorem member_removeExpired (shared : queue.self.type = .shared)
    (tracks : Tracks queue.memory ledger) (isMember : member ∈ ledger.members)
    (follows : Follows queue.memory.capacity ledger.log queue.self (ledger.cursor member))
    (aligned : queue.self.head = sharedHead → ledger.cursor member < ledger.log.length →
      ledger.cursor member = ledger.collected)
    (subscribed : queue.memory.subscriptionsCount = ledger.members.card)
    (few : ledger.members.card < 2 ^ 32) {payload : List UInt8} (nonempty : payload ≠ [])
    (tag now limit : Nat) {fuel : Nat}
    (enough : ledger.log.length - ledger.cursor member < fuel) :
    ∃ accepted next after,
      queue.removeExpired tag payload now limit fuel = .ok (accepted, next) ∧
      Acts queue next ledger after member
        (if accepted then [queue.pushedEntry tag now payload nonempty] else []) ∧
      Follows next.memory.capacity after.log next.self (after.cursor member) ∧
      after.cursor member ≤ ledger.log.length ∧
      (next.self.head = sharedHead →
        queue.self.head = sharedHead ∧ after.cursor = ledger.cursor) := by
  induction fuel generalizing queue ledger with
  | zero => exact absurd enough (Nat.not_lt_zero _)
  | succ fuel induction =>
      have counted : queue.self.type ≠ .simple := by simp [shared]
      have stored := tracks.valid.cursorGe member isMember
      have inside := tracks.valid.cursorLe member isMember
      have countEq := count_eq counted tracks follows stored inside
      rw [removeExpired]
      by_cases isEmpty : queue.count = 0
      · rw [empty, if_pos (decide_eq_true isEmpty)]
        exact ⟨false, queue, ledger, rfl, .refl tracks member, follows, inside,
          fun missing => ⟨missing, rfl⟩⟩
      · rw [empty, if_neg (by simpa using isEmpty)]
        have below : ledger.cursor member < ledger.log.length := by omega
        have found := List.getElem?_eq_getElem below
        have reads := baseGetMessage_of_follows counted tracks follows stored found
          fun missing => aligned missing below
        rcases desc_first queue.memory.capacity (start
          queue.memory.capacity ledger.log (ledger.cursor member))
            (ledger.log[ledger.cursor member]).size with ⟨rest, first⟩
        have gets : queue.getMessage = .ok (desc queue.memory.capacity (start
            queue.memory.capacity ledger.log (ledger.cursor member))
              (ledger.log[ledger.cursor member]).size, queue) := by
          rw [getMessage, shared]
          simp only [reads, Bind.bind, Except.bind, pure, Except.pure]
        simp only [gets, Bind.bind, Except.bind, first]
        by_cases fresh : timestamp queue.memory.data (headerPlace queue.memory.capacity
            (start queue.memory.capacity ledger.log (ledger.cursor member))
              (ledger.log[ledger.cursor member]).size) > limit
        · rw [if_pos fresh]
          exact ⟨false, queue, ledger, rfl, .refl tracks member, follows, inside,
            fun missing => ⟨missing, rfl⟩⟩
        · rw [if_neg fresh]
          rcases member_pop counted tracks isMember follows found with
            ⟨popped, pops, popActs, popFollows, placed, -⟩
          have moved : (ledger.advance member).cursor member =
              ledger.cursor member + 1 := by simp [Ledger.advance]
          have sameType := popActs.type_eq.trans shared
          have sameCapacity := popActs.settings.capacity
          rw [← moved, ← sameCapacity] at popFollows
          rcases member_doPush sameType
            popActs.tracks isMember popFollows
            (popActs.settings.subscriptionsCount.trans subscribed) few nonempty tag now with
              ⟨count, accepted, memory, result, pushes⟩
          have pushActs := Pushes.acts pushes member
          rw [collector_of_ne _ _ (by simp [sameType]),
            pushedEntry_eq popActs tag now nonempty] at pushActs
          have acts := popActs.trans pushActs
          have stillFollows := follows_pushedLedger popFollows count accepted
            (queue.pushedEntry tag now payload nonempty)
            (popActs.tracks.valid.cursorLe member isMember)
          rw [← pushes.settings.capacity] at stillFollows
          simp only [pops, result]
          cases accepted with
          | true =>
              exact ⟨true, _, _, rfl, acts, stillFollows, moved.le.trans below,
                fun missing => absurd missing placed⟩
          | false =>
              rcases @induction ⟨memory, popped.self⟩ _ sameType acts.tracks isMember
                  stillFollows (fun missing => absurd missing placed)
                  (acts.settings.subscriptionsCount.trans subscribed) few
                  (by
                    change ledger.log.length - (ledger.advance member).cursor member < fuel
                    omega) with
                ⟨accepted, next, after, loops, laterActs, laterFollows, laterInside, laterHead⟩
              refine ⟨accepted, next, after, loops, ?_, laterFollows, laterInside,
                fun missing => absurd (laterHead missing).1 placed⟩
              have whole := acts.trans laterActs
              rw [pushedEntry_eq acts tag now nonempty] at whole
              exact whole

structure MemberPushes (queue next : Queue) (before after : Ledger Nat Entry)
    (member : Nat) (more : List Entry) : Prop where
  acts : Acts queue next before after member more
  follows : Follows next.memory.capacity after.log next.self (after.cursor member)
  inside : after.cursor member ≤ before.log.length
  head : next.self.head = sharedHead →
    queue.self.head = sharedHead ∧ after.cursor = before.cursor
  sweeps : before.Sweeps after
  cursor : queue.memory.keepaliveTimeout = 0 → after.cursor = before.cursor

theorem Pushes.memberPushes {memory : QueueMemory} {count : Nat} {entry : Entry}
    {accepted : Bool} (pushes : Pushes queue.memory memory ledger count entry accepted)
    (shared : queue.self.type = .shared)
    (follows : Follows queue.memory.capacity ledger.log queue.self (ledger.cursor member))
    (inside : ledger.cursor member ≤ ledger.log.length) :
    MemberPushes queue ⟨memory, queue.self⟩ ledger
      (pushedLedger ledger count entry accepted) member
      (if accepted then [entry] else []) := by
  have acts := Pushes.acts pushes member
  rw [collector_of_ne _ _ (by simp [shared])] at acts
  have stillFollows := follows_pushedLedger follows count accepted entry inside
  rw [← pushes.settings.capacity] at stillFollows
  rw [← pushedLedger_cursor] at stillFollows
  refine ⟨acts, stillFollows, by rw [pushedLedger_cursor]; exact inside,
    fun missing => ⟨missing, pushedLedger_cursor⟩, pushes.sweeps,
    fun _ => pushedLedger_cursor⟩

/-- A push through the object of a member. An object without a private head may
only remove expired messages when no message in front of its own is referenced. -/
theorem member_push (shared : queue.self.type = .shared)
    (tracks : Tracks queue.memory ledger) (isMember : member ∈ ledger.members)
    (follows : Follows queue.memory.capacity ledger.log queue.self (ledger.cursor member))
    (passed : queue.self.head = sharedHead → ∀ index, ledger.collected ≤ index →
      index < ledger.cursor member → ledger.refs index = 0)
    (subscribed : queue.memory.subscriptionsCount = ledger.members.card)
    (few : ledger.members.card < 2 ^ 32) {payload : List UInt8} (nonempty : payload ≠ [])
    (tag now : Nat) :
    ∃ accepted next after,
      queue.push tag payload now = .ok (accepted, next) ∧
      MemberPushes queue next ledger after member
        (if accepted then [queue.pushedEntry tag now payload nonempty] else []) := by
  have inside := tracks.valid.cursorLe member isMember
  rcases member_doPush shared tracks isMember follows subscribed few nonempty tag now with
    ⟨count, accepted, memory, result, pushes⟩
  have first := Pushes.memberPushes pushes shared follows inside
  rw [push]
  simp only [result, Bind.bind, Except.bind]
  cases accepted with
  | true => exact ⟨true, _, _, rfl, first⟩
  | false =>
      by_cases timeout : memory.keepaliveTimeout > 0
      · have behind := first.acts.tracks.valid.cursorGe member isMember
        have small := tracks.ring.count_lt
        have stored := tracks.valid.cursorGe member isMember
        have aligned : queue.self.head = sharedHead →
            ledger.cursor member < ledger.log.length →
            ledger.cursor member = ledger.collected + count := fun missing _ =>
          Nat.le_antisymm (first.sweeps _ inside (passed missing)) behind
        rcases @member_removeExpired ⟨memory, queue.self⟩ (ledger.collect count) _ shared
            first.acts.tracks isMember first.follows aligned
            (first.acts.settings.subscriptionsCount.trans subscribed) few _ nonempty tag
            now (sub64 now memory.keepaliveTimeout) (2 ^ 32)
            (by
              change ledger.log.length - ledger.cursor member < 2 ^ 32
              omega) with
          ⟨accepted, next, after, loops, laterActs, laterFollows, laterInside, laterHead⟩
        refine ⟨accepted, next, after, ?_, first.acts.trans laterActs, laterFollows,
          laterInside, laterHead, ?_, ?_⟩
        · rw [if_neg (by simp), if_pos timeout]
          exact loops
        · intro bound within unreferenced
          exact Nat.le_trans (first.sweeps bound within unreferenced)
            laterActs.evolves.collected
        · intro noTimeout
          rw [← pushes.settings.keepaliveTimeout] at noTimeout
          omega
      · refine ⟨false, _, _, ?_, first⟩
        rw [if_neg (by simp), if_neg timeout]
        rfl

end Member

/-! ## Pushes that remove no expired message -/

/-- No expired message is removed for a push: it is accepted at once, or there is
no timeout, or no message for the writer, or the oldest one has not expired. -/
def keepsExpired (queue : Queue) (tag : Nat) (payload : List UInt8) (now : Nat) : Bool :=
  match queue.doPush tag payload now with
  | .ok (false, refused) =>
      refused.memory.keepaliveTimeout = 0 || refused.count = 0 ||
        match refused.baseGetMessage with
        | .ok desc =>
            match desc.first with
            | [] => true
            | position :: _ => timestamp refused.memory.data position >
                sub64 now refused.memory.keepaliveTimeout
        | .error _ => false
  | _ => true

theorem keepsExpired_of_timeout {tag now count : Nat} {payload : List UInt8}
    {entry : Entry} {accepted : Bool} {memory : QueueMemory}
    (result : queue.doPush tag payload now =
      .ok (accepted, ⟨memory, queue.collector count⟩))
    (pushes : Pushes queue.memory memory ledger count entry accepted)
    (noTimeout : queue.memory.keepaliveTimeout = 0) :
    queue.keepsExpired tag payload now = true := by
  rw [keepsExpired, result]
  cases accepted with
  | true => rfl
  | false => simp [pushes.settings.keepaliveTimeout, noTimeout]

theorem push_of_keepsExpired (counted : queue.self.type ≠ .simple)
    (plain : queue.self.type ≠ .smart)
    (tracks : Tracks queue.memory ledger) (walkable : queue.Walkable)
    (subscribed : queue.memory.subscriptionsCount = ledger.members.card)
    (few : ledger.members.card < 2 ^ 32) {payload : List UInt8} (nonempty : payload ≠ [])
    {tag now : Nat} (keeps : queue.memory.keepaliveTimeout = 0 ∨
      queue.keepsExpired tag payload now = true) :
    ∃ accepted count memory,
      queue.push tag payload now = .ok (accepted, ⟨memory, queue.collector count⟩) ∧
      Pushes queue.memory memory ledger count
        (queue.pushedEntry tag now payload nonempty) accepted := by
  rcases plain_doPush counted plain tracks walkable subscribed few nonempty tag now with
    ⟨count, accepted, memory, result, pushes⟩
  replace keeps : queue.keepsExpired tag payload now = true :=
    keeps.elim (keepsExpired_of_timeout result pushes) id
  refine ⟨accepted, count, memory, ?_, pushes⟩
  rw [push]
  simp only [result, Bind.bind, Except.bind]
  cases accepted with
  | true => rfl
  | false =>
      rw [if_neg (by simp)]
      by_cases timeout : memory.keepaliveTimeout > 0
      · rw [if_pos timeout]
        have positive : ¬memory.keepaliveTimeout = 0 := by omega
        simp only [keepsExpired, result, decide_eq_false positive, Bool.false_or,
          Bool.or_eq_true, decide_eq_true_iff] at keeps
        have positive : ∃ fuel, 2 ^ 32 = fuel + 1 := ⟨2 ^ 32 - 1, rfl⟩
        rcases positive with ⟨fuel, isFuel⟩
        simp only [isFuel, removeExpired, empty]
        rcases keeps with isEmpty | fresh
        · rw [if_pos (decide_eq_true isEmpty)]
          rfl
        · by_cases isEmpty : (Queue.mk memory (queue.collector count)).count = 0
          · rw [if_pos (decide_eq_true isEmpty)]
            rfl
          · rw [if_neg (by simpa using isEmpty)]
            have gets : (Queue.mk memory (queue.collector count)).getMessage = (do
                let desc ← (Queue.mk memory (queue.collector count)).baseGetMessage
                return (desc, Queue.mk memory (queue.collector count))) := by
              rw [getMessage, collector_type]
              cases kind : queue.self.type <;> first | rfl | exact absurd kind plain
            rw [gets]
            cases reads : (Queue.mk memory (queue.collector count)).baseGetMessage with
            | error fault => simp [reads] at fresh
            | ok desc =>
                cases first : desc.first with
                | nil => simp [Bind.bind, Except.bind, pure, Except.pure, first]
                | cons position rest =>
                    simp only [reads, first, decide_eq_true_iff] at fresh
                    simp only [Bind.bind, Except.bind, pure, Except.pure, first,
                      if_pos fresh]
      · rw [if_neg timeout]
        rfl

end Queue

end Qbus
