import Qbus.Queue.Acceptance
import Qbus.Queue.ForcedRemoval

/-! # The limit of the keep alive timeout

A message is expired when its timestamp is not greater than the clock minus the
timeout. The difference is unsigned: when the clock shows less than the timeout, as
it does shortly after boot, no stored message is younger. -/

namespace Qbus

open ByteMemory Message Placement Storage MachineWord

def QueueMemory.timestamps (memory : QueueMemory) : List Nat :=
  memory.stored.map fun desc => Message.timestamp memory.data (desc.first.headD 0)

namespace Ring

variable {memory : QueueMemory} {log : List Entry} {base : Nat} {refs : Nat → Nat}

theorem timestamps_getElem? (ring : Ring memory log base refs) (offset : Nat) :
    memory.timestamps[offset]? = log[base + offset]?.map Entry.timestamp := by
  rw [QueueMemory.timestamps, List.getElem?_map, ring.stored_getElem?]
  cases found : log[base + offset]? with
  | none => rfl
  | some entry =>
      rcases desc_first memory.capacity
        (start memory.capacity log (base + offset)) entry.size with ⟨rest, first⟩
      have timed := congrArg Header.timestamp
        (ring.view (Nat.le_add_right base offset) found).2.2
      simp only [Option.map_some, first, List.headD_cons]
      exact congrArg some timed

theorem timestamp_lt (ring : Ring memory log base refs) {index : Nat} {entry : Entry}
    (stored : base ≤ index) (found : log[index]? = some entry) : entry.timestamp < 2 ^ 32 := by
  have timed := congrArg Header.timestamp (ring.view stored found).2.2
  change _ = entry.timestamp at timed
  rw [← timed]
  exact readWord_lt _ _

end Ring

namespace Queue

variable {queue next : Queue} {log : List Entry} {base gone : Nat} {accepted : Bool}

/-- What is asked of a push of `payload` at `now` with a timeout: it removes the first
`gone` messages, each of them expired, and stops as soon as the new message fits or
the oldest message is not expired. -/
structure RemovesExpired (queue next : Queue) (tag : Nat) (payload : List UInt8)
    (now gone : Nat) (accepted : Bool) : Prop where
  inside : gone ≤ queue.memory.count
  kept : ∃ messages, queue.memory.Stores messages ∧ next.memory.Stores (messages.drop gone ++
    if accepted then [⟨tag % 2 ^ 32, payload.length, payload⟩] else [])
  expired : ∀ timestamp ∈ queue.memory.timestamps.take gone,
    queue.memory.keepaliveTimeout ≤ now - timestamp
  needed : ∀ offset < gone, ¬payload.length ≤ (queue.memory.removed offset).room
  fits : accepted = true ↔ payload.length ≤ (queue.memory.removed gone).room
  stops : accepted = false → gone = queue.memory.count ∨
    ∃ timestamp, queue.memory.timestamps[gone]? = some timestamp ∧
      now - timestamp < queue.memory.keepaliveTimeout

theorem RemovesExpired.count {tag now : Nat} {payload : List UInt8}
    (removes : RemovesExpired queue next tag payload now gone accepted) :
    next.memory.count + gone = queue.memory.count + accepted.toNat := by
  rcases removes.kept with ⟨messages, before, after⟩
  have inside := removes.inside
  have length := after.counted
  rw [before.counted] at inside ⊢
  rw [length]
  cases accepted <;> simp <;> omega

/-- With a limit that has not wrapped around exactly the expired messages are removed. -/
theorem removesExpired_of_limit (ring : Ring queue.memory log base fun _ => 0)
    {payload : List UInt8} (nonempty : payload ≠ []) {tag now : Nat}
    (forced : ForcedPush queue next log base gone (queue.pushedEntry tag now payload nonempty)
      accepted) {limit : Nat}
    (removed : RemovedUntil queue.memory.capacity log base payload.length limit gone accepted)
    (limits : gone = 0 ∧ accepted = true ∨ queue.memory.count = 0 ∨
      ∀ timestamp ∈ queue.memory.timestamps,
        (timestamp ≤ limit ↔ queue.memory.keepaliveTimeout ≤ now - timestamp)) :
    RemovesExpired queue next tag payload now gone accepted := by
  have size : 0 < payload.length := List.length_pos_iff.mpr nonempty
  have inside := forced.inside
  have countEq := ring.countEq
  have fitsIff : ∀ offset ≤ gone, Fits queue.memory.capacity log (base + offset) payload.length ↔
      payload.length ≤ (queue.memory.removed offset).room := by
    intro offset before
    exact (ring.removed (show base + offset ≤ log.length by omega)).fits_iff_le_room size
  have decides : ∀ offset entry, offset < gone ∨ accepted = false →
      log[base + offset]? = some entry →
      (entry.timestamp ≤ limit ↔ queue.memory.keepaliveTimeout ≤ now - entry.timestamp) := by
    intro offset entry removes found
    have below := (List.getElem?_eq_some_iff.mp found).1
    rcases limits with ⟨none, taken⟩ | isEmpty | same
    · rcases removes with before | refused
      · omega
      · rw [taken] at refused
        cases refused
    · omega
    · apply same
      apply List.mem_of_getElem?
      rw [ring.timestamps_getElem? offset, found]
      rfl
  refine ⟨by omega, ⟨_, ring.stores, ?_⟩, ?_, ?_, ?_, ?_⟩
  · have stores := forced.ring.stores
    cases accepted with
    | true =>
        rw [if_pos rfl, List.drop_append_of_le_length inside, List.map_append] at stores
        rw [← List.map_drop, List.drop_drop]
        exact stores
    | false =>
        rw [if_neg (by simp)] at stores
        rw [← List.map_drop, List.drop_drop, if_neg (by simp), List.append_nil]
        exact stores
  · intro timestamp member
    rcases List.mem_iff_getElem?.mp member with ⟨offset, taken⟩
    rcases Nat.lt_or_ge offset gone with before | behind
    · rw [List.getElem?_take_of_lt before, ring.timestamps_getElem?] at taken
      rcases Option.map_eq_some_iff.mp taken with ⟨entry, found, rfl⟩
      exact (decides offset entry (.inl before) found).mp
        (removed.expired _ entry (by omega) (by omega) found)
    · rw [List.getElem?_eq_none (by rw [List.length_take]; omega)] at taken
      cases taken
  · intro offset before
    rw [← fitsIff offset (Nat.le_of_lt before)]
    exact removed.needed _ (by omega) (by omega)
  · rw [← fitsIff gone (Nat.le_refl _)]
    exact removed.fits
  · intro refused
    cases found : log[base + gone]? with
    | none =>
        have beyond := List.getElem?_eq_none_iff.mp found
        exact .inl (by omega)
    | some entry =>
        have young := removed.stops refused entry found
        refine .inr ⟨entry.timestamp, by rw [ring.timestamps_getElem?, found]; rfl, ?_⟩
        have same := decides gone entry (.inr refused) found
        omega

/-- Only expired messages are removed, and no more than needed, if and only if the clock
shows at least the timeout, or the message fits at once, or no message is stored. -/
theorem simple_queue_removes_expired (simple : queue.self.type = .simple)
    (ring : Ring queue.memory log base fun _ => 0)
    (expires : 0 < queue.memory.keepaliveTimeout)
    (bounded : queue.memory.keepaliveTimeout < 2 ^ 32) {payload : List UInt8}
    (nonempty : payload ≠ []) (tag : Nat) {now : Nat} (clock : now < 2 ^ 64)
    (past : ∀ timestamp ∈ queue.memory.timestamps, timestamp ≤ now) :
    (∃ accepted next gone, queue.push tag payload now = .ok (accepted, next) ∧
      RemovesExpired queue next tag payload now gone accepted) ↔
    queue.memory.keepaliveTimeout ≤ now ∨ payload.length ≤ queue.memory.room ∨
      queue.memory.count = 0 := by
  have size : 0 < payload.length := List.length_pos_iff.mpr nonempty
  have countEq := ring.countEq
  have fitsIff := ring.fits_iff_le_room size
  rcases simple_forcedPush simple ring nonempty tag now with
    ⟨accepted, next, gone, pushes, forced, removes⟩
  have removed := removes expires
  have inside := forced.inside
  constructor
  · rintro ⟨accepted', next', gone', pushes', only⟩
    cases pushes.symm.trans pushes'
    refine Decidable.byContradiction fun fails => ?_
    have below : base < log.length := by omega
    have found := List.getElem?_eq_getElem below
    have young := ring.timestamp_lt (Nat.le_refl _) found
    have timed : queue.memory.timestamps[0]? = some (log[base]).timestamp := by
      rw [ring.timestamps_getElem?, Nat.add_zero, found]
      rfl
    -- the limit is greater than all timestamps, so that the first message is removed
    have wrapped : 2 ^ 32 ≤ sub64 now queue.memory.keepaliveTimeout := by
      simp only [sub]
      omega
    have some : gone ≠ 0 := by
      intro none
      subst none
      have refused : accepted = false := by
        rw [← Bool.not_eq_true, removed.fits, Nat.add_zero, fitsIff]
        omega
      have kept := removed.stops refused _ found
      omega
    have number := only.count
    have leftCount := forced.ring.countEq
    have sameNumber : gone' = gone := by
      cases accepted <;> simp at leftCount number <;> omega
    have member : (log[base]).timestamp ∈ queue.memory.timestamps.take gone' := by
      rw [← List.getElem?_take_of_lt (show 0 < gone' by omega)] at timed
      exact List.mem_of_getElem? timed
    have expired := only.expired _ member
    omega
  · intro condition
    refine ⟨accepted, next, gone, pushes, removesExpired_of_limit ring nonempty forced removed ?_⟩
    rcases condition with elapsed | fits | isEmpty
    · right
      right
      intro timestamp member
      have before := past timestamp member
      rw [sub64_of_le elapsed clock]
      omega
    · left
      rw [← fitsIff] at fits
      have none : gone = 0 := by
        refine Decidable.byContradiction fun some => ?_
        exact removed.needed base (Nat.le_refl _) (by omega) fits
      subst none
      exact ⟨rfl, removed.fits.mpr fits⟩
    · exact .inr (.inl isEmpty)

/-- Of two messages the older one is expired, and its place is enough. -/
theorem simple_queue_removes_expired_older : ∃ (queue next : Queue) (accepted : Bool) (gone : Nat),
    queue.memory.timestamps = [100, 195] ∧ queue.memory.keepaliveTimeout = 10 ∧
    queue.push 5 (List.replicate 10 9) 200 = .ok (accepted, next) ∧
    RemovesExpired queue next 5 (List.replicate 10 9) 200 gone accepted := by
  have created : Queue.create .zeros .simple 0 80 1 [] =
      .ok (Queue.created .simple 80 1 []) := rfl
  have stores := simple_created created (by decide) (by decide) 0 0
  have begins : SimpleHolds (World.created 0 (Queue.created .simple 80 1 [])) [] 0 :=
    ⟨stores.ring, stores.types⟩
  rcases World.exists_run (fun world action => action.OnSimple ∧ world.CachesOldest action)
    (show World.runs _ (World.created 0 (Queue.created .simple 80 1 []))
      [(.keepaliveTimeout 10, .done),
        (.push 0 3 (List.replicate 10 7) 100, .pushed true),
        (.push 0 4 (List.replicate 10 8) 195, .pushed true)]
      (fun world => decide ((world.queue 0).self.type = .simple ∧
        world.memory.timestamps = [100, 195] ∧ world.memory.keepaliveTimeout = 10)) = true by
      decide +kernel) with ⟨world, run, observed⟩
  rcases of_decide_eq_true observed with ⟨simple, times, timeout⟩
  rcases begins.run run with ⟨log, base, holds⟩
  have timed : (world.queue 0).memory.timestamps = [100, 195] := times
  have set : (world.queue 0).memory.keepaliveTimeout = 10 := timeout
  rcases (simple_queue_removes_expired simple holds.ring (by rw [set]; decide)
    (by rw [set]; decide) (show List.replicate 10 9 ≠ [] by decide) 5
    (show 200 < 2 ^ 64 by decide) (by rw [timed]; decide)).mpr
      (.inl (by rw [set]; decide)) with ⟨accepted, next, gone, pushes, removes⟩
  exact ⟨world.queue 0, next, accepted, gone, timed, set, pushes, removes⟩

/-- Five seconds after boot a push removes a message of two seconds ago, although the
timeout is ten seconds. -/
theorem simple_queue_removes_young : ∃ world : World,
    Run World.Step (World.created 0 (Queue.created .simple 60 1 []))
      [(.keepaliveTimeout 10, .done),
        (.push 0 3 (List.replicate 20 7) 3, .pushed true)] world ∧
    (∀ timestamp ∈ world.memory.timestamps, timestamp ≤ 5) ∧
    ¬∃ accepted next gone,
      (world.queue 0).push 4 (List.replicate 20 8) 5 = .ok (accepted, next) ∧
      RemovesExpired (world.queue 0) next 4 (List.replicate 20 8) 5 gone accepted := by
  rcases World.exists_run (fun _ _ => True)
    (show World.runs _ (World.created 0 (Queue.created .simple 60 1 []))
      [(.keepaliveTimeout 10, .done),
        (.push 0 3 (List.replicate 20 7) 3, .pushed true)]
      (fun world => decide (world.memory.timestamps = [3] ∧
        world.memory.keepaliveTimeout = 10 ∧ world.memory.count = 1) &&
        match (world.queue 0).push 4 (List.replicate 20 8) 5 with
          | .ok (accepted, next) => decide (accepted = true ∧ next.memory.count = 1)
          | .error _ => false) = true by decide +kernel) with ⟨world, run, observed⟩
  rw [Bool.and_eq_true, decide_eq_true_iff] at observed
  rcases observed with ⟨⟨times, timeout, one⟩, pushed⟩
  refine ⟨world, run.mono (fun step => step.2), by rw [times]; decide, ?_⟩
  rintro ⟨accepted, next, gone, pushes, removes⟩
  rw [pushes] at pushed
  rcases of_decide_eq_true pushed with ⟨rfl, left⟩
  have number := removes.count
  have stored : (world.queue 0).memory.count = 1 := one
  have timed : (world.queue 0).memory.timestamps = [3] := times
  rw [left, stored] at number
  have expired := removes.expired 3
    (by rw [timed, show gone = 1 from Nat.add_left_cancel number]; exact List.mem_singleton_self 3)
  rw [show (world.queue 0).memory.keepaliveTimeout = 10 from timeout] at expired
  exact absurd expired (by decide)

end Queue

end Qbus
