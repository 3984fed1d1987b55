import Qbus.Foundation.Threads

/-! # `spinlock`

The word in shared memory, the compare-and-swap on it, and threads that lock and
unlock. A segment starts with the word zero, which is `LS_LOCKED`: the creator
of the segment unlocks it once without having acquired it. -/

namespace Qbus

namespace Spinlock

def lsLocked : Nat := 0

def lsUnlocked : Nat := 1

/-- Stores `value` when the word is `expected`; returns the old word and the new
one. -/
def atomicCas32 (word value expected : Nat) : Nat × Nat :=
  if word = expected then (word, value) else (word, word)

def tryLock (word : Nat) : Bool × Nat :=
  let (old, stored) := atomicCas32 word lsLocked lsUnlocked
  (old == lsLocked, stored)

def unlock (_ : Nat) : Nat := lsUnlocked

theorem tryLock_locked : tryLock lsLocked = (true, lsLocked) := rfl

theorem tryLock_unlocked : tryLock lsUnlocked = (false, lsLocked) := rfl

/-! ## Threads -/

inductive Place
  /-- The creator of the segment, before its only unlock. -/
  | creating
  | outside
  | locking
  | timedLocking
  | holding
deriving DecidableEq, Repr

inductive Event
  /-- `lock` is called. -/
  | lock
  /-- `timed_lock` is called. -/
  | timedLock
  /-- One compare-and-swap, of `try_lock` or of the loops that call it. -/
  | attempt (acquired : Bool)
  /-- `timed_lock` reads a clock at or after its deadline. -/
  | expire
  | unlock
deriving DecidableEq, Repr

def Event.isAttempt : Event → Bool
  | .attempt _ => true
  | _ => false

def Place.attempted (place : Place) (acquired : Bool) : Place :=
  if acquired then .holding else place

inductive Acts : Nat → Place → Event → Nat → Place → Prop
  | lock {word} : Acts word .outside .lock word .locking
  | timedLock {word} : Acts word .outside .timedLock word .timedLocking
  | attempt {word acquired stored place} :
      place = .outside ∨ place = .locking ∨ place = .timedLocking →
      tryLock word = (acquired, stored) →
      Acts word place (.attempt acquired) stored (place.attempted acquired)
  | expire {word} : Acts word .timedLocking .expire word .outside
  | create {word} : Acts word .creating .unlock (unlock word) .outside
  | unlock {word} : Acts word .holding .unlock (unlock word) .outside

abbrev System := Threads Nat Place

abbrev Step : System → Nat × Event → System → Prop := Threads.Step Acts

def System.start (count : Nat) : System :=
  ⟨lsLocked, .creating :: List.replicate count .outside⟩

def System.AtMostOneHolds (state : System) : Prop :=
  ∀ index other : Nat, state.places[index]? = some .holding →
    state.places[other]? = some .holding → index = other

structure Excludes (count : Nat) (labels : List (Nat × Event)) : Prop where
  single : ∀ {earlier later : List (Nat × Event)} {state : System},
    labels = earlier ++ later → Run Step (System.start count) earlier state →
    state.AtMostOneHolds
  /-- An acquisition reported as failed leaves the word unchanged. -/
  failed : ∀ {earlier later : List (Nat × Event)} {index : Nat} {state next : System},
    labels = earlier ++ (index, .attempt false) :: later →
    Run Step (System.start count) earlier state →
    Step state (index, .attempt false) next → next.shared = state.shared
  /-- Nobody acquires before the first unlock. -/
  fresh : ∀ {earlier later : List (Nat × Event)} {index : Nat},
    labels = earlier ++ (index, .attempt true) :: later →
    ∃ creator : Nat, (creator, .unlock) ∈ earlier

/-! ## Runs without an attempt -/

structure Quiet (state : System) : Prop where
  unheld : ∀ index : Nat, state.places[index]? ≠ some .holding
  word : state.shared = lsLocked ∨ state.shared = lsUnlocked

theorem start_quiet (count : Nat) : Quiet (System.start count) := by
  constructor
  · intro index found
    have member := List.mem_of_getElem? found
    simp [System.start] at member
  · exact .inl rfl

theorem Quiet.step {state next : System} {index : Nat} {event : Event} (quiet : Quiet state)
    (stepped : Step state (index, event) next) (other : event.isAttempt = false) :
    Quiet next ∧ (event = .unlock → next.shared = lsUnlocked) ∧
      (state.shared = lsUnlocked → next.shared = lsUnlocked) := by
  rcases stepped with ⟨found, acted⟩
  rename_i shared nextShared places place nextPlace
  have unheld : nextPlace ≠ .holding := by
    cases acted with
    | attempt => cases other
    | _ => simp
  have word : nextShared = shared ∨ nextShared = lsUnlocked := by
    cases acted with
    | attempt => cases other
    | lock | timedLock | expire => exact .inl rfl
    | create | unlock => exact .inr rfl
  have unlocked : event = .unlock → nextShared = lsUnlocked := by
    intro same
    cases acted <;> first | rfl | cases same
  have before := quiet.word
  simp only at before
  constructor
  · constructor
    · intro position found
      rcases Threads.found_after_set found with ⟨-, same⟩ | ⟨-, before⟩
      · exact unheld same.symm
      · exact quiet.unheld position before
    · rcases word with same | same
      · rw [same]
        exact before
      · exact .inr same
  · constructor
    · exact unlocked
    · intro locked
      rcases word with same | same
      · exact same.trans locked
      · exact same

theorem Quiet.run {state final : System} {labels : List (Nat × Event)} (quiet : Quiet state)
    (run : Run Step state labels final) (others : ∀ label ∈ labels, label.2.isAttempt = false) :
    Quiet final ∧
      (state.shared = lsUnlocked ∨ (∃ index : Nat, (index, .unlock) ∈ labels) →
        final.shared = lsUnlocked) := by
  induction run with
  | nil =>
      refine ⟨quiet, ?_⟩
      rintro (unlocked | ⟨index, member⟩)
      · exact unlocked
      · cases member
  | @cons state label middle labels final first rest induction =>
      rcases quiet.step first (others _ List.mem_cons_self) with ⟨after, unlocks, keeps⟩
      rcases induction after fun label member =>
        others label (List.mem_cons_of_mem _ member) with ⟨ends, unlocked⟩
      refine ⟨ends, ?_⟩
      rintro (before | ⟨index, member⟩)
      · exact unlocked (.inl (keeps before))
      · rcases List.mem_cons.mp member with same | later
        · subst same
          exact unlocked (.inl (unlocks rfl))
        · exact unlocked (.inr ⟨index, later⟩)

/-- The lock excludes along a run exactly when no compare-and-swap is executed
in it: the first one breaks it, whatever it finds. -/
theorem spinlock_excludes {count : Nat} {labels : List (Nat × Event)} {final : System}
    (run : Run Step (System.start count) labels final) :
    Excludes count labels ↔ ∀ label ∈ labels, label.2.isAttempt = false := by
  constructor
  · intro excludes
    by_contra some
    have first : (labels.find? fun label => label.2.isAttempt).isSome := by
      rw [List.find?_isSome]
      simpa using some
    rcases Option.isSome_iff_exists.mp first with ⟨⟨index, event⟩, found⟩
    rcases List.find?_eq_some_iff_append.mp found with ⟨attempted, earlier, later, same, none⟩
    have others : ∀ label ∈ earlier, label.2.isAttempt = false := by
      simpa using none
    subst same
    rcases run.split with ⟨state, before, after⟩
    rcases (start_quiet count).run before others with ⟨quiet, unlocked⟩
    rcases after with _ | ⟨swapped, -⟩
    have step := swapped
    rcases swapped with ⟨-, acted⟩
    cases acted with
    | attempt called swapped =>
        rcases quiet.word with locked | free
        · -- the locked word is acquired, with no unlock before
          simp only at locked
          rw [locked, tryLock_locked] at swapped
          cases swapped
          rcases excludes.fresh rfl with ⟨creator, member⟩
          have wasUnlocked := unlocked (.inr ⟨creator, member⟩)
          rw [locked] at wasUnlocked
          cases wasUnlocked
        · -- on the unlocked word the failed attempt stores the lock
          simp only at free
          rw [free, tryLock_unlocked] at swapped
          cases swapped
          have unchanged := excludes.failed rfl before step
          simp only at unchanged
          rw [free] at unchanged
          cases unchanged
    | _ => cases attempted
  · intro others
    constructor
    · intro earlier later state same before index other found
      subst same
      rcases (start_quiet count).run before fun label member =>
        others label (List.mem_append_left _ member) with ⟨quiet, -⟩
      exact absurd found (quiet.unheld index)
    · intro earlier later index state next same
      subst same
      cases others (index, .attempt false) (by simp)
    · intro earlier later index same
      subst same
      cases others (index, .attempt true) (by simp)

/-- The creator unlocks and thread 1 leaves the lock alone. -/
theorem spinlock_excludes_created : Excludes 1 [(0, .unlock), (1, .lock)] := by
  have run : Run Step (System.start 1) [(0, .unlock), (1, .lock)]
      ⟨lsUnlocked, [.outside, .locking]⟩ :=
    .cons (.act rfl .create) (.cons (.act rfl .lock) .nil)
  exact (spinlock_excludes run).mpr (by simp [Event.isAttempt])

/-- Two threads are inside at once, the first after a retry, the second at its
first attempt. -/
theorem spinlock_admits_two :
    ∃ (labels : List (Nat × Event)) (final : System),
      Run Step (System.start 2) labels final ∧
      final.places = [.outside, .holding, .holding] ∧ ¬Excludes 2 labels := by
  have run : Run Step (System.start 2)
      [(0, .unlock), (1, .lock), (1, .attempt false), (1, .attempt true), (2, .lock),
        (2, .attempt true)] ⟨lsLocked, [.outside, .holding, .holding]⟩ :=
    .cons (.act rfl .create) (.cons (.act rfl .lock)
      (.cons (.act rfl (.attempt (.inr (.inl rfl)) rfl))
        (.cons (.act rfl (.attempt (.inr (.inl rfl)) rfl)) (.cons (.act rfl .lock)
          (.cons (.act rfl (.attempt (.inr (.inl rfl)) rfl)) .nil)))))
  refine ⟨_, _, run, rfl, ?_⟩
  intro excludes
  have same := excludes.single (List.append_nil _).symm run 1 2 rfl rfl
  cases same

end Spinlock

end Qbus
