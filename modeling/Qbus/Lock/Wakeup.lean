import Qbus.Lock.Barrier

/-! # No lost wake-ups

A wait that expires after the barrier was opened leaves its post behind, and the
second counter can fall below zero. What holds in spite of this: no waiter that
an opening released sleeps. A surplus post is taken only by a waiter of a later
generation, which registers when the last one of the generation before is gone. -/

namespace Qbus

namespace SharedBarrier

/-! ## The numbers -/

@[ext] structure Tally where
  posts : Nat
  first : Nat
  second : Nat
  /-- `open` is running. -/
  guarded : Bool
  /-- Waiters registered after the last opening. -/
  fresh : Nat
  /-- Waiters that an opening has released and that have not seen it yet. -/
  stale : Nat
  /-- Waiters that took a post and have not acknowledged it. -/
  takes : Nat
  /-- Threads past the loop of `knock`. -/
  registers : Nat

namespace Tally

inductive Step : Tally → Nat → Tally → Prop
  | pass {tally : Tally} : tally.guarded = false → tally.second = 0 →
      Step tally 0 { tally with registers := tally.registers + 1 }
  | knock {tally : Tally} : tally.guarded = false → 0 < tally.registers →
      Step tally 0 { tally with
        first := (tally.first + 1) % 2 ^ 32
        fresh := tally.fresh + 1
        registers := tally.registers - 1 }
  | takeFresh {tally : Tally} : 0 < tally.posts → 0 < tally.fresh →
      Step tally 0 { tally with
        posts := tally.posts - 1, fresh := tally.fresh - 1, takes := tally.takes + 1 }
  | takeStale {tally : Tally} : 0 < tally.posts → 0 < tally.stale →
      Step tally 0 { tally with
        posts := tally.posts - 1, stale := tally.stale - 1, takes := tally.takes + 1 }
  | acknowledge {tally : Tally} : 0 < tally.takes →
      Step tally 0 { tally with
        second := MachineWord.sub32 tally.second 1, takes := tally.takes - 1 }
  | expireFresh {tally : Tally} : tally.guarded = false → tally.second = 0 → 0 < tally.fresh →
      Step tally 0 { tally with
        first := MachineWord.sub32 tally.first 1, fresh := tally.fresh - 1 }
  | expireStale {tally : Tally} : tally.guarded = false → tally.second = 0 → 0 < tally.stale →
      Step tally 0 { tally with
        first := MachineWord.sub32 tally.first 1, stale := tally.stale - 1 }
  | leaveFresh {tally : Tally} : tally.second ≠ 0 → 0 < tally.fresh →
      Step tally 1 { tally with
        second := MachineWord.sub32 tally.second 1, fresh := tally.fresh - 1 }
  | leaveStale {tally : Tally} : tally.second ≠ 0 → 0 < tally.stale →
      Step tally 1 { tally with
        second := MachineWord.sub32 tally.second 1, stale := tally.stale - 1 }
  | openBarrier {tally : Tally} : tally.registers = 0 →
      Step tally 0 { tally with
        guarded := true, fresh := 0, stale := tally.fresh + tally.stale }
  | release {tally : Tally} : tally.guarded = true → 0 < tally.first →
      Step tally 0 { tally with
        posts := tally.posts + 1
        first := MachineWord.sub32 tally.first 1
        second := (tally.second + 1) % 2 ^ 32 }
  | finish {tally : Tally} : tally.first = 0 → Step tally 0 { tally with guarded := false }
  | quiet {tally : Tally} : Step tally 0 tally

/-- The balance of the numbers when `lost` posts have been left behind. -/
structure Sound (threads lost : Nat) (tally : Tally) : Prop where
  /-- Every waiter is counted by the first counter or has a post. -/
  posts : tally.posts + tally.first = tally.fresh + tally.stale + lost
  /-- The counters add up to the waiters, or the second one is below zero. -/
  counted : tally.first + tally.second = tally.fresh + tally.stale + tally.takes ∨
    tally.first + tally.second = tally.fresh + tally.stale + tally.takes + 2 ^ 32
  word : tally.second < 2 ^ 32
  bounded : tally.first + tally.registers ≤ threads
  /-- The second counter does not rise while a thread is past the loop of `knock`. -/
  registers : 0 < tally.registers → tally.fresh + tally.stale + tally.takes ≤ tally.first
  opening : tally.guarded = true → tally.fresh = 0 ∧ tally.registers = 0
  fresh : tally.guarded = false → tally.fresh ≤ tally.first
  /-- A generation of waiters is gone before the next one registers. -/
  generations : tally.guarded = false → 0 < tally.stale → tally.first = 0

variable {threads lost left : Nat} {tally next : Tally}

theorem pred_cases {second : Nat} (word : second < 2 ^ 32) :
    MachineWord.sub32 second 1 + 1 = second ∨
      second = 0 ∧ MachineWord.sub32 second 1 + 1 = 2 ^ 32 := by
  cases second with
  | zero => exact .inr ⟨rfl, rfl⟩
  | succ second =>
      apply Or.inl
      rw [MachineWord.sub32_of_le (by omega) word]
      rfl

theorem succ_cases {second : Nat} (word : second < 2 ^ 32) :
    (second + 1) % 2 ^ 32 = second + 1 ∨ second + 1 = 2 ^ 32 ∧ (second + 1) % 2 ^ 32 = 0 := by
  omega

theorem Step.of_eq {other : Tally} (step : Step tally left other) (same : next = other) :
    Step tally left next := by
  rw [same]
  exact step

namespace Sound

theorem pass (sound : Sound threads lost tally) (few : threads < 2 ^ 32)
    (free : tally.guarded = false) (empty : tally.second = 0)
    (alone : tally.fresh + tally.stale + tally.takes + (tally.registers + 1) ≤ threads) :
    Sound threads lost { tally with registers := tally.registers + 1 } := by
  rcases sound with ⟨posts, counted, word, bounded, registers, opening, fresh, generations⟩
  constructor
  case bounded | registers => dsimp only; omega
  case opening =>
    intro guarded
    cases free.symm.trans guarded
  all_goals assumption

theorem knock (sound : Sound threads lost tally) (few : threads < 2 ^ 32)
    (free : tally.guarded = false) (some : 0 < tally.registers) :
    Sound threads lost { tally with
      first := (tally.first + 1) % 2 ^ 32
      fresh := tally.fresh + 1
      registers := tally.registers - 1 } := by
  rcases sound with ⟨posts, counted, word, bounded, registers, opening, fresh, generations⟩
  have behind := fresh free
  have past := registers some
  have bound : (tally.first + 1) % 2 ^ 32 = tally.first + 1 := Nat.mod_eq_of_lt (by omega)
  rw [bound]
  constructor
  case word => exact word
  case opening =>
    intro guarded
    cases free.symm.trans guarded
  case generations =>
    intro _ isStale
    have gone := generations free isStale
    dsimp only at isStale
    omega
  all_goals dsimp only; omega

theorem takeFresh (sound : Sound threads lost tally) (some : 0 < tally.posts)
    (isFresh : 0 < tally.fresh) :
    Sound threads lost { tally with
      posts := tally.posts - 1, fresh := tally.fresh - 1, takes := tally.takes + 1 } := by
  rcases sound with ⟨posts, counted, word, bounded, registers, opening, fresh, generations⟩
  constructor
  case posts | counted | registers => dsimp only; omega
  case opening =>
    intro guarded
    have none := opening guarded
    omega
  case fresh =>
    intro free
    exact Nat.le_trans (Nat.sub_le _ _) (fresh free)
  all_goals assumption

theorem takeStale (sound : Sound threads lost tally) (some : 0 < tally.posts)
    (isStale : 0 < tally.stale) :
    Sound threads lost { tally with
      posts := tally.posts - 1, stale := tally.stale - 1, takes := tally.takes + 1 } := by
  rcases sound with ⟨posts, counted, word, bounded, registers, opening, fresh, generations⟩
  constructor
  case posts | counted | registers => dsimp only; omega
  case generations =>
    intro free _
    exact generations free isStale
  all_goals assumption

theorem acknowledge (sound : Sound threads lost tally) (few : threads < 2 ^ 32)
    (some : 0 < tally.takes) :
    Sound threads lost { tally with
      second := MachineWord.sub32 tally.second 1, takes := tally.takes - 1 } := by
  rcases sound with ⟨posts, counted, word, bounded, registers, opening, fresh, generations⟩
  have pred := pred_cases word
  constructor
  case counted | registers => dsimp only; omega
  case word => exact MachineWord.sub32_lt _ _
  all_goals assumption

theorem expireFresh (sound : Sound threads lost tally) (few : threads < 2 ^ 32)
    (free : tally.guarded = false) (isFresh : 0 < tally.fresh) :
    Sound threads lost { tally with
      first := MachineWord.sub32 tally.first 1, fresh := tally.fresh - 1 } := by
  rcases sound with ⟨posts, counted, word, bounded, registers, opening, fresh, generations⟩
  have behind := fresh free
  have less : MachineWord.sub32 tally.first 1 = tally.first - 1 :=
    MachineWord.sub32_of_le (by omega) (by omega)
  rw [less]
  constructor
  case word => exact word
  case opening =>
    intro guarded
    cases free.symm.trans guarded
  case generations =>
    intro _ isStale
    have gone := generations free isStale
    omega
  all_goals dsimp only; omega

theorem second_ne (sound : Sound threads lost tally) (free : tally.guarded = false)
    (isStale : 0 < tally.stale) : tally.second ≠ 0 := by
  have counted := sound.counted
  have gone := sound.generations free isStale
  omega

theorem leaveFresh (sound : Sound threads lost tally) (some : tally.second ≠ 0)
    (isFresh : 0 < tally.fresh) :
    Sound threads (lost + 1) { tally with
      second := MachineWord.sub32 tally.second 1, fresh := tally.fresh - 1 } := by
  rcases sound with ⟨posts, counted, word, bounded, registers, opening, fresh, generations⟩
  have pred := pred_cases word
  constructor
  case posts | counted | registers => dsimp only; omega
  case word => exact MachineWord.sub32_lt _ _
  case opening =>
    intro guarded
    have none := opening guarded
    omega
  case fresh =>
    intro free
    exact Nat.le_trans (Nat.sub_le _ _) (fresh free)
  all_goals assumption

theorem leaveStale (sound : Sound threads lost tally) (some : tally.second ≠ 0)
    (isStale : 0 < tally.stale) :
    Sound threads (lost + 1) { tally with
      second := MachineWord.sub32 tally.second 1, stale := tally.stale - 1 } := by
  rcases sound with ⟨posts, counted, word, bounded, registers, opening, fresh, generations⟩
  have pred := pred_cases word
  constructor
  case posts | counted | registers => dsimp only; omega
  case word => exact MachineWord.sub32_lt _ _
  case generations =>
    intro free _
    exact generations free isStale
  all_goals assumption

theorem openBarrier (sound : Sound threads lost tally) (none : tally.registers = 0) :
    Sound threads lost { tally with
      guarded := true, fresh := 0, stale := tally.fresh + tally.stale } := by
  rcases sound with ⟨posts, counted, word, bounded, registers, opening, fresh, generations⟩
  constructor
  case posts | counted | registers => dsimp only; omega
  case opening =>
    intro _
    exact ⟨rfl, none⟩
  case fresh | generations =>
    intro free
    cases free
  all_goals assumption

theorem release (sound : Sound threads lost tally) (few : threads < 2 ^ 32)
    (guarded : tally.guarded = true) (some : 0 < tally.first)
    (alone : tally.fresh + tally.stale + tally.takes + tally.registers ≤ threads) :
    Sound threads lost { tally with
      posts := tally.posts + 1
      first := MachineWord.sub32 tally.first 1
      second := (tally.second + 1) % 2 ^ 32 } := by
  rcases sound with ⟨posts, counted, word, bounded, registers, opening, fresh, generations⟩
  have none := opening guarded
  have succ := succ_cases word
  have less : MachineWord.sub32 tally.first 1 = tally.first - 1 :=
    MachineWord.sub32_of_le some (by omega)
  rw [less]
  constructor
  case opening => exact opening
  case fresh | generations =>
    intro free
    cases guarded.symm.trans free
  all_goals dsimp only; omega

theorem finish (sound : Sound threads lost tally) (empty : tally.first = 0) :
    Sound threads lost { tally with guarded := false } := by
  rcases sound with ⟨posts, counted, word, bounded, registers, opening, fresh, generations⟩
  constructor
  case opening =>
    intro guarded
    cases guarded
  case fresh =>
    intro _
    cases isGuarded : tally.guarded with
    | true =>
        have none := opening isGuarded
        dsimp only
        omega
    | false => exact fresh isGuarded
  case generations => exact fun _ _ => empty
  all_goals assumption

theorem step (sound : Sound threads lost tally) (few : threads < 2 ^ 32)
    (nextAlone : next.fresh + next.stale + next.takes + next.registers ≤ threads)
    (step : Step tally left next) : Sound threads (lost + left) next := by
  cases step with
  | pass free empty => exact sound.pass few free empty nextAlone
  | knock free some => exact sound.knock few free some
  | takeFresh some isFresh => exact sound.takeFresh some isFresh
  | takeStale some isStale => exact sound.takeStale some isStale
  | acknowledge some => exact sound.acknowledge few some
  | expireFresh free empty isFresh => exact sound.expireFresh few free isFresh
  | expireStale free empty isStale => exact absurd empty (sound.second_ne free isStale)
  | leaveFresh some isFresh => exact sound.leaveFresh some isFresh
  | leaveStale some isStale => exact sound.leaveStale some isStale
  | openBarrier none => exact sound.openBarrier none
  | release guarded some => exact sound.release few guarded some nextAlone
  | finish empty => exact sound.finish empty
  | quiet => exact sound

end Sound

end Tally

/-! ## The barrier moves them -/

def Event.lostPost : Event → Nat
  | .giveUp true => 1
  | _ => 0

def lostPosts (labels : List (Nat × Event)) : Nat :=
  (labels.map fun label => label.2.lostPost).sum

def System.tally (state : System) : Tally where
  posts := state.shared.barrier.mBarrier
  first := state.shared.barrier.mCounter1
  second := state.shared.barrier.mCounter2
  guarded := state.shared.guarded
  fresh := Threads.total (Place.fresh state.shared.opens) state.places
  stale := Threads.total (Place.stale state.shared.opens) state.places
  takes := Threads.total Place.takes state.places
  registers := Threads.total Place.registers state.places

structure Locked (state : System) : Prop where
  reads : state.shared.readers = Threads.total Place.reads state.places
  writes : state.shared.writer.toNat = Threads.total Place.writes state.places
  excludes : 0 < state.shared.writer.toNat → state.shared.readers = 0
  mutex : state.shared.guarded.toNat = Threads.total Place.opens state.places
  past : Threads.total (Place.waits fun since => state.shared.opens < since) state.places = 0

theorem start_locked (count : Nat) : Locked (System.start count) := by
  constructor <;>
    simp [System.start, Threads.total_replicate, Place.reads, Place.writes, Place.opens,
      Place.waits]

theorem Locked.step {state next : System} {label : Nat × Event} (locked : Locked state)
    (stepped : Step state label next) : Locked next := by
  rcases stepped with ⟨found, acted⟩
  rename_i shared nextShared places index place nextPlace event
  have reads := Threads.total_set Place.reads nextPlace found
  have writes := Threads.total_set Place.writes nextPlace found
  have opens := Threads.total_set Place.opens nextPlace found
  have past := Threads.total_set (Place.waits fun since => shared.opens < since) nextPlace found
  have isWriter := Threads.le_total Place.writes found
  have isReader := Threads.le_total Place.reads found
  have writerBit := Bool.toNat_le shared.writer
  have mutexBit := Bool.toNat_le shared.guarded
  rcases locked with ⟨oldReads, oldWrites, oldExcludes, oldMutex, oldPast⟩
  rcases shared with ⟨barrier, guarded, writer, readers, opened⟩
  dsimp only at *
  cases acted
  all_goals
    simp only [Place.reads, Place.writes, Place.opens, Place.waits, Nat.lt_irrefl, decide_false,
      Bool.toNat_false, Nat.add_zero] at reads writes opens past isWriter isReader
  case openBarrier free =>
    simp only at free
    subst free
    have later : ∀ since, decide (opened + 1 < since) = true →
        decide (opened < since) = true := by
      intro since
      simp only [decide_eq_true_eq]
      omega
    have stillPast := Threads.total_mono (places.set index .opening)
      (Place.waits_mono later)
    constructor <;> dsimp only [Bool.toNat_true, Bool.toNat_false] at * <;> omega
  case lockSharable free | lock free none =>
    simp only at free
    subst free
    constructor <;> dsimp only [Bool.toNat_true, Bool.toNat_false] at * <;> omega
  all_goals constructor <;> dsimp only [Bool.toNat_true, Bool.toNat_false] at * <;> omega

theorem Place.writes_of_opens (place : Place) : place.opens ≤ place.writes := by
  cases place <;> simp [Place.opens, Place.writes]

theorem Locked.free {state : System} (locked : Locked state)
    (shared : 0 < Threads.total Place.reads state.places) : state.shared.guarded = false := by
  have opening := Threads.total_mono state.places Place.writes_of_opens
  have reads := locked.reads
  have writes := locked.writes
  have excludes := locked.excludes
  have mutex := locked.mutex
  apply Bool.toNat_eq_zero.mp
  omega

theorem Locked.unregistered {state : System} (locked : Locked state)
    (exclusive : 0 < Threads.total Place.writes state.places) :
    Threads.total Place.registers state.places = 0 := by
  have registering := Threads.total_mono state.places Place.reads_of_registers
  have reads := locked.reads
  have writes := locked.writes
  have excludes := locked.excludes
  omega

theorem Locked.running {state : System} (locked : Locked state)
    (opening : 0 < Threads.total Place.opens state.places) : state.shared.guarded = true := by
  have mutex := locked.mutex
  apply Bool.eq_true_of_not_eq_false
  intro free
  rw [free, Bool.toNat_false] at mutex
  omega

theorem total_leaves {places : List Place} {index since : Nat} {place : Place} (opens : Nat)
    (nextPlace : Place) (found : places[index]? = some place)
    (waited : ∀ holds, place.waits holds = (holds since).toNat)
    (leaves : ∀ holds, nextPlace.waits holds = 0) :
    0 < Threads.total (Place.fresh opens) places ∧
        Threads.total (Place.fresh opens) (places.set index nextPlace) =
          Threads.total (Place.fresh opens) places - 1 ∧
        Threads.total (Place.stale opens) (places.set index nextPlace) =
          Threads.total (Place.stale opens) places ∨
      0 < Threads.total (Place.stale opens) places ∧
        Threads.total (Place.fresh opens) (places.set index nextPlace) =
          Threads.total (Place.fresh opens) places ∧
        Threads.total (Place.stale opens) (places.set index nextPlace) =
          Threads.total (Place.stale opens) places - 1 := by
  have fresh := Threads.total_set (Place.fresh opens) nextPlace found
  have stale := Threads.total_set (Place.stale opens) nextPlace found
  have isFresh := Threads.le_total (Place.fresh opens) found
  have isStale := Threads.le_total (Place.stale opens) found
  simp only [Place.fresh, Place.stale, waited, leaves, Nat.add_zero]
    at fresh stale isFresh isStale ⊢
  by_cases last : since = opens
  · rw [beq_iff_eq.mpr last, Bool.toNat_true] at fresh isFresh
    rw [bne_eq_false_iff_eq.mpr last, Bool.toNat_false] at stale isStale
    omega
  · rw [beq_eq_false_iff_ne.mpr last, Bool.toNat_false] at fresh isFresh
    rw [bne_iff_ne.mpr last, Bool.toNat_true] at stale isStale
    omega

theorem Locked.tally_step {state next : System} {label : Nat × Event} (locked : Locked state)
    (stepped : Step state label next) :
    Tally.Step state.tally label.2.lostPost next.tally := by
  rcases stepped with ⟨found, acted⟩
  rename_i shared nextShared places index place nextPlace event
  have takes := Threads.total_set Place.takes nextPlace found
  have registers := Threads.total_set Place.registers nextPlace found
  have fresh := Threads.total_set (Place.fresh shared.opens) nextPlace found
  have stale := Threads.total_set (Place.stale shared.opens) nextPlace found
  have reading := Threads.le_total Place.reads found
  have writing := Threads.le_total Place.writes found
  have opening := Threads.le_total Place.opens found
  have taking := Threads.le_total Place.takes found
  have registering := Threads.le_total Place.registers found
  rcases shared with ⟨⟨posts, first, second⟩, guarded, writer, readers, opened⟩
  cases acted
  all_goals
    simp only [Place.takes, Place.registers, Place.waits, Place.reads, Place.writes,
      Place.opens, beq_self_eq_true, bne_self_eq_false, Bool.toNat_true, Bool.toNat_false,
      Nat.add_zero]
      at takes registers fresh stale reading writing opening taking registering
  case lockSharable | found | empty | spin | unlockSharable | expire | lock | unlock =>
    apply Tally.Step.of_eq .quiet
    simp only [System.tally, Tally.mk.injEq, true_and]
    omega
  case pass left =>
    apply Tally.Step.of_eq
    · exact .pass (locked.free reading) (Nat.eq_zero_of_not_pos left)
    · simp only [System.tally, Tally.mk.injEq, true_and]
      omega
  case knock free =>
    apply Tally.Step.of_eq
    · exact .knock free registering
    · simp only [System.tally, register, Tally.mk.injEq, true_and]
      omega
  case acknowledge since free =>
    apply Tally.Step.of_eq
    · exact .acknowledge taking
    · simp only [System.tally, SharedBarrier.acknowledge, Tally.mk.injEq, true_and]
      omega
  case releaseOne some =>
    apply Tally.Step.of_eq
    · exact .release (locked.running opening) some
    · simp only [System.tally, releaseOne, Tally.mk.injEq, true_and]
      omega
  case finish none =>
    apply Tally.Step.of_eq
    · exact .finish (Nat.eq_zero_of_not_pos none)
    · simp only [System.tally, Tally.mk.injEq, true_and]
      omega
  case openBarrier free =>
    have past := locked.past
    have nextPast :=
      Threads.total_set (Place.waits fun since => opened < since) Place.opening found
    simp only [Place.waits, Nat.add_zero] at past nextPast
    have split := total_waits (opened + 1) (places.set index .opening)
    have wasSplit := total_waits opened (places.set index .opening)
    have allStale : Threads.total (Place.fresh (opened + 1)) (places.set index .opening) ≤
        Threads.total (Place.waits fun since => opened < since) (places.set index .opening) := by
      apply Threads.total_mono
      apply Place.waits_mono
      intro since
      simp only [beq_iff_eq, decide_eq_true_eq]
      omega
    apply Tally.Step.of_eq
    · exact .openBarrier (locked.unregistered writing)
    · simp only [System.tally, Tally.mk.injEq, true_and]
      omega
  case wait since available =>
    rcases total_leaves opened (.taken since) found (fun _ => rfl) (fun _ => rfl) with
      ⟨isFresh, sameFresh, sameStale⟩ | ⟨isStale, sameFresh, sameStale⟩
    · apply Tally.Step.of_eq
      · exact .takeFresh available isFresh
      · simp only [System.tally, take, Tally.mk.injEq, true_and]
        omega
    · apply Tally.Step.of_eq
      · exact .takeStale available isStale
      · simp only [System.tally, take, Tally.mk.injEq, true_and]
        omega
  case giveUp since result next free gaveUp =>
    have left := total_leaves opened .outside found (fun _ => rfl) (fun _ => rfl)
    rw [SharedBarrier.giveUp] at gaveUp
    split at gaveUp
    case isTrue empty =>
      cases gaveUp
      rcases left with ⟨isFresh, sameFresh, sameStale⟩ | ⟨isStale, sameFresh, sameStale⟩
      · apply Tally.Step.of_eq
        · exact .expireFresh free empty isFresh
        · simp only [System.tally, Tally.mk.injEq, true_and]
          omega
      · apply Tally.Step.of_eq
        · exact .expireStale free empty isStale
        · simp only [System.tally, Tally.mk.injEq, true_and]
          omega
    case isFalse released =>
      cases gaveUp
      rcases left with ⟨isFresh, sameFresh, sameStale⟩ | ⟨isStale, sameFresh, sameStale⟩
      · apply Tally.Step.of_eq
        · exact .leaveFresh released isFresh
        · simp only [System.tally, SharedBarrier.acknowledge, Tally.mk.injEq, true_and]
          omega
      · apply Tally.Step.of_eq
        · exact .leaveStale released isStale
        · simp only [System.tally, SharedBarrier.acknowledge, Tally.mk.injEq, true_and]
          omega

/-! ## Every run -/

structure Balanced (lost : Nat) (state : System) : Prop where
  /-- Every waiter is counted by the first counter or has a post. -/
  posts : state.shared.barrier.mBarrier + state.shared.barrier.mCounter1 =
    Threads.total (Place.waits fun _ => true) state.places + lost
  /-- The second counter misses the posts that were left behind, and wraps. -/
  counted : (state.shared.barrier.mCounter2 + lost) % 2 ^ 32 =
    (state.shared.barrier.mBarrier + Threads.total Place.takes state.places) % 2 ^ 32
  /-- Outside `open` there is a post for every waiter that an opening released. -/
  released : state.shared.guarded = false →
    Threads.total (Place.stale state.shared.opens) state.places ≤ state.shared.barrier.mBarrier
  /-- The next opening makes a post for every other waiter. -/
  registered : state.shared.guarded = false →
    Threads.total (Place.fresh state.shared.opens) state.places ≤ state.shared.barrier.mCounter1
  /-- `expect` returns false only when the barrier was not opened since the
  knock, and it does not decrement the first counter at zero. -/
  expires : ∀ {index since : Nat}, state.places[index]? = some (.expired since) →
    state.shared.guarded = false → state.shared.barrier.mCounter2 = 0 →
    0 < state.shared.barrier.mCounter1 ∧ since = state.shared.opens

structure Kept (threads lost : Nat) (state : System) : Prop where
  length : state.places.length = threads
  locked : Locked state
  sound : state.tally.Sound threads lost

theorem Place.alone (opens : Nat) (place : Place) :
    place.fresh opens + place.stale opens + place.takes + place.registers ≤ 1 := by
  rw [← Place.waits_split opens place]
  cases place <;> simp [Place.waits, Place.takes, Place.registers]

theorem System.tally_alone (state : System) :
    state.tally.fresh + state.tally.stale + state.tally.takes + state.tally.registers ≤
      state.places.length := by
  simp only [System.tally]
  rw [← Threads.total_add, ← Threads.total_add, ← Threads.total_add]
  apply Nat.le_trans (Threads.total_mono state.places (Place.alone state.shared.opens))
  rw [Threads.total, List.map_const', List.sum_replicate, nsmul_eq_mul, Nat.cast_id, Nat.mul_one]

namespace Kept

variable {threads lost : Nat} {state next : System} {label : Nat × Event}

theorem start (count : Nat) : Kept count 0 (System.start count) where
  length := List.length_replicate
  locked := start_locked count
  sound := by
    constructor <;>
      simp [System.tally, System.start, Threads.total_replicate, Place.waits, Place.takes,
        Place.registers]

theorem step (kept : Kept threads lost state) (few : threads < 2 ^ 32)
    (stepped : Step state label next) : Kept threads (lost + label.2.lostPost) next := by
  have sameThreads : next.places.length = threads := by
    rw [← kept.length]
    cases stepped
    exact List.length_set
  have nextAlone := next.tally_alone
  rw [sameThreads] at nextAlone
  exact ⟨sameThreads, kept.locked.step stepped,
    kept.sound.step few nextAlone (kept.locked.tally_step stepped)⟩

theorem run {labels : List (Nat × Event)} (kept : Kept threads lost state)
    (few : threads < 2 ^ 32) (run : Run Step state labels next) :
    Kept threads (lost + lostPosts labels) next := by
  induction run generalizing lost with
  | nil => exact kept
  | @cons _ label _ labels _ first _ induction =>
      have later := induction (kept.step few first)
      rw [Nat.add_assoc] at later
      exact later

theorem balanced (kept : Kept threads lost state) : Balanced lost state := by
  have split := total_waits state.shared.opens state.places
  have posts := kept.sound.posts
  have counted := kept.sound.counted
  have fresh := kept.sound.fresh
  have generations := kept.sound.generations
  simp only [System.tally] at *
  constructor
  case posts => omega
  case counted => omega
  case released =>
    intro free
    have first := generations free
    have next := fresh free
    omega
  case registered =>
    intro free
    exact fresh free
  case expires =>
    intro index since found free empty
    have first := generations free
    have counts := Threads.le_total (Place.waits fun _ => true) found
    have stale := Threads.le_total (Place.stale state.shared.opens) found
    simp only [Place.waits, Bool.toNat_true] at counts
    constructor
    · omega
    · by_contra different
      simp only [Place.waits, bne_iff_ne.mpr different, Bool.toNat_true] at stale
      omega

end Kept

/-- In every run every released waiter has a post. -/
theorem shared_barrier_wakes_released {count : Nat} {labels : List (Nat × Event)}
    {final : System} (few : count < 2 ^ 32) (run : Run Step (System.start count) labels final) :
    Balanced (lostPosts labels) final := by
  have kept := (Kept.start count).run few run
  rw [Nat.zero_add] at kept
  exact kept.balanced

/-- Two waiters register, the barrier is opened, and one of them leaves its post
behind: the other one finds two. -/
theorem shared_barrier_wakes_released_surplus :
    ∃ (labels : List (Nat × Event)) (final : System), Run Step (System.start 3) labels final ∧
      final.shared.barrier = { mBarrier := 2, mCounter1 := 0, mCounter2 := 1 } ∧
      final.places = [.outside, .outside, .expecting 0] ∧
      Balanced 1 final := by
  have run : Run Step (System.start 3)
      [(0, .lockSharable), (2, .lockSharable), (0, .empty), (2, .empty), (0, .pass), (2, .pass),
        (0, .knock), (2, .knock), (0, .unlockSharable), (2, .unlockSharable), (0, .expire),
        (1, .lock), (1, .openBarrier), (1, .releaseOne), (1, .releaseOne), (1, .finish),
        (1, .unlock), (0, .giveUp true)]
      ⟨{ barrier := { mBarrier := 2, mCounter1 := 0, mCounter2 := 1 }, opens := 1 },
        [.outside, .outside, .expecting 0]⟩ :=
    .cons (.act rfl (.lockSharable rfl)) (.cons (.act rfl (.lockSharable rfl))
      (.cons (.act rfl .empty) (.cons (.act rfl .empty)
      (.cons (.act rfl (.pass (by decide))) (.cons (.act rfl (.pass (by decide)))
      (.cons (.act rfl (.knock rfl)) (.cons (.act rfl (.knock rfl))
      (.cons (.act rfl .unlockSharable) (.cons (.act rfl .unlockSharable)
      (.cons (.act rfl .expire) (.cons (.act rfl (.lock rfl rfl))
      (.cons (.act rfl (.openBarrier rfl)) (.cons (.act rfl (.releaseOne (by decide)))
      (.cons (.act rfl (.releaseOne (by decide))) (.cons (.act rfl (.finish (by decide)))
      (.cons (.act rfl .unlock) (.cons (.act rfl (.giveUp rfl rfl)) .nil)))))))))))))))))
  exact ⟨_, _, run, rfl, rfl, shared_barrier_wakes_released (by decide) run⟩

end SharedBarrier

end Qbus
