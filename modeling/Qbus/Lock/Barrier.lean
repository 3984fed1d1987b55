import Qbus.Foundation.MachineWord
import Qbus.Foundation.Threads

/-! # `shared_barrier`

The barrier under the connectors' protocol: a reader that finds the queue empty
knocks while it holds the sharable lock, gives the lock back and waits; a writer
opens the barrier while it holds the exclusive lock. The atomic steps are the
sections under the barrier's mutex and the operations of its semaphore; the loop
of `open` moves one waiter at a time and keeps the mutex. -/

namespace Qbus

structure SharedBarrier where
  /-- The value of the semaphore. -/
  mBarrier : Nat := 0
  mCounter1 : Nat := 0
  mCounter2 : Nat := 0
deriving DecidableEq, Repr

namespace SharedBarrier

def releaseOne (barrier : SharedBarrier) : SharedBarrier where
  mBarrier := barrier.mBarrier + 1
  mCounter1 := MachineWord.sub32 barrier.mCounter1 1
  mCounter2 := (barrier.mCounter2 + 1) % 2 ^ 32

def register (barrier : SharedBarrier) : SharedBarrier :=
  { barrier with mCounter1 := (barrier.mCounter1 + 1) % 2 ^ 32 }

def take (barrier : SharedBarrier) : SharedBarrier :=
  { barrier with mBarrier := barrier.mBarrier - 1 }

def acknowledge (barrier : SharedBarrier) : SharedBarrier :=
  { barrier with mCounter2 := MachineWord.sub32 barrier.mCounter2 1 }

/-- The guarded section of `expect` after an expired wait, with its result. -/
def giveUp (barrier : SharedBarrier) : Bool × SharedBarrier :=
  if barrier.mCounter2 = 0 then
    (false, { barrier with mCounter1 := MachineWord.sub32 barrier.mCounter1 1 })
  else
    (true, barrier.acknowledge)

/-! ## The protocol -/

structure Gate where
  barrier : SharedBarrier := {}
  /-- `open` holds the mutex. -/
  guarded : Bool := false
  /-- The exclusive lock is held. -/
  writer : Bool := false
  /-- The number of sharable locks held. -/
  readers : Nat := 0
  /-- How often `open` has been called. -/
  opens : Nat := 0
deriving DecidableEq, Repr

inductive Place
  | outside
  /-- Holds the sharable lock. -/
  | sharing
  /-- In the loop of `knock`. -/
  | knocking
  /-- Past the loop of `knock`. -/
  | registering
  /-- Has knocked and still holds the sharable lock. -/
  | registered (since : Nat)
  | expecting (since : Nat)
  /-- The wait on the semaphore has expired. -/
  | expired (since : Nat)
  /-- The wait on the semaphore has succeeded. -/
  | taken (since : Nat)
  /-- Holds the exclusive lock. -/
  | pushing
  | opening
deriving DecidableEq, Repr

inductive Event
  | lockSharable
  | found
  | empty
  | spin
  | pass
  | knock
  | unlockSharable
  | wait
  | expire
  | acknowledge
  | giveUp (result : Bool)
  | lock
  | openBarrier
  | releaseOne
  | finish
  | unlock
deriving DecidableEq, Repr

inductive Acts : Gate → Place → Event → Gate → Place → Prop
  | lockSharable {gate : Gate} : gate.writer = false →
      Acts gate .outside .lockSharable { gate with readers := gate.readers + 1 } .sharing
  | found {gate : Gate} :
      Acts gate .sharing .found { gate with readers := gate.readers - 1 } .outside
  | empty {gate : Gate} : Acts gate .sharing .empty gate .knocking
  | spin {gate : Gate} : gate.barrier.mCounter2 > 0 → Acts gate .knocking .spin gate .knocking
  | pass {gate : Gate} : ¬gate.barrier.mCounter2 > 0 →
      Acts gate .knocking .pass gate .registering
  | knock {gate : Gate} : gate.guarded = false →
      Acts gate .registering .knock { gate with barrier := gate.barrier.register }
        (.registered gate.opens)
  | unlockSharable {gate : Gate} {since : Nat} :
      Acts gate (.registered since) .unlockSharable { gate with readers := gate.readers - 1 }
        (.expecting since)
  | wait {gate : Gate} {since : Nat} : gate.barrier.mBarrier > 0 →
      Acts gate (.expecting since) .wait { gate with barrier := gate.barrier.take }
        (.taken since)
  | expire {gate : Gate} {since : Nat} :
      Acts gate (.expecting since) .expire gate (.expired since)
  | acknowledge {gate : Gate} {since : Nat} : gate.guarded = false →
      Acts gate (.taken since) .acknowledge { gate with barrier := gate.barrier.acknowledge }
        .outside
  | giveUp {gate : Gate} {since : Nat} {result : Bool} {next : SharedBarrier} :
      gate.guarded = false → gate.barrier.giveUp = (result, next) →
      Acts gate (.expired since) (.giveUp result) { gate with barrier := next } .outside
  | lock {gate : Gate} : gate.writer = false → gate.readers = 0 →
      Acts gate .outside .lock { gate with writer := true } .pushing
  | openBarrier {gate : Gate} : gate.guarded = false →
      Acts gate .pushing .openBarrier { gate with guarded := true, opens := gate.opens + 1 } .opening
  | releaseOne {gate : Gate} : gate.barrier.mCounter1 > 0 →
      Acts gate .opening .releaseOne { gate with barrier := gate.barrier.releaseOne } .opening
  | finish {gate : Gate} : ¬gate.barrier.mCounter1 > 0 →
      Acts gate .opening .finish { gate with guarded := false } .pushing
  | unlock {gate : Gate} : Acts gate .pushing .unlock { gate with writer := false } .outside

abbrev System := Threads Gate Place

abbrev Step : System → Nat × Event → System → Prop := Threads.Step Acts

def System.start (count : Nat) : System := ⟨{}, List.replicate count .outside⟩

/-! ## What the places count -/

def Place.reads : Place → Nat
  | .sharing | .knocking | .registering | .registered _ => 1
  | _ => 0

def Place.writes : Place → Nat
  | .pushing | .opening => 1
  | _ => 0

def Place.opens : Place → Nat
  | .opening => 1
  | _ => 0

def Place.registers : Place → Nat
  | .registering => 1
  | _ => 0

/-- Registered waiters that opened the barrier counts for, if any, have not
reached yet: `since` is the number of openings when they knocked. -/
def Place.waits (holds : Nat → Bool) : Place → Nat
  | .registered since | .expecting since | .expired since => (holds since).toNat
  | _ => 0

abbrev Place.fresh (opens : Nat) : Place → Nat := Place.waits (· == opens)

abbrev Place.stale (opens : Nat) : Place → Nat := Place.waits (· != opens)

def Place.takes : Place → Nat
  | .taken _ => 1
  | _ => 0

structure Accounts (state : System) : Prop where
  posts : state.shared.barrier.mBarrier ≤ state.shared.barrier.mCounter2
  /-- Outside `open`, the first counter is the number of waiters registered since
  the last opening, and there is one post for every released waiter. -/
  registered : state.shared.guarded = false →
    state.shared.barrier.mCounter1 =
      Threads.total (Place.fresh state.shared.opens) state.places
  released : state.shared.guarded = false →
    state.shared.barrier.mBarrier =
      Threads.total (Place.stale state.shared.opens) state.places
  counted : state.shared.barrier.mCounter2 =
    state.shared.barrier.mBarrier + Threads.total Place.takes state.places
  /-- No counter is decremented at zero. -/
  acknowledges : ∀ {index since : Nat}, state.places[index]? = some (.taken since) →
    0 < state.shared.barrier.mCounter2
  /-- `expect` returns false only when the barrier was not opened since the
  knock. -/
  expires : ∀ {index since : Nat}, state.places[index]? = some (.expired since) →
    state.shared.guarded = false → state.shared.barrier.mCounter2 = 0 →
    0 < state.shared.barrier.mCounter1 ∧ since = state.shared.opens
  /-- When the released waiters have run, the loop of `knock` ends. -/
  ends : state.shared.guarded = false →
    (∀ place ∈ state.places, place.stale state.shared.opens = 0 ∧ place.takes = 0) →
    state.shared.barrier.mCounter2 = 0

/-- A waiter whose wait expired has not been released, and a waiter that
registers does not overflow the counter. -/
def Keeps (state : System) (label : Nat × Event) : Prop :=
  (∀ result, label.2 = .giveUp result → state.shared.barrier.mCounter2 = 0) ∧
  (label.2 = .knock → state.shared.barrier.mCounter1 < 2 ^ 32 - 1)

/-! ## The invariant -/

structure Inv (state : System) : Prop where
  reads : state.shared.readers = Threads.total Place.reads state.places
  writes : state.shared.writer.toNat = Threads.total Place.writes state.places
  excludes : 0 < state.shared.writer.toNat → state.shared.readers = 0
  mutex : state.shared.guarded.toNat = Threads.total Place.opens state.places
  /-- Every waiter is counted by the first counter or has a post. -/
  waits : state.shared.barrier.mCounter1 + state.shared.barrier.mBarrier =
    Threads.total (Place.waits fun _ => true) state.places
  counted : state.shared.barrier.mCounter2 =
    state.shared.barrier.mBarrier + Threads.total Place.takes state.places
  small : state.shared.barrier.mCounter1 + state.shared.barrier.mCounter2 < 2 ^ 32
  /-- A waiter past the loop of `knock` still holds off `open`. -/
  registers : 0 < Threads.total Place.registers state.places →
    state.shared.barrier.mCounter2 = 0
  /-- Nobody knocked after more openings than there were. -/
  past : Threads.total (Place.waits fun since => state.shared.opens < since) state.places = 0
  /-- While `open` is running every waiter is being released. -/
  opening : 0 < state.shared.guarded.toNat →
    Threads.total (Place.fresh state.shared.opens) state.places = 0
  fresh : state.shared.guarded.toNat = 0 →
    Threads.total (Place.fresh state.shared.opens) state.places =
      state.shared.barrier.mCounter1
  /-- A generation of waiters is gone before the next one registers. -/
  generations : state.shared.guarded.toNat = 0 → 0 < state.shared.barrier.mCounter2 →
    state.shared.barrier.mCounter1 = 0

theorem start_inv (count : Nat) : Inv (System.start count) := by
  constructor <;>
    simp [System.start, Threads.total_replicate, Place.reads, Place.writes, Place.opens,
      Place.waits, Place.takes, Place.registers]

theorem Place.reads_of_registers (place : Place) : place.registers ≤ place.reads := by
  cases place <;> simp [Place.registers, Place.reads]

theorem Place.waits_split (opens : Nat) (place : Place) :
    place.waits (fun _ => true) = place.fresh opens + place.stale opens := by
  cases place with
  | registered since | expecting since | expired since =>
      simp only [Place.waits, bne]
      cases since == opens <;> rfl
  | _ => rfl

theorem total_waits (opens : Nat) (places : List Place) :
    Threads.total (Place.waits fun _ => true) places =
      Threads.total (Place.fresh opens) places + Threads.total (Place.stale opens) places := by
  rw [← Threads.total_add]
  exact congrArg (Threads.total · places) (funext (Place.waits_split opens))

theorem Place.waits_mono {few many : Nat → Bool} (implies : ∀ since, few since → many since)
    (place : Place) : place.waits few ≤ place.waits many := by
  cases place with
  | registered since | expecting since | expired since =>
      simp only [Place.waits]
      cases held : few since with
      | false => exact Nat.zero_le _
      | true => rw [implies since held]
  | _ => exact Nat.le_refl _

theorem Inv.accounts {state : System} (inv : Inv state) : Accounts state := by
  have waits := inv.waits
  have counted := inv.counted
  have fresh := inv.fresh
  have split := total_waits state.shared.opens state.places
  have zero : state.shared.guarded = false → state.shared.guarded.toNat = 0 := by simp
  constructor
  case posts => omega
  case registered =>
    intro free
    exact (fresh (zero free)).symm
  case released =>
    intro free
    have same := fresh (zero free)
    omega
  case counted => exact counted
  case acknowledges =>
    intro index since found
    have taken := Threads.le_total Place.takes found
    simp only [Place.takes] at taken
    omega
  case expires =>
    intro index since found free empty
    have same := fresh (zero free)
    have counts := Threads.le_total (Place.waits fun _ => true) found
    have stale := Threads.le_total (Place.stale state.shared.opens) found
    simp only [Place.waits, Bool.toNat_true] at counts
    constructor
    · omega
    · by_contra different
      simp only [Place.waits, bne_iff_ne.mpr different, Bool.toNat_true] at stale
      omega
  case ends =>
    intro free run
    have same := fresh (zero free)
    have stale : Threads.total (Place.stale state.shared.opens) state.places = 0 :=
      Threads.total_eq_zero.mpr fun place member => (run place member).1
    have takes : Threads.total Place.takes state.places = 0 :=
      Threads.total_eq_zero.mpr fun place member => (run place member).2
    omega

theorem Inv.step {state next : System} {label : Nat × Event} (inv : Inv state)
    (stepped : Step state label next) (keeps : Keeps state label) : Inv next := by
  rcases stepped with ⟨found, acted⟩
  rename_i shared nextShared places index place nextPlace event
  have reads := Threads.total_set Place.reads nextPlace found
  have writes := Threads.total_set Place.writes nextPlace found
  have opens := Threads.total_set Place.opens nextPlace found
  have takes := Threads.total_set Place.takes nextPlace found
  have registers := Threads.total_set Place.registers nextPlace found
  have waits := Threads.total_set (Place.waits fun _ => true) nextPlace found
  have fresh := Threads.total_set (Place.fresh shared.opens) nextPlace found
  have past := Threads.total_set (Place.waits fun since => shared.opens < since) nextPlace found
  have registering := Threads.total_mono places Place.reads_of_registers
  have isFresh := Threads.le_total (Place.fresh shared.opens) found
  have isStale := Threads.le_total (Place.stale shared.opens) found
  have isWriter := Threads.le_total Place.writes found
  have isOpening := Threads.le_total Place.opens found
  have split := total_waits shared.opens places
  have expiry := keeps.1
  have room := keeps.2
  have mutexBit := Bool.toNat_le shared.guarded
  have writerBit := Bool.toNat_le shared.writer
  rcases inv with ⟨oldReads, oldWrites, oldExcludes, oldMutex, oldWaits, oldCounted, oldSmall,
    oldRegisters, oldPast, oldOpening, oldFresh, oldGenerations⟩
  rcases shared with ⟨⟨posts, first, second⟩, guarded, writer, readers, opened⟩
  dsimp only at *
  cases acted
  all_goals
    simp only [Place.reads, Place.writes, Place.opens, Place.takes, Place.registers, Place.waits,
      Bool.toNat_true, beq_self_eq_true, Nat.lt_irrefl, decide_false, Bool.toNat_false,
      Nat.add_zero] at reads writes opens takes registers waits fresh past
    simp only [Place.writes, Place.opens, Place.waits] at isFresh isStale isWriter isOpening
  case lockSharable free =>
    simp only at free
    subst free
    constructor <;> dsimp only [Bool.toNat_false] at * <;> omega
  case found | empty | spin | unlockSharable | expire =>
    constructor <;> dsimp only at * <;> omega
  case pass left =>
    constructor <;> dsimp only at * <;> omega
  case knock free =>
    have bound := room rfl
    have kept : (first + 1) % 2 ^ 32 = first + 1 := Nat.mod_eq_of_lt (by omega)
    simp only at free
    subst free
    constructor <;> dsimp only [register, Bool.toNat_false] at * <;> omega
  case wait available =>
    constructor <;> dsimp only [take] at * <;> omega
  case acknowledge free =>
    have less : MachineWord.sub32 second 1 = second - 1 :=
      MachineWord.sub32_of_le (by omega) (by omega)
    simp only at free
    subst free
    constructor <;> dsimp only [SharedBarrier.acknowledge, Bool.toNat_false] at * <;> omega
  case giveUp since result next free gaveUp =>
    have sorted := Place.waits_split opened (.expired since)
    simp only [Place.waits, Bool.toNat_true] at sorted
    have unreleased := expiry _ rfl
    have less : MachineWord.sub32 first 1 = first - 1 :=
      MachineWord.sub32_of_le (by omega) (by omega)
    simp only at free
    subst free
    simp only [SharedBarrier.giveUp, if_pos unreleased, less, Prod.mk.injEq] at gaveUp
    rcases gaveUp with ⟨-, rfl⟩
    constructor <;> dsimp only [Bool.toNat_false] at * <;> omega
  case lock free none =>
    simp only at free none
    subst free
    constructor <;> dsimp only [Bool.toNat_true, Bool.toNat_false] at * <;> omega
  case releaseOne some =>
    simp only at some
    have less : MachineWord.sub32 first 1 = first - 1 :=
      MachineWord.sub32_of_le some (by omega)
    have more : (second + 1) % 2 ^ 32 = second + 1 := Nat.mod_eq_of_lt (by omega)
    constructor <;> dsimp only [SharedBarrier.releaseOne] at * <;> omega
  case finish none =>
    simp only at none
    constructor <;> dsimp only [Bool.toNat_false] at * <;> omega
  case unlock =>
    constructor <;> dsimp only [Bool.toNat_false] at * <;> omega
  case openBarrier free =>
    simp only at free
    subst free
    have later : ∀ since, decide (opened + 1 < since) = true →
        decide (opened < since) = true := by
      intro since
      simp only [decide_eq_true_eq]
      omega
    have next : ∀ since, (since == opened + 1) = true → decide (opened < since) = true := by
      intro since
      simp only [beq_iff_eq, decide_eq_true_eq]
      omega
    have stillPast := Threads.total_mono (places.set index .opening)
      (Place.waits_mono later)
    have allStale : Threads.total (Place.fresh (opened + 1)) (places.set index .opening) ≤
        Threads.total (Place.waits fun since => opened < since) (places.set index .opening) :=
      Threads.total_mono _ (Place.waits_mono next)
    constructor <;> dsimp only [Bool.toNat_true, Bool.toNat_false] at * <;> omega

/-- The balance of the barrier in every run whose steps keep the condition. -/
theorem shared_barrier_accounts {count : Nat} {labels : List (Nat × Event)} {final : System}
    (run : Run (fun state label next => Step state label next ∧ Keeps state label)
      (System.start count) labels final) : Accounts final := by
  apply Inv.accounts
  apply run.invariant Inv _ (start_inv count)
  rintro state label next inv ⟨stepped, keeps⟩
  exact inv.step stepped keeps

/-- One waiter registers and is released. -/
theorem shared_barrier_accounts_released :
    ∃ (labels : List (Nat × Event)) (final : System),
      Run (fun state label next => Step state label next ∧ Keeps state label)
        (System.start 2) labels final ∧
      final.shared.barrier = { mBarrier := 1, mCounter1 := 0, mCounter2 := 1 } ∧
      Accounts final := by
  have run : Run (fun state label next => Step state label next ∧ Keeps state label)
      (System.start 2)
      [(0, .lockSharable), (0, .empty), (0, .pass), (0, .knock), (0, .unlockSharable),
        (1, .lock), (1, .openBarrier), (1, .releaseOne), (1, .finish), (1, .unlock)]
      ⟨{ barrier := { mBarrier := 1, mCounter1 := 0, mCounter2 := 1 }, opens := 1 },
        [.expecting 0, .outside]⟩ :=
    .cons ⟨.act rfl (.lockSharable rfl), by simp [Keeps]⟩
      (.cons ⟨.act rfl .empty, by simp [Keeps]⟩
      (.cons ⟨.act rfl (.pass (by decide)), by simp [Keeps]⟩
      (.cons ⟨.act rfl (.knock rfl), by simp [Keeps]⟩
      (.cons ⟨.act rfl .unlockSharable, by simp [Keeps]⟩
      (.cons ⟨.act rfl (.lock rfl rfl), by simp [Keeps]⟩
      (.cons ⟨.act rfl (.openBarrier rfl), by simp [Keeps]⟩
      (.cons ⟨.act rfl (.releaseOne (by decide)), by simp [Keeps]⟩
      (.cons ⟨.act rfl (.finish (by decide)), by simp [Keeps]⟩
      (.cons ⟨.act rfl .unlock, by simp [Keeps]⟩ .nil)))))))))
  exact ⟨_, _, run, rfl, shared_barrier_accounts run⟩

/-- A wait expires just before the barrier is opened: its waiter leaves a post
behind. The next waiter takes that post at once, and the second counter falls
below zero. -/
theorem shared_barrier_leaves_post :
    ∃ (labels later : List (Nat × Event)) (state final : System),
      Run Step (System.start 3) labels state ∧
      state.shared.barrier = { mBarrier := 1, mCounter1 := 0, mCounter2 := 0 } ∧
      ¬Accounts state ∧ Run Step state later final ∧
      final.shared.barrier = { mBarrier := 0, mCounter1 := 1, mCounter2 := 2 ^ 32 - 1 } := by
  have run : Run Step (System.start 3)
      [(0, .lockSharable), (0, .empty), (0, .pass), (0, .knock), (0, .unlockSharable),
        (0, .expire), (1, .lock), (1, .openBarrier), (1, .releaseOne), (1, .finish),
        (1, .unlock), (0, .giveUp true)]
      ⟨{ barrier := { mBarrier := 1, mCounter1 := 0, mCounter2 := 0 }, opens := 1 },
        [.outside, .outside, .outside]⟩ :=
    .cons (.act rfl (.lockSharable rfl)) (.cons (.act rfl .empty)
      (.cons (.act rfl (.pass (by decide))) (.cons (.act rfl (.knock rfl))
      (.cons (.act rfl .unlockSharable) (.cons (.act rfl .expire)
      (.cons (.act rfl (.lock rfl rfl)) (.cons (.act rfl (.openBarrier rfl))
      (.cons (.act rfl (.releaseOne (by decide))) (.cons (.act rfl (.finish (by decide)))
      (.cons (.act rfl .unlock) (.cons (.act rfl (.giveUp rfl rfl)) .nil)))))))))))
  have rest : Run Step
      ⟨{ barrier := { mBarrier := 1, mCounter1 := 0, mCounter2 := 0 }, opens := 1 },
        [.outside, .outside, .outside]⟩
      [(2, .lockSharable), (2, .empty), (2, .pass), (2, .knock), (2, .unlockSharable),
        (2, .wait), (2, .acknowledge)]
      ⟨{ barrier := { mBarrier := 0, mCounter1 := 1, mCounter2 := 2 ^ 32 - 1 }, opens := 1 },
        [.outside, .outside, .outside]⟩ :=
    .cons (.act rfl (.lockSharable rfl)) (.cons (.act rfl .empty)
      (.cons (.act rfl (.pass (by decide))) (.cons (.act rfl (.knock rfl))
      (.cons (.act rfl .unlockSharable) (.cons (.act rfl (.wait (by decide)))
      (.cons (.act rfl (.acknowledge rfl)) .nil))))))
  refine ⟨_, _, _, _, run, rfl, ?_, rest, rfl⟩
  intro accounts
  exact absurd accounts.posts (by decide)

end SharedBarrier

end Qbus
