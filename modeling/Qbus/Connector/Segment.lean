import Qbus.Foundation.MachineWord
import Qbus.Lock.Spinlock

/-! # Attaching to and detaching from a connector's segment

`do_create`, `do_open` and the destructor of `base_safe_connector` on one segment
that starts out zeroed. Every access to the word of the spinlock, to the attach
counter and to the locker is one step; reading the counter and writing it back
are two. -/

namespace Qbus

structure Segment where
  /-- The word of the spinlock. -/
  word : Nat := Spinlock.lsLocked
  counter : Nat := 0
  lockerBuilt : Bool := false
  barrierBuilt : Bool := false
  queueBuilt : Bool := false
  /-- The locker is held. -/
  held : Bool := false
  /-- How often the barrier has been freed. -/
  barriersFreed : Nat := 0
  /-- How often the locker has been destroyed. -/
  lockersFreed : Nat := 0
deriving DecidableEq, Repr

namespace Segment

inductive Place
  /-- `do_create` builds the locker. -/
  | creating
  /-- Builds the barrier. -/
  | lockerBuilt
  /-- Locks the locker. -/
  | barrierBuilt
  /-- Creates the queue. -/
  | createLocked
  /-- Reads the counter. -/
  | queueBuilt
  /-- Writes the counter. -/
  | publishing (value : Nat)
  /-- Unlocks the spinlock. -/
  | published
  /-- Unlocks the locker. -/
  | createUnlocking
  /-- The connector is in use; destroys it. -/
  | attached
  /-- No connector; opens one. -/
  | outside
  /-- `do_open` tries the spinlock. -/
  | opening
  /-- Reads the counter. -/
  | checking
  /-- Unlocks the spinlock after the counter was zero. -/
  | refused
  /-- Locks the locker. -/
  | accepted
  /-- Opens the queue. -/
  | openLocked
  /-- Reads the counter. -/
  | queueOpened
  /-- Writes the counter. -/
  | incrementing (value : Nat)
  /-- Unlocks the locker. -/
  | incremented
  /-- Unlocks the spinlock. -/
  | openUnlocking
  /-- The destructor tries the spinlock. -/
  | closing
  /-- Locks the locker. -/
  | closeGuarded
  /-- Frees the queue. -/
  | closeLocked
  /-- Unlocks the locker. -/
  | queueFreed
  /-- Reads the counter. -/
  | closeUnlocked
  /-- Writes the counter. -/
  | decrementing (value : Nat)
  /-- Frees the barrier. -/
  | lastClosing
  /-- Destroys the locker. -/
  | barrierFreed
  /-- Unlocks the spinlock. -/
  | closeUnlocking
deriving DecidableEq, Repr

/-- The next action of a process; there is none while the locker it needs is
held. -/
def proceed (segment : Segment) : Place → Option (Segment × Place)
  | .creating => some ({ segment with lockerBuilt := true }, .lockerBuilt)
  | .lockerBuilt => some ({ segment with barrierBuilt := true }, .barrierBuilt)
  | .barrierBuilt => if segment.held then none else some ({ segment with held := true }, .createLocked)
  | .createLocked => some ({ segment with queueBuilt := true }, .queueBuilt)
  | .queueBuilt => some (segment, .publishing segment.counter)
  | .publishing value => some ({ segment with counter := (value + 1) % 2 ^ 32 }, .published)
  | .published => some ({ segment with word := Spinlock.unlock segment.word }, .createUnlocking)
  | .createUnlocking => some ({ segment with held := false }, .attached)
  | .attached => some (segment, .closing)
  | .outside => some (segment, .opening)
  | .opening =>
      match Spinlock.tryLock segment.word with
      | (true, word) => some ({ segment with word := word }, .checking)
      | (false, word) => some ({ segment with word := word }, .opening)
  | .checking => some (segment, if segment.counter > 0 then .accepted else .refused)
  | .refused => some ({ segment with word := Spinlock.unlock segment.word }, .outside)
  | .accepted => if segment.held then none else some ({ segment with held := true }, .openLocked)
  | .openLocked => some (segment, .queueOpened)
  | .queueOpened => some (segment, .incrementing segment.counter)
  | .incrementing value => some ({ segment with counter := (value + 1) % 2 ^ 32 }, .incremented)
  | .incremented => some ({ segment with held := false }, .openUnlocking)
  | .openUnlocking => some ({ segment with word := Spinlock.unlock segment.word }, .attached)
  | .closing =>
      match Spinlock.tryLock segment.word with
      | (true, word) => some ({ segment with word := word }, .closeGuarded)
      | (false, word) => some ({ segment with word := word }, .closing)
  | .closeGuarded => if segment.held then none else some ({ segment with held := true }, .closeLocked)
  | .closeLocked => some (segment, .queueFreed)
  | .queueFreed => some ({ segment with held := false }, .closeUnlocked)
  | .closeUnlocked => some (segment, .decrementing segment.counter)
  | .decrementing value =>
      some ({ segment with counter := MachineWord.sub32 value 1 },
        if MachineWord.sub32 value 1 = 0 then .lastClosing else .closeUnlocking)
  | .lastClosing =>
      some ({ segment with barriersFreed := segment.barriersFreed + 1 }, .barrierFreed)
  | .barrierFreed =>
      some ({ segment with lockersFreed := segment.lockersFreed + 1 }, .closeUnlocking)
  | .closeUnlocking => some ({ segment with word := Spinlock.unlock segment.word }, .outside)

abbrev System := Threads Segment Place

abbrev program (_ : Unit) : Segment → Place → Option (Segment × Place) := proceed

abbrev Step : System → Nat × Unit → System → Prop := Threads.Step (Threads.Follows program)

def System.start (count : Nat) : System := ⟨{}, .creating :: List.replicate count .outside⟩

/-! ## What the places count -/

def Place.counts : Place → Nat
  | .published | .createUnlocking | .attached | .incremented | .openUnlocking | .closing
  | .closeGuarded | .closeLocked | .queueFreed | .closeUnlocked | .decrementing _ => 1
  | _ => 0

/-- Between the acquisition of the spinlock in `do_open` and its unlock. -/
def Place.opens : Place → Nat
  | .checking | .refused | .accepted | .openLocked | .queueOpened | .incrementing _
  | .incremented | .openUnlocking => 1
  | _ => 0

def Place.closes : Place → Nat
  | .closeGuarded | .closeLocked | .queueFreed | .closeUnlocked | .decrementing _
  | .lastClosing | .barrierFreed | .closeUnlocking => 1
  | _ => 0

/-- `do_open` has seen the counter positive and has not incremented it. -/
def Place.accepts : Place → Nat
  | .accepted | .openLocked | .queueOpened | .incrementing _ => 1
  | _ => 0

/-- Uses the locker, the barrier or the queue, as the creator does not before the
counter is published. -/
def Place.uses (place : Place) : Nat := place.counts + place.accepts

def Place.frees : Place → Nat
  | .lastClosing => 1
  | _ => 0

def Place.destroys : Place → Nat
  | .lastClosing | .barrierFreed => 1
  | _ => 0

def Place.creates : Place → Nat
  | .creating | .lockerBuilt | .barrierBuilt | .createLocked | .queueBuilt | .publishing _ => 1
  | _ => 0

structure Managed (state : System) : Prop where
  /-- Locker, barrier and queue are there whenever they are used. -/
  usable : ∀ {index : Nat} {place : Place}, state.places[index]? = some place →
    0 < place.uses →
    state.shared.lockerBuilt = true ∧ state.shared.barrierBuilt = true ∧
      state.shared.queueBuilt = true ∧ state.shared.barriersFreed = 0 ∧
      state.shared.lockersFreed = 0
  /-- The counter is the number of attached connectors. -/
  counter : state.shared.counter = Threads.total Place.counts state.places
  /-- Once the counter has returned to zero, the barrier and the locker are
  destroyed exactly once. -/
  once : Threads.total Place.creates state.places = 0 → state.shared.counter = 0 →
    state.shared.barriersFreed + Threads.total Place.frees state.places = 1 ∧
      state.shared.lockersFreed + Threads.total Place.destroys state.places = 1
  /-- They are not destroyed before. -/
  early : 0 < Threads.total Place.creates state.places ∨ 0 < state.shared.counter →
    state.shared.barriersFreed = 0 ∧ state.shared.lockersFreed = 0
  /-- Nobody is about to lock, to open the queue or to increment afterwards. -/
  late : 0 < state.shared.barriersFreed ∨ 0 < state.shared.lockersFreed →
    Threads.total Place.accepts state.places = 0

/-- What a process must find before its next action. A swap that finds the word
locked, and so counts as an acquisition, is not made while another process is
between its acquisition and its unlock, except by a process that opens beside
others that open. An increment does not overflow. -/
def Allows (state : System) : Place → Prop
  | .opening => (Spinlock.tryLock state.shared.word).1 = true →
      Threads.total Place.closes state.places = 0
  | .closing => (Spinlock.tryLock state.shared.word).1 = true →
      Threads.total Place.opens state.places + Threads.total Place.closes state.places = 0
  | .incrementing _ => state.shared.counter < 2 ^ 32 - 1
  | _ => True

instance (state : System) : DecidablePred (Allows state) := fun place => by
  cases place <;> unfold Allows <;> infer_instance

def Keeps (state : System) (label : Nat × Unit) : Prop :=
  ∀ place ∈ state.places[label.1]?, Allows state place

instance (state : System) : DecidablePred (Keeps state) := fun label =>
  inferInstanceAs (Decidable (∀ place ∈ state.places[label.1]?, Allows state place))

/-! ## The invariant -/

def Place.holds : Place → Nat
  | .createLocked | .queueBuilt | .publishing _ | .published | .createUnlocking
  | .openLocked | .queueOpened | .incrementing _ | .incremented
  | .closeLocked | .queueFreed => 1
  | _ => 0

def Place.noLocker : Place → Nat
  | .creating => 1
  | _ => 0

def Place.noBarrier : Place → Nat
  | .creating | .lockerBuilt => 1
  | _ => 0

def Place.noQueue : Place → Nat
  | .creating | .lockerBuilt | .barrierBuilt | .createLocked => 1
  | _ => 0

/-- The process has read a value of the counter that satisfies the test and is
about to write the next one. -/
def Place.pending (test : Nat → Bool) : Place → Nat
  | .publishing value | .incrementing value | .decrementing value => (test value).toNat
  | _ => 0

abbrev Place.outdated (counter : Nat) : Place → Nat := Place.pending (· != counter)

def Locked (state : System) : Prop :=
  state.shared.held.toNat = Threads.total Place.holds state.places

structure Built (state : System) : Prop where
  locker : state.shared.lockerBuilt.toNat + Threads.total Place.noLocker state.places = 1
  barrier : state.shared.barrierBuilt.toNat + Threads.total Place.noBarrier state.places = 1
  queue : state.shared.queueBuilt.toNat + Threads.total Place.noQueue state.places = 1
  creator : Threads.total Place.creates state.places ≤ 1

structure Guarded (state : System) : Prop where
  single : Threads.total Place.closes state.places ≤ 1
  alone : 0 < Threads.total Place.closes state.places →
    Threads.total Place.opens state.places = 0

structure Counted (state : System) : Prop where
  counter : state.shared.counter = Threads.total Place.counts state.places
  small : state.shared.counter < 2 ^ 32
  /-- Before the creator publishes the counter nobody is attached. -/
  unpublished : 0 < Threads.total Place.creates state.places →
    state.shared.counter = 0 ∧ Threads.total Place.accepts state.places = 0 ∧
      state.shared.barriersFreed = 0 ∧ state.shared.lockersFreed = 0 ∧
      Threads.total Place.frees state.places = 0 ∧
      Threads.total Place.destroys state.places = 0
  accepts : 0 < Threads.total Place.accepts state.places → 0 < state.shared.counter
  /-- No counter value that was read is overtaken. -/
  pending : Threads.total (Place.outdated state.shared.counter) state.places = 0
  alive : 0 < state.shared.counter →
    state.shared.barriersFreed = 0 ∧ state.shared.lockersFreed = 0 ∧
      Threads.total Place.frees state.places = 0 ∧
      Threads.total Place.destroys state.places = 0
  dead : Threads.total Place.creates state.places = 0 → state.shared.counter = 0 →
    state.shared.barriersFreed + Threads.total Place.frees state.places = 1 ∧
      state.shared.lockersFreed + Threads.total Place.destroys state.places = 1

structure Inv (state : System) : Prop where
  locked : Locked state
  built : Built state
  guarded : Guarded state
  counted : Counted state

theorem start_inv (count : Nat) : Inv (System.start count) := by
  constructor
  · simp [Locked, System.start, Threads.total_replicate, Place.holds]
  · constructor <;>
      simp [System.start, Threads.total_replicate, Place.noLocker, Place.noBarrier,
        Place.noQueue, Place.creates]
  · constructor <;> simp [System.start, Threads.total_replicate, Place.closes, Place.opens]
  · constructor <;>
      simp [System.start, Threads.total_replicate, Place.counts, Place.creates, Place.accepts,
        Place.pending, Place.frees, Place.destroys]

theorem Place.pending_le_holds (place : Place) :
    place.pending (fun _ => true) ≤ place.holds + place.closes := by
  cases place <;> simp [Place.pending, Place.holds, Place.closes]

theorem Place.pending_le_opens (place : Place) :
    place.pending (fun _ => true) ≤ place.creates + (place.opens + place.closes) := by
  cases place <;> simp [Place.pending, Place.creates, Place.opens, Place.closes]

theorem Place.pending_le_counts (place : Place) :
    place.pending (fun _ => true) ≤ place.creates + (place.accepts + place.counts) := by
  cases place <;> simp [Place.pending, Place.creates, Place.accepts, Place.counts]

theorem Place.pending_mono (test : Nat → Bool) (place : Place) :
    place.pending test ≤ place.pending fun _ => true := by
  cases place with
  | publishing value | incrementing value | decrementing value => exact Bool.toNat_le _
  | _ => exact Nat.le_refl _

theorem Place.accepts_le_opens (place : Place) : place.accepts ≤ place.opens := by
  cases place <;> simp [Place.accepts, Place.opens]

theorem Place.noQueue_le_creates (place : Place) :
    place.noLocker ≤ place.noQueue ∧ place.noBarrier ≤ place.noQueue ∧
      place.noQueue ≤ place.creates := by
  cases place <;> simp [Place.noLocker, Place.noBarrier, Place.noQueue, Place.creates]

section Steps

variable {state next : System} {label : Nat × Unit}

theorem Locked.step (locked : Locked state) (stepped : Step state label next) : Locked next := by
  rcases stepped with ⟨found, acted⟩
  rename_i segment nextSegment places index place nextPlace event
  have holds := Threads.total_set Place.holds nextPlace found
  have heldBit := Bool.toNat_le segment.held
  simp only [Locked] at *
  cases place <;> simp only [Threads.Follows, proceed] at acted
  case barrierBuilt | accepted | closeGuarded =>
    split at acted
    · cases acted
    next free =>
      simp only [Bool.not_eq_true] at free
      cases acted
      simp only [Place.holds, free, Bool.toNat_false, Bool.toNat_true] at *
      omega
  case opening | closing | checking | decrementing =>
    split at acted <;> cases acted <;> simp only [Place.holds] at * <;> omega
  all_goals
    cases acted
    simp only [Place.holds, Bool.toNat_false] at *
    omega

theorem Built.frame {segment nextSegment : Segment} {places : List Place} {index : Nat}
    {place nextPlace : Place} (built : Built ⟨segment, places⟩)
    (found : places[index]? = some place)
    (locker : nextSegment.lockerBuilt = segment.lockerBuilt)
    (barrier : nextSegment.barrierBuilt = segment.barrierBuilt)
    (queue : nextSegment.queueBuilt = segment.queueBuilt)
    (noLocker : nextPlace.noLocker = place.noLocker)
    (noBarrier : nextPlace.noBarrier = place.noBarrier)
    (noQueue : nextPlace.noQueue = place.noQueue)
    (creates : nextPlace.creates ≤ place.creates) :
    Built ⟨nextSegment, places.set index nextPlace⟩ := by
  have lockers := Threads.total_set Place.noLocker nextPlace found
  have barriers := Threads.total_set Place.noBarrier nextPlace found
  have queues := Threads.total_set Place.noQueue nextPlace found
  have creators := Threads.total_set Place.creates nextPlace found
  rcases built with ⟨oldLocker, oldBarrier, oldQueue, oldCreator⟩
  dsimp only at oldLocker oldBarrier oldQueue oldCreator
  constructor
  · rw [locker]
    dsimp only
    omega
  · rw [barrier]
    dsimp only
    omega
  · rw [queue]
    dsimp only
    omega
  · dsimp only
    omega

theorem Built.step (built : Built state) (stepped : Step state label next) : Built next := by
  rcases stepped with ⟨found, acted⟩
  rename_i segment nextSegment places index place nextPlace event
  cases place <;> simp only [Threads.Follows, proceed] at acted
  case creating | lockerBuilt | createLocked =>
    have noLocker := Threads.total_set Place.noLocker nextPlace found
    have noBarrier := Threads.total_set Place.noBarrier nextPlace found
    have noQueue := Threads.total_set Place.noQueue nextPlace found
    have creates := Threads.total_set Place.creates nextPlace found
    rcases built with ⟨locker, barrier, queue, creator⟩
    cases acted
    simp only [Place.noLocker, Place.noBarrier, Place.noQueue, Place.creates] at *
    constructor <;> simp only [Bool.toNat_true] <;> omega
  case barrierBuilt | accepted | closeGuarded =>
    split at acted <;> cases acted
    exact built.frame found rfl rfl rfl rfl rfl rfl (Nat.le_refl _)
  case opening | closing | checking | decrementing =>
    split at acted <;> cases acted <;>
      exact built.frame found rfl rfl rfl rfl rfl rfl (Nat.le_refl _)
  all_goals
    cases acted
    exact built.frame found rfl rfl rfl rfl rfl rfl (by simp [Place.creates])

theorem Guarded.step (guarded : Guarded state) (stepped : Step state label next)
    (keeps : Keeps state label) : Guarded next := by
  rcases stepped with ⟨found, acted⟩
  rename_i segment nextSegment places index place nextPlace event
  have closes := Threads.total_set Place.closes nextPlace found
  have opens := Threads.total_set Place.opens nextPlace found
  rcases guarded with ⟨single, alone⟩
  have allows := keeps place found
  dsimp only at single alone
  cases place <;> simp only [Threads.Follows, proceed] at acted
  case opening =>
    split at acted <;> rename_i tried <;> cases acted <;>
      simp only [Place.closes, Place.opens] at closes opens
    · have none := allows (congrArg Prod.fst tried)
      dsimp only at none
      constructor <;> dsimp only <;> omega
    · constructor <;> dsimp only <;> omega
  case closing =>
    split at acted <;> rename_i tried <;> cases acted <;>
      simp only [Place.closes, Place.opens] at closes opens
    · have none := allows (congrArg Prod.fst tried)
      dsimp only at none
      constructor <;> dsimp only <;> omega
    · constructor <;> dsimp only <;> omega
  case barrierBuilt | accepted | closeGuarded | checking | decrementing =>
    split at acted <;> cases acted <;> simp only [Place.closes, Place.opens] at closes opens <;>
      constructor <;> dsimp only <;> omega
  all_goals
    cases acted
    simp only [Place.closes, Place.opens] at closes opens
    constructor <;> dsimp only <;> omega

section Writers

variable {index value : Nat}

theorem Inv.publishing (inv : Inv state)
    (found : state.places[index]? = some (.publishing value)) :
    Threads.total (Place.pending fun _ => true) state.places ≤ 1 := by
  have counted := Threads.total_mono state.places Place.pending_le_counts
  have creates := Threads.le_total Place.creates found
  have creator := inv.built.creator
  have counter := inv.counted.counter
  rcases inv.counted.unpublished creates with ⟨zero, none, -⟩
  simp only [Threads.total_add] at counted
  omega

theorem Inv.incrementing (inv : Inv state)
    (found : state.places[index]? = some (.incrementing value)) :
    Threads.total (Place.pending fun _ => true) state.places ≤ 1 := by
  have holders := Threads.total_mono state.places Place.pending_le_holds
  have opens := Threads.le_total Place.opens found
  have alone := inv.guarded.alone
  have locked := inv.locked
  have heldBit := Bool.toNat_le state.shared.held
  simp only [Threads.total_add] at holders
  simp only [Locked] at locked
  simp only [Place.opens] at opens
  omega

theorem Inv.decrementing (inv : Inv state)
    (found : state.places[index]? = some (.decrementing value)) :
    Threads.total (Place.pending fun _ => true) state.places ≤ 1 := by
  have openers := Threads.total_mono state.places Place.pending_le_opens
  have closes := Threads.le_total Place.closes found
  have counts := Threads.le_total Place.counts found
  have single := inv.guarded.single
  have none := inv.guarded.alone closes
  have counter := inv.counted.counter
  have published : Threads.total Place.creates state.places = 0 := by
    by_contra creates
    have zero := (inv.counted.unpublished (Nat.pos_of_ne_zero creates)).1
    simp only [Place.counts] at counts
    omega
  simp only [Threads.total_add] at openers
  omega

end Writers

section Moves

variable {segment nextSegment : Segment} {places : List Place} {index : Nat}
  {place nextPlace : Place}

theorem Counted.frame (counted : Counted ⟨segment, places⟩)
    (found : places[index]? = some place)
    (counter : nextSegment.counter = segment.counter)
    (barriers : nextSegment.barriersFreed = segment.barriersFreed)
    (lockers : nextSegment.lockersFreed = segment.lockersFreed)
    (counts : nextPlace.counts = place.counts) (creates : nextPlace.creates = place.creates)
    (accepts : nextPlace.accepts ≤ place.accepts) (frees : nextPlace.frees = place.frees)
    (destroys : nextPlace.destroys = place.destroys)
    (current : nextPlace.outdated segment.counter = 0) :
    Counted ⟨nextSegment, places.set index nextPlace⟩ := by
  have counting := Threads.total_set Place.counts nextPlace found
  have creating := Threads.total_set Place.creates nextPlace found
  have accepting := Threads.total_set Place.accepts nextPlace found
  have freeing := Threads.total_set Place.frees nextPlace found
  have destroying := Threads.total_set Place.destroys nextPlace found
  have outdating := Threads.total_set (Place.outdated segment.counter) nextPlace found
  rw [counts, Nat.add_right_cancel_iff] at counting
  rw [creates, Nat.add_right_cancel_iff] at creating
  rw [frees, Nat.add_right_cancel_iff] at freeing
  rw [destroys, Nat.add_right_cancel_iff] at destroying
  rcases counted with ⟨oldCounter, oldSmall, oldUnpublished, oldAccepts, oldPending, oldAlive,
    oldDead⟩
  dsimp only at *
  constructor <;>
    simp only [counter, barriers, lockers, counting, creating, freeing, destroying]
  case counter => exact oldCounter
  case small => exact oldSmall
  case unpublished =>
    intro unpublished
    rcases oldUnpublished unpublished with ⟨zero, none, rest⟩
    exact ⟨zero, by omega, rest⟩
  case accepts =>
    intro some
    exact oldAccepts (by omega)
  case pending => omega
  case alive => exact oldAlive
  case dead => exact oldDead

theorem Counted.accept (counted : Counted ⟨segment, places⟩)
    (found : places[index]? = some .checking) (positive : segment.counter > 0) :
    Counted ⟨segment, places.set index .accepted⟩ := by
  have counting := Threads.total_set Place.counts .accepted found
  have creating := Threads.total_set Place.creates .accepted found
  have freeing := Threads.total_set Place.frees .accepted found
  have destroying := Threads.total_set Place.destroys .accepted found
  have outdating := Threads.total_set (Place.outdated segment.counter) .accepted found
  simp only [Place.counts, Place.creates, Place.frees, Place.destroys, Place.pending,
    Nat.add_zero] at counting creating freeing destroying outdating
  rcases counted with ⟨oldCounter, oldSmall, oldUnpublished, -, oldPending, oldAlive, oldDead⟩
  dsimp only at *
  constructor <;> simp only [counting, creating, freeing, destroying]
  case counter => exact oldCounter
  case small => exact oldSmall
  case unpublished =>
    intro unpublished
    exact absurd (oldUnpublished unpublished).1 (Nat.ne_of_gt positive)
  case accepts => exact fun _ => positive
  case pending => exact outdating.trans oldPending
  case alive => exact oldAlive
  case dead => exact oldDead

theorem outdated_after_write (nextPlace : Place) (found : places[index]? = some place)
    (single : Threads.total (Place.pending fun _ => true) places ≤ 1)
    (writes : place.pending (fun _ => true) = 1)
    (written : nextPlace.pending (fun _ => true) = 0) (counter : Nat) :
    Threads.total (Place.outdated counter) (places.set index nextPlace) = 0 := by
  have pending := Threads.total_set (Place.pending fun _ => true) nextPlace found
  have smaller := Threads.total_mono (places.set index nextPlace)
    (Place.pending_mono (· != counter))
  simp only [Place.outdated]
  omega

theorem Counted.current (counted : Counted ⟨segment, places⟩) {value : Nat}
    (found : places[index]? = some place)
    (pending : place.outdated segment.counter = (value != segment.counter).toNat) :
    value = segment.counter := by
  have outdated := Threads.le_total (Place.outdated segment.counter) found
  have none := counted.pending
  dsimp only at none
  rw [pending, none] at outdated
  by_contra different
  rw [bne_iff_ne.mpr different] at outdated
  exact absurd outdated (by decide)

theorem Counted.increment {value : Nat} (counted : Counted ⟨segment, places⟩)
    (found : places[index]? = some place) (current : value = segment.counter)
    (small : segment.counter + 1 < 2 ^ 32)
    (barriers : segment.barriersFreed = 0) (lockers : segment.lockersFreed = 0)
    (counts : nextPlace.counts = place.counts + 1)
    (published : Threads.total Place.creates (places.set index nextPlace) = 0)
    (frees : Threads.total Place.frees (places.set index nextPlace) = 0)
    (destroys : Threads.total Place.destroys (places.set index nextPlace) = 0)
    (written : ∀ counter, Threads.total (Place.outdated counter)
      (places.set index nextPlace) = 0) :
    Counted ⟨{ segment with counter := (value + 1) % 2 ^ 32 },
      places.set index nextPlace⟩ := by
  have counting := Threads.total_set Place.counts nextPlace found
  have old := counted.counter
  have more : (value + 1) % 2 ^ 32 = segment.counter + 1 := by
    rw [current]
    exact Nat.mod_eq_of_lt small
  dsimp only at old
  rw [more]
  constructor <;> dsimp only
  case counter => omega
  case small => omega
  case unpublished => omega
  case accepts => omega
  case pending => exact written _
  case alive => exact fun _ => ⟨barriers, lockers, frees, destroys⟩
  case dead => omega

end Moves

theorem Counted.published {segment : Segment} {places : List Place}
    (counted : Counted ⟨segment, places⟩) (positive : 0 < segment.counter) :
    Threads.total Place.creates places = 0 := by
  by_contra creates
  have zero := (counted.unpublished (Nat.pos_of_ne_zero creates)).1
  dsimp only at zero
  omega

theorem Inv.publish {segment : Segment} {places : List Place} {index value : Nat}
    (inv : Inv ⟨segment, places⟩) (found : places[index]? = some (.publishing value)) :
    Counted ⟨{ segment with counter := (value + 1) % 2 ^ 32 },
      places.set index .published⟩ := by
  have current := inv.counted.current found rfl
  have creates := Threads.le_total Place.creates found
  have creating := Threads.total_set Place.creates .published found
  have freeing := Threads.total_set Place.frees .published found
  have destroying := Threads.total_set Place.destroys .published found
  have creator := inv.built.creator
  rcases inv.counted.unpublished creates with ⟨zero, -, barriers, lockers, frees, destroys⟩
  have written := outdated_after_write .published found (inv.publishing found) rfl
    rfl
  simp only [Place.creates, Place.frees, Place.destroys] at *
  exact inv.counted.increment found current (by omega) barriers lockers rfl (by omega) (by omega)
    (by omega) written

theorem Inv.increment {segment : Segment} {places : List Place} {index value : Nat}
    (inv : Inv ⟨segment, places⟩) (found : places[index]? = some (.incrementing value))
    (room : segment.counter < 2 ^ 32 - 1) :
    Counted ⟨{ segment with counter := (value + 1) % 2 ^ 32 },
      places.set index .incremented⟩ := by
  have current := inv.counted.current found rfl
  have accepts := Threads.le_total Place.accepts found
  have creating := Threads.total_set Place.creates .incremented found
  have freeing := Threads.total_set Place.frees .incremented found
  have destroying := Threads.total_set Place.destroys .incremented
    found
  have positive := inv.counted.accepts accepts
  have published := inv.counted.published positive
  rcases inv.counted.alive positive with ⟨barriers, lockers, frees, destroys⟩
  have written := outdated_after_write .incremented found
    (inv.incrementing found) rfl rfl
  simp only [Place.creates, Place.frees, Place.destroys] at *
  exact inv.counted.increment found current (by omega) barriers lockers rfl (by omega) (by omega)
    (by omega) written

theorem Inv.decrement {segment : Segment} {places : List Place} {index value : Nat}
    (inv : Inv ⟨segment, places⟩) (found : places[index]? = some (.decrementing value)) :
    Counted ⟨{ segment with counter := MachineWord.sub32 value 1 }, places.set index
      (if MachineWord.sub32 value 1 = 0 then .lastClosing else .closeUnlocking)⟩ := by
  have current := inv.counted.current found rfl
  have counts := Threads.le_total Place.counts found
  have closes := Threads.le_total Place.closes found
  have counter := inv.counted.counter
  have small := inv.counted.small
  dsimp only [Place.counts] at counts counter small
  have positive : 0 < segment.counter := by omega
  have published := inv.counted.published positive
  rcases inv.counted.alive positive with ⟨barriers, lockers, frees, destroys⟩
  have unopened := inv.guarded.alone closes
  have less : MachineWord.sub32 value 1 = segment.counter - 1 := by
    rw [current]
    exact MachineWord.sub32_of_le positive small
  rw [less]
  generalize moved : (if segment.counter - 1 = 0 then Place.lastClosing
    else Place.closeUnlocking) = nextPlace
  have counting := Threads.total_set Place.counts nextPlace found
  have creating := Threads.total_set Place.creates nextPlace found
  have accepting := Threads.total_set Place.accepts nextPlace found
  have freeing := Threads.total_set Place.frees nextPlace found
  have destroying := Threads.total_set Place.destroys nextPlace found
  have acceptsOpens := Threads.total_mono places Place.accepts_le_opens
  have written : nextPlace.pending (fun _ => true) = 0 := by
    rw [← moved]
    split <;> rfl
  have outdated := outdated_after_write nextPlace found (inv.decrementing found) rfl written
    (segment.counter - 1)
  dsimp only at barriers lockers frees destroys unopened
  by_cases last : segment.counter - 1 = 0
  · rw [if_pos last] at moved
    subst moved
    simp only [Place.counts, Place.creates, Place.accepts, Place.frees, Place.destroys]
      at counting creating accepting freeing destroying
    constructor <;> dsimp only
    case pending => exact outdated
    all_goals omega
  · rw [if_neg last] at moved
    subst moved
    simp only [Place.counts, Place.creates, Place.accepts, Place.frees, Place.destroys]
      at counting creating accepting freeing destroying
    constructor <;> dsimp only
    case pending => exact outdated
    all_goals omega

theorem Counted.dying {segment : Segment} {places : List Place} {index : Nat} {place : Place}
    (counted : Counted ⟨segment, places⟩) (found : places[index]? = some place)
    (destroys : place.destroys = 1) :
    segment.counter = 0 ∧ Threads.total Place.creates places = 0 ∧
      Threads.total Place.counts places = 0 ∧ Threads.total Place.accepts places = 0 := by
  have destroying := Threads.le_total Place.destroys found
  have counter := counted.counter
  have accepts := counted.accepts
  have zero : segment.counter = 0 := by
    by_contra positive
    have none := (counted.alive (Nat.pos_of_ne_zero positive)).2.2.2
    dsimp only at none
    omega
  have published : Threads.total Place.creates places = 0 := by
    by_contra creates
    have none := (counted.unpublished (Nat.pos_of_ne_zero creates)).2.2.2.2.2
    dsimp only at none
    omega
  dsimp only at counter accepts
  exact ⟨zero, published, by omega, by omega⟩

theorem Inv.free {segment : Segment} {places : List Place} {index : Nat}
    (inv : Inv ⟨segment, places⟩) (found : places[index]? = some .lastClosing) :
    Counted ⟨{ segment with barriersFreed := segment.barriersFreed + 1 },
      places.set index .barrierFreed⟩ := by
  rcases inv.counted.dying found rfl with ⟨zero, published, uncounted, unaccepted⟩
  rcases inv.counted.dead published zero with ⟨barriers, lockers⟩
  have counting := Threads.total_set Place.counts .barrierFreed found
  have creating := Threads.total_set Place.creates .barrierFreed found
  have accepting := Threads.total_set Place.accepts .barrierFreed found
  have freeing := Threads.total_set Place.frees .barrierFreed found
  have destroying := Threads.total_set Place.destroys .barrierFreed
    found
  have outdating := Threads.total_set (Place.outdated segment.counter) .barrierFreed found
  have pending := inv.counted.pending
  simp only [Place.counts, Place.creates, Place.accepts, Place.frees, Place.destroys,
    Place.pending] at counting creating accepting freeing destroying outdating
  dsimp only at barriers lockers pending
  constructor <;> dsimp only <;> omega

theorem Inv.destroy {segment : Segment} {places : List Place} {index : Nat}
    (inv : Inv ⟨segment, places⟩) (found : places[index]? = some .barrierFreed) :
    Counted ⟨{ segment with lockersFreed := segment.lockersFreed + 1 },
      places.set index .closeUnlocking⟩ := by
  rcases inv.counted.dying found rfl with ⟨zero, published, uncounted, unaccepted⟩
  rcases inv.counted.dead published zero with ⟨barriers, lockers⟩
  have counting := Threads.total_set Place.counts .closeUnlocking found
  have creating := Threads.total_set Place.creates .closeUnlocking
    found
  have accepting := Threads.total_set Place.accepts .closeUnlocking
    found
  have freeing := Threads.total_set Place.frees .closeUnlocking found
  have destroying := Threads.total_set Place.destroys .closeUnlocking
    found
  have outdating := Threads.total_set (Place.outdated segment.counter) .closeUnlocking found
  have pending := inv.counted.pending
  simp only [Place.counts, Place.creates, Place.accepts, Place.frees, Place.destroys,
    Place.pending] at counting creating accepting freeing destroying outdating
  dsimp only at barriers lockers pending
  constructor <;> dsimp only <;> omega

theorem Counted.step (inv : Inv state) (stepped : Step state label next)
    (keeps : Keeps state label) : Counted next := by
  rcases stepped with ⟨found, acted⟩
  rename_i segment nextSegment places index place nextPlace event
  cases place <;> simp only [Threads.Follows, proceed] at acted
  case publishing =>
    cases acted
    exact inv.publish found
  case incrementing =>
    cases acted
    exact inv.increment found (keeps _ found)
  case decrementing =>
    cases acted
    exact inv.decrement found
  case lastClosing =>
    cases acted
    exact inv.free found
  case barrierFreed =>
    cases acted
    exact inv.destroy found
  case checking =>
    cases acted
    split
    next positive => exact inv.counted.accept found positive
    · exact inv.counted.frame found rfl rfl rfl rfl rfl (Nat.le_refl _) rfl rfl rfl
  case barrierBuilt | accepted | closeGuarded =>
    split at acted <;> cases acted
    exact inv.counted.frame found rfl rfl rfl rfl rfl (Nat.le_refl _) rfl rfl rfl
  case opening | closing =>
    split at acted <;> cases acted <;>
      exact inv.counted.frame found rfl rfl rfl rfl rfl (Nat.le_refl _) rfl rfl rfl
  all_goals
    cases acted
    exact inv.counted.frame found rfl rfl rfl rfl rfl (Nat.le_refl _) rfl rfl
      (by simp [Place.pending])

theorem Inv.step (inv : Inv state) (stepped : Step state label next)
    (keeps : Keeps state label) : Inv next :=
  ⟨inv.locked.step stepped, inv.built.step stepped, inv.guarded.step stepped keeps,
    Counted.step inv stepped keeps⟩

end Steps

theorem Inv.managed {state : System} (inv : Inv state) : Managed state := by
  have counter := inv.counted.counter
  have accepts := inv.counted.accepts
  have unpublished := inv.counted.unpublished
  have alive := inv.counted.alive
  have dead := inv.counted.dead
  constructor
  case usable =>
    intro index place found uses
    have counted := Threads.le_total Place.counts found
    have accepted := Threads.le_total Place.accepts found
    have positive : 0 < state.shared.counter := by
      by_cases counts : 0 < place.counts
      · omega
      · apply accepts
        simp only [Place.uses] at uses
        omega
    have published := inv.counted.published positive
    have noLocker := Threads.total_mono state.places
      fun place => (Place.noQueue_le_creates place).1
    have noBarrier := Threads.total_mono state.places
      fun place => (Place.noQueue_le_creates place).2.1
    have noQueue := Threads.total_mono state.places
      fun place => (Place.noQueue_le_creates place).2.2
    have locker := inv.built.locker
    have barrier := inv.built.barrier
    have queue := inv.built.queue
    have built : ∀ flag : Bool, flag.toNat = 1 → flag = true := by decide
    refine ⟨built _ (by omega), built _ (by omega), built _ (by omega), ?_⟩
    exact ⟨(alive positive).1, (alive positive).2.1⟩
  case counter => exact counter
  case once => exact dead
  case early =>
    rintro (creates | positive)
    · exact ⟨(unpublished creates).2.2.1, (unpublished creates).2.2.2.1⟩
    · exact ⟨(alive positive).1, (alive positive).2.1⟩
  case late =>
    intro freed
    by_contra some
    rcases alive (accepts (Nat.pos_of_ne_zero some)) with ⟨barriers, lockers, -⟩
    omega

/-- The life cycle of a segment in every run whose steps keep the condition. -/
theorem segment_managed {count : Nat} {labels : List (Nat × Unit)} {final : System}
    (run : Run (fun state label next => Step state label next ∧ Keeps state label)
      (System.start count) labels final) : Managed final := by
  apply Inv.managed
  apply run.invariant Inv _ (start_inv count)
  rintro state label next inv ⟨stepped, keeps⟩
  exact inv.step stepped keeps

/-- Creation, and a second process that attaches after a retry. -/
theorem segment_managed_attached :
    ∃ final : System,
      Run (fun state label next => Step state label next ∧ Keeps state label) (System.start 1)
        (List.replicate 8 (0, ()) ++ List.replicate 10 (1, ())) final ∧
      final.places = [.attached, .attached] ∧ Managed final := by
  have followed : Threads.follow program Keeps (System.start 1)
      (List.replicate 8 (0, ()) ++ List.replicate 10 (1, ())) =
        some ⟨{ word := 1, counter := 2, lockerBuilt := true, barrierBuilt := true,
                queueBuilt := true },
          [.attached, .attached]⟩ := by decide +kernel
  have run := Threads.run_of_follow followed
  exact ⟨_, run, rfl, segment_managed run⟩

/-- Process 1 has read a positive counter when the last connector is detached
beside it: the swap of the closing process finds the word locked by process 1 and
takes that for an acquisition. Process 1 goes on with a destroyed locker. -/
theorem segment_used_after_free :
    ∃ (labels : List (Nat × Unit)) (final : System),
      Run Step (System.start 1) labels final ∧
      final.places = [.outside, .accepted] ∧ final.shared.lockersFreed = 1 ∧
      ¬Managed final := by
  have followed : Threads.follow program (fun _ _ => True) (System.start 1)
      (List.replicate 8 (0, ()) ++ List.replicate 4 (1, ()) ++ List.replicate 10 (0, ())) =
        some ⟨{ word := 1, lockerBuilt := true, barrierBuilt := true, queueBuilt := true,
                barriersFreed := 1, lockersFreed := 1 },
          [.outside, .accepted]⟩ := by decide +kernel
  have run := (Threads.run_of_follow followed).mono And.left
  refine ⟨_, _, run, rfl, rfl, ?_⟩
  intro managed
  have none := managed.late (.inl (by decide))
  cases none

end Segment

end Qbus
