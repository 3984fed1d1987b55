import Qbus.Foundation.Threads

/-! # The read-write lock `shared_locker`

Every section that a spinlock guards in the source is one function on the two
counters. A thread is between two such sections; `lock` and `timed_lock` need
several of them. -/

namespace Qbus

/-- The largest `unsigned int`. -/
def uintMax : Nat := 2 ^ 32 - 1

structure SharedLocker where
  mScoped : Nat := 0
  mSharable : Nat := 0
deriving DecidableEq, Repr

namespace SharedLocker

inductive LockState
  | lsScoped
  | lsSharable
  | lsNone
deriving DecidableEq, Repr

/-! ## The guarded sections -/

def tryBookLock (locker : SharedLocker) : LockState × SharedLocker :=
  if locker.mScoped = 0 then
    (if locker.mSharable = 0 then .lsNone else .lsSharable, { locker with mScoped := 1 })
  else
    (.lsScoped, locker)

def countSharable (locker : SharedLocker) : Nat := locker.mSharable

def tryLock (locker : SharedLocker) : Bool × SharedLocker :=
  if locker.mScoped = 0 ∧ locker.mSharable = 0 then
    (true, { locker with mScoped := 1 })
  else
    (false, locker)

/-- `none` is the failed assertion. -/
def unlock (locker : SharedLocker) : Option SharedLocker :=
  if locker.mScoped = 1 then some { locker with mScoped := 0 } else none

def tryLockSharable (locker : SharedLocker) : Bool × SharedLocker :=
  if locker.mScoped = 0 ∧ locker.mSharable < uintMax then
    (true, { locker with mSharable := locker.mSharable + 1 })
  else
    (false, locker)

/-- `none` is the failed assertion. -/
def unlockSharable (locker : SharedLocker) : Option SharedLocker :=
  if locker.mSharable > 0 then some { locker with mSharable := locker.mSharable - 1 } else none

/-! ## Threads -/

inductive Call
  | outside
  | locking
  /-- `lock` has booked and waits for the readers. -/
  | waiting
  | timedLocking
  /-- `timed_lock` has booked and waits for the readers. -/
  | timedWaiting
  /-- `timed_lock` ran out of time after booking and is about to unlock. -/
  | cancelling
  | lockingSharable
  | timedLockingSharable
deriving DecidableEq, Repr

structure Thread where
  call : Call := .outside
  exclusive : Nat := 0
  shares : Nat := 0
deriving DecidableEq, Repr

inductive Move
  | lock
  | timedLock
  | tryLock
  | unlock
  | lockSharable
  | timedLockSharable
  | tryLockSharable
  | unlockSharable
  /-- The call under way runs its next section; a timed call has read a clock
  before its deadline. -/
  | proceed
  /-- The call under way has read a clock at or after its deadline. -/
  | expire
deriving DecidableEq, Repr

/-- What a move returns to the caller of the operation it belongs to, if it ends
that operation with a result. -/
abbrev Returned := Option Bool

def Thread.enter (thread : Thread) (call : Call) : Thread := { thread with call := call }

def Thread.acquire (thread : Thread) : Thread :=
  { thread with call := .outside, exclusive := thread.exclusive + 1 }

def Thread.acquireShare (thread : Thread) : Thread :=
  { thread with call := .outside, shares := thread.shares + 1 }

def Thread.release (thread : Thread) : Thread :=
  { thread with exclusive := thread.exclusive - 1 }

def Thread.releaseShare (thread : Thread) : Thread :=
  { thread with shares := thread.shares - 1 }

/-- One iteration of the loop in `lock` or `timed_lock` while nothing is booked. -/
def Thread.book (thread : Thread) (locker : SharedLocker) (reached : Call)
    (result : Returned) : Returned × SharedLocker × Thread :=
  match locker.tryBookLock with
  | (.lsNone, next) => (result, next, thread.acquire)
  | (.lsScoped, next) => (none, next, thread)
  | (.lsSharable, next) => (none, next, thread.enter reached)

def Thread.await (thread : Thread) (locker : SharedLocker) (result : Returned) :
    Returned × SharedLocker × Thread :=
  if locker.countSharable > 0 then (none, locker, thread)
  else (result, locker, thread.acquire)

def Thread.attempt (thread : Thread) (locker : SharedLocker) :
    Returned × SharedLocker × Thread :=
  match locker.tryLock with
  | (true, next) => (some true, next, thread.acquire)
  | (false, next) => (some false, next, thread)

/-- One attempt on the sharable lock, left with `otherwise` when it fails. -/
def Thread.share (thread : Thread) (locker : SharedLocker) (result otherwise : Returned) :
    Returned × SharedLocker × Thread :=
  match locker.tryLockSharable with
  | (true, next) => (result, next, thread.acquireShare)
  | (false, next) => (otherwise, next, thread)

/-- A thread unlocks only what it holds; `none` also stands for a failed
assertion. -/
def Thread.move (thread : Thread) (locker : SharedLocker) :
    Move → Option (Returned × SharedLocker × Thread)
  | move =>
    match thread.call, move with
    | .outside, .lock => some (none, locker, thread.enter .locking)
    | .outside, .timedLock => some (none, locker, thread.enter .timedLocking)
    | .outside, .lockSharable => some (none, locker, thread.enter .lockingSharable)
    | .outside, .timedLockSharable => some (none, locker, thread.enter .timedLockingSharable)
    | .outside, .tryLock => some (thread.attempt locker)
    | .outside, .tryLockSharable => some (thread.share locker (some true) (some false))
    | .outside, .unlock =>
        if thread.exclusive = 0 then none
        else locker.unlock.map fun next => (none, next, thread.release)
    | .outside, .unlockSharable =>
        if thread.shares = 0 then none
        else locker.unlockSharable.map fun next => (none, next, thread.releaseShare)
    | .locking, .proceed => some (thread.book locker .waiting none)
    | .waiting, .proceed => some (thread.await locker none)
    | .timedLocking, .proceed => some (thread.book locker .timedWaiting (some true))
    | .timedLocking, .expire => some (some false, locker, thread.enter .outside)
    | .timedWaiting, .proceed => some (thread.await locker (some true))
    | .timedWaiting, .expire => some (none, locker, thread.enter .cancelling)
    | .cancelling, .proceed =>
        locker.unlock.map fun next => (some false, next, thread.enter .outside)
    | .lockingSharable, .proceed => some (thread.share locker none none)
    | .timedLockingSharable, .proceed => some (thread.share locker (some true) none)
    | .timedLockingSharable, .expire => some (some false, locker, thread.enter .outside)
    | _, _ => none

def Acts (locker : SharedLocker) (thread : Thread) (label : Move × Returned)
    (next : SharedLocker) (nextThread : Thread) : Prop :=
  thread.move locker label.1 = some (label.2, next, nextThread)

abbrev System := Threads SharedLocker Thread

abbrev Step : System → Nat × Move × Returned → System → Prop := Threads.Step Acts

def System.start (count : Nat) : System := ⟨{}, List.replicate count {}⟩

/-! ## What a move can do -/

def Call.booked : Call → Nat
  | .waiting => 1
  | .timedWaiting => 1
  | .cancelling => 1
  | _ => 0

def Thread.books (thread : Thread) : Nat := thread.exclusive + thread.call.booked

inductive Effect : SharedLocker → Thread → SharedLocker → Thread → Prop
  | idle {locker thread nextThread} :
      nextThread.books = thread.books → nextThread.exclusive = thread.exclusive →
      nextThread.shares = thread.shares → Effect locker thread locker nextThread
  | book {locker thread nextThread} :
      locker.mScoped = 0 → nextThread.books = thread.books + 1 →
      (nextThread.exclusive = thread.exclusive ∨ locker.mSharable = 0) →
      nextThread.shares = thread.shares →
      Effect locker thread { locker with mScoped := 1 } nextThread
  | take {locker thread nextThread} :
      locker.mSharable = 0 → nextThread.books = thread.books →
      nextThread.shares = thread.shares → Effect locker thread locker nextThread
  | release {locker thread nextThread} :
      locker.mScoped = 1 → nextThread.books + 1 = thread.books →
      nextThread.exclusive ≤ thread.exclusive → nextThread.shares = thread.shares →
      Effect locker thread { locker with mScoped := 0 } nextThread
  | share {locker thread nextThread} :
      locker.mScoped = 0 → locker.mSharable < uintMax → nextThread.books = thread.books →
      nextThread.exclusive = thread.exclusive → nextThread.shares = thread.shares + 1 →
      Effect locker thread { locker with mSharable := locker.mSharable + 1 } nextThread
  | leave {locker thread nextThread} :
      locker.mSharable > 0 → nextThread.books = thread.books →
      nextThread.exclusive = thread.exclusive → nextThread.shares + 1 = thread.shares →
      Effect locker thread { locker with mSharable := locker.mSharable - 1 } nextThread

variable {locker next : SharedLocker} {thread nextThread : Thread} {returned result : Returned}
  {reached : Call}

theorem Thread.books_eq {count : Nat} (booked : thread.call.booked = count) :
    thread.books = thread.exclusive + count := by
  rw [← booked]
  rfl

theorem Thread.book_effect (unbooked : thread.call.booked = 0) (books : reached.booked = 1)
    (moved : thread.book locker reached result = (returned, next, nextThread)) :
    Effect locker thread next nextThread := by
  have own := Thread.books_eq unbooked
  unfold Thread.book tryBookLock at moved
  by_cases free : locker.mScoped = 0
  · by_cases readers : locker.mSharable = 0
    · simp only [if_pos free, if_pos readers, Prod.mk.injEq] at moved
      rcases moved with ⟨-, rfl, rfl⟩
      have booked : thread.acquire.books = thread.books + 1 := by rw [own]; rfl
      exact .book free booked (.inr readers) rfl
    · simp only [if_pos free, if_neg readers, Prod.mk.injEq] at moved
      rcases moved with ⟨-, rfl, rfl⟩
      have booked : (thread.enter reached).books = thread.books + 1 := by
        rw [own, ← books]
        rfl
      exact .book free booked (.inl rfl) rfl
  · simp only [if_neg free, Prod.mk.injEq] at moved
    rcases moved with ⟨-, rfl, rfl⟩
    exact .idle rfl rfl rfl

theorem Thread.await_effect (booked : thread.call.booked = 1)
    (moved : thread.await locker result = (returned, next, nextThread)) :
    Effect locker thread next nextThread := by
  unfold Thread.await countSharable at moved
  split at moved
  · rcases moved with ⟨-, rfl, rfl⟩
    exact .idle rfl rfl rfl
  next left =>
    rcases moved with ⟨-, rfl, rfl⟩
    have kept : thread.acquire.books = thread.books := by
      rw [Thread.books_eq booked]
      rfl
    exact .take (by omega) kept rfl

theorem Thread.share_effect {otherwise : Returned} (unbooked : thread.call.booked = 0)
    (moved : thread.share locker result otherwise = (returned, next, nextThread)) :
    Effect locker thread next nextThread := by
  unfold Thread.share tryLockSharable at moved
  by_cases free : locker.mScoped = 0 ∧ locker.mSharable < uintMax
  · simp only [if_pos free, Prod.mk.injEq] at moved
    rcases moved with ⟨-, rfl, rfl⟩
    have kept : thread.acquireShare.books = thread.books := by
      rw [Thread.books_eq unbooked]
      rfl
    exact .share free.1 free.2 kept rfl rfl
  · simp only [if_neg free, Prod.mk.injEq] at moved
    rcases moved with ⟨-, rfl, rfl⟩
    exact .idle rfl rfl rfl

theorem Thread.enter_effect {call : Call} (same : call.booked = thread.call.booked) :
    Effect locker thread locker (thread.enter call) := by
  have kept : (thread.enter call).books = thread.books := by
    rw [Thread.books_eq same.symm]
    rfl
  exact .idle kept rfl rfl

theorem Thread.attempt_effect (unbooked : thread.call.booked = 0)
    (moved : thread.attempt locker = (returned, next, nextThread)) :
    Effect locker thread next nextThread := by
  unfold Thread.attempt tryLock at moved
  by_cases free : locker.mScoped = 0 ∧ locker.mSharable = 0
  · simp only [if_pos free, Prod.mk.injEq] at moved
    rcases moved with ⟨-, rfl, rfl⟩
    have booked : thread.acquire.books = thread.books + 1 := by
      rw [Thread.books_eq unbooked]
      rfl
    exact .book free.1 booked (.inr free.2) rfl
  · simp only [if_neg free, Prod.mk.injEq] at moved
    rcases moved with ⟨-, rfl, rfl⟩
    exact .idle rfl rfl rfl

theorem Thread.release_effect (holds : thread.exclusive ≠ 0) (moved : locker.unlock = some next) :
    Effect locker thread next thread.release := by
  unfold unlock at moved
  split at moved
  next locked =>
    cases moved
    apply Effect.release locked
    · change thread.exclusive - 1 + thread.call.booked + 1 =
        thread.exclusive + thread.call.booked
      omega
    · exact Nat.sub_le _ _
    · rfl
  · cases moved

theorem Thread.cancel_effect (booked : thread.call.booked = 1)
    (moved : locker.unlock = some next) :
    Effect locker thread next (thread.enter .outside) := by
  unfold unlock at moved
  split at moved
  next locked =>
    cases moved
    apply Effect.release locked
    · rw [Thread.books_eq booked]
      rfl
    · exact Nat.le_refl _
    · rfl
  · cases moved

theorem Thread.releaseShare_effect (holds : thread.shares ≠ 0)
    (moved : locker.unlockSharable = some next) :
    Effect locker thread next thread.releaseShare := by
  unfold unlockSharable at moved
  split at moved
  next shared =>
    cases moved
    have left : thread.releaseShare.shares + 1 = thread.shares := by
      change thread.shares - 1 + 1 = thread.shares
      omega
    exact .leave shared rfl rfl left
  · cases moved

theorem Thread.move_effect {move : Move}
    (moved : thread.move locker move = some (returned, next, nextThread)) :
    Effect locker thread next nextThread := by
  cases called : thread.call <;> cases move <;>
    simp only [Thread.move, called, reduceCtorEq, Option.some.injEq, Prod.mk.injEq] at moved
  all_goals have booked := congrArg Call.booked called
  case outside.tryLock => exact Thread.attempt_effect booked moved
  case outside.tryLockSharable | lockingSharable.proceed | timedLockingSharable.proceed =>
    exact Thread.share_effect booked moved
  case locking.proceed | timedLocking.proceed => exact Thread.book_effect booked rfl moved
  case waiting.proceed | timedWaiting.proceed => exact Thread.await_effect booked moved
  case outside.unlock =>
    split at moved
    · cases moved
    next holds =>
      rcases Option.map_eq_some_iff.mp moved with ⟨unlocked, called, same⟩
      cases same
      exact Thread.release_effect holds called
  case outside.unlockSharable =>
    split at moved
    · cases moved
    next holds =>
      rcases Option.map_eq_some_iff.mp moved with ⟨unlocked, called, same⟩
      cases same
      exact Thread.releaseShare_effect holds called
  case cancelling.proceed =>
    rcases Option.map_eq_some_iff.mp moved with ⟨unlocked, called, same⟩
    cases same
    exact Thread.cancel_effect booked called
  -- the remaining moves only enter or leave a call
  all_goals
    rcases moved with ⟨-, rfl, rfl⟩
    exact Thread.enter_effect booked.symm

/-! ## The counters count -/

structure Guarded (state : System) : Prop where
  booked : state.shared.mScoped = Threads.total Thread.books state.places
  shared : state.shared.mSharable = Threads.total Thread.shares state.places
  single : state.shared.mScoped ≤ 1
  excluded : 0 < Threads.total Thread.exclusive state.places → state.shared.mSharable = 0
  bounded : state.shared.mSharable ≤ uintMax

theorem start_guarded (count : Nat) : Guarded (System.start count) := by
  constructor <;> simp [System.start, Threads.total_replicate, Thread.books, Call.booked]

theorem exclusive_le_books (thread : Thread) : thread.exclusive ≤ thread.books :=
  Nat.le_add_right _ _

theorem Guarded.unheld {state : System} (guarded : Guarded state)
    (free : state.shared.mScoped = 0) :
    Threads.total Thread.exclusive state.places = 0 := by
  have smaller := Threads.total_mono state.places exclusive_le_books
  have booked := guarded.booked
  omega

theorem Guarded.step {state next : System} {label : Nat × Move × Returned}
    (guarded : Guarded state) (stepped : Step state label next) : Guarded next := by
  rcases stepped with ⟨found, acted⟩
  rename_i shared nextShared places index place nextPlace label
  have booked := guarded.booked
  have counted := guarded.shared
  have single := guarded.single
  have excluded := guarded.excluded
  have bounded := guarded.bounded
  have unheld := guarded.unheld
  have books := Threads.total_set Thread.books nextPlace found
  have shares := Threads.total_set Thread.shares nextPlace found
  have holds := Threads.total_set Thread.exclusive nextPlace found
  have less := Threads.le_total Thread.exclusive found
  simp only at booked counted single excluded bounded unheld
  cases Thread.move_effect acted with
  | idle sameBooks sameHeld sameShares =>
      constructor <;> simp only <;> omega
  | book free more kept sameShares =>
      have none := unheld free
      constructor <;> simp only <;> omega
  | take empty sameBooks sameShares =>
      constructor <;> simp only <;> omega
  | release locked fewer lessHeld sameShares =>
      constructor <;> simp only <;> omega
  | share free below sameBooks sameHeld more =>
      have none := unheld free
      constructor <;> simp only <;> omega
  | leave present sameBooks sameHeld fewer =>
      constructor <;> simp only <;> omega

/-! ## Mutual exclusion -/

structure Excludes (state : System) : Prop where
  /-- At most one thread holds the exclusive lock, and only once. -/
  single : ∀ {index other : Nat} {thread otherThread : Thread},
    state.places[index]? = some thread → state.places[other]? = some otherThread →
    0 < thread.exclusive → 0 < otherThread.exclusive →
    index = other ∧ thread.exclusive = 1
  /-- Nobody holds the sharable lock while someone holds the exclusive one. -/
  unshared : ∀ {index other : Nat} {thread otherThread : Thread},
    state.places[index]? = some thread → state.places[other]? = some otherThread →
    0 < thread.exclusive → otherThread.shares = 0
  sharable : state.shared.mSharable = Threads.total Thread.shares state.places
  /-- `m_scoped` is one exactly while a thread holds or has booked the lock. -/
  booked : state.shared.mScoped = 1 ↔
    ∃ (index : Nat) (thread : Thread),
      state.places[index]? = some thread ∧ 0 < thread.books
  unbooked : state.shared.mScoped ≠ 1 → state.shared.mScoped = 0
  /-- No two threads hold or have booked the exclusive lock. -/
  alone : ∀ {index other : Nat} {thread otherThread : Thread},
    state.places[index]? = some thread → state.places[other]? = some otherThread →
    0 < thread.books → 0 < otherThread.books → index = other
  /-- The assertions of `unlock` and `unlock_sharable` hold wherever they are
  reached. -/
  assertions : ∀ {index : Nat} {thread : Thread}, state.places[index]? = some thread →
    (0 < thread.exclusive ∨ thread.call = .cancelling → state.shared.unlock.isSome) ∧
    (0 < thread.shares → state.shared.unlockSharable.isSome)
  /-- A call that returns false leaves nothing booked. -/
  failed : ∀ {index : Nat} {move : Move} {next : System} {thread : Thread},
    Step state (index, move, some false) next → next.places[index]? = some thread →
    thread.call.booked = 0 ∧
    (thread.exclusive = 0 →
      (∀ {other : Nat} {otherThread : Thread}, other ≠ index →
        next.places[other]? = some otherThread → otherThread.books = 0) →
      next.shared.mScoped = 0)

theorem Guarded.unbooked {state : System} (guarded : Guarded state)
    (idle : ∀ {index : Nat} {thread : Thread}, state.places[index]? = some thread →
      thread.books = 0) : state.shared.mScoped = 0 := by
  rw [guarded.booked, Threads.total_eq_zero]
  intro thread member
  rcases List.getElem?_of_mem member with ⟨index, found⟩
  exact idle found

theorem Thread.book_returned
    (moved : thread.book locker reached result = (returned, next, nextThread)) :
    returned = result ∨ returned = none := by
  unfold Thread.book at moved
  split at moved <;> cases moved <;> simp

theorem Thread.await_returned
    (moved : thread.await locker result = (returned, next, nextThread)) :
    returned = result ∨ returned = none := by
  unfold Thread.await at moved
  split at moved <;> cases moved <;> simp

theorem Thread.share_booked {otherwise : Returned} (unbooked : thread.call.booked = 0)
    (moved : thread.share locker result otherwise = (returned, next, nextThread)) :
    nextThread.call.booked = 0 := by
  unfold Thread.share at moved
  split at moved <;> cases moved
  · rfl
  · exact unbooked

theorem Thread.attempt_booked (unbooked : thread.call.booked = 0)
    (moved : thread.attempt locker = (returned, next, nextThread)) :
    nextThread.call.booked = 0 := by
  unfold Thread.attempt at moved
  split at moved <;> cases moved
  · rfl
  · exact unbooked

theorem Thread.move_failed {move : Move}
    (moved : thread.move locker move = some (some false, next, nextThread)) :
    nextThread.call.booked = 0 := by
  cases called : thread.call <;> cases move <;>
    simp only [Thread.move, called, reduceCtorEq, Option.some.injEq, Prod.mk.injEq,
      false_and] at moved
  all_goals have booked := congrArg Call.booked called
  case outside.tryLock => exact Thread.attempt_booked booked moved
  case outside.tryLockSharable | lockingSharable.proceed | timedLockingSharable.proceed =>
    exact Thread.share_booked booked moved
  case locking.proceed | timedLocking.proceed =>
    rcases Thread.book_returned moved with same | same <;> cases same
  case waiting.proceed | timedWaiting.proceed =>
    rcases Thread.await_returned moved with same | same <;> cases same
  case outside.unlock | outside.unlockSharable =>
    split at moved
    · cases moved
    · rcases Option.map_eq_some_iff.mp moved with ⟨unlocked, called, same⟩
      cases same
  case cancelling.proceed =>
    rcases Option.map_eq_some_iff.mp moved with ⟨unlocked, called, same⟩
    cases same
    rfl
  case timedLocking.expire | timedLockingSharable.expire =>
    rcases moved with ⟨-, -, rfl⟩
    rfl

theorem Guarded.excludes {state : System} (guarded : Guarded state) : Excludes state := by
  have booked := guarded.booked
  have counted := guarded.shared
  have single := guarded.single
  have excluded := guarded.excluded
  constructor
  case single =>
    intro index other thread otherThread found foundOther holds otherHolds
    have least := exclusive_le_books thread
    have otherLeast := exclusive_le_books otherThread
    have most := Threads.le_total Thread.books found
    constructor
    · apply Threads.eq_of_total_le_one Thread.books _ found foundOther <;> omega
    · omega
  case unshared =>
    intro index other thread otherThread found foundOther holds
    have held := Threads.le_total Thread.exclusive found
    have shares := Threads.le_total Thread.shares foundOther
    have none := excluded (by omega)
    omega
  case sharable => exact counted
  case booked =>
    constructor
    · intro locked
      apply Threads.exists_of_total_pos
      omega
    · rintro ⟨index, thread, found, books⟩
      have most := Threads.le_total Thread.books found
      omega
  case unbooked => omega
  case alone =>
    intro index other thread otherThread found foundOther books otherBooks
    apply Threads.eq_of_total_le_one Thread.books _ found foundOther books otherBooks
    omega
  case assertions =>
    intro index thread found
    constructor
    · intro unlocks
      have books : 0 < thread.books := by
        rcases unlocks with holds | cancels
        · exact Nat.lt_of_lt_of_le holds (exclusive_le_books thread)
        · rw [Thread.books_eq (congrArg Call.booked cancels)]
          exact Nat.succ_pos _
      have most := Threads.le_total Thread.books found
      have locked : state.shared.mScoped = 1 := by omega
      simp [unlock, locked]
    · intro shares
      have most := Threads.le_total Thread.shares found
      have present : state.shared.mSharable > 0 := by omega
      simp [unlockSharable, present]
  case failed =>
    intro index move next thread stepped found
    have after := guarded.step stepped
    rcases stepped with ⟨before, acted⟩
    rename_i nextShared nextPlace
    have reached : nextPlace = thread := by
      have inside := (List.getElem?_eq_some_iff.mp before).1
      simpa [inside] using found
    subst reached
    have unbooked := Thread.move_failed acted
    constructor
    · exact unbooked
    · intro unheld idle
      apply after.unbooked
      intro other otherThread foundOther
      by_cases same : other = index
      · subst same
        have equal := Option.some.inj (foundOther.symm.trans found)
        rw [equal, Thread.books_eq unbooked, unheld]
      · exact idle same foundOther

/-- Mutual exclusion of `shared_locker`, for any number of threads and every
interleaving of the guarded sections. -/
theorem shared_locker_excludes {count : Nat} {labels : List (Nat × Move × Returned)}
    {final : System} (run : Run Step (System.start count) labels final) : Excludes final := by
  apply Guarded.excludes
  apply run.invariant Guarded _ (start_guarded count)
  intro state label next guarded stepped
  exact guarded.step stepped

/-- A reader is inside when `timed_lock` books, and the deadline passes. -/
theorem shared_locker_excludes_cancelled :
    ∃ final : System, Run Step (System.start 2)
        [(0, .lockSharable, none), (0, .proceed, none), (1, .timedLock, none),
          (1, .proceed, none), (1, .expire, none), (1, .proceed, some false)] final ∧
      final.places = [{ shares := 1 }, {}] ∧ Excludes final := by
  have run : Run Step (System.start 2)
      [(0, .lockSharable, none), (0, .proceed, none), (1, .timedLock, none),
        (1, .proceed, none), (1, .expire, none), (1, .proceed, some false)]
      ⟨{ mSharable := 1 }, [{ shares := 1 }, {}]⟩ :=
    .cons (.act rfl rfl) (.cons (.act rfl rfl) (.cons (.act rfl rfl)
      (.cons (.act rfl rfl) (.cons (.act rfl rfl) (.cons (.act rfl rfl) .nil)))))
  exact ⟨_, run, rfl, shared_locker_excludes run⟩

end SharedLocker

end Qbus
