import Qbus.Lock.SharedLocker
import Qbus.Lock.Barrier
import Qbus.Queue.Execution

/-! # Pushing into a connector

The two overloads of `push`, through the classes of the template hierarchy that
override `do_push` and `do_timed_push`. Only the connector's own lock, its
barrier and its queue take part. -/

namespace Qbus

def SharedBarrier.openAll (barrier : SharedBarrier) : SharedBarrier :=
  releaseOne^[barrier.mCounter1] barrier

/-- A lock that is not recursive: its operations on the exclusive lock. A timed
attempt that runs out of time leaves the lock as it was. -/
structure Locker where
  State : Type
  /-- Nobody holds the lock. -/
  unlocked : State
  tryLock : State → Bool × State
  timedLock : State → Bool × State
  unlock : State → State
  /-- The lock held by one owner. -/
  locked : State
  tryLock_unlocked : tryLock unlocked = (true, locked)
  timedLock_unlocked : timedLock unlocked = (true, locked)
  tryLock_locked : tryLock locked = (false, locked)
  unlock_locked : unlock locked = unlocked

def sharedLocker : Locker where
  State := SharedLocker
  unlocked := {}
  tryLock := SharedLocker.tryLock
  timedLock := fun locker =>
    match locker.tryBookLock with
    | (.lsNone, next) => (true, next)
    | (_, _) => (false, locker)
  unlock := fun locker => locker.unlock.getD locker
  locked := { mScoped := 1 }
  tryLock_unlocked := rfl
  timedLock_unlocked := rfl
  tryLock_locked := rfl
  unlock_locked := rfl

namespace Connector

inductive LockerInterface
  | sharableLocker
  | sharableLockerWithSharablePop
  | sharableSpinlocker
  | sharableSpinlockerWithSharablePop
  | sharablePosixlocker
  | sharablePosixlockerWithSharablePop
deriving DecidableEq, Repr

def LockerInterface.hasTimedLock : LockerInterface → Bool
  | .sharableLocker => false
  | .sharableLockerWithSharablePop => false
  | .sharableSpinlocker => true
  | .sharableSpinlockerWithSharablePop => true
  | .sharablePosixlocker => true
  | .sharablePosixlockerWithSharablePop => true

inductive Direction
  | conIn
  | conOut
  | conBidir
deriving DecidableEq, Repr

structure State (locker : Locker) where
  direction : Direction
  opened : Bool
  lock : locker.State
  barrier : SharedBarrier
  queue : Queue

variable {locker : Locker}

abbrev Attempt (locker : Locker) := State locker → Outcome (Bool × State locker)

def State.scoped (state : State locker) (acquire : locker.State → Bool × locker.State)
    (body : Attempt locker) : Outcome (Bool × State locker) :=
  match acquire state.lock with
  | (true, lock) => do
      let (result, next) ← body { state with lock := lock }
      .ok (result, { next with lock := locker.unlock next.lock })
  | (false, lock) => .ok (false, { state with lock := lock })

def State.opening (state : State locker) (body : Attempt locker) :
    Outcome (Bool × State locker) := do
  let (result, next) ← body state
  .ok (result, if result then { next with barrier := next.barrier.openAll } else next)

section Push

variable (tag : Nat) (data : List UInt8)

def simpleDoPush (now : Nat) : Attempt locker := fun state => do
  let (result, queue) ← state.queue.push tag data now
  .ok (result, { state with queue := queue })

def baseSafeDoPush (now : Nat) : Attempt locker := fun state =>
  state.scoped locker.tryLock (simpleDoPush tag data now)

def safeDoPush (now : Nat) : Attempt locker := fun state =>
  state.scoped locker.tryLock fun owner => owner.opening (baseSafeDoPush tag data now)

def doPush (interface : LockerInterface) (now : Nat) : Attempt locker :=
  if interface.hasTimedLock then safeDoPush tag data now else baseSafeDoPush tag data now

/-- Attempts until one succeeds or the time is over; each reads the clock of the
queue once. -/
def attempts (body : Nat → Attempt locker) : List Nat → Attempt locker
  | [] => fun state => .ok (false, state)
  | now :: later => fun state => do
      let (result, next) ← body now state
      if result then .ok (true, next) else attempts body later next

def baseDoTimedPush (interface : LockerInterface) (clock : List Nat) : Attempt locker :=
  attempts (doPush tag data interface) clock

def safeDoTimedPush (clock : List Nat) : Attempt locker :=
  attempts (fun now state =>
    state.scoped locker.timedLock fun owner => owner.opening (simpleDoPush tag data now)) clock

def doTimedPush (interface : LockerInterface) (clock : List Nat) : Attempt locker :=
  if interface.hasTimedLock then safeDoTimedPush tag data clock
  else baseDoTimedPush tag data interface clock

def State.pushable (state : State locker) : Bool :=
  state.opened && (state.direction == .conOut || state.direction == .conBidir)

def push (interface : LockerInterface) (now : Nat) : Attempt locker := fun state =>
  if state.pushable then doPush tag data interface now state else .ok (false, state)

/-- The timeout allows one attempt for each reading of the clock. -/
def timedPush (interface : LockerInterface) (clock : List Nat) : Attempt locker := fun state =>
  if state.pushable then doTimedPush tag data interface clock state else .ok (false, state)

def State.queueResult (state : State locker) (now : Nat) : Outcome Bool :=
  if state.pushable then (state.queue.push tag data now).map Prod.fst else .ok false

structure Agrees (interface : LockerInterface) (state : State locker) (now : Nat) : Prop where
  returns : (push tag data interface now state).map Prod.fst = state.queueResult tag data now
  timed : push tag data interface now state = timedPush tag data interface [now] state

end Push

section Push

variable (tag : Nat) (data : List UInt8)

/-! ## What the overrides do under a free lock -/

theorem scoped_owned {state : State locker} {acquire : locker.State → Bool × locker.State}
    (free : state.lock = locker.unlocked)
    (acquired : acquire locker.unlocked = (true, locker.locked)) (body : Attempt locker)
    (kept : ∀ result next, body { state with lock := locker.locked } = .ok (result, next) →
      next.lock = locker.locked) :
    state.scoped acquire body =
      (body { state with lock := locker.locked }).map fun (result, next) =>
        (result, { next with lock := locker.unlocked }) := by
  simp only [State.scoped, free, acquired]
  cases returned : body { state with lock := locker.locked } with
  | error failure => rfl
  | ok outcome =>
      rcases outcome with ⟨result, next⟩
      have unlocks : locker.unlock next.lock = locker.unlocked := by
        rw [kept result next returned]
        exact locker.unlock_locked
      change Except.ok _ = Except.ok _
      rw [unlocks]

theorem baseSafeDoPush_locked {state : State locker} (now : Nat)
    (held : state.lock = locker.locked) :
    baseSafeDoPush tag data now state = .ok (false, state) := by
  simp only [baseSafeDoPush, State.scoped, held, locker.tryLock_locked]
  rw [← held]

theorem safeDoPush_unlocked {state : State locker} (now : Nat)
    (free : state.lock = locker.unlocked) :
    safeDoPush tag data now state = .ok (false, state) := by
  have inner : State.opening { state with lock := locker.locked }
      (baseSafeDoPush tag data now) = .ok (false, { state with lock := locker.locked }) := by
    simp only [State.opening]
    rw [baseSafeDoPush_locked tag data now rfl]
    rfl
  have released := scoped_owned free locker.tryLock_unlocked
    (fun owner => owner.opening (baseSafeDoPush tag data now)) (by
      intro result next returned
      rw [inner] at returned
      cases returned
      rfl)
  rw [inner] at released
  change state.scoped locker.tryLock _ = _
  rw [released, ← free]
  rfl

theorem baseSafeDoPush_unlocked {state : State locker} (now : Nat)
    (free : state.lock = locker.unlocked) :
    baseSafeDoPush tag data now state =
      (state.queue.push tag data now).map fun (result, queue) =>
        (result, { state with queue := queue }) := by
  simp only [baseSafeDoPush]
  rw [scoped_owned free locker.tryLock_unlocked]
  · simp only [simpleDoPush]
    cases state.queue.push tag data now with
    | error failure => rfl
    | ok outcome => rw [← free]; rfl
  · intro result next returned
    simp only [simpleDoPush] at returned
    cases pushed : state.queue.push tag data now with
    | error failure =>
        rw [pushed] at returned
        cases returned
    | ok outcome =>
        rw [pushed] at returned
        cases returned
        rfl

def State.pushed (state : State locker) (outcome : Bool × Queue) : Bool × State locker :=
  (outcome.1, { state with
    queue := outcome.2
    barrier := if outcome.1 then state.barrier.openAll else state.barrier })

theorem opening_simpleDoPush (state : State locker) (now : Nat) :
    state.opening (simpleDoPush tag data now) =
      (state.queue.push tag data now).map state.pushed := by
  simp only [State.opening, simpleDoPush]
  cases state.queue.push tag data now with
  | error failure => rfl
  | ok outcome => rcases outcome with ⟨_ | _, queue⟩ <;> rfl

theorem scoped_opening_unlocked {state : State locker} (now : Nat)
    (free : state.lock = locker.unlocked) :
    state.scoped locker.timedLock (fun owner => owner.opening (simpleDoPush tag data now)) =
      (state.queue.push tag data now).map state.pushed := by
  rw [scoped_owned free locker.timedLock_unlocked]
  · rw [opening_simpleDoPush]
    cases state.queue.push tag data now with
    | error failure => rfl
    | ok outcome => simp [State.pushed, Except.map, ← free]
  · intro result next returned
    rw [opening_simpleDoPush] at returned
    cases pushed : state.queue.push tag data now with
    | error failure => simp [pushed, Except.map] at returned
    | ok outcome =>
        simp only [pushed, Except.map, State.pushed] at returned
        cases returned
        rfl

theorem attempts_one (body : Nat → Attempt locker) (now : Nat) :
    attempts body [now] = body now := by
  apply funext
  intro state
  simp only [attempts]
  cases body now state with
  | error failure => rfl
  | ok outcome => rcases outcome with ⟨_ | _, next⟩ <;> rfl

/-! ## Both overloads -/

/-- With a timed lock the untimed push returns false and the timed one does what
the queue does; otherwise both do what the queue does. -/
theorem push_of_pushable {state : State locker} (interface : LockerInterface) (now : Nat)
    (free : state.lock = locker.unlocked) (pushable : state.pushable = true) :
    push tag data interface now state =
        (if interface.hasTimedLock then .ok (false, state)
          else (state.queue.push tag data now).map fun (result, queue) =>
            (result, { state with queue := queue })) ∧
      timedPush tag data interface [now] state =
        (if interface.hasTimedLock then (state.queue.push tag data now).map state.pushed
          else push tag data interface now state) := by
  simp only [push, timedPush, pushable, if_true]
  cases timed : interface.hasTimedLock
  · constructor
    · simp only [doPush, timed]
      exact baseSafeDoPush_unlocked tag data now free
    · simp only [doTimedPush, baseDoTimedPush, timed]
      apply congrFun
      apply attempts_one
  · constructor
    · simp only [doPush, timed]
      exact safeDoPush_unlocked tag data now free
    · simp only [doTimedPush, safeDoTimedPush, timed]
      rw [if_pos trivial, attempts_one]
      exact scoped_opening_unlocked tag data now free

/-- The overloads agree exactly where the untimed push takes its lock once, or
where the push of the queue fails and leaves the queue alone. -/
theorem push_agrees {state : State locker} (interface : LockerInterface) (now : Nat)
    (free : state.lock = locker.unlocked) :
    Agrees tag data interface state now ↔
      interface.hasTimedLock = false ∨ state.pushable = false ∨
        state.queue.push tag data now = .ok (false, state.queue) := by
  cases pushable : state.pushable
  · constructor
    · intro _
      exact .inr (.inl rfl)
    · intro _
      constructor
      · simp only [push, State.queueResult, pushable]
        rfl
      · simp only [push, timedPush, pushable]
        rfl
  · rcases push_of_pushable tag data interface now free pushable with ⟨untimed, timed⟩
    cases hasTimed : interface.hasTimedLock
    · rw [hasTimed] at untimed timed
      constructor
      · intro _
        exact .inl rfl
      · intro _
        constructor
        · rw [untimed]
          simp only [State.queueResult, pushable]
          cases state.queue.push tag data now with
          | error failure => rfl
          | ok outcome => rfl
        · exact timed.symm
    · rw [hasTimed] at untimed timed
      constructor
      · intro agrees
        have returns := agrees.returns
        have same := agrees.timed
        rw [untimed] at returns same
        rw [timed] at same
        simp only [State.queueResult, pushable] at returns
        cases pushed : state.queue.push tag data now with
        | error failure =>
            rw [pushed] at same
            cases same
        | ok outcome =>
            rcases outcome with ⟨result, queue⟩
            rw [pushed] at returns same
            cases returns
            have kept := congrArg (fun outcome => outcome.map fun pair => pair.2.queue) same
            cases kept
            exact .inr (.inr rfl)
      · rintro (absurdity | absurdity | pushed)
        · cases absurdity
        · cases absurdity
        · constructor
          · rw [untimed]
            simp only [State.queueResult, pushable, pushed]
            rfl
          · rw [untimed, timed, pushed]
            rfl

def emptyOutput : State sharedLocker where
  direction := .conOut
  opened := true
  lock := {}
  barrier := {}
  queue := Queue.created .unreadable 100 1 []

/-- Without a timed lock the overloads agree on a push into the empty queue. -/
theorem push_agrees_empty :
    Agrees 7 [1, 2, 3] .sharableLockerWithSharablePop emptyOutput 0 :=
  (push_agrees 7 [1, 2, 3] .sharableLockerWithSharablePop 0 rfl).mpr (.inl rfl)

/-- The untimed push of a connector with a timed lock fails on an empty queue
that has room, where the timed one succeeds. -/
theorem push_disagrees :
    ¬Agrees 7 [1, 2, 3] .sharableSpinlockerWithSharablePop emptyOutput 0 ∧
      (push 7 [1, 2, 3] .sharableSpinlockerWithSharablePop 0 emptyOutput).map Prod.fst =
        .ok false ∧
      (timedPush 7 [1, 2, 3] .sharableSpinlockerWithSharablePop [0] emptyOutput).map Prod.fst =
        .ok true := by
  have untimed : (push 7 [1, 2, 3] .sharableSpinlockerWithSharablePop 0 emptyOutput).map
      Prod.fst = .ok false := by decide +kernel
  have stored : emptyOutput.queueResult 7 [1, 2, 3] 0 = .ok true := by decide +kernel
  constructor
  · intro agrees
    have returns := agrees.returns
    rw [untimed, stored] at returns
    cases returns
  · exact ⟨untimed, by decide +kernel⟩

end Push

end Connector

end Qbus
