import Qbus.Lock.SharedLocker
import Qbus.Queue.Views

/-! # Connectors that several threads use at the same time

The multi connectors on one segment, each with its own queue object, and the lock in front of
the queue. `do_push` holds the exclusive lock; `do_get` and `do_pop` hold the sharable one, so
that they overlap. A timed call makes one attempt after another, and each is a call here. -/

namespace Qbus

/-- What a thread may do while it holds a lock. The exclusive one allows every call. -/
def multiRules (writer : Option Nat) : SectionRules World QueueMemory Action Result where
  mayAlone := fun thread world action =>
    action.actor = some thread ∧ world.Delivers writer action ∧ world.Enabled action
  mayBeside := fun thread world action =>
    (action = .get thread ∨ action = .pop thread) ∧ world.Enabled action
  reads := fun seen view => QueueMemory.Torn (seen.map World.memory) view
  alone := fun world action result next => world.perform action = .ok (result, next)
  beside := fun view world action result next =>
    world.performThrough view action = .ok (result, next)

structure MultiConnectors where
  locker : SharedLocker.System
  sections : Sections World Action

inductive MultiEvent
  | locks (move : SharedLocker.Move) (returned : SharedLocker.Returned)
  | calls (event : SectionEvent Action Result)
deriving DecidableEq

def MultiEvent.shown : MultiEvent → Option (Action × Result)
  | .locks _ _ => none
  | .calls event => event.shown

namespace MultiConnectors

def start (count : Nat) (world : World) : MultiConnectors :=
  ⟨.start count, ⟨world, fun _ => .outside⟩⟩

/-- A call enters its section only with the lock. -/
def Permits (locker : SharedLocker.System) (thread : Nat) : SectionEvent Action Result → Prop
  | .entersAlone _ => ∃ holder, locker.places[thread]? = some holder ∧
      holder.call = .outside ∧ 0 < holder.exclusive
  | .entersBeside _ => ∃ holder, locker.places[thread]? = some holder ∧
      holder.call = .outside ∧ 0 < holder.shares
  | _ => True

inductive Step (writer : Option Nat) :
    MultiConnectors → Nat × MultiEvent → MultiConnectors → Prop
  | lock {locker next sections thread move returned} :
      SharedLocker.Step locker (thread, move, returned) next →
      sections.place thread = .outside →
      Step writer ⟨locker, sections⟩ (thread, .locks move returned) ⟨next, sections⟩
  | call {locker sections next thread event} : Permits locker thread event →
      Sections.Step (multiRules writer) sections (thread, event) next →
      Step writer ⟨locker, sections⟩ (thread, .calls event) ⟨locker, next⟩

/-! ## The lock keeps the sections apart -/

structure Guards (connectors : MultiConnectors) : Prop where
  guarded : SharedLocker.Guarded connectors.locker
  alone : ∀ thread call found, connectors.sections.place thread = .alone call found →
    ∃ holder, connectors.locker.places[thread]? = some holder ∧ 0 < holder.exclusive
  beside : ∀ thread call seen, connectors.sections.place thread = .beside call seen →
    ∃ holder, connectors.locker.places[thread]? = some holder ∧ 0 < holder.shares

namespace Guards

variable {writer : Option Nat} {connectors next : MultiConnectors} {label : Nat × MultiEvent}

theorem start (count : Nat) (world : World) : (MultiConnectors.start count world).Guards where
  guarded := SharedLocker.start_guarded count
  alone := fun _ _ _ isAlone => by cases isAlone
  beside := fun _ _ _ isBeside => by cases isBeside

theorem apart (guards : connectors.Guards) : Sections.Apart connectors.sections.place := by
  have excludes := guards.guarded.excludes
  intro thread call found isAlone other different
  rcases guards.alone thread call found isAlone with ⟨holder, isHolder, exclusive⟩
  cases isPlace : connectors.sections.place other with
  | outside => rfl
  | alone otherCall otherFound =>
      rcases guards.alone other otherCall otherFound isPlace with ⟨second, isSecond, alsoExclusive⟩
      have same := (excludes.single isHolder isSecond exclusive alsoExclusive).1
      exact absurd same.symm different
  | beside otherCall seen =>
      rcases guards.beside other otherCall seen isPlace with ⟨second, isSecond, shares⟩
      have none := excludes.unshared isHolder isSecond exclusive
      omega

theorem step (guards : connectors.Guards) (step : Step writer connectors label next) :
    next.Guards := by
  cases step with
  | @lock locker after sections thread move returned moves isOutside =>
      have guarded := guards.guarded.step moves
      have others : ∀ other, sections.place other ≠ .outside →
          after.places[other]? = locker.places[other]? := by
        intro other inside
        cases moves with
        | act found acted =>
          apply List.getElem?_set_ne
          intro same
          exact inside (same ▸ isOutside)
      refine ⟨guarded, ?_, ?_⟩
      · intro other call found isAlone
        have inside : sections.place other ≠ .outside := by
          intro outside
          cases outside.symm.trans isAlone
        rcases guards.alone other call found isAlone with ⟨holder, isHolder, exclusive⟩
        exact ⟨holder, (others other inside).trans isHolder, exclusive⟩
      · intro other call seen isBeside
        have inside : sections.place other ≠ .outside := by
          intro outside
          cases outside.symm.trans isBeside
        rcases guards.beside other call seen isBeside with ⟨holder, isHolder, shares⟩
        exact ⟨holder, (others other inside).trans isHolder, shares⟩
  | call permits moves =>
      refine ⟨guards.guarded, ?_, ?_⟩
      · intro other called found isAlone
        rcases moves.alone_or_enters isAlone with ⟨was, before⟩ | ⟨rfl, rfl⟩
        · exact guards.alone other called was before
        · rcases permits with ⟨holder, isHolder, -, exclusive⟩
          exact ⟨holder, isHolder, exclusive⟩
      · intro other called seen isBeside
        rcases moves.beside_or_enters isBeside with ⟨was, before⟩ | ⟨rfl, rfl⟩
        · exact guards.beside other called was before
        · rcases permits with ⟨holder, isHolder, -, shares⟩
          exact ⟨holder, isHolder, shares⟩

end Guards

end MultiConnectors

/-! ## The calls do not depend on what they see -/

def MultiGood (writer : Option Nat) (ledger : Ledger Nat Entry) (world : World) : Prop :=
  SharedWorld world ledger ∧ Delivering writer world ledger

def MultiSimilar (ledger : Ledger Nat Entry) (world old : World) : Prop :=
  UpToCounters ledger world.memory old.memory

namespace MultiGood

variable {writer : Option Nat} {ledger : Ledger Nat Entry} {world next : World} {action : Action}
  {result : Result} {view : QueueMemory} {thread : Nat}

theorem performs (good : MultiGood writer ledger world) (delivers : world.Delivers writer action)
    (enabled : world.Enabled action) :
    ∃ result next after, world.perform action = .ok (result, next) ∧
      SharedWorld.Effect world ledger (action, result) next after ∧
      MultiGood writer after next := by
  rcases good with ⟨shared, delivering⟩
  have hasData : action.HasData := by
    cases action with
    | push id tag data now => exact delivers.2
    | _ => trivial
  rcases shared.perform (delivering.sound shared delivers enabled) hasData enabled with
    ⟨result, next, after, performed, effect⟩
  have kept := (delivering.kept delivers ⟨enabled, performed⟩ effect).1
  exact ⟨result, next, after, performed, effect, effect.shared, kept⟩

theorem delivers (reads : action = .get thread ∨ action = .pop thread) :
    world.Delivers writer action := by
  rcases reads with rfl | rfl <;> trivial

theorem performThrough_eq (good : MultiGood writer ledger world)
    (reads : action = .get thread ∨ action = .pop thread) (enabled : world.Enabled action)
    (similar : UpToCounters ledger world.memory view) :
    world.performThrough view action = world.perform action := by
  rcases good with ⟨shared, delivering⟩
  have sound := delivering.sound shared (delivers reads) enabled
  rcases reads with rfl | rfl
  · exact shared.performThrough_get sound enabled similar
  · exact shared.performThrough_pop sound.1 enabled similar

theorem fields (good : MultiGood writer ledger world)
    (reads : action = .get thread ∨ action = .pop thread) (enabled : world.Enabled action)
    (performed : world.perform action = .ok (result, next)) :
    next.memory = world.memory.setData next.memory.data := by
  rcases reads with rfl | rfl
  · have isShared := (good.1.types thread enabled.1).resolve_right enabled.2
    rw [World.perform] at performed
    rcases Outcome.returned performed with ⟨⟨chain, queue⟩, gets, updates⟩
    cases updates
    have same := Queue.get_memory (.inr isShared) gets
    rw [World.update_memory, same]
    rfl
  · have isShared := (good.1.types thread enabled.1).resolve_right enabled.2
    rw [World.perform] at performed
    rcases Outcome.returned performed with ⟨⟨removed, queue⟩, pops, updates⟩
    cases updates
    exact Queue.pop_fields isShared pops

theorem beside (good : MultiGood writer ledger world)
    (reads : action = .get thread ∨ action = .pop thread) (enabled : world.Enabled action)
    (performed : world.perform action = .ok (result, next)) :
    (∀ other called, (multiRules writer).mayBeside other world called →
      (multiRules writer).mayBeside other next called) ∧
    ∃ after, MultiGood writer after next ∧
      ∀ old, MultiSimilar ledger world old → MultiSimilar after next old := by
  rcases good.performs (delivers reads) enabled with
    ⟨given, state, after, performs, effect, stillGood⟩
  cases performed.symm.trans performs
  have live : next.live = world.live := by
    rw [World.perform_live performed]
    rcases reads with rfl | rfl <;> rfl
  constructor
  · rintro other called ⟨isRead, may⟩
    refine ⟨isRead, ?_⟩
    have isLive : other ∈ world.live ∧ (world.handle other).type ≠ .unreadable := by
      rcases isRead with rfl | rfl <;> exact may
    have still : other ∈ next.live ∧ (next.handle other).type ≠ .unreadable := by
      rw [live, effect.types other isLive.1]
      exact isLive
    rcases isRead with rfl | rfl <;> exact still
  · refine ⟨after, stillGood, fun old similar => ?_⟩
    have fields := good.fields reads enabled performed
    have collected : after.collected = ledger.collected := by
      apply effect.step.collected_eq
      · rcases reads with rfl | rfl <;> simp
      · rcases reads with rfl | rfl <;> simp
    have log : after.log = ledger.log := by
      have step := effect.step
      rcases reads with rfl | rfl <;> cases step <;> rfl
    have frame := effect.frame
    rw [collected] at frame
    exact similar.popped log collected fields frame

end MultiGood

theorem MultiSimilar.of_torn {ledger : Ledger Nat Entry} {world : World} {seen : List World}
    {view : QueueMemory} (similar : ∀ old ∈ seen, MultiSimilar ledger world old)
    (torn : QueueMemory.Torn (seen.map World.memory) view) :
    UpToCounters ledger world.memory view := by
  apply UpToCounters.of_torn _ torn
  intro memory isSeen
  rcases List.mem_map.mp isSeen with ⟨old, isOld, rfl⟩
  exact similar old isOld

theorem multi_correct (writer : Option Nat) :
    Sections.Correct (multiRules writer)
      (fun world label next => world.Delivers writer label.1 ∧ world.Step label next)
      (MultiGood writer) MultiSimilar where
  similar := fun _ => .refl _
  alone := by
    rintro ledger thread world action result next good ⟨-, delivers, enabled⟩ performed
    rcases good.performs delivers enabled with ⟨given, state, after, performs, -, stillGood⟩
    cases performed.symm.trans performs
    exact ⟨⟨delivers, enabled, performed⟩, after, stillGood⟩
  beside := by
    rintro ledger thread seen view world action result next good ⟨reads, enabled⟩ similar torn
      performed
    have same := good.performThrough_eq reads enabled (MultiSimilar.of_torn similar torn)
    have performs := same.symm.trans performed
    exact ⟨⟨MultiGood.delivers reads, enabled, performs⟩, good.beside reads enabled performs⟩
  aloneReturns := by
    rintro ledger thread world action good ⟨-, delivers, enabled⟩
    rcases good.performs delivers enabled with ⟨result, next, after, performs, -, -⟩
    exact ⟨result, next, performs⟩
  besideReturns := by
    rintro ledger thread seen view world action good ⟨reads, enabled⟩ similar torn
    rcases good.performs (MultiGood.delivers reads) enabled with
      ⟨result, next, after, performs, -, -⟩
    have same := good.performThrough_eq reads enabled (MultiSimilar.of_torn similar torn)
    exact ⟨result, next, same.trans performs⟩

/-! ## Every run is a run of calls that do not overlap -/

namespace MultiConnectors

def Follows (writer : Option Nat) (connectors : MultiConnectors) (world : World) : Prop :=
  connectors.Guards ∧ ∃ ledger, Sections.Follows (multiRules writer) (MultiGood writer)
    MultiSimilar connectors.sections ledger world

variable {writer : Option Nat} {connectors next : MultiConnectors} {world : World}
  {label : Nat × MultiEvent}

theorem Follows.step (follows : connectors.Follows writer world)
    (step : Step writer connectors label next) :
    ∃ nextWorld, next.Follows writer nextWorld ∧ (label.2.shown = none → nextWorld = world) ∧
      ∀ shown, label.2.shown = some shown →
        world.Delivers writer shown.1 ∧ world.Step shown nextWorld := by
  rcases follows with ⟨guards, ledger, follows⟩
  have nextGuards := guards.step step
  cases step with
  | lock moves isOutside =>
      exact ⟨world, ⟨nextGuards, ledger, follows⟩, fun _ => rfl, fun _ none => by cases none⟩
  | call permits moves =>
      rcases follows.step (multi_correct writer) guards.apart nextGuards.apart moves with
        ⟨after, nextWorld, still, silent, shows⟩
      exact ⟨nextWorld, ⟨nextGuards, after, still⟩, silent, shows⟩

theorem Follows.returns (follows : connectors.Follows writer world) :
    Sections.Returns (multiRules writer) connectors.sections := by
  rcases follows with ⟨guards, ledger, follows⟩
  exact follows.returns (multi_correct writer) guards.apart

end MultiConnectors

/-- Connectors that several threads use at the same time deliver. However the threads interleave
in the lock and in the sections, and whatever the calls in sharable sections see of each other,
the calls return what they return when each of them is made at once, in the order in which they
end; the results are those of the broadcast. No call fails, and a thread with the exclusive lock
is the only one that is in a section. -/
theorem multi_connectors_linearize {first opened : World} {writer : Option Nat} {count : Nat}
    {arrivals : List (Action × Result)} {events : List (Nat × MultiEvent)}
    {final : MultiConnectors} (fresh : first.FreshShared)
    (arrive : Run (fun world label next => label.1.Joins ∧ world.Step label next)
      first arrivals opened)
    (few : opened.subscribers.card < 2 ^ 32)
    (writes : ∀ id, writer = some id →
      id ∈ opened.live ∧ (opened.handle id).type = .unreadable)
    (run : Run (MultiConnectors.Step writer) (.start count opened) events final) :
    (∃ world board,
      Run (fun world label next => world.Delivers writer label.1 ∧ world.Step label next) opened
        (events.filterMap fun event => event.2.shown) world ∧
      Run Broadcast.Step .start (events.filterMap fun event => event.2.shown) board ∧
      (Sections.Shared final.sections.place → final.sections.state = world) ∧
      (∀ thread action found, final.sections.place thread = .alone action found →
        found = world)) ∧
    Sections.Returns (multiRules writer) final.sections ∧
    Sections.Apart final.sections.place := by
  have initial := fresh.initial.run arrive few
  have good : MultiGood writer (Ledger.empty opened.subscribers) opened :=
    ⟨initial.shared, initial.delivering writes⟩
  have begins : (MultiConnectors.start count opened).Follows writer opened :=
    ⟨.start count opened, _, .start good⟩
  rcases run.simulate_shown (fun event => event.2.shown)
    (fun world label next => world.Delivers writer label.1 ∧ world.Step label next)
    (MultiConnectors.Follows writer) (fun follows step => follows.step step) begins with
    ⟨world, sequential, follows⟩
  rcases SharedWorld.run (Delivering writer)
    (fun shared delivering delivers enabled => delivering.sound shared delivers enabled)
    (fun shared delivering delivers step effect => (delivering.kept delivers step effect).1)
    sequential initial.shared (initial.delivering writes) with ⟨ledger, -, -, board⟩
  rw [initial.timeout] at board
  refine ⟨⟨world, _, sequential, board, ?_, ?_⟩, follows.returns, follows.1.apart⟩
  · rcases follows with ⟨-, other, follows⟩
    exact follows.free
  · rcases follows with ⟨-, other, follows⟩
    intro thread action found isAlone
    exact (follows.alone thread action found isAlone).1

/-! ## Computed runs -/

theorem QueueMemory.Torn.of_mem {seen : List QueueMemory} {memory : QueueMemory}
    (isSeen : memory ∈ seen) : Torn seen memory :=
  ⟨⟨_, isSeen, rfl⟩, ⟨_, isSeen, rfl⟩, ⟨_, isSeen, rfl⟩, ⟨_, isSeen, rfl⟩, ⟨_, isSeen, rfl⟩,
    ⟨_, isSeen, rfl⟩, ⟨_, isSeen, rfl⟩, ⟨_, isSeen, rfl⟩, ⟨_, isSeen, rfl⟩,
    fun _ => ⟨_, isSeen, rfl⟩⟩

namespace MultiConnectors

instance (writer : Option Nat) (thread : Nat) (world : World) (action : Action) :
    Decidable ((multiRules writer).mayAlone thread world action) :=
  inferInstanceAs (Decidable (_ ∧ _ ∧ _))

instance (writer : Option Nat) (thread : Nat) (world : World) (action : Action) :
    Decidable ((multiRules writer).mayBeside thread world action) :=
  inferInstanceAs (Decidable ((_ ∨ _) ∧ _))

instance (locker : SharedLocker.System) (thread : Nat) :
    DecidablePred (Permits locker thread)
  | .entersAlone _ => inferInstanceAs (Decidable (∃ holder ∈ locker.places[thread]?, _ ∧ _))
  | .entersBeside _ => inferInstanceAs (Decidable (∃ holder ∈ locker.places[thread]?, _ ∧ _))
  | .works => inferInstanceAs (Decidable True)
  | .ends _ _ => inferInstanceAs (Decidable True)

def isOutside (connectors : MultiConnectors) (thread : Nat) : Bool :=
  match connectors.sections.place thread with
  | .outside => true
  | _ => false

/-- Execute a step, if it is allowed and returns what the label says. A call in an exclusive
section clears the memory before it ends, and a call in a sharable section reads the memory as
it was at the beginning. -/
def play (writer : Option Nat) (connectors : MultiConnectors) :
    Nat × MultiEvent → Option MultiConnectors
  | (thread, .locks move returned) =>
      if connectors.isOutside thread then
        match connectors.locker.places[thread]? with
        | none => none
        | some holder =>
            match holder.move connectors.locker.shared move with
            | none => none
            | some (given, shared, nextHolder) =>
                if given = returned then
                  some ⟨⟨shared, connectors.locker.places.set thread nextHolder⟩,
                    connectors.sections⟩
                else none
      else none
  | (thread, .calls (.entersAlone action)) =>
      if connectors.isOutside thread ∧ Permits connectors.locker thread (.entersAlone action) ∧
          (multiRules writer).mayAlone thread connectors.sections.state action then
        some ⟨connectors.locker, ⟨connectors.sections.state,
          Function.update connectors.sections.place thread
            (.alone action connectors.sections.state)⟩⟩
      else none
  | (thread, .calls (.entersBeside action)) =>
      if connectors.isOutside thread ∧ Permits connectors.locker thread (.entersBeside action) ∧
          (multiRules writer).mayBeside thread connectors.sections.state action then
        some ⟨connectors.locker, ⟨connectors.sections.state,
          Function.update connectors.sections.place thread
            (.beside action [connectors.sections.state])⟩⟩
      else none
  | (thread, .calls .works) =>
      match connectors.sections.place thread with
      | .alone _ _ => some ⟨connectors.locker,
          ⟨{ connectors.sections.state with memory := .zeros }, connectors.sections.place⟩⟩
      | _ => none
  | (thread, .calls (.ends action result)) =>
      match connectors.sections.place thread with
      | .alone called found =>
          match found.perform called with
          | .ok (returned, next) =>
              if called = action ∧ returned = result then
                some ⟨connectors.locker, ⟨next,
                  Function.update connectors.sections.place thread .outside⟩⟩
              else none
          | .error _ => none
      | .beside called (first :: _) =>
          match connectors.sections.state.performThrough first.memory called with
          | .ok (returned, next) =>
              if called = action ∧ returned = result then
                some ⟨connectors.locker, ⟨next, Function.update (fun other =>
                  Sections.sees next (connectors.sections.place other)) thread .outside⟩⟩
              else none
          | .error _ => none
      | _ => none

variable {writer : Option Nat} {connectors next : MultiConnectors} {thread : Nat}

theorem eq_outside (outside : connectors.isOutside thread = true) :
    connectors.sections.place thread = .outside := by
  unfold isOutside at outside
  split at outside
  · assumption
  · cases outside

theorem step_of_play {label : Nat × MultiEvent} (played : play writer connectors label = some next) :
    Step writer connectors label next := by
  rcases label with ⟨thread, event⟩
  cases event with
  | locks move returned =>
      rw [play] at played
      split at played
      case isFalse => cases played
      case isTrue outside =>
        split at played
        case h_1 => cases played
        case h_2 holder isHolder =>
          split at played
          case h_1 => cases played
          case h_2 given shared nextHolder moved =>
            split at played
            case isFalse => cases played
            case isTrue same =>
              cases played
              subst same
              exact .lock (.act isHolder moved) (eq_outside outside)
  | calls event =>
      cases event with
      | entersAlone action =>
          rw [play] at played
          split at played
          case isFalse => cases played
          case isTrue allowed =>
            rcases allowed with ⟨outside, permits, may⟩
            cases played
            exact .call permits (.enterAlone (eq_outside outside) may)
      | entersBeside action =>
          rw [play] at played
          split at played
          case isFalse => cases played
          case isTrue allowed =>
            rcases allowed with ⟨outside, permits, may⟩
            cases played
            exact .call permits (.enterBeside (eq_outside outside) may)
      | works =>
          rw [play] at played
          split at played
          case h_1 called found isAlone =>
            cases played
            exact .call trivial (.work _ isAlone)
          case h_2 => cases played
      | ends action result =>
          rw [play] at played
          split at played
          case h_3 => cases played
          case h_1 called found isAlone =>
            split at played
            case h_2 => cases played
            case h_1 returned after performed =>
              split at played
              case isFalse => cases played
              case isTrue same =>
                rcases same with ⟨rfl, rfl⟩
                cases played
                exact .call trivial (.endAlone isAlone performed)
          case h_2 called first rest isBeside =>
            split at played
            case h_2 => cases played
            case h_1 returned after performed =>
              split at played
              case isFalse => cases played
              case isTrue same =>
                rcases same with ⟨rfl, rfl⟩
                cases played
                have isSeen : first.memory ∈ (first :: rest).map World.memory := by simp
                exact .call trivial (.endBeside isBeside (.of_mem isSeen) performed)

end MultiConnectors

/-- The object 1 gets while the object 0 pops the same message, and reads the memory as it was
before. -/
theorem multi_connectors_linearize_overlapping :
    ∃ (opened world : World) (board : Broadcast) (final : MultiConnectors),
      Run (MultiConnectors.Step (some 2)) (.start 3 opened)
        [(2, .locks .tryLock (some true)),
          (2, .calls (.entersAlone (.push 2 3 [7, 8] 10))),
          (2, .calls .works),
          (2, .calls (.ends (.push 2 3 [7, 8] 10) (.pushed true))),
          (2, .locks .unlock none),
          (0, .locks .tryLockSharable (some true)),
          (1, .locks .tryLockSharable (some true)),
          (0, .calls (.entersBeside (.pop 0))),
          (1, .calls (.entersBeside (.get 1))),
          (0, .calls (.ends (.pop 0) (.popped true))),
          (1, .calls (.ends (.get 1) (.message (some ⟨3, 2, [7, 8]⟩))))] final ∧
      final.sections.state.memory.references = [1] ∧
      Run (fun world label next => world.Delivers (some 2) label.1 ∧ world.Step label next) opened
        [(.push 2 3 [7, 8] 10, .pushed true), (.pop 0, .popped true),
          (.get 1, .message (some ⟨3, 2, [7, 8]⟩))] world ∧
      Run Broadcast.Step .start
        [(.push 2 3 [7, 8] 10, .pushed true), (.pop 0, .popped true),
          (.get 1, .message (some ⟨3, 2, [7, 8]⟩))] board := by
  have fresh : (World.created 0 (Queue.created .shared 100 1 [])).FreshShared :=
    ⟨.zeros, .shared, 0, 100, 1, [], _, 0, .inl rfl, by decide, by decide, rfl, rfl⟩
  rcases World.exists_run (fun _ => Action.Joins)
    (show World.runs _ (World.created 0 (Queue.created .shared 100 1 []))
      [(.attach 1 .shared 2 [], .done), (.attach 2 .unreadable 3 [], .done)]
      (fun opened => decide (opened.subscribers.card < 2 ^ 32) &&
        decide (2 ∈ opened.live ∧ (opened.handle 2).type = .unreadable) &&
        ([(2, .locks .tryLock (some true)),
          (2, .calls (.entersAlone (.push 2 3 [7, 8] 10))),
          (2, .calls .works),
          (2, .calls (.ends (.push 2 3 [7, 8] 10) (.pushed true))),
          (2, .locks .unlock none),
          (0, .locks .tryLockSharable (some true)),
          (1, .locks .tryLockSharable (some true)),
          (0, .calls (.entersBeside (.pop 0))),
          (1, .calls (.entersBeside (.get 1))),
          (0, .calls (.ends (.pop 0) (.popped true))),
          (1, .calls (.ends (.get 1) (.message (some ⟨3, 2, [7, 8]⟩))))].foldlM
            (MultiConnectors.play (some 2)) (MultiConnectors.start 3 opened)).any
          fun final => decide (final.sections.state.memory.references = [1])) = true by
        decide +kernel) with ⟨opened, arrive, ready⟩
  rw [Bool.and_eq_true, Bool.and_eq_true, decide_eq_true_iff, decide_eq_true_iff] at ready
  rcases ready with ⟨⟨few, writes⟩, played⟩
  rcases (Option.any_eq_true _ _).mp played with ⟨final, ran, references⟩
  have run := Run.of_foldlM (MultiConnectors.step_of_play) ran
  rcases multi_connectors_linearize fresh arrive few
    (fun id isWriter => Option.some.inj isWriter ▸ writes) run with
    ⟨⟨world, board, sequential, broadcast, -, -⟩, -, -⟩
  exact ⟨opened, world, board, final, run, of_decide_eq_true references, sequential, broadcast⟩

end Qbus
