import Qbus.Connector.Sharing
import Qbus.Lock.Wakeup

/-! # Timed calls of connectors

The loops of `do_timed_get`, `do_timed_pop` and `do_timed_push`, whose threads
meet at the lock and at the barrier. A reader that finds nothing knocks while it
holds the sharable lock, gives the lock back and waits; a writer opens the barrier
after a successful push, before it gives the exclusive lock back. The calls on the
queue are made at once. -/

namespace Qbus

structure TimedConnectors where
  gates : SharedBarrier.System
  world : World
  /-- The owner of the exclusive lock has pushed and not opened the barrier yet. -/
  owes : Bool

inductive TimedEvent
  /-- A step at the lock or at the barrier. -/
  | moves (event : SharedBarrier.Event)
  /-- Get or pop, and give the sharable lock back. -/
  | reads (action : Action) (result : Result)
  /-- Get nothing, and go on to `knock`. -/
  | misses
  /-- A call with the exclusive lock. -/
  | writes (action : Action) (result : Result)

/-- A message is there for the object to get. -/
def World.HasMessage (world : World) (id : Nat) : Prop :=
  ∃ message next, world.Step (.get id, .message (some message)) next

def TimedEvent.shown : Nat × TimedEvent → Option (Action × Result)
  | (_, .moves _) => none
  | (_, .reads action result) | (_, .writes action result) => some (action, result)
  | (thread, .misses) => some (.get thread, .message none)

namespace TimedConnectors

def start (count : Nat) (world : World) : TimedConnectors :=
  ⟨.start count, world, false⟩

/-- The steps without a call on the queue. After a successful push the barrier is
opened before the lock is given back. -/
def Moves (owes : Bool) : SharedBarrier.Event → Prop
  | .found | .empty => False
  | .openBarrier => owes = true
  | .unlock => owes = false
  | _ => True

def owesAfter (owes : Bool) : SharedBarrier.Event → Bool
  | .openBarrier => false
  | _ => owes

inductive Step (writer : Option Nat) :
    TimedConnectors → Nat × TimedEvent → TimedConnectors → Prop
  | moves {gates next world owes thread event} : Moves owes event →
      SharedBarrier.Step gates (thread, event) next →
      Step writer ⟨gates, world, owes⟩ (thread, .moves event) ⟨next, world, owesAfter owes event⟩
  | reads {gates next world nextWorld owes thread action result} :
      action = .get thread ∨ action = .pop thread →
      SharedBarrier.Step gates (thread, .found) next →
      world.Step (action, result) nextWorld →
      Step writer ⟨gates, world, owes⟩ (thread, .reads action result) ⟨next, nextWorld, owes⟩
  | misses {gates next world nextWorld owes thread} :
      SharedBarrier.Step gates (thread, .empty) next →
      world.Step (.get thread, .message none) nextWorld →
      Step writer ⟨gates, world, owes⟩ (thread, .misses) ⟨next, nextWorld, owes⟩
  | writes {gates world nextWorld thread action result} :
      gates.places[thread]? = some .pushing → action.actor = some thread →
      world.Delivers writer action → world.Step (action, result) nextWorld →
      Step writer ⟨gates, world, false⟩ (thread, .writes action result)
        ⟨gates, nextWorld, result == .pushed true⟩

/-! ## The readers that wait -/

/-- The reader found nothing, and no push since then has opened the barrier or is
about to. -/
def Waits (opens : Nat) (owes : Bool) : SharedBarrier.Place → Prop
  | .knocking | .registering => True
  | .registered since | .expecting since | .expired since => owes = false ∧ since = opens
  | _ => False

def Caught (ledger : Ledger Nat Entry) (id : Nat) : Prop :=
  id ∈ ledger.members ∧ ledger.log.length ≤ ledger.cursor id

structure Attends (writer : Option Nat) (threads lost : Nat) (ledger : Ledger Nat Entry)
    (connectors : TimedConnectors) : Prop where
  good : MultiGood writer ledger connectors.world
  kept : SharedBarrier.Kept threads lost connectors.gates
  holder : connectors.owes = true → connectors.gates.shared.writer = true
  caught : ∀ thread place, connectors.gates.places[thread]? = some place →
    Waits connectors.gates.shared.opens connectors.owes place → Caught ledger thread

section Calls

variable {writer : Option Nat} {ledger after : Ledger Nat Entry} {world next : World}
  {label : Action × Result} {id : Nat}

theorem Caught.step (caught : Caught ledger id) (good : MultiGood writer ledger world)
    (delivers : world.Delivers writer label.1) (refused : label.2 ≠ .pushed true)
    (step : world.Step label next) (effect : SharedWorld.Effect world ledger label next after) :
    Caught after id := by
  rcases caught with ⟨isMember, read⟩
  have members := (good.2.kept delivers step effect).2
  have cursor : after.cursor id = ledger.cursor id := by
    by_cases isPop : label.1 = .pop id
    · rcases label with ⟨action, result⟩
      cases isPop
      cases effect.step with
      | pop unread => omega
      | popNone read => rfl
    · exact effect.step.cursor_eq good.2.timeout isMember isPop
  have log : after.log = ledger.log := by
    have sharedStep := effect.step
    cases sharedStep with
    | @push id tag data now accepted after entry shown evolves kept inside sweeps =>
        cases accepted with
        | true => exact absurd rfl refused
        | false => simpa using evolves.log
    | _ => rfl
  rw [Caught, members, log, cursor]
  exact ⟨isMember, read⟩

theorem get_eq (good : MultiGood writer ledger world) {result : Result}
    (step : world.Step (.get id, result) next) :
    id ∈ ledger.members ∧ result = .message (ledger.log[ledger.cursor id]?.map Entry.view) := by
  rcases good.performs (MultiGood.delivers (.inl rfl)) step.1 with
    ⟨given, state, after, performed, effect, -⟩
  cases step.2.symm.trans performed
  constructor
  · have isShared := (good.1.types id step.1.1).resolve_right step.1.2
    exact good.1.mem_members.mpr ⟨step.1.1, isShared⟩
  · cases effect.step
    rfl

theorem Caught.no_message (caught : Caught ledger id) (good : MultiGood writer ledger world) :
    ¬world.HasMessage id := by
  rintro ⟨message, next, step⟩
  have result_eq := (get_eq good step).2
  rw [List.getElem?_eq_none caught.2] at result_eq
  cases result_eq

theorem caught_of_misses (good : MultiGood writer ledger world)
    (step : world.Step (.get id, .message none) next) : Caught ledger id := by
  rcases get_eq good step with ⟨isMember, result_eq⟩
  refine ⟨isMember, ?_⟩
  by_contra unread
  rw [List.getElem?_eq_getElem (Nat.lt_of_not_le unread)] at result_eq
  cases result_eq

theorem refused_of_reads {thread : Nat} {action : Action} {result : Result}
    (isRead : action = .get thread ∨ action = .pop thread)
    (effect : SharedWorld.Effect world ledger (action, result) next after) :
    result ≠ .pushed true := by
  have step := effect.step
  rcases isRead with rfl | rfl <;> cases step <;> simp

end Calls

section Places

open SharedBarrier

variable {gates next : SharedBarrier.System} {thread opens : Nat} {owes : Bool}
  {place nextPlace : Place}

theorem waits_of_moves {gate nextGate : Gate} {event : Event} (may : Moves owes event)
    (notOpen : event ≠ .openBarrier)
    (acted : SharedBarrier.Acts gate place event nextGate nextPlace) :
    nextGate.opens = gate.opens ∧ owesAfter owes event = owes ∧
      (Waits gate.opens owes nextPlace → Waits gate.opens owes place) := by
  cases acted with
  | openBarrier => exact absurd rfl notOpen
  | found => exact may.elim
  | empty => exact may.elim
  | _ => exact ⟨rfl, rfl, fun waits => by first | exact waits | exact waits.elim | trivial⟩

theorem holder_of_moves {gate nextGate : Gate} {event : Event} (may : Moves owes event)
    (acted : SharedBarrier.Acts gate place event nextGate nextPlace)
    (owed : owesAfter owes event = true) (held : owes = true → gate.writer = true) :
    nextGate.writer = true := by
  cases acted with
  | lock => rfl
  | unlock => cases may.symm.trans owed
  | openBarrier => cases owed
  | _ => exact held owed

theorem since_of_waits (locked : Locked gates)
    (exclusive : 0 < Threads.total Place.writes gates.places)
    (found : gates.places[thread]? = some place) (waits : Waits opens owes place) :
    owes = false ∧ 0 < place.waits (fun since => since == opens) := by
  have reading := Threads.le_total Place.reads found
  have reads := locked.reads
  have writes := locked.writes
  have excludes := locked.excludes
  have none : place.reads = 0 := by omega
  cases place with
  | knocking | registering => cases none
  | registered since => cases none
  | expecting since | expired since =>
      rcases waits with ⟨left, rfl⟩
      simp [left, Place.waits]
  | _ => exact waits.elim

theorem not_waits_of_opened (locked : Locked gates)
    (exclusive : 0 < Threads.total Place.writes gates.places)
    (found : gates.places[thread]? = some place) :
    ¬Waits (gates.shared.opens + 1) owes place := by
  intro waits
  have later := (since_of_waits locked exclusive found waits).2
  have past := locked.past
  have counted := Threads.le_total (Place.waits fun since => gates.shared.opens < since) found
  have fewer : place.waits (fun since => since == gates.shared.opens + 1) ≤
      place.waits fun since => gates.shared.opens < since := by
    apply Place.waits_mono
    intro since
    simp only [beq_iff_eq, decide_eq_true_eq]
    omega
  omega

end Places

namespace Attends

variable {writer : Option Nat} {threads lost : Nat} {ledger : Ledger Nat Entry}
  {connectors next : TimedConnectors} {label : Nat × TimedEvent}

theorem step (attends : Attends writer threads lost ledger connectors) (few : threads < 2 ^ 32)
    (step : Step writer connectors label next) :
    ∃ lost after, Attends writer threads lost after next := by
  rcases attends with ⟨good, kept, holder, caught⟩
  cases step with
  | @moves gates nextGates world owes thread event may moved =>
      dsimp only at good kept holder caught
      have nextKept := kept.step few moved
      refine ⟨_, ledger, good, nextKept, ?_, ?_⟩
      · intro owed
        rcases moved with ⟨-, acted⟩
        exact holder_of_moves may acted owed holder
      · intro other place found waits
        rcases moved with ⟨was, acted⟩
        rcases Threads.found_after_set found with ⟨rfl, rfl⟩ | ⟨different, before⟩
        · by_cases opens : event = .openBarrier
          · subst opens
            cases acted
            exact waits.elim
          · rcases waits_of_moves may opens acted with ⟨sameOpens, sameOwes, back⟩
            rw [sameOpens, sameOwes] at waits
            exact caught _ _ was (back waits)
        · by_cases opens : event = .openBarrier
          · subst opens
            cases acted
            have exclusive : 0 < Threads.total SharedBarrier.Place.writes _ :=
              Threads.le_total SharedBarrier.Place.writes was
            exact absurd waits (not_waits_of_opened kept.locked exclusive before)
          · rcases waits_of_moves may opens acted with ⟨sameOpens, sameOwes, -⟩
            rw [sameOpens, sameOwes] at waits
            exact caught _ _ before waits
  | @reads gates nextGates world nextWorld owes thread action result isRead moved called =>
      dsimp only at good kept holder caught
      rcases good.performs (MultiGood.delivers isRead) called.1 with
        ⟨given, state, after, performed, effect, stillGood⟩
      cases called.2.symm.trans performed
      have nextKept := kept.step few moved
      rcases moved with ⟨was, acted⟩
      cases acted
      refine ⟨_, after, stillGood, nextKept, holder, ?_⟩
      intro other place found waits
      rcases Threads.found_after_set found with ⟨rfl, rfl⟩ | ⟨different, before⟩
      · exact waits.elim
      · exact (caught _ _ before waits).step good (MultiGood.delivers isRead)
          (refused_of_reads isRead effect) called effect
  | @misses gates nextGates world nextWorld owes thread moved called =>
      dsimp only at good kept holder caught
      rcases good.performs (MultiGood.delivers (.inl rfl)) called.1 with
        ⟨given, state, after, performed, effect, stillGood⟩
      cases called.2.symm.trans performed
      have nextKept := kept.step few moved
      rcases moved with ⟨was, acted⟩
      cases acted
      refine ⟨_, after, stillGood, nextKept, holder, ?_⟩
      intro other place found waits
      have before : Caught ledger other := by
        rcases Threads.found_after_set found with ⟨rfl, rfl⟩ | ⟨different, before⟩
        · exact caught_of_misses good called
        · exact caught _ _ before waits
      exact before.step good (MultiGood.delivers (.inl rfl)) (by simp) called effect
  | @writes gates world nextWorld thread action result was actor delivers called =>
      dsimp only at good kept holder caught
      rcases good.performs delivers called.1 with
        ⟨given, state, after, performed, effect, stillGood⟩
      cases called.2.symm.trans performed
      have exclusive : 0 < Threads.total SharedBarrier.Place.writes gates.places :=
        Threads.le_total SharedBarrier.Place.writes was
      refine ⟨_, after, stillGood, kept, ?_, ?_⟩
      · intro owed
        have writes := kept.locked.writes
        apply Bool.eq_true_of_not_eq_false
        intro free
        rw [free, Bool.toNat_false] at writes
        omega
      · intro other place found waits
        rcases since_of_waits kept.locked exclusive found waits with ⟨refused, -⟩
        rw [refused] at waits
        apply (caught _ _ found waits).step good delivers _ called effect
        intro accepted
        cases accepted
        simp at refused

theorem run {labels : List (Nat × TimedEvent)}
    (attends : Attends writer threads lost ledger connectors) (few : threads < 2 ^ 32)
    (run : Run (Step writer) connectors labels next) :
    ∃ lost after, Attends writer threads lost after next := by
  apply run.invariant (fun state => ∃ lost after, Attends writer threads lost after state) _
    ⟨lost, ledger, attends⟩
  rintro state label next ⟨lost, ledger, attends⟩ step
  exact attends.step few step

end Attends

/-! ## What the readers can rely on -/

namespace Attends

variable {writer : Option Nat} {threads lost : Nat} {ledger : Ledger Nat Entry}
  {connectors : TimedConnectors} {reader since : Nat}

theorem owes_eq (attends : Attends writer threads lost ledger connectors)
    (free : connectors.gates.shared.writer = false) : connectors.owes = false := by
  apply Bool.eq_false_of_not_eq_true
  intro owed
  cases free.symm.trans (attends.holder owed)

theorem guarded_eq (attends : Attends writer threads lost ledger connectors)
    (free : connectors.gates.shared.writer = false) : connectors.gates.shared.guarded = false := by
  have opening := Threads.total_mono connectors.gates.places SharedBarrier.Place.writes_of_opens
  have writes := attends.kept.locked.writes
  have mutex := attends.kept.locked.mutex
  rw [free, Bool.toNat_false] at writes
  apply Bool.toNat_eq_zero.mp
  omega

theorem stale (attends : Attends writer threads lost ledger connectors)
    (free : connectors.gates.shared.writer = false)
    (found : connectors.gates.places[reader]? = some (.expecting since))
    (message : connectors.world.HasMessage reader) :
    since ≠ connectors.gates.shared.opens := by
  intro last
  have caught := attends.caught _ _ found ⟨attends.owes_eq free, last⟩
  exact caught.no_message attends.good message

theorem posted (attends : Attends writer threads lost ledger connectors)
    (free : connectors.gates.shared.writer = false) {readers : Finset Nat}
    (waiting : ∀ reader ∈ readers, connectors.world.HasMessage reader ∧
      ∃ since, connectors.gates.places[reader]? = some (.expecting since)) :
    readers.card ≤ connectors.gates.shared.barrier.mBarrier := by
  have released := attends.kept.balanced.released (attends.guarded_eq free)
  apply Nat.le_trans _ released
  apply Threads.card_le_total
  intro reader isReader
  rcases waiting reader isReader with ⟨message, since, found⟩
  refine ⟨_, found, ?_⟩
  simp only [SharedBarrier.Place.waits, bne_iff_ne.mpr (attends.stale free found message)]
  exact Nat.one_pos

theorem gets (attends : Attends writer threads lost ledger connectors)
    (free : connectors.gates.shared.writer = false)
    (found : connectors.gates.places[reader]? = some (.expecting since))
    (message : connectors.world.HasMessage reader) :
    ∃ (labels : List TimedEvent) (message : MessageView) (next : TimedConnectors),
      Run (Step writer) connectors (labels.map fun label => (reader, label)) next ∧
      .reads (.get reader) (.message (some message)) ∈ labels := by
  have unguarded := attends.guarded_eq free
  have available : ({reader} : Finset Nat).card ≤ connectors.gates.shared.barrier.mBarrier := by
    apply attends.posted free
    intro other isReader
    cases Finset.mem_singleton.mp isReader
    exact ⟨message, since, found⟩
  rw [Finset.card_singleton] at available
  rcases message with ⟨message, nextWorld, called⟩
  rcases connectors with ⟨⟨gate, places⟩, world, owes⟩
  have moved : ∀ (places : List SharedBarrier.Place) (place nextPlace : SharedBarrier.Place),
      places[reader]? = some place → (places.set reader nextPlace)[reader]? = some nextPlace := by
    intro places place nextPlace found
    exact List.getElem?_set_self (List.getElem?_eq_some_iff.mp found).1
  have taken := moved _ _ (.taken since) found
  have outside := moved _ _ .outside taken
  have sharing := moved _ _ .sharing outside
  have run : ∃ next, Run (Step writer) ⟨⟨gate, places⟩, world, owes⟩
      [(reader, .moves .wait), (reader, .moves .acknowledge), (reader, .moves .lockSharable),
        (reader, .reads (.get reader) (.message (some message)))] next := by
    apply Exists.intro
    apply Run.cons (.moves trivial (.act found (.wait available)))
    apply Run.cons (.moves trivial (.act taken (.acknowledge unguarded)))
    apply Run.cons (.moves trivial (.act outside (.lockSharable free)))
    apply Run.cons (.reads (.inl rfl) (.act sharing .found) called)
    exact .nil
  rcases run with ⟨next, run⟩
  exact ⟨[.moves .wait, .moves .acknowledge, .moves .lockSharable,
    .reads (.get reader) (.message (some message))], message, next, run, by simp⟩

end Attends

theorem Step.shown {writer : Option Nat} {connectors next : TimedConnectors}
    {label : Nat × TimedEvent} (step : Step writer connectors label next) :
    (TimedEvent.shown label = none → next.world = connectors.world) ∧
      ∀ call, TimedEvent.shown label = some call →
        connectors.world.Delivers writer call.1 ∧ connectors.world.Step call next.world := by
  cases step with
  | moves may moved => simp [TimedEvent.shown]
  | reads isRead moved called => simp [TimedEvent.shown, MultiGood.delivers isRead, called]
  | misses moved called => simp [TimedEvent.shown, World.Delivers, called]
  | writes found actor delivers called => simp [TimedEvent.shown, delivers, called]

end TimedConnectors

end Qbus
