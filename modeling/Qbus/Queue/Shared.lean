import Qbus.Queue.Subscribers

/-! # Shared queues

The objects of the classes `shared_queue` and `unreadable_shared_queue` on one
memory. A world of such objects tracks a ledger whose members are the objects
that read, the subscribers. Every sound call does to the ledger what it is meant
to do. -/

namespace Qbus

open ByteMemory Message Circular Placement Storage MachineWord

namespace Action

def actor : Action → Option Nat
  | .attach id _ _ _ => some id
  | .push id _ _ _ => some id
  | .get id => some id
  | .pop id => some id
  | .clean id => some id
  | .destroy id _ => some id
  | .keepaliveTimeout _ => none

/-- The keep alive timeout after a call, where `timeout` is the one before. -/
def timeout (timeout : Nat) : Action → Nat
  | .keepaliveTimeout value => value % 2 ^ 32
  | _ => timeout

theorem timeout_of_actor {action : Action} {id : Nat} (actor : action.actor = some id)
    (timeout : Nat) : action.timeout timeout = timeout := by
  cases action with
  | keepaliveTimeout value => cases actor
  | _ => rfl

def HasData : Action → Prop
  | .push _ _ data _ => data ≠ []
  | _ => True

end Action

/-- What a call does to the ledger. A push may skip messages of the pushing
subscriber when there is a timeout, and it collects all messages without
references at the front. -/
inductive SharedStep (timeout : Nat) :
    Ledger Nat Entry → Action × Result → Ledger Nat Entry → Prop
  | subscribe {ledger id sid clock} (newcomer : id ∉ ledger.members) :
      SharedStep timeout ledger (.attach id .shared sid clock, .done) (ledger.join id)
  | attach {ledger id sid clock} (newcomer : id ∉ ledger.members) :
      SharedStep timeout ledger (.attach id .unreadable sid clock, .done) ledger
  | push {ledger id tag data now accepted after entry}
      (shown : Entry.view entry = ⟨tag.toNat, data.length, data⟩)
      (evolves : ledger.Evolves after id (if accepted then [entry] else []))
      (kept : timeout = 0 ∨ id ∉ ledger.members → after.cursor = ledger.cursor)
      (inside : id ∈ ledger.members → after.cursor id ≤ ledger.log.length)
      (sweeps : ledger.Sweeps after) :
      SharedStep timeout ledger (.push id tag data now, .pushed accepted) after
  | get {ledger id} :
      SharedStep timeout ledger
        (.get id, .message (ledger.log[ledger.cursor id]?.map Entry.view)) ledger
  | pop {ledger id} (unread : ledger.cursor id < ledger.log.length) :
      SharedStep timeout ledger (.pop id, .popped true) (ledger.advance id)
  | popNone {ledger id} (read : ledger.log.length ≤ ledger.cursor id) :
      SharedStep timeout ledger (.pop id, .popped false) ledger
  | clean {ledger id count} (garbage : ledger.Garbage count) :
      SharedStep timeout ledger (.clean id, .cleaned count) (ledger.collect count)
  | leave {ledger id clock} (isMember : id ∈ ledger.members) :
      SharedStep timeout ledger (.destroy id clock, .done) (ledger.leave id)
  | destroy {ledger id clock} (notMember : id ∉ ledger.members) :
      SharedStep timeout ledger (.destroy id clock, .done) ledger
  | keepaliveTimeout {ledger value} :
      SharedStep timeout ledger (.keepaliveTimeout value, .done) ledger

namespace SharedStep

variable {timeout : Nat} {ledger after : Ledger Nat Entry} {label : Action × Result}

theorem cursor_eq (step : SharedStep timeout ledger label after) (noTimeout : timeout = 0)
    {member : Nat} (isMember : member ∈ ledger.members)
    (notPop : label.1 ≠ .pop member) :
    after.cursor member = ledger.cursor member := by
  cases step with
  | @subscribe id sid clock newcomer =>
      have different : member ≠ id := fun same => newcomer (same ▸ isMember)
      simp [Ledger.join, different]
  | push shown evolves kept inside sweeps => rw [kept (.inl noTimeout)]
  | @pop id unread =>
      have different : member ≠ id := fun same => notPop (by rw [same])
      simp [Ledger.advance, different]
  | _ => rfl

theorem evolves (step : SharedStep timeout ledger label after) {member : Nat}
    (actor : label.1.actor = some member) (isMember : member ∈ ledger.members)
    (stays : member ∈ after.members) : ∃ more, ledger.Evolves after member more := by
  cases step with
  | subscribe newcomer => exact absurd isMember (Option.some.inj actor ▸ newcomer)
  | attach newcomer => exact absurd isMember (Option.some.inj actor ▸ newcomer)
  | push shown evolves kept inside sweeps => exact ⟨_, Option.some.inj actor ▸ evolves⟩
  | @pop id unread =>
      have same : id = member := Option.some.inj actor
      subst same
      exact ⟨_, .advance ledger id⟩
  | clean garbage => exact ⟨_, .collect garbage member⟩
  | @leave id clock leaves =>
      have same : id = member := Option.some.inj actor
      subst same
      exact absurd stays (Finset.notMem_erase id _)
  | _ => exact ⟨_, .refl _ _⟩

theorem collected_eq (step : SharedStep timeout ledger label after)
    (notPush : ∀ id tag data now, label.1 ≠ .push id tag data now)
    (notClean : ∀ id, label.1 ≠ .clean id) : after.collected = ledger.collected := by
  cases step with
  | push shown evolves kept inside sweeps => exact absurd rfl (notPush _ _ _ _)
  | clean => exact absurd rfl (notClean _)
  | _ => rfl

theorem collected_le (step : SharedStep timeout ledger label after) :
    ledger.collected ≤ after.collected := by
  cases step with
  | push shown evolves kept inside sweeps => exact evolves.collected
  | clean => exact Nat.le_add_right _ _
  | _ => exact Nat.le_refl _

theorem leaked_eq (step : SharedStep timeout ledger label after)
    (stays : ∀ id clock, label.1 = .destroy id clock →
      id ∈ ledger.members → ledger.cursor id = ledger.log.length) :
    after.leaked = ledger.leaked := by
  cases step with
  | push shown evolves kept inside sweeps => exact evolves.leaked
  | @leave id clock isMember =>
      have read := stays id clock rfl isMember
      funext index
      simp only [Ledger.leave, read]
      rw [if_neg (by omega), Nat.add_zero]
  | _ => rfl

end SharedStep

namespace World

def subscribers (world : World) : Finset Nat :=
  {id ∈ world.live | (world.handle id).type ≠ .unreadable}

/-! ## Sound steps -/

/-- An object without a private head reads at the shared head, which is right
when no message in front of its own is stored any more. -/
def Aligned (world : World) (id : Nat) : Prop :=
  (world.queue id).count = 0 ∨ (world.handle id).head ≠ sharedHead ∨
    world.memory.count = (world.queue id).count

/-- The cached description of an object is none or that of its next message. -/
def Current (world : World) (id : Nat) : Prop :=
  (world.queue id).count = 0 ∨ (world.handle id).messageDesc.first = [] ∨
    (world.queue id).baseGetMessage = .ok (world.handle id).messageDesc

def ahead (world : World) (id : Nat) : List Nat :=
  world.memory.references.take (world.memory.count - (world.queue id).count)

def Passed (world : World) (id : Nat) : Prop :=
  ∀ references ∈ world.ahead id, references = 0

/-- A push removes no expired message. -/
def KeepsExpired (world : World) (id tag : Nat) (data : List UInt8) (now : Nat) : Prop :=
  world.memory.keepaliveTimeout = 0 ∨ (world.queue id).keepsExpired tag data now = true

/-- The steps of shared queues that do what they are meant to do. -/
def Sound (world : World) : Action → Prop
  | .attach _ type _ _ =>
      type = .shared ∧ world.subscribers.card + 1 < 2 ^ 32 ∨ type = .unreadable
  | .push id tag data now =>
      if (world.handle id).type = .unreadable then
        (world.queue id).Walkable ∧ world.KeepsExpired id tag.toNat data now
      else
        world.KeepsExpired id tag.toNat data now ∨
          ((world.handle id).head = sharedHead → world.Passed id)
  | .get id => world.Aligned id
  | .pop id => world.Aligned id ∧ world.Current id
  | .clean id => (world.queue id).Walkable
  | .destroy _ _ => True
  | .keepaliveTimeout _ => True

instance (queue : Queue) : Decidable queue.Walkable :=
  inferInstanceAs (Decidable (_ ∨ _))

instance (world : World) (id : Nat) : Decidable (world.Aligned id) :=
  inferInstanceAs (Decidable (_ ∨ _))

instance (world : World) (id : Nat) : Decidable (world.Passed id) :=
  inferInstanceAs (Decidable (∀ references ∈ world.ahead id, references = 0))

instance (world : World) (id tag : Nat) (data : List UInt8) (now : Nat) :
    Decidable (world.KeepsExpired id tag data now) :=
  inferInstanceAs (Decidable (_ ∨ _))

instance (queue : Queue) (message : MessageDesc) :
    Decidable (queue.baseGetMessage = .ok message) :=
  match queue.baseGetMessage with
  | .ok found => decidable_of_iff (found = message) (by simp)
  | .error _ => isFalse (by simp)

instance (world : World) (id : Nat) : Decidable (world.Current id) :=
  inferInstanceAs (Decidable (_ ∨ _ ∨ _))

instance (world : World) : DecidablePred world.Sound
  | .attach _ type _ _ => inferInstanceAs
      (Decidable (type = .shared ∧ world.subscribers.card + 1 < 2 ^ 32 ∨ type = .unreadable))
  | .push _ _ _ _ => inferInstanceAs (Decidable (if _ = _ then _ else _))
  | .get id => inferInstanceAs (Decidable (world.Aligned id))
  | .pop id => inferInstanceAs (Decidable (world.Aligned id ∧ world.Current id))
  | .clean id => inferInstanceAs (Decidable (world.queue id).Walkable)
  | .destroy _ _ => inferInstanceAs (Decidable True)
  | .keepaliveTimeout _ => inferInstanceAs (Decidable True)

end World

structure SharedWorld (world : World) (ledger : Ledger Nat Entry) : Prop where
  tracks : Tracks world.memory ledger
  members : ledger.members = world.subscribers
  subscribed : world.memory.subscriptionsCount = ledger.members.card
  few : ledger.members.card < 2 ^ 32
  types : ∀ id ∈ world.live,
    (world.handle id).type = .shared ∨ (world.handle id).type = .unreadable
  follows : ∀ id ∈ ledger.members,
    Follows world.memory.capacity ledger.log (world.handle id) (ledger.cursor id)
  writers : ∀ id ∈ world.live, (world.handle id).counter < 2 ^ 32

namespace SharedWorld

variable {world : World} {ledger after : Ledger Nat Entry} {id : Nat} {next : Queue}

theorem mem_members (shared : SharedWorld world ledger) :
    id ∈ ledger.members ↔ id ∈ world.live ∧ (world.handle id).type = .shared := by
  rw [shared.members, World.subscribers, Finset.mem_filter]
  refine and_congr_right fun live => ?_
  rcases shared.types id live with isShared | unreadable
  · simp [isShared]
  · simp [unreadable]

theorem update (shared : SharedWorld world ledger) {more : List Entry} (tracks : Tracks next.memory after)
    (evolves : ledger.Evolves after id more)
    (settings : SameSettings next.memory world.memory)
    (sameType : next.self.type = (world.handle id).type)
    (follows : id ∈ ledger.members →
      Follows next.memory.capacity after.log next.self (after.cursor id))
    (bounded : next.self.counter < 2 ^ 32) :
    SharedWorld (world.update id next) after := by
  have typeEq : ∀ other, ((world.update id next).handle other).type =
      (world.handle other).type := by
    intro other
    rcases eq_or_ne other id with same | different
    · rw [same, World.update_handle_self, sameType]
    · rw [World.update_handle_of_ne world next different]
  refine ⟨tracks, ?_, ?_, ?_, ?_, ?_, ?_⟩
  · rw [evolves.members, shared.members]
    simp only [World.subscribers, typeEq, World.update_live]
  · rw [evolves.members]
    exact settings.subscriptionsCount.trans shared.subscribed
  · rw [evolves.members]
    exact shared.few
  · intro other otherLive
    rw [typeEq]
    exact shared.types other otherLive
  · intro other isMember
    rw [evolves.members] at isMember
    rcases eq_or_ne other id with same | different
    · rw [same] at isMember ⊢
      rw [World.update_handle_self]
      exact follows isMember
    · rw [World.update_handle_of_ne world next different, World.update_memory,
        settings.capacity, evolves.others other different, evolves.log]
      exact (shared.follows other isMember).append
        (shared.tracks.valid.cursorLe other isMember) more
  · intro other otherLive
    rcases eq_or_ne other id with same | different
    · rw [same, World.update_handle_self]
      exact bounded
    · rw [World.update_handle_of_ne world next different]
      exact shared.writers other otherLive

theorem count_eq (shared : SharedWorld world ledger) (isMember : id ∈ ledger.members) :
    (world.queue id).count = ledger.log.length - ledger.cursor id := by
  have isShared : (world.queue id).self.type = .shared :=
    (shared.mem_members.mp isMember).2
  exact Queue.count_eq (by simp [isShared]) shared.tracks (shared.follows id isMember)
    (shared.tracks.valid.cursorGe id isMember) (shared.tracks.valid.cursorLe id isMember)

structure Effect (world : World) (ledger : Ledger Nat Entry) (label : Action × Result)
    (next : World) (after : Ledger Nat Entry) : Prop where
  shared : SharedWorld next after
  step : SharedStep world.memory.keepaliveTimeout ledger label after
  frame : AgreeUpToCounters next.memory.data world.memory.data world.memory.capacity
    ledger.log after.collected
  capacity : next.memory.capacity = world.memory.capacity
  timeout : next.memory.keepaliveTimeout =
    label.1.timeout world.memory.keepaliveTimeout
  others : ∀ other, label.1.actor ≠ some other → next.handle other = world.handle other
  types : ∀ other ∈ world.live, (next.handle other).type = (world.handle other).type
  /-- An object that has a private head keeps one. -/
  heads : ∀ other ∈ ledger.members, (next.handle other).head = sharedHead →
    (world.handle other).head = sharedHead ∧ after.cursor other = ledger.cursor other
  /-- Cached descriptions stay current while messages are not skipped. -/
  cached : ∀ other ∈ after.members, (other ∈ ledger.members →
      Cached world.memory.capacity ledger.log (world.handle other) (ledger.cursor other) ∧
        (after.cursor other = ledger.cursor other ∨ label.1 = .pop other)) →
    Cached world.memory.capacity after.log (next.handle other) (after.cursor other)
  /-- A write-only object counts the messages that it collects. -/
  writer : ∀ id ∈ world.live, label.1.actor = some id →
    (world.handle id).type = .unreadable → (next.handle id).counter =
      ((world.handle id).counter + (after.collected - ledger.collected)) % 2 ^ 32

theorem effect (shared : SharedWorld world ledger) {more : List Entry}
    {label : Action × Result} (actor : label.1.actor = some id)
    (tracks : Tracks next.memory after) (evolves : ledger.Evolves after id more)
    (settings : SameSettings next.memory world.memory)
    (sameType : next.self.type = (world.handle id).type)
    (follows : id ∈ ledger.members →
      Follows next.memory.capacity after.log next.self (after.cursor id))
    (bounded : next.self.counter < 2 ^ 32)
    (step : SharedStep world.memory.keepaliveTimeout ledger label after)
    (frame : AgreeUpToCounters next.memory.data world.memory.data world.memory.capacity
      ledger.log after.collected)
    (head : id ∈ ledger.members → next.self.head = sharedHead →
      (world.handle id).head = sharedHead ∧ after.cursor id = ledger.cursor id)
    (cached : id ∈ ledger.members →
      Cached world.memory.capacity ledger.log (world.handle id) (ledger.cursor id) →
        (after.cursor id = ledger.cursor id ∨ label.1 = .pop id) →
      Cached world.memory.capacity after.log next.self (after.cursor id))
    (writer : (world.handle id).type = .unreadable → next.self.counter =
      ((world.handle id).counter + (after.collected - ledger.collected)) % 2 ^ 32) :
    Effect world ledger label (world.update id next) after where
  shared := shared.update tracks evolves settings sameType follows bounded
  step := step
  frame := frame
  capacity := settings.capacity
  timeout := by
    rw [Action.timeout_of_actor actor]
    exact settings.keepaliveTimeout
  others := fun other different => World.update_handle_of_ne world next fun same =>
    different (by rw [actor, same])
  types := by
    intro other _
    rcases eq_or_ne other id with same | different
    · rw [same, World.update_handle_self, sameType]
    · rw [World.update_handle_of_ne world next different]
  heads := by
    intro other isMember missing
    rcases eq_or_ne other id with same | different
    · rw [same] at isMember missing ⊢
      rw [World.update_handle_self] at missing
      exact head isMember missing
    · rw [World.update_handle_of_ne world next different] at missing
      exact ⟨missing, evolves.others other different⟩
  cached := by
    intro other isMember before
    rw [evolves.members] at isMember
    rcases before isMember with ⟨before, moved⟩
    rcases eq_or_ne other id with same | different
    · rw [same] at isMember before moved ⊢
      rw [World.update_handle_self]
      exact cached isMember before moved
    · rw [World.update_handle_of_ne world next different, evolves.others other different,
        evolves.log]
      exact before.append more
  writer := by
    intro other _ isActor unreadable
    have same : id = other := Option.some.inj (actor.symm.trans isActor)
    subst same
    rw [World.update_handle_self]
    exact writer unreadable

theorem effect_refl (shared : SharedWorld world ledger) {label : Action × Result}
    (actor : label.1.actor = some id) (isMember : id ∈ ledger.members)
    (kept : next = { world.queue id with self := { world.handle id with
      messageDesc := next.self.messageDesc } })
    (step : SharedStep world.memory.keepaliveTimeout ledger label ledger)
    (cached :
      Cached world.memory.capacity ledger.log (world.handle id) (ledger.cursor id) →
      Cached world.memory.capacity ledger.log next.self (ledger.cursor id)) :
    Effect world ledger label (world.update id next) ledger := by
  rcases shared.mem_members.mp isMember with ⟨live, isShared⟩
  have memory : next.memory = world.memory := by rw [kept]; rfl
  have head : next.self.head = (world.handle id).head := by rw [kept]
  have counter : next.self.counter = (world.handle id).counter := by rw [kept]
  have follows := (shared.follows id isMember).of_cursor_eq head counter
  refine shared.effect actor ?_ (.refl _ _) ?_ ?_ (fun _ => ?_) ?_ step ?_ ?_
    (fun _ before _ => cached before) ?_
  · rw [memory]; exact shared.tracks
  · rw [memory]; exact .refl _
  · rw [kept]
  · rw [memory]; exact follows
  · rw [counter]; exact shared.writers id live
  · rw [memory]; exact .refl _
  · exact fun _ missing => ⟨head.symm.trans missing, rfl⟩
  · intro unreadable
    rw [isShared] at unreadable
    cases unreadable

end SharedWorld

end Qbus
