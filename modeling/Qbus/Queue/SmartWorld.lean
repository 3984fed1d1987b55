import Qbus.Queue.Pending
import Qbus.Queue.Execution
import Qbus.Queue.Shared

/-! # Smart queues

The objects of the class `smart_shared_queue` on one memory. A world of such objects
tracks a ledger whose members are the objects. Every call that returns does to the ledger
what it is meant to do, and keeps the account of the free space. -/

namespace Qbus

open ByteMemory Message Circular Placement Storage MachineWord

/-! ## Steps -/

structure Ledger.Seeks (ledger : Ledger Nat Entry) (member sid index : Nat) : Prop where
  lower : ledger.cursor member ≤ index
  skipped : ∀ other entry, ledger.cursor member ≤ other → other < index →
    ledger.log[other]? = some entry → ¬entry.Foreign sid

inductive SmartStep (timeout : Nat) (sid : Nat → Nat) :
    Ledger Nat Entry → Action × Result → Ledger Nat Entry → Prop
  | attach {ledger during id process clock entry} (newcomer : id ∉ ledger.members)
      (shown : Entry.view entry = ⟨ServiceMessage.tag, 1, [ServiceMessage.Code.connect.toByte]⟩)
      (own : entry.sid = process)
      (evolves : ledger.Evolves during id [entry]) (kept : during.cursor = ledger.cursor) :
      SmartStep timeout sid ledger (.attach id .smart process clock, .done) (during.join id)
  | push {ledger id tag data now accepted after entry}
      (shown : Entry.view entry = ⟨tag.toNat, data.length, data⟩) (own : entry.sid = sid id)
      (evolves : ledger.Evolves after id (if accepted then [entry] else []))
      (kept : timeout = 0 → after.cursor = ledger.cursor)
      (inside : after.cursor id ≤ ledger.log.length) :
      SmartStep timeout sid ledger (.push id tag data now, .pushed accepted) after
  | get {ledger id index} (seeks : ledger.Seeks id (sid id) index)
      (found : ∀ entry, ledger.log[index]? = some entry → entry.Foreign (sid id))
      (inside : index ≤ ledger.log.length) :
      SmartStep timeout sid ledger
        (.get id, .message (ledger.log[index]?.map Entry.view)) (ledger.seek id index)
  | pop {ledger id index} (seeks : ledger.Seeks id (sid id) index)
      (unread : index < ledger.log.length) :
      SmartStep timeout sid ledger (.pop id, .popped true) (ledger.seek id (index + 1))
  | popNone {ledger id} (read : ledger.log.length ≤ ledger.cursor id) :
      SmartStep timeout sid ledger (.pop id, .popped false) ledger
  | clean {ledger id count} (garbage : ledger.Garbage count) :
      SmartStep timeout sid ledger (.clean id, .cleaned count) (ledger.collect count)
  | destroy {ledger during id clock entry last closing} (isMember : id ∈ ledger.members)
      (shown : Entry.view entry =
        ⟨ServiceMessage.tag, 1, [ServiceMessage.Code.disconnect.toByte]⟩)
      (own : entry.sid = sid id) (evolves : ledger.Evolves during id [entry])
      (lower : during.cursor id ≤ last) (found : during.log[last]? = some closing)
      (closes : closing.Disconnects (sid id))
      (first : ∀ other earlier, during.cursor id ≤ other → other < last →
        during.log[other]? = some earlier → ¬earlier.Disconnects (sid id)) :
      SmartStep timeout sid ledger (.destroy id clock, .done)
        ((during.seek id (last + 1)).leave id)
  | keepaliveTimeout {ledger value} :
      SmartStep timeout sid ledger (.keepaliveTimeout value, .done) ledger

namespace World

/-- The steps of smart queues that keep the account of the free space. -/
def SmartSound (world : World) : Action → Prop
  | .attach _ type sid _ => type = .smart ∧ world.live.card + 1 < 2 ^ 32 ∧ sid < 2 ^ 32
  | .push id tag data now => data ≠ [] ∧
      (world.queue id).attempts (Queue.contained data.length) tag.toNat data now = true
  | .pop id => world.Current id
  | _ => True

instance (world : World) : DecidablePred world.SmartSound
  | .attach _ type sid _ => inferInstanceAs
      (Decidable (type = .smart ∧ world.live.card + 1 < 2 ^ 32 ∧ sid < 2 ^ 32))
  | .push id tag data now => inferInstanceAs (Decidable (data ≠ [] ∧
      (world.queue id).attempts (Queue.contained data.length) tag.toNat data now = true))
  | .pop id => inferInstanceAs (Decidable (world.Current id))
  | .get _ => inferInstanceAs (Decidable True)
  | .clean _ => inferInstanceAs (Decidable True)
  | .destroy _ _ => inferInstanceAs (Decidable True)
  | .keepaliveTimeout _ => inferInstanceAs (Decidable True)

end World

structure Handle.Smart (handle : Handle) : Prop where
  smart : handle.type = .smart
  placed : handle.head ≠ sharedHead
  state : handle.state = .unknown
  sid : handle.sid < 2 ^ 32

/-- A world of smart queue objects that tracks a ledger. The booked members have no object
yet, and have not read any message. -/
structure SmartWorld (metered : Prop) (booked : Finset Nat) (world : World)
    (ledger : Ledger Nat Entry) : Prop where
  tracks : Tracks world.memory ledger
  accounted : metered → Accounted world.memory ledger.log ledger.collected
  members : ledger.members = world.live ∪ booked
  apart : Disjoint world.live booked
  unread : ∀ id ∈ booked, ledger.cursor id = 0
  subscribed : world.memory.subscriptionsCount = ledger.members.card
  few : ledger.members.card < 2 ^ 32
  handles : ∀ id ∈ world.live, (world.handle id).Smart
  follows : ∀ id ∈ world.live,
    Follows world.memory.capacity ledger.log (world.handle id) (ledger.cursor id)

namespace SmartWorld

variable {metered : Prop} {booked : Finset Nat} {world : World} {ledger after : Ledger Nat Entry}
  {id : Nat} {next : Queue}

theorem mem_members (smart : SmartWorld metered booked world ledger) (live : id ∈ world.live) :
    id ∈ ledger.members := by
  rw [smart.members]
  exact Finset.mem_union_left _ live

theorem member (smart : SmartWorld metered booked world ledger) (live : id ∈ world.live) :
    (world.queue id).SmartMember metered ledger id :=
  ⟨(smart.handles id live).smart, smart.tracks, smart.accounted, smart.mem_members live,
    smart.follows id live, (smart.handles id live).placed, smart.subscribed, smart.few⟩

theorem update (smart : SmartWorld metered booked world ledger) {more : List Entry} (live : id ∈ world.live)
    (evolves : ledger.Evolves after id more) (settings : SameSettings next.memory world.memory)
    (reader : next.SmartMember metered after id) (sid : next.self.sid = (world.handle id).sid)
    (state : next.self.state = (world.handle id).state) :
    SmartWorld metered booked (world.update id next) after where
  tracks := reader.tracks
  accounted := reader.accounted
  members := evolves.members.trans smart.members
  apart := smart.apart
  unread := by
    intro other isBooked
    rw [evolves.others other fun same => Finset.disjoint_left.mp smart.apart live
      (same ▸ isBooked)]
    exact smart.unread other isBooked
  subscribed := reader.subscribed
  few := reader.few
  handles := by
    intro other otherLive
    rcases eq_or_ne other id with same | different
    · rw [same, World.update_handle_self]
      have before := smart.handles id live
      exact ⟨reader.smart, reader.placed, state.trans before.state, by
        rw [sid]
        exact before.sid⟩
    · rw [World.update_handle_of_ne world next different]
      exact smart.handles other otherLive
  follows := by
    intro other otherLive
    rcases eq_or_ne other id with same | different
    · rw [same, World.update_handle_self]
      exact reader.follows
    · have isMember := smart.mem_members otherLive
      rw [World.update_handle_of_ne world next different, World.update_memory,
        settings.capacity, evolves.others other different, evolves.log]
      exact (smart.follows other otherLive).append
        (smart.tracks.valid.cursorLe other isMember) more

structure Effect (metered : Prop) (booked : Finset Nat) (world : World) (ledger : Ledger Nat Entry) (label : Action × Result)
    (next : World) (after : Ledger Nat Entry) : Prop where
  smart : SmartWorld metered booked next after
  step : SmartStep world.memory.keepaliveTimeout (fun id => (world.handle id).sid) ledger label
    after
  capacity : next.memory.capacity = world.memory.capacity
  timeout : next.memory.keepaliveTimeout = label.1.timeout world.memory.keepaliveTimeout
  others : ∀ other, label.1.actor ≠ some other → next.handle other = world.handle other

theorem effect (smart : SmartWorld metered booked world ledger) {more : List Entry} {label : Action × Result}
    (live : id ∈ world.live) (actor : label.1.actor = some id)
    (acts : Acts (world.queue id) next ledger after id more) (reader : next.SmartMember metered after id)
    (desc : MessageDesc)
    (step : SmartStep world.memory.keepaliveTimeout (fun id => (world.handle id).sid) ledger
      label after) :
    Effect metered booked world ledger label
      (world.update id { next with self := { next.self with messageDesc := desc } }) after where
  smart := smart.update live acts.evolves acts.settings (reader.cache desc) acts.sid_eq
    acts.state_eq
  step := step
  capacity := acts.settings.capacity
  timeout := by
    rw [Action.timeout_of_actor actor]
    exact acts.settings.keepaliveTimeout
  others := by
    intro other notActor
    refine World.update_handle_of_ne world _ fun same => notActor ?_
    rw [same]
    exact actor

end SmartWorld

end Qbus
