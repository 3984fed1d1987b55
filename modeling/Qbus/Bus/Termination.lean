import Qbus.Bus.Widening
import Qbus.Foundation.Run

/-! # The loops of a bus end

Any number of bus objects, with their calls one at a time. Whoever closes the bus unlinks its
name and those of its connectors; the others go on with what they have mapped. -/

namespace Qbus.Bus

open MachineWord

variable {Message : Type} {channel : Channel Message}

/-! ## What the loops do -/

inductive PushPoint
  /-- `update_connectors`. -/
  | updating
  /-- The loop of an update, up to `target`. -/
  | growing (target : Nat)
  /-- `base_bus::do_push`. -/
  | pushing
  /-- `add_connector` of `base_bus::push`. -/
  | adding

inductive PushAt (message : Message) (start : View channel) : PushPoint → View channel → Prop
  | begins : PushAt message start .updating start
  | grows {view} : PushAt message start .updating view →
      PushAt message start (.growing view.segments.controlBlock.outputId) view.isUpdated.2
  | grown {target view next} : PushAt message start (.growing target) view →
      ¬SameWord target view.holder.controlBlock.outputId → view.grow = some (true, next) →
      PushAt message start (.growing target) next
  | updated {view status next} : PushAt message start .updating view →
      view.updateConnectors = some (status, next) → PushAt message start .pushing next
  | pushed {view next} : PushAt message start .pushing view →
      view.basePush message = some (true, next) → PushAt message start .updating next
  | refused {view next} : PushAt message start .pushing view →
      view.basePush message = some (false, next) → PushAt message start .adding next
  | added {view result next} : PushAt message start .adding view →
      view.addConnector = some (result, next) → PushAt message start .updating next

/-- The loops of a push end, no output connector is larger than allowed, and a connector that
`push` adds itself is larger than the output connector, if its name could not be opened. -/
structure PushEnds (message : Message) (start : View channel) : Prop where
  returns : ∃ accepted next, start.push message = some (accepted, next)
  bounded : ∀ point view, PushAt message start point view → ∃ capacity,
    view.outputCapacity = some capacity ∧ capacity ≤ start.segments.spec.maxCapacity
  larger : ∀ view next, PushAt message start .adding view →
    view.addConnector = some (true, next) →
    view.segments.name (view.segments.controlBlock.outputId + 1) = none → view.Widens next

structure PushWidens (message : Message) (start : View channel) : Prop where
  added : ∀ view next, PushAt message start .adding view →
    view.addConnector = some (true, next) → view.Widens next
  grown : ∀ target view next, PushAt message start (.growing target) view →
    ¬SameWord target view.holder.controlBlock.outputId → view.grow = some (true, next) →
    view.Widens next

inductive ReadPoint
  /-- `base_bus::do_get` or `base_bus::do_pop`. -/
  | reading
  /-- `update_connectors`. -/
  | updating
  /-- `can_remove_connector` and `remove_connector` of `base_bus::get` or `base_bus::pop`. -/
  | removing
  | ended

section Read

variable {Value : Type} (operation : channel.State → Option Value × channel.State)

inductive ReadAt (start : View channel) : ReadPoint → View channel → Prop
  | begins : ReadAt start .reading start
  | missed {view next} : ReadAt start .reading view →
      view.baseRead operation = some (none, next) → ReadAt start .updating next
  | answered {view value next} : ReadAt start .reading view →
      view.baseRead operation = some (some value, next) → ReadAt start .ended next
  | updated {view status next} : ReadAt start .updating view →
      view.updateConnectors = some (status, next) → status.hasInput = true →
      ReadAt start .reading next
  | settled {view status next} : ReadAt start .updating view →
      view.updateConnectors = some (status, next) → status.hasInput = false →
      ReadAt start .removing next
  | removed {view result next} : ReadAt start .removing view →
      view.segments.controlBlock.canRemoveConnector = true →
      view.removeConnector = some (result, next) → ReadAt start .reading next

/-- The loops of a read end, and every connector that is removed brings `input_id` closer to
`output_id`, in an update those of the copy. -/
structure ReadEnds (start : View channel) : Prop where
  returns : ∃ value next, View.readShrinking operation (2 ^ 32) start = some (value, next)
  removed : ∀ view result next, ReadAt operation start .removing view →
    view.segments.controlBlock.canRemoveConnector = true →
    view.removeConnector = some (result, next) →
      next.segments.controlBlock.remaining + 1 = view.segments.controlBlock.remaining
  updated : ∀ view status next, ReadAt operation start .updating view →
    view.updateConnectors = some (status, next) → status.hasInput = true →
      next.holder.controlBlock.remaining + 1 =
        sub32 next.holder.controlBlock.outputId view.holder.controlBlock.inputId

end Read

namespace View

variable {start view next : View channel} {message : Message}

theorem Ready.isUpdated (ready : view.Ready) : Works view view.isUpdated.2 := by
  rw [View.isUpdated]
  split
  · exact .refl ready
  · exact ⟨⟨.refl view.segments, ready.bounded, ready.holds⟩, rfl⟩

theorem Ready.pushAt {point : PushPoint} (ready : start.Ready)
    (reached : PushAt message start point view) : Leaves start view := by
  induction reached with
  | begins => exact (Works.refl ready).toLeaves
  | grows _ induction => exact induction.trans induction.ready.isUpdated.toLeaves
  | grown _ _ grows induction =>
      rcases induction.ready.grow with ⟨result, next, same, works, -⟩
      cases grows.symm.trans same
      exact induction.trans works.toLeaves
  | updated _ updates induction =>
      rcases induction.ready.updateConnectors with ⟨status, next, same, updated⟩
      cases updates.symm.trans same
      exact induction.trans updated.works.toLeaves
  | pushed _ pushes induction | refused _ pushes induction =>
      rcases induction.ready.basePush message with ⟨accepted, next, same, works, -⟩
      cases pushes.symm.trans same
      exact induction.trans works.toLeaves
  | added _ adds induction =>
      rcases induction.ready.addConnector with ⟨added, next, same, leaves, -⟩
      cases adds.symm.trans same
      exact induction.trans leaves

theorem Ready.pushEnds (ready : start.Ready) (message : Message) : PushEnds message start where
  returns := by
    rcases ready.pushGrowing message (sub32_lt _ _) with ⟨accepted, next, loops, -⟩
    exact ⟨accepted, next, loops⟩
  bounded := by
    intro point view reached
    have leaves := ready.pushAt reached
    rw [← leaves.extend.spec]
    exact leaves.ready.outputCapacity
  larger := by
    intro view next reached adds absent
    rcases (ready.pushAt reached).ready.addConnector with ⟨added, after, same, -, gives⟩
    cases adds.symm.trans same
    exact (gives rfl).2 absent

section Read

variable {Value : Type} {operation : channel.State → Option Value × channel.State}

theorem Ready.readAt {point : ReadPoint} (ready : start.Ready)
    (reached : ReadAt operation start point view) : Leaves start view := by
  induction reached with
  | begins => exact (Works.refl ready).toLeaves
  | missed _ reads induction | answered _ reads induction =>
      rcases induction.ready.baseRead operation with ⟨value, next, same, works, -⟩
      cases reads.symm.trans same
      exact induction.trans works.toLeaves
  | updated _ updates _ induction | settled _ updates _ induction =>
      rcases induction.ready.updateConnectors with ⟨status, next, same, updated⟩
      cases updates.symm.trans same
      exact induction.trans updated.works.toLeaves
  | removed _ _ removes induction =>
      rcases induction.ready.removeConnector with ⟨next, same, leaves, -⟩
      cases removes.symm.trans same
      exact induction.trans leaves

theorem Ready.readEnds (ready : start.Ready) : ReadEnds operation start where
  returns := by
    rcases ready.readShrinking operation (sub32_lt _ _) with ⟨value, next, loops, -⟩
    exact ⟨value, next, loops⟩
  removed := by
    intro view result next reached able removes
    rcases (ready.readAt reached).ready.removeConnector with ⟨after, same, -, removed⟩
    cases removes.symm.trans same
    rw [removed]
    exact ControlBlock.remaining_removed able
  updated := by
    intro view status next reached updates removed
    rcases (ready.readAt reached).ready.updateConnectors with ⟨_, after, same, updated⟩
    cases updates.symm.trans same
    exact (updated.input removed).2.2

end Read

end View

/-! ## Capacities on the way -/

def PushPoint.Knows (view : View channel) : PushPoint → Prop
  | .updating => view.Informed
  | .growing target => target = view.segments.controlBlock.outputId
  | .pushing | .adding => view.Latest

def ReadPoint.Knows (view : View channel) : ReadPoint → Prop
  | .reading | .updating | .ended => view.Informed
  | .removing => view.Latest

namespace View

variable {start view next : View channel} {message : Message} {first target : Nat}

theorem Follows.isUpdated (follows : view.Follows first) : view.isUpdated.2.Follows first := by
  rw [View.isUpdated]
  split
  · exact follows
  · exact follows.setEpoch view.segments.controlBlock.epoch

theorem isUpdated_segments (view : View channel) : view.isUpdated.2.segments = view.segments := by
  rw [View.isUpdated]
  split <;> rfl

theorem Follows.behind (follows : view.Follows first)
    (known : target = view.segments.controlBlock.outputId)
    (different : ¬SameWord target view.holder.controlBlock.outputId) :
    view.holder.controlBlock.outputId < view.segments.controlBlock.outputId := by
  rcases Nat.lt_or_eq_of_le follows.holder.outputId with less | same
  · exact less
  · exact absurd (congrArg (· % 2 ^ 32) (known.trans same.symm)) different

theorem Follows.basePush (follows : view.Follows first) {accepted : Bool}
    (pushes : view.basePush message = some (accepted, next)) :
    next.Follows first ∧ view.segments.Forward next.segments ∧
      (view.Latest → next.Latest) := by
  rcases Option.bind_eq_some_iff.mp pushes with ⟨front, -, pushes⟩
  rcases Option.bind_eq_some_iff.mp pushes with ⟨connector, -, pushes⟩
  cases pushes
  exact ⟨follows.setQueue _ _, ⟨⟨rfl, fun other _ known => by
    rwa [Segments.capacity_setQueue]⟩, Nat.le_refl _, Nat.le_refl _⟩, id⟩

theorem Follows.pushAt {point : PushPoint} (follows : start.Follows first)
    (informed : start.Informed) (reached : PushAt message start point view) :
    (∃ first, view.Follows first) ∧ start.segments.Forward view.segments ∧ point.Knows view := by
  induction reached with
  | begins => exact ⟨⟨first, follows⟩, .refl start.segments, informed⟩
  | @grows view _ induction =>
      rcases induction with ⟨⟨first, follows⟩, forward, -⟩
      have same := view.isUpdated_segments
      refine ⟨⟨first, follows.isUpdated⟩, ?_, ?_⟩
      · rw [same]
        exact forward
      · rw [PushPoint.Knows, same]
  | grown _ different grows induction =>
      rcases induction with ⟨⟨first, follows⟩, forward, target⟩
      rcases follows.grow (follows.behind target different) with
        ⟨next, same, follows, -, -, controlBlock, extend⟩
      cases grows.symm.trans same
      refine ⟨⟨first, follows⟩, forward.trans ⟨extend, ?_, ?_⟩, ?_⟩
      · rw [controlBlock]
      · rw [controlBlock]
      · rw [PushPoint.Knows, controlBlock]
        exact target
  | updated _ updates induction =>
      rcases induction with ⟨⟨first, follows⟩, forward, informed⟩
      rcases follows.updateConnectors informed updates with
        ⟨follows, latest, controlBlock, extend⟩
      exact ⟨follows, forward.trans ⟨extend, by rw [controlBlock], by rw [controlBlock]⟩, latest⟩
  | pushed _ pushes induction =>
      rcases induction with ⟨⟨first, follows⟩, forward, latest⟩
      rcases follows.basePush pushes with ⟨follows, further, kept⟩
      exact ⟨⟨first, follows⟩, forward.trans further, (kept latest).informed⟩
  | refused _ pushes induction =>
      rcases induction with ⟨⟨first, follows⟩, forward, latest⟩
      rcases follows.basePush pushes with ⟨follows, further, kept⟩
      exact ⟨⟨first, follows⟩, forward.trans further, kept latest⟩
  | added _ adds induction =>
      rcases induction with ⟨⟨first, follows⟩, forward, latest⟩
      rcases follows.addConnector latest adds with ⟨follows, latest, further, -⟩
      exact ⟨⟨first, follows⟩, forward.trans further, latest.informed⟩

theorem Follows.pushWidens (follows : start.Follows first) (informed : start.Informed)
    (message : Message) : PushWidens message start where
  added := by
    intro view next reached adds
    rcases follows.pushAt informed reached with ⟨⟨first, follows⟩, -, latest⟩
    exact (follows.addConnector latest adds).2.2.2 rfl
  grown := by
    intro target view next reached different grows
    rcases follows.pushAt informed reached with ⟨⟨first, follows⟩, -, target⟩
    rcases follows.grow (follows.behind target different) with ⟨after, same, -, widens, -⟩
    cases grows.symm.trans same
    exact widens

/-! The loops go through these states. -/

theorem pushLoop_at {fuel : Nat} {accepted : Bool} (reached : PushAt message start .pushing view)
    (loops : View.pushLoop message fuel view = some (accepted, next)) :
    PushAt message start (if accepted then .pushing else .adding) next := by
  induction fuel generalizing view with
  | zero => cases loops
  | succ fuel induction =>
      rcases Option.bind_eq_some_iff.mp loops with ⟨⟨stored, pushed⟩, pushes, loops⟩
      cases stored with
      | false =>
          cases loops
          exact .refused reached pushes
      | true =>
          rcases Option.bind_eq_some_iff.mp loops with ⟨⟨status, updated⟩, updates, loops⟩
          have later := (reached.pushed pushes).updated updates
          dsimp only at loops
          split at loops
          · exact induction later loops
          · cases loops
            exact later

theorem doPush_at {accepted : Bool} (reached : PushAt message start .updating view)
    (pushes : view.doPush message = some (accepted, next)) :
    PushAt message start (if accepted then .pushing else .adding) next := by
  rcases Option.bind_eq_some_iff.mp pushes with ⟨⟨status, updated⟩, updates, loops⟩
  exact pushLoop_at (reached.updated updates) loops

theorem pushGrowing_at {fuel : Nat} {accepted : Bool}
    (reached : PushAt message start .updating view)
    (loops : View.pushGrowing message fuel view = some (accepted, next)) :
    ∃ point, PushAt message start point next := by
  induction fuel generalizing view with
  | zero => cases loops
  | succ fuel induction =>
      rcases Option.bind_eq_some_iff.mp loops with ⟨⟨stored, pushed⟩, pushes, loops⟩
      have there := doPush_at reached pushes
      cases stored with
      | true =>
          cases loops
          exact ⟨_, there⟩
      | false =>
          simp only [Bool.false_eq_true, if_false] at loops
          split at loops
          · cases loops
            exact ⟨_, there⟩
          · rw [Option.bind_eq_bind, Option.bind_eq_some_iff] at loops
            rcases loops with ⟨⟨added, wider⟩, adds, loops⟩
            have further := there.added adds
            dsimp only at loops
            split at loops
            · exact induction further loops
            · cases loops
              exact ⟨_, further⟩

section Read

variable {Value : Type} {operation : channel.State → Option Value × channel.State}

theorem Follows.baseRead (follows : view.Follows first) {value : Option Value}
    (reads : view.baseRead operation = some (value, next)) :
    next.Follows first ∧ view.segments.Forward next.segments ∧
      (view.Informed → next.Informed) := by
  rcases Option.bind_eq_some_iff.mp reads with ⟨back, -, reads⟩
  rcases Option.bind_eq_some_iff.mp reads with ⟨connector, -, reads⟩
  cases reads
  exact ⟨follows.setQueue _ _, ⟨⟨rfl, fun other _ known => by
    rwa [Segments.capacity_setQueue]⟩, Nat.le_refl _, Nat.le_refl _⟩, id⟩

theorem Follows.readAt {point : ReadPoint} (follows : start.Follows first)
    (informed : start.Informed) (reached : ReadAt operation start point view) :
    (∃ first, view.Follows first) ∧ start.segments.Forward view.segments ∧ point.Knows view := by
  induction reached with
  | begins => exact ⟨⟨first, follows⟩, .refl start.segments, informed⟩
  | missed _ reads induction | answered _ reads induction =>
      rcases induction with ⟨⟨first, follows⟩, forward, informed⟩
      rcases follows.baseRead reads with ⟨follows, further, kept⟩
      exact ⟨⟨first, follows⟩, forward.trans further, kept informed⟩
  | updated _ updates _ induction | settled _ updates _ induction =>
      rcases induction with ⟨⟨first, follows⟩, forward, informed⟩
      rcases follows.updateConnectors informed updates with
        ⟨follows, latest, controlBlock, extend⟩
      refine ⟨follows, forward.trans ⟨extend, by rw [controlBlock], by rw [controlBlock]⟩, ?_⟩
      first
      | exact latest
      | exact latest.informed
  | removed _ able removes induction =>
      rcases induction with ⟨⟨first, follows⟩, forward, latest⟩
      rcases follows.removeConnector latest (follows.sound.further able) with
        ⟨after, same, follows, latest, moved⟩
      cases removes.symm.trans same
      exact ⟨⟨first + 1, follows⟩, forward.trans moved, latest.informed⟩

theorem doRead_at {fuel : Nat} {value : Option Value}
    (reached : ReadAt operation start .reading view)
    (loops : View.doRead operation fuel view = some (value, next)) :
    ReadAt operation start (if value.isSome then .ended else .removing) next := by
  induction fuel generalizing view with
  | zero => cases loops
  | succ fuel induction =>
      rcases Option.bind_eq_some_iff.mp loops with ⟨⟨found, read⟩, reads, loops⟩
      cases found with
      | some found =>
          cases loops
          exact reached.answered reads
      | none =>
          rcases Option.bind_eq_some_iff.mp loops with ⟨⟨status, updated⟩, updates, loops⟩
          dsimp only at loops
          split at loops
          next removed => exact induction ((reached.missed reads).updated updates removed) loops
          next kept =>
            cases loops
            exact (reached.missed reads).settled updates (Bool.eq_false_of_not_eq_true kept)

theorem readShrinking_at {fuel : Nat} {value : Option Value}
    (reached : ReadAt operation start .reading view)
    (loops : View.readShrinking operation fuel view = some (value, next)) :
    ∃ point, ReadAt operation start point next := by
  induction fuel generalizing view with
  | zero => cases loops
  | succ fuel induction =>
      rcases Option.bind_eq_some_iff.mp loops with ⟨⟨found, read⟩, reads, loops⟩
      have there := doRead_at reached reads
      cases found with
      | some found =>
          cases loops
          exact ⟨_, there⟩
      | none =>
          simp only [Option.isSome_none, Bool.false_eq_true, if_false] at loops
          split at loops
          · cases loops
            exact ⟨_, there⟩
          next able =>
            rw [Option.bind_eq_bind, Option.bind_eq_some_iff] at loops
            rcases loops with ⟨⟨removed, left⟩, removes, loops⟩
            have further := there.removed (by simpa using able) removes
            dsimp only at loops
            split at loops
            · exact induction further loops
            · cases loops
              exact ⟨_, further⟩

end Read

end View

/-! ## Calls one at a time -/

structure Site {Message : Type} (channel : Channel Message) where
  segments : Segments channel
  holders : Nat → Option Holder

namespace Site

def update (site : Site channel) (segments : Segments channel) (id : Nat)
    (holder : Option Holder) : Site channel :=
  ⟨segments, fun other => if other = id then holder else site.holders other⟩

def afterCall (site : Site channel) (id : Nat) (view : View channel) : Site channel :=
  site.update view.segments id (some view.holder)

structure Elapses (before after : Segments channel) : Prop where
  kept : after = { before with connectors := after.connectors }
  capacity : ∀ memory, after.capacity memory = before.capacity memory

/-- A call of one object, and what may happen between two calls. The label says who calls
`push`, `get` or `pop`. -/
inductive Step : Site channel → Option Nat → Site channel → Prop
  | opened {site id result view} (absent : site.holders id = none)
      (opens : site.segments.open = some (result, view)) :
      Step site none (site.update view.segments id (if result then some view.holder else none))
  | closed {site id holder} (present : site.holders id = some holder) :
      Step site none (site.update (site.segments.close holder) id none)
  /-- An object is destroyed with which the bus could not be created or opened. -/
  | unlinked {site} : Step site none ⟨{ site.segments with linked := false }, site.holders⟩
  | pushed {site id holder message accepted next} (present : site.holders id = some holder)
      (pushes : View.push message ⟨site.segments, holder⟩ = some (accepted, next)) :
      Step site (some id) (site.afterCall id next)
  | got {site id holder message next} (present : site.holders id = some holder)
      (gets : View.get ⟨site.segments, holder⟩ = some (message, next)) :
      Step site (some id) (site.afterCall id next)
  | popped {site id holder removed next} (present : site.holders id = some holder)
      (pops : View.pop ⟨site.segments, holder⟩ = some (removed, next)) :
      Step site (some id) (site.afterCall id next)
  | elapsed {site segments} (elapses : Elapses site.segments segments) :
      Step site none ⟨segments, site.holders⟩

inductive Created : Site channel → Prop
  | creates {spec view} (creates : Segments.createBus channel spec = some (true, view)) :
      Created ⟨view.segments, fun id => if id = 0 then some view.holder else none⟩

/-- Who calls `push`, `get` or `pop` has the shared `output_id` in its copy of the control
block, unless the epoch of the copy differs from the shared one. -/
def Informed (site : Site channel) (label : Option Nat) : Prop :=
  ∀ id ∈ label, ∀ holder ∈ site.holders id, View.Informed ⟨site.segments, holder⟩

/-- Every open object has connectors, and they are mapped. -/
structure Sound (site : Site channel) : Prop where
  bounded : site.segments.Bounded
  holds : ∀ id holder, site.holders id = some holder → site.segments.Holds holder.connectors

variable {site next : Site channel} {label : Option Nat} {id : Nat} {holder : Holder}

theorem Sound.ready (sound : site.Sound) (present : site.holders id = some holder) :
    View.Ready ⟨site.segments, holder⟩ :=
  ⟨sound.bounded, sound.holds id holder present⟩

theorem Sound.update (sound : site.Sound) {segments : Segments channel} (id : Nat)
    {holder : Option Holder} (extend : site.segments.Extends segments)
    (bounded : segments.Bounded)
    (holds : ∀ own, holder = some own → segments.Holds own.connectors) :
    (site.update segments id holder).Sound where
  bounded := bounded
  holds := by
    intro other own present
    by_cases same : other = id
    · exact holds own ((if_pos same).symm.trans present)
    · exact extend.holds (sound.holds other own ((if_neg same).symm.trans present))

theorem Sound.call (sound : site.Sound) {view : View channel}
    (leaves : View.Leaves ⟨site.segments, holder⟩ view) :
    (site.afterCall id view).Sound := by
  apply sound.update id leaves.extend leaves.ready.bounded
  intro own same
  cases same
  exact leaves.ready.holds

theorem Sound.step (sound : site.Sound) (step : Step site label next) : next.Sound := by
  cases step with
  | opened absent opens =>
      rcases sound.bounded.opens with ⟨result, view, same, extend, bounded, ready⟩
      cases opens.symm.trans same
      apply sound.update _ extend bounded
      intro own same
      split at same
      case isTrue succeeds =>
        cases same
        exact (ready succeeds).holds
      case isFalse => cases same
  | @closed id holder present =>
      have bare : Segments.Bounded { site.segments with linked := false } :=
        ⟨sound.bounded.first, sound.bounded.bounded, sound.bounded.named⟩
      have works := bare.clear holder.connectors
      apply sound.update id ⟨works.extend.spec, works.extend.kept⟩ works.bounded
      intro own same
      cases same
  | unlinked =>
      exact ⟨⟨sound.bounded.first, sound.bounded.bounded, sound.bounded.named⟩,
        fun id holder present => ⟨(sound.holds id holder present).nonempty,
          (sound.holds id holder present).found⟩⟩
  | pushed present pushes =>
      rcases (sound.ready present).pushGrowing _ (sub32_lt _ _) with
        ⟨accepted, view, same, leaves⟩
      cases pushes.symm.trans same
      exact sound.call leaves
  | got present gets =>
      rcases (sound.ready present).readShrinking _ (sub32_lt _ _) with
        ⟨value, view, same, leaves⟩
      cases gets.symm.trans same
      exact sound.call leaves
  | popped present pops =>
      rcases (sound.ready present).readShrinking Body.popConnector (sub32_lt _ _) with
        ⟨value, view, same, leaves⟩
      rw [View.pop, same] at pops
      cases pops
      exact sound.call leaves
  | @elapsed segments elapses =>
      have extend : site.segments.Extends segments := by
        refine ⟨?_, fun memory capacity known => (elapses.capacity memory).trans known⟩
        rw [elapses.kept]
      refine ⟨⟨?_, ?_, ?_⟩, fun id holder present => extend.holds (sound.holds id holder present)⟩
      · rw [extend.spec]
        exact sound.bounded.first
      · intro memory capacity known
        rw [extend.spec]
        exact sound.bounded.bounded memory capacity ((elapses.capacity memory).symm.trans known)
      · intro name memory linked
        have names : segments.names = site.segments.names := by rw [elapses.kept]
        rw [names] at linked
        rw [elapses.capacity]
        exact sound.bounded.named name memory linked

structure Chained (site : Site channel) : Prop where
  sound : site.segments.Sound
  follows : ∀ id holder, site.holders id = some holder →
    ∃ first, holder.Follows site.segments first

theorem Chained.update (chained : site.Chained) {segments : Segments channel} (id : Nat)
    {holder : Option Holder} (sound : segments.Sound) (forward : site.segments.Forward segments)
    (follows : ∀ own, holder = some own → ∃ first, own.Follows segments first) :
    (site.update segments id holder).Chained where
  sound := sound
  follows := by
    intro other own present
    by_cases same : other = id
    · exact follows own ((if_pos same).symm.trans present)
    · rcases chained.follows other own ((if_neg same).symm.trans present) with ⟨first, follows⟩
      exact ⟨first, follows.forward forward⟩

theorem Chained.call (chained : site.Chained) {view : View channel}
    (left : (∃ first, view.Follows first) ∧ site.segments.Forward view.segments) :
    (site.afterCall id view).Chained := by
  rcases left with ⟨⟨first, follows⟩, forward⟩
  apply chained.update id follows.sound forward
  intro own same
  cases same
  exact ⟨first, follows.holder⟩

theorem Chained.view (chained : site.Chained) (present : site.holders id = some holder) :
    ∃ first, View.Follows ⟨site.segments, holder⟩ first := by
  rcases chained.follows id holder present with ⟨first, follows⟩
  exact ⟨first, chained.sound, follows⟩

theorem Chained.step (chained : site.Chained) (informed : site.Informed label)
    (step : Step site label next) : next.Chained := by
  cases step with
  | opened absent opens =>
      rcases chained.sound.opens with ⟨result, holder, same, follows⟩
      cases opens.symm.trans same
      apply chained.update _ chained.sound (.refl site.segments)
      intro own same
      split at same
      case isTrue succeeds =>
        cases same
        exact ⟨_, follows succeeds⟩
      case isFalse => cases same
  | @closed id holder present =>
      rcases chained.sound.close holder with ⟨sound, forward⟩
      apply chained.update id sound forward
      intro own same
      cases same
  | unlinked =>
      rcases chained.sound.unlinkBus with ⟨sound, forward⟩
      refine ⟨sound, ?_⟩
      intro id holder present
      rcases chained.follows id holder present with ⟨first, follows⟩
      exact ⟨first, follows.forward forward⟩
  | pushed present pushes =>
      rcases chained.view present with ⟨first, follows⟩
      rcases View.pushGrowing_at .begins pushes with ⟨point, reached⟩
      rcases follows.pushAt (informed _ rfl _ present) reached with ⟨follows, forward, -⟩
      exact chained.call ⟨follows, forward⟩
  | got present gets =>
      rcases chained.view present with ⟨first, follows⟩
      rcases View.readShrinking_at .begins gets with ⟨point, reached⟩
      rcases follows.readAt (informed _ rfl _ present) reached with ⟨follows, forward, -⟩
      exact chained.call ⟨follows, forward⟩
  | popped present pops =>
      rcases chained.view present with ⟨first, follows⟩
      rcases Option.bind_eq_some_iff.mp pops with ⟨⟨value, view⟩, loops, pops⟩
      cases pops
      rcases View.readShrinking_at .begins loops with ⟨point, reached⟩
      rcases follows.readAt (informed _ rfl _ present) reached with ⟨follows, forward, -⟩
      exact chained.call ⟨follows, forward⟩
  | @elapsed segments elapses =>
      rcases elapses with ⟨kept, capacity⟩
      have forward : site.segments.Forward segments := by
        refine ⟨⟨?_, fun memory other known => (capacity memory).trans known⟩, ?_, ?_⟩ <;>
          rw [kept]
      refine ⟨⟨?_, ?_, ?_, ?_⟩, fun id holder present => ?_⟩
      · rw [kept]
        exact chained.sound.allows
      · rw [kept]
        exact chained.sound.ordered
      · intro name memory named
        rw [kept] at named
        rw [capacity, kept]
        exact chained.sound.named name memory named
      · rw [kept]
        exact chained.sound.linked
      · rcases chained.follows id holder present with ⟨first, follows⟩
        exact ⟨first, follows.forward forward⟩

theorem Created.sound (created : site.Created) : site.Sound ∧ site.Chained := by
  rcases created with ⟨creates⟩
  rename_i spec view
  have makes : @Segments.makeConnector _ channel { spec := spec } [] 0 =
      if spec.newCapacity 0 > 0 then
        some (some ⟨0, 0⟩, Segments.create { spec := spec } 0 (spec.newCapacity 0))
      else some (none, { spec := spec }) := rfl
  rw [Segments.createBus, makes] at creates
  by_cases first : spec.newCapacity 0 > 0
  · rw [if_pos first] at creates
    cases creates
    have bare : Segments.Bounded ({ spec := spec } : Segments channel) := by
      refine ⟨first, ?_, ?_⟩
      · intro memory capacity known
        cases known
      · intro name memory named
        cases named
    have bounded := (bare.create 0 (spec.newCapacity_le 0)).bounded
    have capacity := Segments.capacity_create_new ({ spec := spec } : Segments channel) 0
      (spec.newCapacity 0)
    constructor
    · refine ⟨bounded, ?_⟩
      intro id holder present
      have same := Option.some.inj ((Option.ite_none_right_eq_some.mp present).2)
      subst same
      exact .single (Option.isSome_of_eq_some capacity)
    · refine ⟨⟨⟨first, ?_⟩, Nat.le_refl 0, ?_, ?_⟩, ?_⟩
      · intro id within
        cases within
      · intro name memory named
        rw [Segments.names_create] at named
        split at named
        next same =>
          subst same
          cases named
          exact ⟨Nat.le_refl 0, capacity⟩
        next => cases named
      · intro _ id _ upper
        cases Nat.le_zero.mp upper
        rfl
      · intro id holder present
        have same := Option.some.inj ((Option.ite_none_right_eq_some.mp present).2)
        subst same
        refine ⟨0, (span_self 0).symm, Nat.le_refl 0, Nat.le_refl 0, Nat.le_refl 0, Nat.le_refl 0,
          ?_⟩
        intro mapped member
        cases List.mem_singleton.mp member
        exact capacity
  · rw [if_neg first] at creates
    cases creates

end Site

/-- The loops of `push`, `get` and `pop` end in every state that calls one at a time lead to,
no connector is larger than allowed, and a connector that is removed brings `input_id` closer
to `output_id`. When everybody who has called knew the output connector of the bus or had to
look for it, every connector that is added in a push is larger than the one before. -/
theorem bus_operations_end {first site : Site channel} {labels : List (Option Nat)}
    (created : first.Created) (run : Run Site.Step first labels site) {id : Nat}
    {holder : Holder} (present : site.holders id = some holder) :
    (∀ message, PushEnds message ⟨site.segments, holder⟩) ∧
    ReadEnds Body.getConnector ⟨site.segments, holder⟩ ∧
    ReadEnds Body.popConnector ⟨site.segments, holder⟩ ∧
    (Run (fun site label next => Site.Step site label next ∧ site.Informed label)
      first labels site → View.Informed ⟨site.segments, holder⟩ →
        ∀ message, PushWidens message ⟨site.segments, holder⟩) := by
  have sound := run.invariant Site.Sound (fun sound step => sound.step step) created.sound.1
  have ready := sound.ready present
  refine ⟨ready.pushEnds, ready.readEnds, ready.readEnds, ?_⟩
  intro informed known
  have chained := informed.invariant Site.Chained
    (fun chained step => chained.step step.2 step.1) created.sound.2
  rcases chained.view present with ⟨first, follows⟩
  exact follows.pushWidens known

abbrev numbers : Channel Nat := Channel.bounded id

def doublingBus : View numbers :=
  ⟨{ spec := ⟨50, 400, 100⟩, names := fun name => if name = 0 then some 0 else none,
     connectors := [⟨50, (50, [])⟩] }, ⟨[⟨0, 0⟩], {}⟩⟩

def doublingSite : Site numbers :=
  ⟨doublingBus.segments, fun id => if id = 0 then some doublingBus.holder else none⟩

theorem created_doublingSite : doublingSite.Created :=
  .creates (show Segments.createBus numbers ⟨50, 400, 100⟩ = some (true, doublingBus) from rfl)

/-- The creator adds a connector and closes the bus. Another participant, which has opened it
before, makes a connector under the same name, and that is larger than its output connector. -/
theorem bus_operations_end_unlinked : ∃ (site : Site numbers) (holder : Holder),
    Run (fun site label next => Site.Step site label next ∧ site.Informed label) doublingSite
      [none, some 0, none] site ∧
    site.holders 1 = some holder ∧ site.segments.controlBlock.outputId = 1 ∧
    site.segments.name 1 = none ∧ PushEnds 60 ⟨site.segments, holder⟩ ∧
    PushWidens 60 ⟨site.segments, holder⟩ := by
  have computed : doublingBus.segments.open.any (fun opened =>
      decide (opened.1 = true ∧ View.Informed ⟨opened.2.segments, doublingBus.holder⟩) &&
      (View.push 60 ⟨opened.2.segments, doublingBus.holder⟩).any fun pushed =>
      decide ((pushed.2.segments.close pushed.2.holder).controlBlock.outputId = 1 ∧
        (pushed.2.segments.close pushed.2.holder).name 1 = none ∧
        View.Informed ⟨pushed.2.segments.close pushed.2.holder, opened.2.holder⟩)) = true := by
    decide +kernel
  simp only [Option.any_eq_true, Bool.and_eq_true, decide_eq_true_eq] at computed
  rcases computed with ⟨⟨_, opened⟩, opens, ⟨rfl, knows⟩, ⟨accepted, pushed⟩, pushes, last,
    absent, known⟩
  have first := @Site.Step.opened _ _ doublingSite 1 true opened rfl opens
  have second := @Site.Step.pushed _ _ (doublingSite.afterCall 1 opened) 0 doublingBus.holder 60
    accepted pushed rfl pushes
  have third := @Site.Step.closed _ _ ((doublingSite.afterCall 1 opened).afterCall 0 pushed) 0
    pushed.holder rfl
  have nobody : ∀ site : Site numbers, site.Informed none := by
    intro site id caller
    cases caller
  have creator : (doublingSite.afterCall 1 opened).Informed (some 0) := by
    intro id caller holder present
    cases caller
    cases present
    exact knows
  have informed : Run (fun site label next => Site.Step site label next ∧ site.Informed label)
      doublingSite [none, some 0, none] _ :=
    .cons ⟨first, nobody doublingSite⟩ (.cons ⟨second, creator⟩ (.cons ⟨third, nobody _⟩ .nil))
  have ends := @bus_operations_end _ _ _ _ _ created_doublingSite (informed.mono And.left)
    1 opened.holder rfl
  exact ⟨_, _, informed, rfl, last, absent, ends.1 60, ends.2.2.2 informed known 60⟩

/-- A participant has added two connectors in an update, and its copy of the epoch has counted
them. When two more have been added, the epochs are equal: it adds the next connector behind
its own output connector. In an update of the other participant this one is not larger than
the one before. -/
theorem push_adds_equal : ∃ (site : Site numbers) (holder : Holder) (view next : View numbers),
    Run Site.Step doublingSite [none, some 0, some 0, some 1, some 0, some 1] site ∧
    site.holders 0 = some holder ∧
    PushAt 1 ⟨site.segments, holder⟩ (.growing 4) view ∧
    view.grow = some (true, next) ∧ view.outputCapacity = some 400 ∧
    next.outputCapacity = some 400 ∧ ¬PushWidens 1 ⟨site.segments, holder⟩ := by
  have computed : doublingBus.segments.open.any (fun opened =>
      decide (opened.1 = true) &&
      (View.push 60 ⟨opened.2.segments, doublingBus.holder⟩).any fun larger =>
      (View.push 110 larger.2).any fun largest =>
      (View.get ⟨largest.2.segments, opened.2.holder⟩).any fun got =>
      (View.push 210 ⟨got.2.segments, largest.2.holder⟩).any fun added =>
      (View.push 250 ⟨added.2.segments, got.2.holder⟩).any fun behind =>
      let view := View.isUpdated ⟨behind.2.segments, added.2.holder⟩
      decide (behind.2.segments.controlBlock.outputId = 4 ∧
        ¬SameWord 4 view.2.holder.controlBlock.outputId ∧ view.2.outputCapacity = some 400) &&
      view.2.grow.any fun grown =>
      decide (grown.1 = true ∧ grown.2.outputCapacity = some 400)) = true := by
    decide +kernel
  simp only [Option.any_eq_true, Bool.and_eq_true, decide_eq_true_eq] at computed
  rcases computed with ⟨⟨_, opened⟩, opens, rfl, ⟨_, larger⟩, first, ⟨_, largest⟩, second,
    ⟨_, got⟩, gets, ⟨_, added⟩, third, ⟨_, behind⟩, fourth, ⟨last, different, before⟩,
    ⟨_, grown⟩, grows, rfl, after⟩
  have run : Run Site.Step doublingSite [none, some 0, some 0, some 1, some 0, some 1] _ :=
    .cons (@Site.Step.opened _ _ doublingSite 1 true opened rfl opens)
    (.cons (@Site.Step.pushed _ _ _ 0 _ 60 _ larger rfl first)
    (.cons (@Site.Step.pushed _ _ _ 0 _ 110 _ largest rfl second)
    (.cons (@Site.Step.got _ _ _ 1 _ _ got rfl gets)
    (.cons (@Site.Step.pushed _ _ _ 0 _ 210 _ added rfl third)
    (.cons (@Site.Step.pushed _ _ _ 1 _ 250 _ behind rfl fourth) .nil)))))
  have reached : PushAt 1 ⟨behind.segments, added.holder⟩ (.growing 4)
      (View.isUpdated ⟨behind.segments, added.holder⟩).2 := last ▸ .grows .begins
  refine ⟨_, added.holder, _, grown, run, rfl, reached, grows, before, after, ?_⟩
  intro widens
  rcases widens.grown 4 _ grown reached different grows with ⟨old, new, output, wider, larger, -⟩
  cases output.symm.trans before
  cases wider.symm.trans after
  exact absurd larger (by decide)

end Qbus.Bus
