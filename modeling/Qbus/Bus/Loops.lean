import Qbus.Bus.Names
import Qbus.Foundation.MachineWord

/-! # The loops of a bus

The loops of `push`, `get` and `pop` and of the updates in them end, whatever the connectors
answer and whichever names are linked, as long as nobody interferes. -/

namespace Qbus.Bus

open MachineWord

/-! ## Distances of words -/

theorem sub32_succ {first last : Nat} (different : ¬SameWord last first) :
    sub32 last (first + 1) + 1 = sub32 last first := by
  unfold SameWord at different
  unfold sub32 sub
  omega

namespace ControlBlock

def remaining (controlBlock : ControlBlock) : Nat :=
  sub32 controlBlock.outputId controlBlock.inputId

def room (controlBlock : ControlBlock) : Nat :=
  sub32 controlBlock.inputId (controlBlock.outputId + 1)

variable {controlBlock : ControlBlock}

theorem remaining_removed (allowed : controlBlock.canRemoveConnector = true) :
    controlBlock.removed.remaining + 1 = controlBlock.remaining := by
  rw [canRemoveConnector_iff] at allowed
  exact sub32_succ fun same => allowed same.symm

theorem room_added (allowed : controlBlock.canAddConnector = true) :
    controlBlock.added.room + 1 = controlBlock.room := by
  rw [canAddConnector_iff] at allowed
  exact sub32_succ fun same => allowed same.symm

end ControlBlock

variable {Message : Type} {channel : Channel Message}

/-! ## Connectors that are mapped -/

namespace Segments

variable {segments : Segments channel} {id memory : Nat} {capacity : UInt32}

theorem capacity_create (known : segments.capacity memory = some capacity) (created : UInt32) :
    (segments.create id created).capacity memory = some capacity := by
  rcases Option.map_eq_some_iff.mp known with ⟨connector, found, same⟩
  have inside := (List.getElem?_eq_some_iff.mp found).1
  rw [Segments.capacity, create, List.getElem?_append_left inside, found, ← same]
  rfl

theorem capacity_create_new (segments : Segments channel) (id : Nat) (capacity : UInt32) :
    (segments.create id capacity).capacity segments.connectors.length = some capacity := by
  rw [Segments.capacity, create, List.getElem?_concat_length]
  rfl

theorem eq_of_capacity_create {created : UInt32}
    (known : (segments.create id created).capacity memory = some capacity) :
    segments.capacity memory = some capacity ∨ capacity = created := by
  rw [Segments.capacity, create] at known
  rcases Nat.lt_trichotomy memory segments.connectors.length with older | newest | beyond
  · rw [List.getElem?_append_left older] at known
    exact .inl known
  · rw [newest, List.getElem?_concat_length] at known
    exact .inr (Option.some.inj known).symm
  · rw [List.getElem?_eq_none (by simp only [List.length_append, List.length_singleton]; omega)]
      at known
    cases known

@[simp] theorem capacity_setQueue (segments : Segments channel) (memory other : Nat)
    (queue : channel.State) :
    (segments.setQueue memory queue).capacity other = segments.capacity other := by
  simp only [Segments.capacity, setQueue, List.getElem?_modify, Option.map_eq_map, Option.map_map]
  apply congrArg (Option.map · segments.connectors[other]?)
  funext connector
  rw [Function.comp_apply]
  split <;> rfl

theorem names_unlink (segments : Segments channel) (id name : Nat) :
    (segments.unlink id).names name =
      if name = id % 2 ^ 32 then none else segments.names name := rfl

theorem names_create (segments : Segments channel) (id name : Nat) (capacity : UInt32) :
    (segments.create id capacity).names name =
      if name = id % 2 ^ 32 then some segments.connectors.length else segments.names name := rfl

theorem names_setControlBlock (segments : Segments channel) (controlBlock : ControlBlock) :
    (segments.setControlBlock controlBlock).names = segments.names := rfl

theorem capacity_setControlBlock (segments : Segments channel) (controlBlock : ControlBlock)
    (memory : Nat) :
    (segments.setControlBlock controlBlock).capacity memory = segments.capacity memory := rfl

structure Extends (before after : Segments channel) : Prop where
  spec : after.spec = before.spec
  kept : ∀ memory capacity, before.capacity memory = some capacity →
    after.capacity memory = some capacity

/-- The first connector of the bus could be made, and no connector is larger than allowed. -/
structure Bounded (segments : Segments channel) : Prop where
  first : 0 < segments.spec.newCapacity 0
  bounded : ∀ memory capacity, segments.capacity memory = some capacity →
    capacity ≤ segments.spec.maxCapacity
  named : ∀ name memory, segments.names name = some memory →
    (segments.capacity memory).isSome

structure Holds (segments : Segments channel) (connectors : List Mapped) : Prop where
  nonempty : connectors ≠ []
  found : ∀ mapped ∈ connectors, (segments.capacity mapped.memory).isSome

structure Works (segments after : Segments channel) : Prop where
  extend : Extends segments after
  bounded : Bounded after
  controlBlock : after.controlBlock = segments.controlBlock

namespace Extends

variable {before middle after : Segments channel} {connectors : List Mapped}

theorem refl (segments : Segments channel) : Extends segments segments :=
  ⟨rfl, fun _ _ known => known⟩

theorem trans (first : Extends before middle) (second : Extends middle after) :
    Extends before after :=
  ⟨second.spec.trans first.spec, fun memory capacity known =>
    second.kept memory capacity (first.kept memory capacity known)⟩

theorem there (extend : Extends before after) {memory : Nat}
    (known : (before.capacity memory).isSome) : (after.capacity memory).isSome := by
  rcases Option.isSome_iff_exists.mp known with ⟨capacity, found⟩
  exact Option.isSome_of_eq_some (extend.kept memory capacity found)

theorem holds (extend : Extends before after) (holds : Holds before connectors) :
    Holds after connectors :=
  ⟨holds.nonempty, fun mapped member => extend.there (holds.found mapped member)⟩

end Extends

namespace Works

variable {middle after : Segments channel}

theorem refl (bounded : Bounded segments) : Works segments segments :=
  ⟨.refl segments, bounded, rfl⟩

theorem trans (first : Works segments middle) (second : Works middle after) :
    Works segments after :=
  ⟨first.extend.trans second.extend, second.bounded,
    second.controlBlock.trans first.controlBlock⟩

end Works

namespace Bounded

theorem unlink (bounded : Bounded segments) (id : Nat) : Bounded (segments.unlink id) where
  first := bounded.first
  bounded := bounded.bounded
  named := by
    intro name memory linked
    rw [names_unlink] at linked
    split at linked
    · cases linked
    · exact bounded.named name memory linked

theorem create (bounded : Bounded segments) (id : Nat)
    (allowed : capacity ≤ segments.spec.maxCapacity) :
    Works segments (segments.create id capacity) where
  extend := ⟨rfl, fun _ _ known => capacity_create known capacity⟩
  bounded := {
    first := bounded.first
    bounded := by
      intro memory other known
      rcases eq_of_capacity_create known with older | same
      · exact bounded.bounded memory other older
      · exact same ▸ allowed
    named := by
      intro name memory linked
      rw [names_create] at linked
      split at linked
      · cases linked
        exact Option.isSome_of_eq_some (capacity_create_new _ _ _)
      · rcases Option.isSome_iff_exists.mp (bounded.named name memory linked) with
          ⟨other, known⟩
        exact Option.isSome_of_eq_some (capacity_create known capacity) }
  controlBlock := rfl

theorem setQueue (bounded : Bounded segments) (memory : Nat) (queue : channel.State) :
    Works segments (segments.setQueue memory queue) where
  extend := ⟨rfl, fun other _ known => by rwa [capacity_setQueue]⟩
  bounded := {
    first := bounded.first
    bounded := fun other _ known => bounded.bounded other _ (by rwa [capacity_setQueue] at known)
    named := fun name other linked => by
      rw [capacity_setQueue]
      exact bounded.named name other linked }
  controlBlock := rfl

end Bounded

namespace Holds

variable {connectors : List Mapped} {mapped : Mapped}

theorem outputCapacity (holds : Holds segments connectors) :
    ∃ capacity, segments.outputCapacity connectors = some capacity := by
  rcases connectors with - | ⟨front, rest⟩
  · exact absurd rfl holds.nonempty
  · exact Option.isSome_iff_exists.mp (holds.found front List.mem_cons_self)

theorem cons (holds : Holds segments connectors)
    (there : (segments.capacity mapped.memory).isSome) :
    Holds segments (mapped :: connectors) where
  nonempty := List.cons_ne_nil mapped connectors
  found := by
    intro other member
    rcases List.mem_cons.mp member with rfl | older
    · exact there
    · exact holds.found other older

theorem single (there : (segments.capacity mapped.memory).isSome) : Holds segments [mapped] where
  nonempty := List.cons_ne_nil mapped []
  found := by
    intro other member
    rcases List.mem_singleton.mp member with rfl
    exact there

theorem dropLast (holds : Holds segments connectors) (more : connectors.dropLast ≠ []) :
    Holds segments connectors.dropLast :=
  ⟨more, fun mapped member => holds.found mapped (List.dropLast_subset connectors member)⟩

end Holds

end Segments

theorem Specification.newCapacity_le (spec : Specification) (old : UInt32) :
    spec.newCapacity old ≤ spec.maxCapacity := by
  rw [UInt32.le_iff_toNat_le, newCapacity, UInt32.toNat_min]
  exact Nat.min_le_right _ _

/-! ## Making connectors -/

namespace Segments

/-- `make_connector` has returned a connector. Unless its name could be opened, it is larger
than the output connector. -/
structure Made (segments after : Segments channel) (old : UInt32) (name : Nat) (mapped : Mapped) :
    Prop where
  id : mapped.id = name
  there : (after.capacity mapped.memory).isSome
  larger : segments.name name = none →
    ∃ capacity, after.capacity mapped.memory = some capacity ∧ old < capacity

variable {segments : Segments channel} {connectors : List Mapped} {controlBlock : ControlBlock}

theorem Bounded.makeConnector (bounded : Bounded segments) {old : UInt32}
    (output : segments.outputCapacity connectors = some old) (id : Nat) :
    ∃ made after, segments.makeConnector connectors id = some (made, after) ∧
      Works segments after ∧ (∀ mapped ∈ made, Made segments after old id mapped) ∧
      (connectors = [] → made.isSome) := by
  rw [Segments.makeConnector]
  cases linked : segments.name id with
  | some memory =>
      refine ⟨some ⟨id, memory⟩, segments, rfl, .refl bounded, ?_, fun _ => rfl⟩
      intro mapped made
      cases made
      refine ⟨rfl, bounded.named _ memory linked, ?_⟩
      intro absent
      rw [linked] at absent
      cases absent
  | none =>
      simp only [output, Option.bind_eq_bind, Option.bind_some]
      have nothing : (connectors = [] → False) → ∃ made after,
          some (none, segments) = some (made, after) ∧ Works segments after ∧
            (∀ mapped ∈ made, Made segments after old id mapped) ∧
            (connectors = [] → made.isSome) := by
        intro more
        refine ⟨none, segments, rfl, .refl bounded, ?_, fun empty => (more empty).elim⟩
        intro mapped made
        cases made
      by_cases allowed : connectors = [] ∨ segments.spec.capacityFactor > 0
      · rw [if_pos allowed]
        by_cases wider : segments.spec.newCapacity old > old
        · rw [if_pos wider]
          refine ⟨_, _, rfl, bounded.create id (segments.spec.newCapacity_le old), ?_,
            fun _ => rfl⟩
          intro mapped made
          cases made
          exact ⟨rfl, Option.isSome_of_eq_some (capacity_create_new _ _ _), fun _ =>
            ⟨_, capacity_create_new _ _ _, wider⟩⟩
        · rw [if_neg wider]
          apply nothing
          intro empty
          subst empty
          cases output
          exact wider bounded.first
      · rw [if_neg allowed]
        exact nothing fun empty => allowed (.inl empty)

/-- `add_connector` has added a connector, which is larger than the output connector unless
its name could be opened. -/
structure Added (segments after : Segments channel) (connectors added : List Mapped)
    (controlBlock : ControlBlock) : Prop where
  holds : Holds after added
  larger : segments.name (controlBlock.outputId + 1) = none →
    ∃ old new, segments.outputCapacity connectors = some old ∧
      after.outputCapacity added = some new ∧ old < new

theorem Bounded.addConnector (bounded : Bounded segments) (holds : Holds segments connectors)
    (controlBlock : ControlBlock) :
    ∃ result after added next, segments.addConnector connectors controlBlock =
        some (result, after, added, next) ∧ Works segments after ∧ Holds after added ∧
      next = (if result then controlBlock.added else controlBlock) ∧
      (result = true → Added segments after connectors added controlBlock) := by
  rcases holds.outputCapacity with ⟨old, output⟩
  rcases bounded.makeConnector output (controlBlock.outputId + 1) with
    ⟨made, after, makes, works, gives, -⟩
  rw [Segments.addConnector, makes]
  cases made with
  | none =>
      refine ⟨false, after, connectors, controlBlock, rfl, works, works.extend.holds holds, rfl, ?_⟩
      intro added
      cases added
  | some mapped =>
      have made := gives mapped rfl
      have longer := (works.extend.holds holds).cons made.there
      refine ⟨true, after, mapped :: connectors, controlBlock.added, rfl, works, longer, rfl, ?_⟩
      refine fun _ => ⟨longer, ?_⟩
      intro absent
      rcases made.larger absent with ⟨new, known, larger⟩
      exact ⟨old, new, output, known, larger⟩

theorem Bounded.removeConnector (bounded : Bounded segments) (holds : Holds segments connectors)
    (controlBlock : ControlBlock) :
    ∃ after left, segments.removeConnector connectors controlBlock =
        some (true, after, left, controlBlock.removed) ∧
      Works segments after ∧ Holds after left := by
  rw [Segments.removeConnector, List.getLast?_eq_some_getLast holds.nonempty]
  have bare := bounded.unlink (connectors.getLast holds.nonempty).id
  have unlinks : Works segments (segments.unlink (connectors.getLast holds.nonempty).id) :=
    ⟨⟨rfl, fun _ _ known => known⟩, bare, rfl⟩
  simp only [Option.bind_eq_bind, Option.bind_some]
  by_cases last : connectors.dropLast = []
  · rw [if_pos last]
    have first : (segments.unlink (connectors.getLast holds.nonempty).id).outputCapacity [] =
        some 0 := rfl
    rcases bare.makeConnector first (controlBlock.inputId + 1) with
      ⟨made, after, makes, works, gives, must⟩
    rcases Option.isSome_iff_exists.mp (must rfl) with ⟨mapped, rfl⟩
    rw [makes]
    exact ⟨after, [mapped], rfl, unlinks.trans works, .single (gives mapped rfl).there⟩
  · rw [if_neg last]
    exact ⟨_, connectors.dropLast, rfl, unlinks, unlinks.extend.holds (holds.dropLast last)⟩

end Segments

/-! ## Updates -/

namespace View

structure Ready (view : View channel) : Prop where
  bounded : view.segments.Bounded
  holds : view.segments.Holds view.holder.connectors

structure Leaves (view next : View channel) : Prop where
  extend : view.segments.Extends next.segments
  ready : next.Ready

structure Works (view next : View channel) : Prop extends Leaves view next where
  controlBlock : next.segments.controlBlock = view.segments.controlBlock

variable {view middle next : View channel} {target fuel : Nat}

theorem Leaves.trans (first : Leaves view middle) (second : Leaves middle next) :
    Leaves view next :=
  ⟨first.extend.trans second.extend, second.ready⟩

theorem Works.refl (ready : view.Ready) : Works view view :=
  ⟨⟨.refl view.segments, ready⟩, rfl⟩

theorem Works.trans (first : Works view middle) (second : Works middle next) :
    Works view next :=
  ⟨first.toLeaves.trans second.toLeaves, second.controlBlock.trans first.controlBlock⟩

theorem Works.of_segments {segments : Segments channel} {holder : Holder}
    (works : view.segments.Works segments) (holds : segments.Holds holder.connectors) :
    Works view ⟨segments, holder⟩ :=
  ⟨⟨works.extend, ⟨works.bounded, holds⟩⟩, works.controlBlock⟩

/-- The output connector has become larger, and not larger than allowed. -/
def Widens (view next : View channel) : Prop :=
  ∃ old new, view.outputCapacity = some old ∧ next.outputCapacity = some new ∧ old < new ∧
    new ≤ next.segments.spec.maxCapacity

theorem Ready.outputCapacity (ready : view.Ready) :
    ∃ capacity, view.outputCapacity = some capacity ∧
      capacity ≤ view.segments.spec.maxCapacity := by
  rcases ready.holds.outputCapacity with ⟨capacity, output⟩
  rcases connected : view.holder.connectors with - | ⟨front, rest⟩
  · exact absurd connected ready.holds.nonempty
  · rw [connected] at output
    rw [View.outputCapacity, connected]
    exact ⟨capacity, output, ready.bounded.bounded front.memory capacity output⟩

theorem Ready.grow (ready : view.Ready) :
    ∃ result next, view.grow = some (result, next) ∧ Works view next ∧
      next.holder.controlBlock =
        if result then view.holder.controlBlock.added else view.holder.controlBlock := by
  rcases ready.bounded.addConnector ready.holds view.holder.controlBlock with
    ⟨result, after, added, next, adds, works, holds, controlBlock, -⟩
  rw [View.grow, adds]
  exact ⟨result, _, rfl, .of_segments works holds, controlBlock⟩

theorem Ready.shrink (ready : view.Ready) :
    ∃ next, view.shrink = some (true, next) ∧ Works view next ∧
      next.holder.controlBlock = view.holder.controlBlock.removed := by
  rcases ready.bounded.removeConnector ready.holds view.holder.controlBlock with
    ⟨after, left, removes, works, holds⟩
  rw [View.shrink, removes]
  exact ⟨_, rfl, .of_segments works holds, rfl⟩

theorem Ready.growTo (ready : view.Ready)
    (enough : sub32 target view.holder.controlBlock.outputId < fuel) :
    ∃ result next, View.growTo target fuel view = some (result, next) ∧ Works view next ∧
      next.holder.controlBlock.inputId = view.holder.controlBlock.inputId ∧
      (result = true → SameWord target next.holder.controlBlock.outputId) := by
  induction fuel generalizing view with
  | zero => cases enough
  | succ fuel induction =>
      rw [View.growTo]
      by_cases level : SameWord target view.holder.controlBlock.outputId
      · rw [if_pos level]
        exact ⟨true, view, rfl, .refl ready, rfl, fun _ => level⟩
      · rw [if_neg level]
        cases able : view.holder.controlBlock.canAddConnector with
        | false =>
            refine ⟨false, view, rfl, .refl ready, rfl, ?_⟩
            intro reached
            cases reached
        | true =>
            rcases ready.grow with ⟨result, grown, grows, works, controlBlock⟩
            simp only [Bool.not_true, Bool.false_eq_true, if_false, grows, Option.bind_eq_bind,
              Option.bind_some]
            cases result with
            | false =>
                refine ⟨false, grown, rfl, works, congrArg ControlBlock.inputId controlBlock, ?_⟩
                intro reached
                cases reached
            | true =>
                have closer := sub32_succ level
                have outputId := congrArg ControlBlock.outputId controlBlock
                rw [if_pos rfl, ControlBlock.added_outputId] at outputId
                rcases induction works.ready (by rw [outputId]; omega) with
                  ⟨result, next, again, rest, inputId, reaches⟩
                refine ⟨result, next, again, works.trans rest, inputId.trans ?_, reaches⟩
                rw [controlBlock]
                rfl

/-- What an update does. It adds connectors up to `output_id`, or fails, and then it removes
one at most. -/
structure Updates (view next : View channel) (status : UpdateStatus) : Prop where
  works : Works view next
  output : status.hasOutput = true →
    ¬SameWord view.segments.controlBlock.outputId view.holder.controlBlock.outputId ∧
      SameWord view.segments.controlBlock.outputId next.holder.controlBlock.outputId
  input : status.hasInput = true →
    ¬SameWord view.segments.controlBlock.inputId view.holder.controlBlock.inputId ∧
      next.holder.controlBlock.inputId = view.holder.controlBlock.inputId + 1 ∧
      next.holder.controlBlock.remaining + 1 =
        sub32 next.holder.controlBlock.outputId view.holder.controlBlock.inputId

theorem Updates.of_none (works : Works view next) : Updates view next .usNone where
  works := works
  output := by
    intro none
    cases none
  input := by
    intro none
    cases none

theorem hasOutput_of_grown {same : Prop} [Decidable same] {grown status : UpdateStatus}
    (single : status.hasOutput = false)
    (has : (if (!decide same) = true then grown else status).hasOutput = true) : ¬same := by
  intro equal
  rw [decide_eq_true equal, if_neg (by decide), single] at has
  cases has

theorem Ready.updateConnectors (ready : view.Ready) :
    ∃ status next, view.updateConnectors = some (status, next) ∧ Updates view next status := by
  rw [View.updateConnectors, View.isUpdated]
  by_cases level : SameWord view.segments.controlBlock.epoch view.holder.controlBlock.epoch
  · simp only [if_pos level]
    exact ⟨.usNone, view, rfl, .of_none (.refl ready)⟩
  · simp only [if_neg level, Bool.not_true, Bool.false_eq_true, if_false]
    rcases @Ready.growTo _ _ ⟨view.segments, { view.holder with
        controlBlock := { view.holder.controlBlock with
          epoch := view.segments.controlBlock.epoch } }⟩
      view.segments.controlBlock.outputId (2 ^ 32) ⟨ready.bounded, ready.holds⟩ (sub32_lt _ _) with
      ⟨result, grown, grows, works, input, reaches⟩
    have works : Works view grown := ⟨⟨works.extend, works.ready⟩, works.controlBlock⟩
    simp only [grows, Option.bind_eq_bind, Option.bind_some]
    cases result with
    | false => exact ⟨.usNone, grown, rfl, .of_none works⟩
    | true =>
        have level := reaches rfl
        simp only [Bool.not_true, Bool.false_eq_true, if_false]
        by_cases same : SameWord view.segments.controlBlock.inputId
            grown.holder.controlBlock.inputId
        · rw [if_pos same]
          refine ⟨_, grown, rfl, works, ?_, ?_⟩
          · intro status
            exact ⟨hasOutput_of_grown rfl status, level⟩
          · intro status
            split at status <;> cases status
        · rw [if_neg same]
          cases able : grown.holder.controlBlock.canRemoveConnector with
          | false => exact ⟨.usNone, grown, rfl, .of_none works⟩
          | true =>
              rcases works.ready.shrink with ⟨next, shrinks, removed, controlBlock⟩
              simp only [Bool.not_true, Bool.false_eq_true, if_false, shrinks, Option.bind_some,
                if_true]
              refine ⟨_, next, rfl, works.trans removed, ?_, ?_⟩
              · intro status
                rw [controlBlock]
                exact ⟨hasOutput_of_grown rfl status, level⟩
              · intro _
                have closer := ControlBlock.remaining_removed able
                rw [input] at same
                rw [ControlBlock.remaining, ControlBlock.remaining, input] at closer
                rw [controlBlock]
                exact ⟨same, congrArg (· + 1) input, closer⟩

/-! ## Pushing -/

theorem Ready.basePush (ready : view.Ready) (message : Message) :
    ∃ accepted next, view.basePush message = some (accepted, next) ∧ Works view next ∧
      next.holder = view.holder := by
  rcases connected : view.holder.connectors with - | ⟨front, rest⟩
  · exact absurd connected ready.holds.nonempty
  · have there := ready.holds.found front (by rw [connected]; exact List.mem_cons_self)
    rw [Segments.capacity, Option.isSome_map] at there
    rcases Option.isSome_iff_exists.mp there with ⟨connector, found⟩
    rw [View.basePush, connected]
    simp only [List.head?_cons, Option.bind_eq_bind, Option.bind_some, found]
    have works := ready.bounded.setQueue front.memory (channel.push connector.queue message).2
    exact ⟨_, _, rfl, .of_segments works (works.extend.holds ready.holds), rfl⟩

theorem Ready.pushLoop_latest (ready : view.Ready) (message : Message) (enough : 0 < fuel)
    (latest : SameWord view.segments.controlBlock.outputId view.holder.controlBlock.outputId) :
    ∃ accepted next, View.pushLoop message fuel view = some (accepted, next) ∧
      Works view next := by
  rcases Nat.exists_eq_succ_of_ne_zero (Nat.ne_of_gt enough) with ⟨fuel, rfl⟩
  rcases ready.basePush message with ⟨accepted, pushed, pushes, works, holder⟩
  rw [View.pushLoop, pushes]
  simp only [Option.bind_eq_bind, Option.bind_some]
  cases accepted with
  | false => exact ⟨false, pushed, rfl, works⟩
  | true =>
      rcases works.ready.updateConnectors with ⟨status, next, updates, updated⟩
      simp only [updates, Bool.not_true, Bool.false_eq_true, if_false, Option.bind_some]
      cases grown : status.hasOutput with
      | false => exact ⟨true, next, rfl, works.trans updated.works⟩
      | true =>
          rw [← works.controlBlock, ← holder] at latest
          exact absurd latest (updated.output grown).1

/-- The loop of `do_push` pushes at most twice: an update leaves it with the latest output
connector. -/
theorem Ready.pushLoop (ready : view.Ready) (message : Message) (enough : 1 < fuel) :
    ∃ accepted next, View.pushLoop message fuel view = some (accepted, next) ∧
      Works view next := by
  rcases Nat.exists_eq_succ_of_ne_zero (Nat.ne_of_gt (Nat.lt_trans Nat.zero_lt_one enough)) with
    ⟨fuel, rfl⟩
  rcases ready.basePush message with ⟨accepted, pushed, pushes, works, -⟩
  rw [View.pushLoop, pushes]
  simp only [Option.bind_eq_bind, Option.bind_some]
  cases accepted with
  | false => exact ⟨false, pushed, rfl, works⟩
  | true =>
      rcases works.ready.updateConnectors with ⟨status, next, updates, updated⟩
      simp only [updates, Bool.not_true, Bool.false_eq_true, if_false, Option.bind_some]
      cases grown : status.hasOutput with
      | false => exact ⟨true, next, rfl, works.trans updated.works⟩
      | true =>
          have latest := (updated.output grown).2
          rw [← updated.works.controlBlock] at latest
          rcases updated.works.ready.pushLoop_latest message (Nat.lt_of_succ_lt_succ enough)
            latest with ⟨accepted, last, again, rest⟩
          exact ⟨accepted, last, again, (works.trans updated.works).trans rest⟩

theorem Ready.doPush (ready : view.Ready) (message : Message) :
    ∃ accepted next, view.doPush message = some (accepted, next) ∧ Works view next := by
  rcases ready.updateConnectors with ⟨status, grown, updates, updated⟩
  rcases updated.works.ready.pushLoop message (show 1 < 2 ^ 32 by decide) with
    ⟨accepted, next, pushes, works⟩
  rw [View.doPush, updates]
  exact ⟨accepted, next, pushes, updated.works.trans works⟩

theorem Ready.addConnector (ready : view.Ready) :
    ∃ added next, view.addConnector = some (added, next) ∧ Leaves view next ∧
      (added = true → next.segments.controlBlock = view.segments.controlBlock.added ∧
        (view.segments.name (view.segments.controlBlock.outputId + 1) = none →
          Widens view next)) := by
  rcases ready.bounded.addConnector ready.holds view.segments.controlBlock with
    ⟨result, after, connectors, controlBlock, adds, works, holds, same, gives⟩
  rw [View.addConnector, adds]
  refine ⟨result, _, rfl, ⟨⟨works.extend.spec, works.extend.kept⟩,
    ⟨works.bounded.first, works.bounded.bounded, works.bounded.named⟩,
    ⟨holds.nonempty, holds.found⟩⟩, ?_⟩
  intro added
  subst added
  refine ⟨same, ?_⟩
  intro absent
  rcases (gives rfl).larger absent with ⟨old, new, before, wider, larger⟩
  rcases @Ready.outputCapacity _ _ ⟨after, ⟨connectors, {}⟩⟩ ⟨works.bounded, holds⟩ with
    ⟨capacity, output, allowed⟩
  cases wider.symm.trans output
  exact ⟨old, new, before, wider, larger, allowed⟩

/-- The loop of `push` ends: there is less room for every connector that is added. -/
theorem Ready.pushGrowing (ready : view.Ready) (message : Message)
    (enough : view.segments.controlBlock.room < fuel) :
    ∃ accepted next, View.pushGrowing message fuel view = some (accepted, next) ∧
      Leaves view next := by
  induction fuel generalizing view with
  | zero => cases enough
  | succ fuel induction =>
      rcases ready.doPush message with ⟨accepted, pushed, pushes, works⟩
      rw [View.pushGrowing, pushes]
      simp only [Option.bind_eq_bind, Option.bind_some]
      cases accepted with
      | true => exact ⟨true, pushed, rfl, works.toLeaves⟩
      | false =>
          cases able : pushed.segments.controlBlock.canAddConnector with
          | false => exact ⟨false, pushed, rfl, works.toLeaves⟩
          | true =>
              rcases works.ready.addConnector with ⟨added, wider, adds, leaves, gives⟩
              simp only [Bool.not_true, Bool.false_eq_true, if_false, adds, Option.bind_some]
              cases added with
              | false => exact ⟨false, wider, rfl, works.toLeaves.trans leaves⟩
              | true =>
                  have less := ControlBlock.room_added able
                  rw [← (gives rfl).1, works.controlBlock] at less
                  rcases induction leaves.ready (by omega) with ⟨accepted, next, loops, rest⟩
                  exact ⟨accepted, next, loops, (works.toLeaves.trans leaves).trans rest⟩

/-! ## Reading -/

section Read

variable {Value : Type} (operation : channel.State → Option Value × channel.State)

theorem Ready.baseRead (ready : view.Ready) :
    ∃ value next, view.baseRead operation = some (value, next) ∧ Works view next ∧
      next.holder = view.holder := by
  have last := List.getLast?_eq_some_getLast ready.holds.nonempty
  have there := ready.holds.found _ (List.getLast_mem ready.holds.nonempty)
  rw [Segments.capacity, Option.isSome_map] at there
  rcases Option.isSome_iff_exists.mp there with ⟨connector, found⟩
  rw [View.baseRead, last]
  simp only [Option.bind_eq_bind, Option.bind_some, found]
  have works := ready.bounded.setQueue (view.holder.connectors.getLast ready.holds.nonempty).memory
    (operation connector.queue).2
  exact ⟨_, _, rfl, .of_segments works (works.extend.holds ready.holds), rfl⟩

/-- The loop of `do_get` and `do_pop` ends: every update that removes a connector brings the
copy of `input_id` closer to the shared one. -/
theorem Ready.doRead (ready : view.Ready)
    (enough : sub32 view.segments.controlBlock.inputId view.holder.controlBlock.inputId < fuel) :
    ∃ value next, View.doRead operation fuel view = some (value, next) ∧ Works view next := by
  induction fuel generalizing view with
  | zero => cases enough
  | succ fuel induction =>
      rcases ready.baseRead operation with ⟨value, read, reads, works, holder⟩
      rw [View.doRead, reads]
      simp only [Option.bind_eq_bind, Option.bind_some]
      cases value with
      | some value => exact ⟨some value, read, rfl, works⟩
      | none =>
          rcases works.ready.updateConnectors with ⟨status, next, updates, updated⟩
          simp only [Option.isSome_none, Bool.false_eq_true, if_false, updates, Option.bind_some]
          cases removed : status.hasInput with
          | false => exact ⟨none, next, rfl, works.trans updated.works⟩
          | true =>
              rcases updated.input removed with ⟨behind, forward, -⟩
              have closer := sub32_succ behind
              rw [← forward, ← updated.works.controlBlock] at closer
              rw [← works.controlBlock, ← updated.works.controlBlock, ← holder] at enough
              rcases induction updated.works.ready (by omega) with ⟨value, final, again, rest⟩
              exact ⟨value, final, again, (works.trans updated.works).trans rest⟩

theorem Ready.removeConnector (ready : view.Ready) :
    ∃ next, view.removeConnector = some (true, next) ∧ Leaves view next ∧
      next.segments.controlBlock = view.segments.controlBlock.removed := by
  rcases ready.bounded.removeConnector ready.holds view.segments.controlBlock with
    ⟨after, left, removes, works, holds⟩
  rw [View.removeConnector, removes]
  refine ⟨_, rfl, ⟨⟨works.extend.spec, works.extend.kept⟩,
    ⟨works.bounded.first, works.bounded.bounded, works.bounded.named⟩,
    ⟨holds.nonempty, holds.found⟩⟩, rfl⟩

/-- The loop of `get` and `pop` ends: every connector that is removed brings `input_id` closer to
`output_id`. -/
theorem Ready.readShrinking (ready : view.Ready)
    (enough : view.segments.controlBlock.remaining < fuel) :
    ∃ value next, View.readShrinking operation fuel view = some (value, next) ∧
      Leaves view next := by
  induction fuel generalizing view with
  | zero => cases enough
  | succ fuel induction =>
      rcases ready.doRead operation (sub32_lt _ _) with ⟨value, read, reads, works⟩
      rw [View.readShrinking, reads]
      simp only [Option.bind_eq_bind, Option.bind_some]
      cases value with
      | some value => exact ⟨some value, read, rfl, works.toLeaves⟩
      | none =>
          simp only [Option.isSome_none, Bool.false_eq_true, if_false]
          cases able : read.segments.controlBlock.canRemoveConnector with
          | false => exact ⟨none, read, rfl, works.toLeaves⟩
          | true =>
              rcases works.ready.removeConnector with ⟨left, removes, leaves, removed⟩
              have closer := ControlBlock.remaining_removed able
              rw [← removed, works.controlBlock] at closer
              simp only [Bool.not_true, Bool.false_eq_true, if_false, removes, Option.bind_some,
                if_true]
              rcases induction leaves.ready (by omega) with ⟨value, next, loops, rest⟩
              exact ⟨value, next, loops, (works.toLeaves.trans leaves).trans rest⟩

end Read

end View

/-! ## Opening and closing -/

namespace Segments

variable {segments : Segments channel}

theorem Bounded.clear (bounded : Bounded segments) (connectors : List Mapped) :
    Works segments (segments.clear connectors) := by
  induction connectors generalizing segments with
  | nil => exact .refl bounded
  | cons mapped connectors induction =>
      have unlinks : Works segments (segments.unlink mapped.id) :=
        ⟨⟨rfl, fun _ _ known => known⟩, bounded.unlink mapped.id, rfl⟩
      exact unlinks.trans (induction unlinks.bounded)

theorem Bounded.openChain (bounded : Bounded segments) (ids : List Nat) {connectors : List Mapped}
    (found : ∀ mapped ∈ connectors, (segments.capacity mapped.memory).isSome) :
    ∃ result after opened,
      Segments.openChain ids segments connectors = some (result, after, opened) ∧
      Works segments after ∧ (result = true →
        (∀ mapped ∈ opened, (after.capacity mapped.memory).isSome) ∧
          opened.length = ids.length + connectors.length) := by
  induction ids generalizing segments connectors with
  | nil =>
      exact ⟨true, segments, connectors, rfl, .refl bounded, fun _ =>
        ⟨found, (Nat.zero_add _).symm⟩⟩
  | cons id rest induction =>
      have output : ∃ old, segments.outputCapacity connectors = some old := by
        by_cases none : connectors = []
        · exact ⟨0, by rw [none, Segments.outputCapacity]⟩
        · exact Holds.outputCapacity ⟨none, found⟩
      rcases output with ⟨old, capacity⟩
      rcases bounded.makeConnector capacity id with ⟨made, wider, makes, works, gives, -⟩
      rw [Segments.openChain, makes]
      simp only [Option.bind_eq_bind, Option.bind_some]
      cases made with
      | none =>
          refine ⟨false, _, [], rfl, works.trans (works.bounded.clear connectors), ?_⟩
          intro opened
          cases opened
      | some mapped =>
          have longer : ∀ other ∈ mapped :: connectors, (wider.capacity other.memory).isSome := by
            intro other member
            rcases List.mem_cons.mp member with rfl | older
            · exact (gives other rfl).there
            · exact works.extend.there (found other older)
          rcases induction works.bounded longer with ⟨result, after, opened, opens, more, all⟩
          refine ⟨result, after, opened, opens, works.trans more, ?_⟩
          intro succeeds
          rcases all succeeds with ⟨there, length⟩
          refine ⟨there, ?_⟩
          rw [length, List.length_cons, List.length_cons]
          omega

theorem Bounded.opens (bounded : Bounded segments) :
    ∃ result view, segments.open = some (result, view) ∧ segments.Extends view.segments ∧
      view.segments.Bounded ∧ (result = true → view.Ready) := by
  rw [Segments.open]
  cases segments.linked with
  | false =>
      refine ⟨false, ⟨segments, {}⟩, rfl, .refl segments, bounded, ?_⟩
      intro opened
      cases opened
  | true =>
      have none : ∀ mapped ∈ ([] : List Mapped), (segments.capacity mapped.memory).isSome := by
        intro mapped member
        cases member
      rcases bounded.openChain segments.controlBlock.chain none with
        ⟨result, after, opened, opens, works, all⟩
      simp only [Bool.not_true, Bool.false_eq_true, if_false, opens, Option.bind_eq_bind,
        Option.bind_some]
      cases result with
      | false =>
          refine ⟨false, _, rfl, ⟨works.extend.spec, works.extend.kept⟩,
            ⟨works.bounded.first, works.bounded.bounded, works.bounded.named⟩, ?_⟩
          intro opened
          cases opened
      | true =>
          rcases all rfl with ⟨there, length⟩
          refine ⟨true, _, rfl, works.extend, works.bounded, fun _ => ⟨works.bounded, ?_, there⟩⟩
          intro empty
          change opened = [] at empty
          rw [empty, ControlBlock.chain, List.length_range'] at length
          simp at length

end Segments

end Qbus.Bus
