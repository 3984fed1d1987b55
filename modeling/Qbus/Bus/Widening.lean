import Qbus.Bus.Loops

/-! # The capacities along a chain

Every connector of a bus has the capacity that its identifier gives it, as long as every
participant that begins a call knows the output connector of the bus, or its epoch tells it
to look. Then an update is never given up, and every connector that is added is larger than
the one before. -/

namespace Qbus.Bus

variable {Message : Type} {channel : Channel Message}

namespace Specification

def capacityOf (spec : Specification) : Nat → UInt32
  | 0 => spec.newCapacity 0
  | id + 1 => spec.newCapacity (spec.capacityOf id)

theorem capacityOf_le (spec : Specification) (id : Nat) :
    spec.capacityOf id ≤ spec.maxCapacity := by
  cases id with
  | zero => exact spec.newCapacity_le 0
  | succ id => exact spec.newCapacity_le (spec.capacityOf id)

structure Allows (spec : Specification) (last : Nat) : Prop where
  first : 0 < spec.capacityOf 0
  grows : ∀ id < last,
    0 < spec.capacityFactor ∧ spec.capacityOf id < spec.capacityOf (id + 1)

variable {spec : Specification} {last : Nat}

theorem Allows.lt_capacityOf (allows : spec.Allows last) {id : Nat} (within : id ≤ last) :
    id < (spec.capacityOf id).toNat := by
  induction id with
  | zero => exact UInt32.lt_iff_toNat_lt.mp allows.first
  | succ id induction =>
      have smaller := induction (Nat.le_of_succ_le within)
      have larger := UInt32.lt_iff_toNat_lt.mp (allows.grows id within).2
      omega

theorem Allows.small (allows : spec.Allows last) : last + 1 < 2 ^ 32 := by
  have more := allows.lt_capacityOf (Nat.le_refl last)
  have word := (spec.capacityOf last).toNat_lt
  omega

theorem Allows.succ (allows : spec.Allows last) (factor : 0 < spec.capacityFactor)
    (larger : spec.capacityOf last < spec.capacityOf (last + 1)) : spec.Allows (last + 1) where
  first := allows.first
  grows := by
    intro id within
    rcases Nat.lt_or_eq_of_le (Nat.le_of_lt_succ within) with less | rfl
    · exact allows.grows id less
    · exact ⟨factor, larger⟩

end Specification

/-! ## The invariant -/

namespace Segments

/-- A name is linked to a connector of the capacity that belongs to it. As long as the bus can
be opened, so can all its connectors. -/
structure Sound (segments : Segments channel) : Prop where
  allows : segments.spec.Allows segments.controlBlock.outputId
  ordered : segments.controlBlock.inputId ≤ segments.controlBlock.outputId
  named : ∀ name memory, segments.names name = some memory →
    name ≤ segments.controlBlock.outputId ∧
      segments.capacity memory = some (segments.spec.capacityOf name)
  linked : segments.linked = true → ∀ id, segments.controlBlock.inputId ≤ id →
    id ≤ segments.controlBlock.outputId → (segments.names id).isSome

structure Forward (before after : Segments channel) : Prop extends Extends before after where
  inputId : before.controlBlock.inputId ≤ after.controlBlock.inputId
  outputId : before.controlBlock.outputId ≤ after.controlBlock.outputId

variable {segments middle after : Segments channel}

theorem Forward.refl (segments : Segments channel) : Forward segments segments :=
  ⟨.refl segments, Nat.le_refl _, Nat.le_refl _⟩

theorem Forward.trans (first : Forward segments middle) (second : Forward middle after) :
    Forward segments after :=
  ⟨first.toExtends.trans second.toExtends, Nat.le_trans first.inputId second.inputId,
    Nat.le_trans first.outputId second.outputId⟩

end Segments

/-- The connectors of a participant are a part of the chain, and its copy of the control block
is not ahead. -/
structure Holder.Follows (segments : Segments channel) (first : Nat) (holder : Holder) :
    Prop where
  ids : holder.connectors.map Mapped.id = span first holder.controlBlock.outputId
  back : first ≤ holder.controlBlock.inputId
  ordered : holder.controlBlock.inputId ≤ holder.controlBlock.outputId
  inputId : holder.controlBlock.inputId ≤ segments.controlBlock.inputId
  outputId : holder.controlBlock.outputId ≤ segments.controlBlock.outputId
  mapped : ∀ mapped ∈ holder.connectors,
    segments.capacity mapped.memory = some (segments.spec.capacityOf mapped.id)

theorem Holder.Follows.forward {before after : Segments channel} {first : Nat} {holder : Holder}
    (follows : holder.Follows before first) (forward : before.Forward after) :
    holder.Follows after first where
  ids := follows.ids
  back := follows.back
  ordered := follows.ordered
  inputId := Nat.le_trans follows.inputId forward.inputId
  outputId := Nat.le_trans follows.outputId forward.outputId
  mapped := by
    intro mapped member
    rw [forward.spec]
    exact forward.kept mapped.memory _ (follows.mapped mapped member)

/-! ## Connectors -/

namespace Segments.Sound

variable {segments : Segments channel} {connectors : List Mapped} {id : Nat}

theorem name_eq (sound : segments.Sound) (within : id ≤ segments.controlBlock.outputId + 1) :
    segments.name id = segments.names id := by
  have small := sound.allows.small
  rw [Segments.name, Nat.mod_eq_of_lt (by omega)]

theorem create (sound : segments.Sound) (within : id ≤ segments.controlBlock.outputId) :
    (segments.create id (segments.spec.capacityOf id)).Sound := by
  have small := sound.allows.small
  have word : id % 2 ^ 32 = id := Nat.mod_eq_of_lt (by omega)
  refine ⟨sound.allows, sound.ordered, ?_, ?_⟩
  · intro name memory named
    rw [names_create, word] at named
    split at named
    next same =>
      subst same
      cases named
      exact ⟨within, capacity_create_new _ _ _⟩
    next =>
      rcases sound.named name memory named with ⟨known, capacity⟩
      exact ⟨known, capacity_create capacity _⟩
  · intro linked other from_input to_output
    rw [names_create]
    split
    · rfl
    · exact sound.linked linked other from_input to_output

theorem createNext (sound : segments.Sound) (factor : 0 < segments.spec.capacityFactor)
    (larger : segments.spec.capacityOf segments.controlBlock.outputId <
      segments.spec.capacityOf (segments.controlBlock.outputId + 1)) :
    ((segments.create (segments.controlBlock.outputId + 1)
      (segments.spec.capacityOf (segments.controlBlock.outputId + 1))).setControlBlock
        segments.controlBlock.added).Sound := by
  have small := sound.allows.small
  have word : (segments.controlBlock.outputId + 1) % 2 ^ 32 =
      segments.controlBlock.outputId + 1 := Nat.mod_eq_of_lt small
  refine ⟨sound.allows.succ factor larger, Nat.le_succ_of_le sound.ordered, ?_, ?_⟩
  · intro name memory named
    rw [names_setControlBlock, names_create, word] at named
    split at named
    next same =>
      subst same
      cases named
      rw [capacity_setControlBlock, capacity_create_new]
      exact ⟨Nat.le_refl _, rfl⟩
    next =>
      rcases sound.named name memory named with ⟨known, capacity⟩
      rw [capacity_setControlBlock, capacity_create capacity]
      exact ⟨Nat.le_succ_of_le known, rfl⟩
  · intro linked other from_input to_output
    rw [names_setControlBlock, names_create, word]
    split
    · rfl
    next different =>
      have within : other ≤ segments.controlBlock.outputId := by
        change other ≤ segments.controlBlock.outputId + 1 at to_output
        omega
      exact sound.linked linked other from_input within

theorem unlink (sound : segments.Sound) (id : Nat)
    (behind : segments.linked = true → id < segments.controlBlock.inputId) :
    (segments.unlink id).Sound := by
  refine ⟨sound.allows, sound.ordered, ?_, ?_⟩
  · intro name memory named
    rw [names_unlink] at named
    split at named
    · cases named
    · exact sound.named name memory named
  · intro linked other from_input to_output
    have less := behind linked
    have small := sound.allows.small
    have ordered := sound.ordered
    rw [names_unlink, Nat.mod_eq_of_lt (by omega), if_neg]
    · exact sound.linked linked other from_input to_output
    · change segments.controlBlock.inputId ≤ other at from_input
      omega

theorem further (sound : segments.Sound)
    (able : segments.controlBlock.canRemoveConnector = true) :
    segments.controlBlock.inputId < segments.controlBlock.outputId := by
  rcases Nat.lt_or_eq_of_le sound.ordered with less | same
  · exact less
  · exact absurd (congrArg (· % 2 ^ 32) same)
      ((ControlBlock.canRemoveConnector_iff segments.controlBlock).mp able)

theorem removed (sound : segments.Sound)
    (further : segments.controlBlock.inputId < segments.controlBlock.outputId) :
    (segments.setControlBlock segments.controlBlock.removed).Sound where
  allows := sound.allows
  ordered := further
  named := sound.named
  linked := fun linked id from_input => sound.linked linked id (Nat.le_of_succ_le from_input)

theorem setQueue (sound : segments.Sound) (memory : Nat) (queue : channel.State) :
    (segments.setQueue memory queue).Sound where
  allows := sound.allows
  ordered := sound.ordered
  named := by
    intro name other named
    rw [capacity_setQueue]
    exact sound.named name other named
  linked := sound.linked

theorem makeConnector (sound : segments.Sound)
    (output : segments.outputCapacity connectors = some (segments.spec.capacityOf id))
    (within : id < segments.controlBlock.outputId) :
    ∃ memory after, segments.makeConnector connectors (id + 1) =
        some (some ⟨id + 1, memory⟩, after) ∧ after.Sound ∧ segments.Extends after ∧
      after.controlBlock = segments.controlBlock ∧
      after.capacity memory = some (segments.spec.capacityOf (id + 1)) := by
  rw [Segments.makeConnector, sound.name_eq (Nat.succ_le_succ (Nat.le_of_lt within))]
  cases named : segments.names (id + 1) with
  | some memory =>
      exact ⟨memory, segments, rfl, sound, .refl segments, rfl, (sound.named _ _ named).2⟩
  | none =>
      rcases sound.allows.grows id within with ⟨factor, larger⟩
      simp only [output, Option.bind_eq_bind, Option.bind_some]
      rw [if_pos (.inr factor)]
      change ∃ memory after, (if segments.spec.capacityOf id < segments.spec.capacityOf (id + 1)
        then _ else _) = _ ∧ _
      rw [if_pos larger]
      exact ⟨_, _, rfl, sound.create within, ⟨rfl, fun _ _ known => capacity_create known _⟩,
        rfl, capacity_create_new _ _ _⟩

theorem makeNext (sound : segments.Sound) (more : connectors ≠ [])
    (output : segments.outputCapacity connectors =
      some (segments.spec.capacityOf segments.controlBlock.outputId)) :
    segments.makeConnector connectors (segments.controlBlock.outputId + 1) =
        some (none, segments) ∨
      0 < segments.spec.capacityFactor ∧
      segments.spec.capacityOf segments.controlBlock.outputId <
        segments.spec.capacityOf (segments.controlBlock.outputId + 1) ∧
      segments.makeConnector connectors (segments.controlBlock.outputId + 1) =
        some (some ⟨segments.controlBlock.outputId + 1, segments.connectors.length⟩,
          segments.create (segments.controlBlock.outputId + 1)
            (segments.spec.capacityOf (segments.controlBlock.outputId + 1))) := by
  rw [Segments.makeConnector, sound.name_eq (Nat.le_refl _)]
  cases named : segments.names (segments.controlBlock.outputId + 1) with
  | some memory => exact absurd (sound.named _ _ named).1 (Nat.not_succ_le_self _)
  | none =>
      simp only [output, Option.bind_eq_bind, Option.bind_some, more, false_or]
      by_cases factor : segments.spec.capacityFactor > 0
      · rw [if_pos factor]
        by_cases larger : segments.spec.capacityOf segments.controlBlock.outputId <
            segments.spec.capacityOf (segments.controlBlock.outputId + 1)
        · right
          refine ⟨factor, larger, ?_⟩
          exact if_pos larger
        · left
          exact if_neg larger
      · left
        rw [if_neg factor]
        rfl

/-! ## Opening and closing -/

theorem clear (sound : segments.Sound) (connectors : List Mapped)
    (unlinked : segments.linked = false) :
    (segments.clear connectors).Sound ∧ segments.Forward (segments.clear connectors) := by
  induction connectors generalizing segments with
  | nil => exact ⟨sound, .refl segments⟩
  | cons mapped connectors induction =>
      have first := sound.unlink mapped.id fun linked => by
        rw [unlinked] at linked
        cases linked
      rcases induction first unlinked with ⟨rest, forward⟩
      exact ⟨rest, ⟨forward.spec, forward.kept⟩, forward.inputId, forward.outputId⟩

theorem unlinkBus (sound : segments.Sound) :
    Segments.Sound { segments with linked := false } ∧
      segments.Forward { segments with linked := false } := by
  refine ⟨⟨sound.allows, sound.ordered, sound.named, ?_⟩, ⟨rfl, fun _ _ known => known⟩,
    Nat.le_refl _, Nat.le_refl _⟩
  intro linked
  cases linked

theorem close (sound : segments.Sound) (holder : Holder) :
    (segments.close holder).Sound ∧ segments.Forward (segments.close holder) := by
  rcases sound.unlinkBus with ⟨bare, first⟩
  rcases bare.clear holder.connectors rfl with ⟨last, rest⟩
  exact ⟨last, first.trans rest⟩

theorem openChain (sound : segments.Sound) (linked : segments.linked = true) {ids : List Nat}
    (chain : ∀ id ∈ ids, segments.controlBlock.inputId ≤ id ∧ id ≤ segments.controlBlock.outputId)
    (mapped : ∀ mapped ∈ connectors,
      segments.capacity mapped.memory = some (segments.spec.capacityOf mapped.id)) :
    ∃ opened, Segments.openChain ids segments connectors = some (true, segments, opened) ∧
      opened.map Mapped.id = ids.reverse ++ connectors.map Mapped.id ∧
      ∀ mapped ∈ opened,
        segments.capacity mapped.memory = some (segments.spec.capacityOf mapped.id) := by
  induction ids generalizing connectors with
  | nil => exact ⟨connectors, rfl, rfl, mapped⟩
  | cons id ids induction =>
      rcases chain id List.mem_cons_self with ⟨lower, upper⟩
      rcases Option.isSome_iff_exists.mp (sound.linked linked id lower upper) with
        ⟨memory, named⟩
      have makes : segments.makeConnector connectors id =
          some (some ⟨id, memory⟩, segments) := by
        rw [Segments.makeConnector, sound.name_eq (Nat.le_succ_of_le upper), named]
        rfl
      have further : ∀ other ∈ (⟨id, memory⟩ : Mapped) :: connectors,
          segments.capacity other.memory = some (segments.spec.capacityOf other.id) := by
        intro other member
        rcases List.mem_cons.mp member with rfl | older
        · exact (sound.named id memory named).2
        · exact mapped other older
      rcases induction (fun other member => chain other (List.mem_cons_of_mem id member)) further
        with ⟨opened, opens, row, known⟩
      refine ⟨opened, ?_, ?_, known⟩
      · rw [Segments.openChain, makes]
        exact opens
      · rw [row, List.map_cons, List.reverse_cons, List.append_assoc]
        rfl

theorem opens (sound : segments.Sound) :
    ∃ result holder, segments.open = some (result, ⟨segments, holder⟩) ∧
      (result = true → holder.Follows segments segments.controlBlock.inputId) := by
  rw [Segments.open]
  cases linked : segments.linked with
  | false =>
      refine ⟨false, {}, rfl, ?_⟩
      intro opened
      cases opened
  | true =>
      have reversed := ControlBlock.chain_reverse sound.ordered
        (Nat.lt_of_succ_lt sound.allows.small)
      have within : ∀ id ∈ segments.controlBlock.chain,
          segments.controlBlock.inputId ≤ id ∧ id ≤ segments.controlBlock.outputId := by
        intro id member
        rw [← List.mem_reverse, reversed] at member
        exact mem_span.mp member
      have none : ∀ mapped ∈ ([] : List Mapped),
          segments.capacity mapped.memory = some (segments.spec.capacityOf mapped.id) := by
        intro mapped member
        cases member
      rcases sound.openChain linked within none with ⟨opened, opens, row, known⟩
      rw [List.map_nil, List.append_nil, reversed] at row
      simp only [Bool.not_true, Bool.false_eq_true, if_false, opens, Option.bind_eq_bind,
        Option.bind_some]
      exact ⟨true, _, rfl, fun _ => ⟨row, Nat.le_refl _, sound.ordered, Nat.le_refl _,
        Nat.le_refl _, known⟩⟩

end Segments.Sound

/-! ## Steps of a call -/

namespace View

structure Follows (view : View channel) (first : Nat) : Prop where
  sound : view.segments.Sound
  holder : view.holder.Follows view.segments first

/-- The participant has the output connector of the bus. -/
def Latest (view : View channel) : Prop :=
  view.holder.controlBlock.outputId = view.segments.controlBlock.outputId

/-- The participant has the output connector of the bus, or its epoch differs. -/
def Informed (view : View channel) : Prop :=
  SameWord view.segments.controlBlock.epoch view.holder.controlBlock.epoch →
    SameWord view.segments.controlBlock.outputId view.holder.controlBlock.outputId

instance (view : View channel) : Decidable view.Informed :=
  inferInstanceAs (Decidable (SameWord _ _ → SameWord _ _))

variable {view next : View channel} {first fuel : Nat}

theorem Latest.informed (latest : view.Latest) : view.Informed := by
  intro _
  rw [latest]

theorem Follows.outputId_eq (follows : view.Follows first)
    (same : SameWord view.segments.controlBlock.outputId view.holder.controlBlock.outputId) :
    view.Latest := by
  have small := follows.sound.allows.small
  have behind := follows.holder.outputId
  rw [SameWord] at same
  rw [Latest]
  omega

theorem Follows.first_le (follows : view.Follows first) :
    first ≤ view.holder.controlBlock.outputId :=
  Nat.le_trans follows.holder.back follows.holder.ordered

theorem Follows.front (follows : view.Follows first) :
    ∃ front rest, view.holder.connectors = front :: rest ∧
      front.id = view.holder.controlBlock.outputId ∧
      view.segments.capacity front.memory =
        some (view.segments.spec.capacityOf view.holder.controlBlock.outputId) := by
  have ids := follows.holder.ids
  rcases connected : view.holder.connectors with - | ⟨front, rest⟩
  · rw [connected, List.map_nil] at ids
    exact absurd ids.symm (span_ne_nil follows.first_le)
  · have newest := head?_span follows.first_le
    rw [← ids, connected, List.map_cons, List.head?_cons, Option.some.injEq] at newest
    have capacity := follows.holder.mapped front (by rw [connected]; exact List.mem_cons_self)
    exact ⟨front, rest, rfl, newest, newest ▸ capacity⟩

theorem Follows.outputCapacity (follows : view.Follows first) :
    view.outputCapacity =
      some (view.segments.spec.capacityOf view.holder.controlBlock.outputId) := by
  rcases follows.front with ⟨front, rest, connected, -, capacity⟩
  rw [View.outputCapacity, connected]
  exact capacity

theorem Follows.nonempty (follows : view.Follows first) : view.holder.connectors ≠ [] := by
  rcases follows.front with ⟨front, rest, connected, -⟩
  rw [connected]
  exact List.cons_ne_nil front rest

/-- The output connectors of two states, of which the second one is the next in the chain. -/
theorem widens_of_next {last : Nat} (output : view.outputCapacity =
      some (view.segments.spec.capacityOf last))
    (spec : next.segments.spec = view.segments.spec)
    (wider : next.outputCapacity = some (view.segments.spec.capacityOf (last + 1)))
    (larger : view.segments.spec.capacityOf last < view.segments.spec.capacityOf (last + 1)) :
    Widens view next := by
  refine ⟨_, _, output, wider, larger, ?_⟩
  rw [spec]
  exact view.segments.spec.capacityOf_le (last + 1)

theorem Follows.grow (follows : view.Follows first)
    (behind : view.holder.controlBlock.outputId < view.segments.controlBlock.outputId) :
    ∃ next, view.grow = some (true, next) ∧ next.Follows first ∧ Widens view next ∧
      next.holder.controlBlock = view.holder.controlBlock.added ∧
      next.segments.controlBlock = view.segments.controlBlock ∧
      view.segments.Extends next.segments := by
  rcases follows.sound.makeConnector follows.outputCapacity behind with
    ⟨memory, after, makes, sound, extend, controlBlock, capacity⟩
  rw [View.grow, Segments.addConnector, makes]
  have inputId := follows.holder.inputId
  refine ⟨_, rfl, ⟨sound, ?_⟩, ?_, rfl, controlBlock, extend⟩
  · constructor
    · rw [List.map_cons, follows.holder.ids]
      exact (span_succ (Nat.le_succ_of_le follows.first_le)).symm
    · exact follows.holder.back
    · exact Nat.le_succ_of_le follows.holder.ordered
    · rwa [controlBlock]
    · rw [controlBlock]
      exact behind
    · intro mapped member
      rw [extend.spec]
      rcases List.mem_cons.mp member with rfl | older
      · exact capacity
      · exact extend.kept _ _ (follows.holder.mapped mapped older)
  · exact widens_of_next follows.outputCapacity extend.spec capacity
      (follows.sound.allows.grows _ behind).2

theorem Follows.addConnector (follows : view.Follows first) (latest : view.Latest) {result : Bool}
    (adds : view.addConnector = some (result, next)) :
    next.Follows first ∧ next.Latest ∧ view.segments.Forward next.segments ∧
      (result = true → Widens view next) := by
  have output := follows.outputCapacity
  rw [latest] at output
  rcases follows.sound.makeNext follows.nonempty output with makes | ⟨factor, larger, makes⟩
  · rw [View.addConnector, Segments.addConnector, makes] at adds
    cases adds
    refine ⟨⟨follows.sound, follows.holder⟩, latest, .refl view.segments, ?_⟩
    intro added
    cases added
  · rw [View.addConnector, Segments.addConnector, makes] at adds
    cases adds
    have extend : view.segments.Extends (view.segments.create
        (view.segments.controlBlock.outputId + 1)
        (view.segments.spec.capacityOf (view.segments.controlBlock.outputId + 1))) :=
      ⟨rfl, fun _ _ known => Segments.capacity_create known _⟩
    refine ⟨⟨follows.sound.createNext factor larger, ?_⟩, rfl, ?_, fun _ => ?_⟩
    · constructor
      · rw [List.map_cons, follows.holder.ids, latest]
        exact (span_succ (Nat.le_succ_of_le (latest ▸ follows.first_le))).symm
      · exact follows.holder.back
      · exact Nat.le_succ_of_le (latest ▸ follows.holder.ordered)
      · exact follows.holder.inputId
      · exact Nat.le_refl _
      · intro mapped member
        rcases List.mem_cons.mp member with rfl | older
        · exact Segments.capacity_create_new view.segments
            (view.segments.controlBlock.outputId + 1) _
        · exact extend.kept _ _ (follows.holder.mapped mapped older)
    · exact ⟨⟨rfl, extend.kept⟩, Nat.le_refl _, Nat.le_succ _⟩
    · refine widens_of_next output rfl ?_ larger
      exact Segments.capacity_create_new view.segments (view.segments.controlBlock.outputId + 1) _

/-- The participant drops its input connector, which is in front of the shared `input_id`. -/
theorem Follows.dropLast (follows : view.Follows first)
    (further : first < view.holder.controlBlock.outputId) (controlBlock : ControlBlock) :
    view.segments.removeConnector view.holder.connectors controlBlock =
        some (true, view.segments.unlink first, view.holder.connectors.dropLast,
          controlBlock.removed) ∧
      view.holder.connectors.dropLast.map Mapped.id =
        span (first + 1) view.holder.controlBlock.outputId := by
  have ids := follows.holder.ids
  have oldest := getLast?_span follows.first_le
  rw [← ids, List.getLast?_map, Option.map_eq_some_iff] at oldest
  rcases oldest with ⟨back, last, same⟩
  have shorter : view.holder.connectors.dropLast.map Mapped.id =
      span (first + 1) view.holder.controlBlock.outputId := by
    rw [List.map_dropLast, ids, dropLast_span follows.first_le]
  have more : view.holder.connectors.dropLast ≠ [] := by
    intro empty
    rw [empty, List.map_nil] at shorter
    exact span_ne_nil further shorter.symm
  refine ⟨?_, shorter⟩
  rw [Segments.removeConnector, last]
  simp only [Option.bind_eq_bind, Option.bind_some, if_neg more, same]
  rfl

theorem Follows.shrink (follows : view.Follows first) (latest : view.Latest)
    (behind : view.holder.controlBlock.inputId < view.segments.controlBlock.inputId) :
    ∃ next, view.shrink = some (true, next) ∧ next.Follows (first + 1) ∧ next.Latest ∧
      next.segments.controlBlock = view.segments.controlBlock ∧
      view.segments.Extends next.segments := by
  have back := follows.holder.back
  have ordered := follows.sound.ordered
  rw [← latest] at ordered
  rcases follows.dropLast (by omega) view.holder.controlBlock with ⟨removes, shorter⟩
  rw [View.shrink, removes]
  refine ⟨_, rfl, ⟨follows.sound.unlink first fun _ => by omega, ?_⟩, latest, rfl,
    ⟨rfl, fun _ _ known => known⟩⟩
  constructor
  · exact shorter
  · exact Nat.succ_le_succ back
  · exact Nat.le_trans behind ordered
  · exact behind
  · exact follows.holder.outputId
  · intro mapped member
    exact follows.holder.mapped mapped (List.dropLast_subset _ member)

theorem Follows.removeConnector (follows : view.Follows first) (latest : view.Latest)
    (further : view.segments.controlBlock.inputId < view.segments.controlBlock.outputId) :
    ∃ next, view.removeConnector = some (true, next) ∧ next.Follows (first + 1) ∧ next.Latest ∧
      view.segments.Forward next.segments := by
  have back := follows.holder.back
  have inputId := follows.holder.inputId
  have known : first < view.holder.controlBlock.outputId := by
    rw [latest]
    omega
  rcases follows.dropLast known view.segments.controlBlock with ⟨removes, shorter⟩
  rw [View.removeConnector, removes]
  have sound := (follows.sound.removed further).unlink first fun _ =>
    Nat.lt_succ_of_le (Nat.le_trans back inputId)
  refine ⟨_, rfl, ⟨sound, ?_⟩, latest, ⟨⟨rfl, fun _ _ known => known⟩, Nat.le_succ _,
    Nat.le_refl _⟩⟩
  have ahead : view.segments.controlBlock.inputId + 1 ≤ view.holder.controlBlock.outputId := by
    rw [latest]
    exact further
  constructor
  · exact shorter
  · exact Nat.succ_le_succ (Nat.le_trans back inputId)
  · exact ahead
  · exact Nat.le_refl _
  · exact follows.holder.outputId
  · intro mapped member
    exact follows.holder.mapped mapped (List.dropLast_subset _ member)

theorem Follows.growTo (follows : view.Follows first)
    (enough : view.segments.controlBlock.outputId <
      view.holder.controlBlock.outputId + fuel) :
    ∃ next, View.growTo view.segments.controlBlock.outputId fuel view = some (true, next) ∧
      next.Follows first ∧ next.Latest ∧
      next.holder.controlBlock.inputId = view.holder.controlBlock.inputId ∧
      next.segments.controlBlock = view.segments.controlBlock ∧
      view.segments.Extends next.segments := by
  have small := follows.sound.allows.small
  induction fuel generalizing view with
  | zero => exact absurd follows.holder.outputId (Nat.not_le_of_lt enough)
  | succ fuel induction =>
      rw [View.growTo]
      by_cases level :
          SameWord view.segments.controlBlock.outputId view.holder.controlBlock.outputId
      · rw [if_pos level]
        exact ⟨view, rfl, follows, follows.outputId_eq level, rfl, rfl, .refl view.segments⟩
      · have known := follows.holder.outputId
        have ordered := follows.holder.ordered
        have behind : view.holder.controlBlock.outputId < view.segments.controlBlock.outputId := by
          rw [SameWord] at level
          omega
        have able : view.holder.controlBlock.canAddConnector = true := by
          rw [ControlBlock.canAddConnector_iff, SameWord]
          omega
        rcases follows.grow behind with ⟨grown, grows, follows, -, copy, controlBlock, extend⟩
        simp only [if_neg level, able, Bool.not_true, Bool.false_eq_true, if_false, grows,
          Option.bind_eq_bind, Option.bind_some, if_true]
        have outputId := congrArg ControlBlock.outputId copy
        rw [ControlBlock.added_outputId] at outputId
        rw [← controlBlock] at small enough ⊢
        rcases induction follows (by omega) small with
          ⟨next, again, follows, latest, inputId, same, further⟩
        refine ⟨next, again, follows, latest, inputId.trans ?_, same, extend.trans further⟩
        rw [copy]
        rfl

theorem Follows.setEpoch (follows : view.Follows first) (epoch : Nat) :
    View.Follows ⟨view.segments, { view.holder with
      controlBlock := { view.holder.controlBlock with epoch := epoch } }⟩ first where
  sound := follows.sound
  holder := {
    ids := follows.holder.ids
    back := follows.holder.back
    ordered := follows.holder.ordered
    inputId := follows.holder.inputId
    outputId := follows.holder.outputId
    mapped := follows.holder.mapped }

theorem Follows.updateConnectors (follows : view.Follows first) (informed : view.Informed)
    {status : UpdateStatus} (updates : view.updateConnectors = some (status, next)) :
    (∃ first, next.Follows first) ∧ next.Latest ∧
      next.segments.controlBlock = view.segments.controlBlock ∧
      view.segments.Extends next.segments := by
  rw [View.updateConnectors, View.isUpdated] at updates
  by_cases level : SameWord view.segments.controlBlock.epoch view.holder.controlBlock.epoch
  · simp only [if_pos level] at updates
    cases updates
    exact ⟨⟨first, follows⟩, follows.outputId_eq (informed level), rfl, .refl view.segments⟩
  · simp only [if_neg level, Bool.not_true, Bool.false_eq_true, if_false] at updates
    have word := Nat.lt_of_succ_lt follows.sound.allows.small
    rcases (follows.setEpoch view.segments.controlBlock.epoch).growTo
      (Nat.lt_of_lt_of_le word (Nat.le_add_left (2 ^ 32) _)) with
      ⟨grown, grows, follows, latest, inputId, controlBlock, extend⟩
    simp only [grows, Option.bind_eq_bind, Option.bind_some, Bool.not_true, Bool.false_eq_true,
      if_false] at updates
    rw [← controlBlock] at updates
    split at updates
    · cases updates
      exact ⟨⟨first, follows⟩, latest, controlBlock, extend⟩
    next different =>
      have behind : grown.holder.controlBlock.inputId < grown.segments.controlBlock.inputId := by
        have ordered := follows.holder.inputId
        rcases Nat.lt_or_eq_of_le ordered with less | same
        · exact less
        · exact absurd (congrArg (· % 2 ^ 32) same.symm) different
      have able : grown.holder.controlBlock.canRemoveConnector = true := by
        have ordered := follows.sound.ordered
        have small := follows.sound.allows.small
        rw [ControlBlock.canRemoveConnector_iff, latest, SameWord]
        omega
      rcases follows.shrink latest behind with
        ⟨shrunk, shrinks, follows, latest, same, kept⟩
      simp only [able, Bool.not_true, Bool.false_eq_true, if_false, shrinks, Option.bind_some,
        if_true] at updates
      cases updates
      exact ⟨⟨first + 1, follows⟩, latest, same.trans controlBlock, extend.trans kept⟩

theorem Follows.setQueue (follows : view.Follows first) (memory : Nat) (queue : channel.State) :
    View.Follows ⟨view.segments.setQueue memory queue, view.holder⟩ first where
  sound := follows.sound.setQueue memory queue
  holder := follows.holder.forward ⟨⟨rfl, fun other _ known => by
    rwa [Segments.capacity_setQueue]⟩, Nat.le_refl _, Nat.le_refl _⟩

end View

end Qbus.Bus
