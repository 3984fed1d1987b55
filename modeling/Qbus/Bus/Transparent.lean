import Qbus.Bus.Growth
import Qbus.Foundation.Run

/-! # Growth is transparent

One participant that pushes and one that reads, with their calls one at a time.
However many connectors are added and dropped between them, the bus is one list
of messages. -/

namespace Qbus.Bus

variable {Message : Type} {channel : Channel Message}

/-- The messages in the connectors of a chain from `first` on. -/
def pending (chain : List (Connector channel)) (first : Nat) : List Message :=
  (chain.drop first).flatMap fun connector => channel.contents connector.queue

section Pending

variable {chain : List (Connector channel)} {first : Nat} {connector changed : Connector channel}

theorem pending_eq (found : chain[first]? = some connector) :
    pending chain first = channel.contents connector.queue ++ pending chain (first + 1) := by
  rcases List.getElem?_eq_some_iff.mp found with ⟨inside, same⟩
  rw [pending, List.drop_eq_getElem_cons inside, same, List.flatMap_cons]
  rfl

theorem pending_set_rest :
    pending (chain.set first changed) (first + 1) = pending chain (first + 1) := by
  rw [pending, List.drop_set_of_lt (Nat.lt_succ_self first)]
  rfl

theorem pending_set_first (found : chain[first]? = some connector) :
    pending (chain.set first changed) first =
      channel.contents changed.queue ++ pending chain (first + 1) := by
  have inside := (List.getElem?_eq_some_iff.mp found).1
  have placed : (chain.set first changed)[first]? = some changed :=
    List.getElem?_set_self inside
  rw [pending_eq placed, pending_set_rest]

theorem pending_set_last {last : Nat} {more : List Message} (length : chain.length = last + 1)
    (ordered : first ≤ last) (found : chain[last]? = some connector)
    (pushed : channel.contents changed.queue = channel.contents connector.queue ++ more) :
    pending (chain.set last changed) first = pending chain first ++ more := by
  rcases List.eq_nil_or_concat chain with empty | ⟨earlier, newest, split⟩
  · rw [empty] at length
    cases length
  · have place : earlier.length = last := by
      rw [split, List.concat_eq_append, List.length_append, List.length_singleton] at length
      omega
    rw [List.concat_eq_append] at split
    subst split
    subst place
    simp only [List.getElem?_concat_length, Option.some.injEq] at found
    subst found
    simp [pending, List.drop_append_of_le_length ordered, pushed]

theorem pending_append (ordered : first ≤ chain.length) :
    pending (chain ++ [connector]) first =
      pending chain first ++ channel.contents connector.queue := by
  simp [pending, List.drop_append_of_le_length ordered]

end Pending

/-- The connectors of the bus, also those that have been dropped, and the control
block that their numbers determine. -/
structure Grown (body : Body channel) (chain : List (Connector channel)) : Prop where
  length : chain.length = body.controlBlock.outputId + 1
  found : ∀ id < 2 ^ 32, body.connectors id = chain[id]?
  /-- Every connector is wider than the one before. -/
  wide : ∀ (id : Nat) (connector : Connector channel), chain[id]? = some connector →
    id < connector.capacity.toNat
  ordered : body.controlBlock.inputId ≤ body.controlBlock.outputId
  epoch : body.controlBlock.epoch = body.controlBlock.inputId + body.controlBlock.outputId

namespace Grown

variable {body : Body channel} {chain : List (Connector channel)}

theorem exists_connector (grown : Grown body chain) {id : Nat}
    (inside : id ≤ body.controlBlock.outputId) : ∃ connector, chain[id]? = some connector :=
  ⟨_, List.getElem?_eq_getElem (by rw [grown.length]; omega)⟩

theorem outputId_lt (grown : Grown body chain) : body.controlBlock.outputId + 1 < 2 ^ 32 := by
  rcases grown.exists_connector (Nat.le_refl _) with ⟨connector, found⟩
  have wide := grown.wide _ _ found
  have bounded := connector.capacity.toNat_lt
  omega

theorem connector_eq (grown : Grown body chain) {id : Nat}
    (inside : id ≤ body.controlBlock.outputId + 1) : body.connector id = chain[id]? := by
  have small := grown.outputId_lt
  rw [Body.connector, Nat.mod_eq_of_lt (by omega)]
  exact grown.found id (by omega)

theorem makeConnector_eq (grown : Grown body chain) {id : Nat}
    (inside : id ≤ body.controlBlock.outputId) (connectors : List Nat) :
    body.makeConnector connectors id = some (true, body) := by
  rcases grown.exists_connector inside with ⟨connector, found⟩
  rw [Body.makeConnector, grown.connector_eq (by omega), found]
  rfl

theorem setConnector (grown : Grown body chain) {id : Nat} {connector : Connector channel}
    (found : chain[id]? = some connector) (queue : channel.State) :
    Grown (body.setConnector id { connector with queue := queue })
      (chain.set id { connector with queue := queue }) where
  length := by
    rw [List.length_set]
    exact grown.length
  found := by
    intro name small
    have inside := (List.getElem?_eq_some_iff.mp found).1
    have bounded := grown.outputId_lt
    have length := grown.length
    simp only [Body.setConnector]
    rw [Nat.mod_eq_of_lt (by omega)]
    by_cases same : name = id
    · subst same
      rw [if_pos rfl, List.getElem?_set_self inside]
    · rw [if_neg same, List.getElem?_set_ne (Ne.symm same)]
      exact grown.found name small
  wide := by
    intro place other placed
    by_cases same : place = id
    · subst same
      have inside := (List.getElem?_eq_some_iff.mp found).1
      rw [List.getElem?_set_self inside] at placed
      cases placed
      exact grown.wide place connector found
    · rw [List.getElem?_set_ne (Ne.symm same)] at placed
      exact grown.wide place other placed
  ordered := grown.ordered
  epoch := grown.epoch

/-- The shared control block and the chain after `add_connector` has made a
connector. -/
theorem append (grown : Grown body chain) {connector : Connector channel}
    (wider : body.controlBlock.outputId + 1 < connector.capacity.toNat) :
    Grown ((body.setConnector (body.controlBlock.outputId + 1) connector).setControlBlock
      body.controlBlock.added) (chain ++ [connector]) where
  length := by
    rw [List.length_append, grown.length]
    rfl
  found := by
    intro name small
    have bounded := grown.outputId_lt
    simp only [Body.setControlBlock, Body.setConnector]
    rw [Nat.mod_eq_of_lt bounded]
    by_cases same : name = body.controlBlock.outputId + 1
    · rw [if_pos same, same, ← grown.length, List.getElem?_concat_length]
    · rw [if_neg same, grown.found name small]
      by_cases below : name < chain.length
      · rw [List.getElem?_append_left below]
      · have length := grown.length
        rw [List.getElem?_eq_none (by omega), List.getElem?_eq_none (by simp; omega)]
  wide := by
    intro place other placed
    by_cases below : place < chain.length
    · rw [List.getElem?_append_left below] at placed
      exact grown.wide place other placed
    · have inside := (List.getElem?_eq_some_iff.mp placed).1
      rw [List.length_append, List.length_singleton] at inside
      have last : place = chain.length := by omega
      rw [last, List.getElem?_concat_length] at placed
      cases placed
      rw [last, grown.length]
      exact wider
  ordered := Nat.le_succ_of_le grown.ordered
  epoch := by
    have epoch := grown.epoch
    simp only [Body.setControlBlock, ControlBlock.added_epoch, ControlBlock.added_inputId,
      ControlBlock.added_outputId]
    omega

/-- The connector behind the chain does not exist: `make_connector` creates a wider
one or returns none. -/
theorem makeConnector_next (grown : Grown body chain) {connectors : List Nat}
    (output : connectors.head? = some body.controlBlock.outputId) :
    body.makeConnector connectors (body.controlBlock.outputId + 1) = some (false, body) ∨
      ∃ capacity : UInt32, body.controlBlock.outputId + 1 < capacity.toNat ∧
        body.makeConnector connectors (body.controlBlock.outputId + 1) =
          some (true, body.setConnector (body.controlBlock.outputId + 1)
            ⟨capacity, channel.create capacity⟩) := by
  rcases grown.exists_connector (Nat.le_refl _) with ⟨connector, found⟩
  have absent : body.connector (body.controlBlock.outputId + 1) = none := by
    rw [grown.connector_eq (Nat.le_refl _)]
    exact List.getElem?_eq_none (Nat.le_of_eq grown.length)
  have capacity : body.outputCapacity connectors = some connector.capacity := by
    cases connectors with
    | nil => cases output
    | cons front rest =>
        cases output
        rw [Body.outputCapacity, grown.connector_eq (Nat.le_succ _), found]
        rfl
  have wide := grown.wide _ _ found
  simp only [Body.makeConnector, absent, capacity]
  by_cases allowed : connectors = [] ∨ body.spec.capacityFactor > 0
  · by_cases wider : body.spec.newCapacity connector.capacity > connector.capacity
    · have more : connector.capacity.toNat <
          (body.spec.newCapacity connector.capacity).toNat := UInt32.lt_iff_toNat_lt.mp wider
      refine .inr ⟨body.spec.newCapacity connector.capacity, by omega, ?_⟩
      simp only [Option.bind_eq_bind, Option.bind_some, if_pos allowed, if_pos wider]
      rfl
    · refine .inl ?_
      simp only [Option.bind_eq_bind, Option.bind_some, if_pos allowed, if_neg wider]
      rfl
  · refine .inl ?_
    simp only [Option.bind_eq_bind, Option.bind_some, if_neg allowed]
    rfl

theorem removed (grown : Grown body chain)
    (further : body.controlBlock.inputId < body.controlBlock.outputId) :
    Grown (body.setControlBlock body.controlBlock.removed) chain where
  length := grown.length
  found := grown.found
  wide := grown.wide
  ordered := further
  epoch := by
    have epoch := grown.epoch
    simp only [Body.setControlBlock, ControlBlock.removed_epoch, ControlBlock.removed_inputId,
      ControlBlock.removed_outputId]
    omega

end Grown

/-! ## The participant that pushes -/

/-- The producer has added all connectors, and drops those that the consumer has
dropped. -/
structure Producing (shared : ControlBlock) (member : Member) : Prop where
  connectors : member.connectors = span member.controlBlock.inputId shared.outputId
  outputId : member.controlBlock.outputId = shared.outputId
  inputId : member.controlBlock.inputId ≤ shared.inputId

namespace Producing

variable {body : Body channel} {chain : List (Connector channel)} {member : Member}

theorem head? (producing : Producing body.controlBlock member) (grown : Grown body chain) :
    member.connectors.head? = some body.controlBlock.outputId := by
  rw [producing.connectors]
  exact head?_span (Nat.le_trans producing.inputId grown.ordered)

end Producing

theorem Body.growTo_same {body : Body channel} {member : Member} {target fuel : Nat}
    (positive : 0 < fuel) (same : SameWord target member.controlBlock.outputId) :
    body.growTo target fuel member = some (true, body, member) := by
  cases fuel with
  | zero => cases positive
  | succ fuel =>
      rw [Body.growTo, if_pos same]
      rfl

theorem Producing.update {body : Body channel} {chain : List (Connector channel)}
    {member : Member} (producing : Producing body.controlBlock member)
    (grown : Grown body chain) :
    ∃ status after, body.updateConnectors member = some (status, body, after) ∧
      status.hasOutput = false ∧ Producing body.controlBlock after := by
  have ordered := grown.ordered
  have small := grown.outputId_lt
  have inputId := producing.inputId
  unfold Body.updateConnectors Member.isUpdated
  by_cases level : SameWord body.controlBlock.epoch member.controlBlock.epoch
  · simp only [if_pos level]
    exact ⟨.usNone, member, rfl, rfl, producing⟩
  · have same : SameWord body.controlBlock.outputId member.controlBlock.outputId := by
      rw [producing.outputId]
    have grows := @Body.growTo_same _ _ body { member with
      controlBlock := { member.controlBlock with epoch := body.controlBlock.epoch } }
      body.controlBlock.outputId (2 ^ 32) (Nat.two_pow_pos 32) same
    have notGrown : (!decide (SameWord body.controlBlock.outputId
        member.controlBlock.outputId)) = false := by
      rw [decide_eq_true same]
      rfl
    simp only [if_neg level, grows, notGrown, Bool.not_true, Bool.false_eq_true, if_false,
      Option.bind_eq_bind, Option.bind_some]
    by_cases kept : SameWord body.controlBlock.inputId member.controlBlock.inputId
    · exact ⟨_, _, if_pos kept, rfl, producing.connectors, producing.outputId, inputId⟩
    · have further : member.controlBlock.inputId < body.controlBlock.inputId := by
        rcases Nat.lt_or_eq_of_le inputId with less | equal
        · exact less
        · exact absurd (congrArg (· % 2 ^ 32) equal.symm) kept
      have different : ¬SameWord member.controlBlock.inputId member.controlBlock.outputId := by
        rw [producing.outputId]
        omega
      have able := ControlBlock.canRemoveConnector_iff
        { member.controlBlock with epoch := body.controlBlock.epoch } |>.mpr different
      have left : member.connectors.dropLast =
          span (member.controlBlock.inputId + 1) body.controlBlock.outputId := by
        rw [producing.connectors]
        exact dropLast_span (Nat.le_trans inputId ordered)
      have stays : member.connectors.dropLast ≠ [] := by
        rw [left]
        exact span_ne_nil (by omega)
      have opens : ∀ id, body.makeForEmpty member.connectors id = some (false, body) := by
        intro id
        have some : member.connectors ≠ [] := by
          intro none
          rw [none] at stays
          exact stays rfl
        rw [Body.makeForEmpty, if_neg some, if_neg stays]
      simp only [if_neg kept, able, opens, Member.shrink, Bus.removeConnector, if_neg stays]
      exact ⟨_, _, rfl, rfl, left, producing.outputId, further⟩

/-- What a call of the producer does to the bus: it may add connectors, and an
accepted message comes last. -/
structure Pushes (body next : Body channel) (chain after : List (Connector channel))
    (more : List Message) : Prop where
  grown : Grown next after
  inputId : next.controlBlock.inputId = body.controlBlock.inputId
  outputId : body.controlBlock.outputId ≤ next.controlBlock.outputId
  pending : pending after body.controlBlock.inputId =
    pending chain body.controlBlock.inputId ++ more

theorem Pushes.trans {body middle next : Body channel}
    {chain between after : List (Connector channel)} {more : List Message}
    (first : Pushes body middle chain between []) (second : Pushes middle next between after more) :
    Pushes body next chain after more where
  grown := second.grown
  inputId := second.inputId.trans first.inputId
  outputId := Nat.le_trans first.outputId second.outputId
  pending := by
    have same := second.pending
    rw [first.inputId, first.pending, List.append_nil] at same
    exact same

namespace Producing

variable {body : Body channel} {chain : List (Connector channel)} {member : Member}

theorem basePush (producing : Producing body.controlBlock member) (grown : Grown body chain)
    (message : Message) :
    ∃ accepted next after, body.basePush message member = some (accepted, next) ∧
      next.controlBlock = body.controlBlock ∧
      Pushes body next chain after (if accepted then [message] else []) := by
  rcases grown.exists_connector (Nat.le_refl _) with ⟨connector, found⟩
  have output := grown.connector_eq (Nat.le_succ body.controlBlock.outputId)
  rw [found] at output
  have stored := channel.contents_push connector.queue message
  refine ⟨(channel.push connector.queue message).1, _, _, ?_, ?_,
    grown.setConnector found (channel.push connector.queue message).2, rfl, Nat.le_refl _,
    pending_set_last grown.length grown.ordered found ?_⟩
  · rw [Body.basePush, producing.head? grown]
    simp only [Option.bind_eq_bind, Option.bind_some, output]
    rfl
  · rfl
  · rw [stored]
    split <;> simp

theorem doPush (producing : Producing body.controlBlock member) (grown : Grown body chain)
    (message : Message) :
    ∃ accepted next after final, body.doPush message member = some (accepted, next, final) ∧
      next.controlBlock = body.controlBlock ∧ Producing body.controlBlock final ∧
      Pushes body next chain after (if accepted then [message] else []) := by
  rcases producing.update grown with ⟨status, updated, updates, -, current⟩
  rcases current.basePush grown message with ⟨accepted, next, after, pushes, same, effect⟩
  have positive : 2 ^ 32 = 2 ^ 32 - 1 + 1 := by decide
  rw [Body.doPush, updates]
  simp only [Option.bind_eq_bind, Option.bind_some]
  rw [positive, Body.pushLoop, pushes]
  simp only [Option.bind_eq_bind, Option.bind_some]
  cases accepted with
  | false => exact ⟨false, next, after, updated, rfl, same, current, effect⟩
  | true =>
      have again : Producing next.controlBlock updated := by
        rw [same]
        exact current
      rcases again.update effect.grown with ⟨status, final, updates, single, last⟩
      rw [same] at last
      simp only [updates, Option.bind_some, single]
      exact ⟨true, next, after, final, rfl, same, last, effect⟩

theorem addConnector (producing : Producing body.controlBlock member) (grown : Grown body chain) :
    ∃ added next after final, body.addConnector member = some (added, next, final) ∧
      Producing next.controlBlock final ∧ Pushes body next chain after [] ∧
      next.controlBlock.outputId = body.controlBlock.outputId + added.toNat := by
  have ordered := grown.ordered
  rw [Body.addConnector]
  rcases grown.makeConnector_next (producing.head? grown) with fails | ⟨capacity, wider, makes⟩
  · rw [fails]
    exact ⟨false, body, chain, member, rfl, producing, ⟨grown, rfl, Nat.le_refl _,
      (List.append_nil _).symm⟩, rfl⟩
  · rw [makes]
    refine ⟨true, _, _, _, rfl, ⟨?_, rfl, producing.inputId⟩,
      ⟨grown.append wider, rfl, Nat.le_succ _, ?_⟩, rfl⟩
    · have inputId := producing.inputId
      have longer := @span_succ member.controlBlock.inputId body.controlBlock.outputId (by omega)
      rw [← producing.connectors] at longer
      exact longer.symm
    · rw [pending_append (by rw [grown.length]; omega), channel.contents_create]

/-- The loop of `push` ends, because every connector is wider than the one before. -/
theorem pushGrowing (producing : Producing body.controlBlock member) (grown : Grown body chain)
    (message : Message) {fuel : Nat} (enough : 2 ^ 32 ≤ fuel + body.controlBlock.outputId) :
    ∃ accepted next after final,
      body.pushGrowing message fuel member = some (accepted, next, final) ∧
      Producing next.controlBlock final ∧
      Pushes body next chain after (if accepted then [message] else []) := by
  induction fuel generalizing body chain member with
  | zero =>
      have small := grown.outputId_lt
      omega
  | succ fuel induction =>
      rcases producing.doPush grown message with
        ⟨accepted, pushed, between, current, pushes, same, still, effect⟩
      rw [Body.pushGrowing, pushes]
      simp only [Option.bind_eq_bind, Option.bind_some]
      rw [← same] at still
      cases accepted with
      | true => exact ⟨true, pushed, between, current, rfl, still, effect⟩
      | false =>
          cases able : pushed.controlBlock.canAddConnector with
          | false => exact ⟨false, pushed, between, current, rfl, still, effect⟩
          | true =>
              rcases still.addConnector effect.grown with
                ⟨added, wide, longer, final, adds, extended, addition, counted⟩
              have whole := effect.trans addition
              simp only [adds]
              cases added with
              | false => exact ⟨false, wide, longer, final, rfl, extended, whole⟩
              | true =>
                  have further : 2 ^ 32 ≤ fuel + wide.controlBlock.outputId := by
                    rw [counted, same]
                    change 2 ^ 32 ≤ fuel + (body.controlBlock.outputId + 1)
                    omega
                  rcases induction extended addition.grown further with
                    ⟨accepted, next, after, done, loops, kept, rest⟩
                  exact ⟨accepted, next, after, done, loops, kept, whole.trans rest⟩

end Producing

/-! ## The participant that reads -/

/-- The consumer has dropped all dropped connectors, and has the connectors up to
`last`. Its epoch is bounded by the connectors that it has added itself. -/
structure Consuming (shared : ControlBlock) (member : Member) (last : Nat) : Prop where
  connectors : member.connectors = span shared.inputId last
  inputId : member.controlBlock.inputId = shared.inputId
  outputId : member.controlBlock.outputId = last
  ordered : shared.inputId ≤ last
  behind : last ≤ shared.outputId
  epochLe : member.controlBlock.epoch ≤ 2 * last
  epochGe : shared.inputId ≤ member.controlBlock.epoch + 1

/-- Right after `is_updated`: when there is a connector to drop, another one of the
consumer's remains. -/
structure Ready (shared : ControlBlock) (member : Member) (last : Nat) : Prop extends
    Consuming shared member last where
  epochReady : shared.inputId ≤ member.controlBlock.epoch
  remains : shared.inputId < shared.outputId → shared.inputId < last

theorem Grown.growTo {body : Body channel} {chain : List (Connector channel)}
    (grown : Grown body chain) {epoch last fuel : Nat}
    (ordered : body.controlBlock.inputId ≤ last) (behind : last ≤ body.controlBlock.outputId)
    (enough : body.controlBlock.outputId < fuel + last) :
    body.growTo body.controlBlock.outputId fuel
        ⟨span body.controlBlock.inputId last, epoch, body.controlBlock.inputId, last⟩ =
      some (true, body, ⟨span body.controlBlock.inputId body.controlBlock.outputId,
        epoch + (body.controlBlock.outputId - last), body.controlBlock.inputId,
        body.controlBlock.outputId⟩) := by
  have small := grown.outputId_lt
  induction fuel generalizing last epoch with
  | zero => omega
  | succ fuel induction =>
      by_cases reached : last = body.controlBlock.outputId
      · rw [Body.growTo_same (Nat.succ_pos _) (by rw [reached]), reached, Nat.sub_self,
          Nat.add_zero]
      · have different : ¬SameWord body.controlBlock.outputId last := by omega
        have able : ControlBlock.canAddConnector ⟨epoch, body.controlBlock.inputId, last⟩ =
            true := by
          rw [ControlBlock.canAddConnector_iff]
          change ¬SameWord (last + 1) body.controlBlock.inputId
          omega
        have opens := grown.makeConnector_eq (show last + 1 ≤ body.controlBlock.outputId by omega)
          (span body.controlBlock.inputId last)
        have longer := @span_succ body.controlBlock.inputId last (by omega)
        have later := @induction (epoch + 1) (last + 1) (by omega) (by omega) (by omega)
        rw [longer, show epoch + 1 + (body.controlBlock.outputId - (last + 1)) =
          epoch + (body.controlBlock.outputId - last) by omega] at later
        rw [Body.growTo, if_neg different]
        simp only [able, Option.bind_eq_bind, Option.bind_some, opens, Bool.not_true]
        exact later

namespace Consuming

variable {body : Body channel} {chain : List (Connector channel)} {member : Member}
  {last : Nat}

/-- An update of the consumer adds all connectors, if it is not skipped. A skipped
one misses at most as many additions as leave two connectors. -/
theorem update (consuming : Consuming body.controlBlock member last) (grown : Grown body chain) :
    ∃ status after newLast, body.updateConnectors member = some (status, body, after) ∧
      status.hasInput = false ∧ Ready body.controlBlock after newLast := by
  have small := grown.outputId_lt
  have epoch := grown.epoch
  have epochLe := consuming.epochLe
  have epochGe := consuming.epochGe
  have ordered := consuming.ordered
  have behind := consuming.behind
  unfold Body.updateConnectors Member.isUpdated
  by_cases level : SameWord body.controlBlock.epoch member.controlBlock.epoch
  · -- epochs that are equal as words are equal
    have same : member.controlBlock.epoch = body.controlBlock.epoch := by omega
    simp only [if_pos level]
    exact ⟨.usNone, member, last, rfl, rfl, consuming, by omega, by omega⟩
  · have copied : ({ member with
        controlBlock := { member.controlBlock with epoch := body.controlBlock.epoch } } : Member) =
        ⟨span body.controlBlock.inputId last, body.controlBlock.epoch,
          body.controlBlock.inputId, last⟩ := by
      rw [← consuming.connectors, ← consuming.inputId, ← consuming.outputId]
    have grows := @Grown.growTo _ _ body chain grown body.controlBlock.epoch last (2 ^ 32) ordered
      behind (by omega)
    simp only [if_neg level, copied, grows, Bool.not_true, Bool.false_eq_true, if_false,
      Option.bind_eq_bind, Option.bind_some, if_true]
    refine ⟨_, _, body.controlBlock.outputId, rfl, ?_, ⟨rfl, rfl, rfl, grown.ordered,
      Nat.le_refl _, ?_, ?_⟩, ?_, id⟩
    · split <;> rfl
    · simp only
      omega
    · simp only
      omega
    · simp only
      omega

end Consuming

theorem Ready.removeConnector {body : Body channel} {member : Member} {last : Nat}
    (ready : Ready body.controlBlock member last)
    (further : body.controlBlock.inputId < body.controlBlock.outputId) :
    ∃ after, body.removeConnector member =
        some (true, body.setControlBlock body.controlBlock.removed, after) ∧
      Consuming body.controlBlock.removed after last := by
  have remains := ready.remains further
  have left : member.connectors.dropLast = span (body.controlBlock.inputId + 1) last := by
    rw [ready.connectors]
    exact dropLast_span ready.ordered
  have stays : span (body.controlBlock.inputId + 1) last ≠ [] := span_ne_nil remains
  have some : member.connectors ≠ [] := by
    rw [ready.connectors]
    exact span_ne_nil ready.ordered
  refine ⟨⟨span (body.controlBlock.inputId + 1) last, member.controlBlock.epoch,
    body.controlBlock.inputId + 1, member.controlBlock.outputId⟩, ?_, rfl, rfl,
    ready.outputId, remains, ready.behind, ready.epochLe, ?_⟩
  · rw [Body.removeConnector, Body.makeForEmpty, if_neg some, left, if_neg stays]
    simp only [Option.bind_eq_bind, Option.bind_some, Member.removeConnector,
      Bus.removeConnector, left, if_neg stays]
    rfl
  · have epochReady := ready.epochReady
    simp only [ControlBlock.removed_inputId]
    omega

/-- An operation on the input connector shows `value` of the oldest message and
leaves `left` of it, or finds nothing. -/
structure Takes {Value : Type} (operation : channel.State → Option Value × channel.State)
    (value : Message → Value) (left : Message → List Message) : Prop where
  empty : ∀ queue, channel.contents queue = [] →
    (operation queue).1 = none ∧ channel.contents (operation queue).2 = []
  first : ∀ queue message rest, channel.contents queue = message :: rest →
    (operation queue).1 = some (value message) ∧
      channel.contents (operation queue).2 = left message ++ rest

structure Reads (body next : Body channel) (after : List (Connector channel))
    (messages : List Message) : Prop where
  grown : Grown next after
  inputId : body.controlBlock.inputId ≤ next.controlBlock.inputId
  outputId : next.controlBlock.outputId = body.controlBlock.outputId
  pending : pending after next.controlBlock.inputId = messages

def leftOver (left : Message → List Message) : List Message → List Message
  | [] => []
  | message :: rest => left message ++ rest

section Read

variable {Value : Type} {operation : channel.State → Option Value × channel.State}
  {value : Message → Value} {left : Message → List Message}
  {body : Body channel} {chain : List (Connector channel)} {member : Member} {last : Nat}

theorem Consuming.doRead (consuming : Consuming body.controlBlock member last)
    (grown : Grown body chain) (takes : Takes operation value left) {fuel : Nat}
    (positive : 0 < fuel) :
    ∃ result next after final newLast,
      body.doRead operation fuel member = some (result, next, final) ∧
      next.controlBlock = body.controlBlock ∧ Grown next after ∧
      Consuming body.controlBlock final newLast ∧
      ((∃ message rest, pending chain body.controlBlock.inputId = message :: rest ∧
          result = some (value message) ∧
          pending after body.controlBlock.inputId = left message ++ rest) ∨
        result = none ∧ Ready body.controlBlock final newLast ∧
          pending after body.controlBlock.inputId = pending after (body.controlBlock.inputId + 1) ∧
          pending after body.controlBlock.inputId = pending chain body.controlBlock.inputId) := by
  cases fuel with
  | zero => cases positive
  | succ fuel =>
      rcases grown.exists_connector grown.ordered with ⟨connector, found⟩
      have input := grown.connector_eq (Nat.le_succ_of_le grown.ordered)
      rw [found] at input
      have back : member.connectors.getLast? = some body.controlBlock.inputId := by
        rw [consuming.connectors]
        exact getLast?_span consuming.ordered
      have kept := grown.setConnector found (operation connector.queue).2
      have before := pending_eq found
      have changed := @pending_set_first _ _ chain body.controlBlock.inputId connector
        { connector with queue := (operation connector.queue).2 } found
      have reads : body.baseRead operation member = some ((operation connector.queue).1,
          body.setConnector body.controlBlock.inputId
            { connector with queue := (operation connector.queue).2 }) := by
        rw [Body.baseRead, back]
        simp only [Option.bind_eq_bind, Option.bind_some, input]
        rfl
      rw [Body.doRead, reads]
      simp only [Option.bind_eq_bind, Option.bind_some]
      cases stored : channel.contents connector.queue with
      | nil =>
          rcases takes.empty connector.queue stored with ⟨none, empty⟩
          rcases @Consuming.update _ _ (body.setConnector body.controlBlock.inputId
            { connector with queue := (operation connector.queue).2 }) _ member last consuming
            kept with ⟨status, final, newLast, updates, single, ready⟩
          rw [empty, List.nil_append] at changed
          rw [stored, List.nil_append] at before
          rw [none]
          simp only [updates, Option.bind_some, single]
          exact ⟨_, _, _, final, newLast, rfl, rfl, kept, ready.toConsuming,
            .inr ⟨rfl, ready, changed.trans pending_set_rest.symm, changed.trans before.symm⟩⟩
      | cons message rest =>
          rcases takes.first connector.queue message rest stored with ⟨some, less⟩
          rw [some]
          rw [stored, List.cons_append] at before
          rw [less, List.append_assoc] at changed
          exact ⟨_, _, _, member, last, rfl, rfl, kept, consuming,
            .inl ⟨message, _, before, rfl, changed⟩⟩

theorem Consuming.readShrinking (consuming : Consuming body.controlBlock member last)
    (grown : Grown body chain) (takes : Takes operation value left) {fuel : Nat}
    (enough : body.controlBlock.outputId < fuel + body.controlBlock.inputId) :
    ∃ next after final newLast,
      body.readShrinking operation fuel member =
        some ((pending chain body.controlBlock.inputId).head?.map value, next, final) ∧
      Consuming next.controlBlock final newLast ∧
      Reads body next after (leftOver left (pending chain body.controlBlock.inputId)) := by
  induction fuel generalizing body chain member last with
  | zero =>
      have ordered := grown.ordered
      omega
  | succ fuel induction =>
      have small := grown.outputId_lt
      have ordered := grown.ordered
      rcases consuming.doRead grown takes (Nat.two_pow_pos 32) with
        ⟨result, next, after, final, newLast, reads, same, stored, still, outcome⟩
      rw [Body.readShrinking, reads]
      simp only [Option.bind_eq_bind, Option.bind_some]
      rcases outcome with ⟨message, rest, listed, shown, kept⟩ | ⟨none, ready, empty, kept⟩
      · rw [shown, listed]
        refine ⟨next, after, final, newLast, rfl, same.symm ▸ still, stored, ?_, ?_, ?_⟩
        · exact Nat.le_of_eq (congrArg ControlBlock.inputId same.symm)
        · exact congrArg ControlBlock.outputId same
        · rw [same]
          exact kept
      · rw [none]
        by_cases further : body.controlBlock.inputId < body.controlBlock.outputId
        · have able : next.controlBlock.canRemoveConnector = true := by
            rw [same, ControlBlock.canRemoveConnector_iff]
            omega
          rw [← same] at ready
          rcases ready.removeConnector (by rw [same]; exact further) with
            ⟨shorter, removes, dropped⟩
          have removed := stored.removed (by rw [same]; exact further)
          have fewer : next.controlBlock.removed.outputId <
              fuel + next.controlBlock.removed.inputId := by
            rw [same, ControlBlock.removed_outputId, ControlBlock.removed_inputId]
            omega
          rcases @induction (next.setControlBlock next.controlBlock.removed) _ _ _ dropped
            removed fewer with ⟨last, later, done, lastLast, loops, consumes, effect⟩
          have unchanged : pending after
              (next.setControlBlock next.controlBlock.removed).controlBlock.inputId =
                pending chain body.controlBlock.inputId := by
            change pending after (next.controlBlock.inputId + 1) = _
            rw [same, ← empty, kept]
          rw [unchanged] at loops effect
          simp only [able, removes, Option.bind_some]
          refine ⟨last, later, done, lastLast, loops, consumes, effect.grown, ?_, ?_,
            effect.pending⟩
          · have forward := effect.inputId
            change next.controlBlock.inputId + 1 ≤ _ at forward
            rw [same] at forward
            omega
          · have outputs := effect.outputId
            change _ = next.controlBlock.outputId at outputs
            rw [outputs, same]
        · have last : body.controlBlock.inputId = body.controlBlock.outputId := by omega
          have unable : next.controlBlock.canRemoveConnector = false := by
            rw [same, ← Bool.not_eq_true, ControlBlock.canRemoveConnector_iff, last]
            exact fun different => different rfl
          have nothing : pending chain body.controlBlock.inputId = [] := by
            have length := stored.length
            rw [same] at length
            rw [← kept, empty, last, pending, List.drop_eq_nil_of_le (Nat.le_of_eq length)]
            rfl
          rw [nothing]
          simp only [unable]
          refine ⟨next, after, final, newLast, rfl, same.symm ▸ still, stored, ?_, ?_, ?_⟩
          · exact Nat.le_of_eq (congrArg ControlBlock.inputId same.symm)
          · exact congrArg ControlBlock.outputId same
          · rw [same, kept, nothing]
            rfl

end Read

theorem takes_get : Takes (@Body.getConnector _ channel) id (fun message => [message]) where
  empty := by
    intro queue stored
    simp only [Body.getConnector, channel.get_eq, stored]
    exact ⟨rfl, trivial⟩
  first := by
    intro queue message rest stored
    simp only [Body.getConnector, channel.get_eq, stored]
    exact ⟨rfl, rfl⟩

theorem takes_pop : Takes (@Body.popConnector _ channel) (fun _ => ()) (fun _ => []) where
  empty := by
    intro queue stored
    have returned := channel.pop_eq queue
    have left := channel.contents_pop queue
    rw [stored] at returned left
    rw [Body.popConnector]
    cases popped : channel.pop queue with
    | mk result next =>
        rw [popped] at returned left
        cases returned
        exact ⟨rfl, left⟩
  first := by
    intro queue message rest stored
    have returned := channel.pop_eq queue
    have left := channel.contents_pop queue
    rw [stored] at returned left
    rw [Body.popConnector]
    cases popped : channel.pop queue with
    | mk result next =>
        rw [popped] at returned left
        cases returned
        exact ⟨rfl, left⟩

/-! ## Runs -/

/-- A bus with the participant that has created it, which pushes, and the one that
reads, once it has opened the bus. -/
structure Pair {Message : Type} (channel : Channel Message) where
  body : Body channel
  producer : Member
  consumer : Option Member := none

inductive Call (Message : Type)
  | openInput
  | push (message : Message)
  | get
  | pop
deriving DecidableEq, Repr

inductive Returned (Message : Type)
  | opened (result : Bool)
  | pushed (accepted : Bool)
  | got (message : Option Message)
  | popped (removed : Bool)
deriving DecidableEq, Repr

namespace Pair

def Enabled (pair : Pair channel) : Call Message → Prop
  | .openInput => pair.consumer = none
  | .push _ => True
  | .get => pair.consumer.isSome
  | .pop => pair.consumer.isSome

def perform (pair : Pair channel) :
    Call Message → Option (Returned Message × Pair channel)
  | .openInput =>
      match pair.consumer with
      | none => do
          let (result, body, member) ← pair.body.open
          return (.opened result,
            { pair with body := body, consumer := if result then some member else none })
      | some _ => none
  | .push message => do
      let (accepted, body, member) ← pair.body.push message pair.producer
      return (.pushed accepted, { pair with body := body, producer := member })
  | .get => do
      let consumer ← pair.consumer
      let (message, body, member) ← pair.body.get consumer
      return (.got message, { pair with body := body, consumer := some member })
  | .pop => do
      let consumer ← pair.consumer
      let (removed, body, member) ← pair.body.pop consumer
      return (.popped removed, { pair with body := body, consumer := some member })

abbrev Step : Pair channel → Call Message × Returned Message → Pair channel → Prop :=
  Run.Computes perform

end Pair

inductive OneList.Step {Message : Type} :
    List Message → Call Message × Returned Message → List Message → Prop
  | opened {messages} : OneList.Step messages (.openInput, .opened true) messages
  | accepted {messages message} :
      OneList.Step messages (.push message, .pushed true) (messages ++ [message])
  | refused {messages message} : OneList.Step messages (.push message, .pushed false) messages
  | got {messages} : OneList.Step messages (.get, .got messages.head?) messages
  | popped {messages} :
      OneList.Step messages (.pop, .popped (!messages.isEmpty)) messages.tail

structure Stores (pair : Pair channel) (chain : List (Connector channel))
    (messages : List Message) : Prop where
  grown : Grown pair.body chain
  producing : Producing pair.body.controlBlock pair.producer
  consuming : ∀ member, pair.consumer = some member →
    ∃ last, Consuming pair.body.controlBlock member last
  pending : pending chain pair.body.controlBlock.inputId = messages

namespace Stores

variable {pair : Pair channel} {chain : List (Connector channel)} {messages : List Message}

theorem openChain {body : Body channel} {chain : List (Connector channel)}
    (grown : Grown body chain) (ids connectors : List Nat)
    (inside : ∀ id ∈ ids, id ≤ body.controlBlock.outputId) :
    Body.openChain ids body connectors = some (true, body, ids.reverse ++ connectors) := by
  induction ids generalizing connectors with
  | nil => rfl
  | cons id rest induction =>
      have opens := grown.makeConnector_eq (inside id List.mem_cons_self) connectors
      have later := induction (id :: connectors)
        (fun other member => inside other (List.mem_cons_of_mem id member))
      rw [Body.openChain, opens]
      simp only [Option.bind_eq_bind, Option.bind_some, later, List.reverse_cons,
        List.append_assoc, List.singleton_append]
      rfl

theorem opens (stores : Stores pair chain messages) :
    pair.body.open = some (true, pair.body,
      ⟨span pair.body.controlBlock.inputId pair.body.controlBlock.outputId,
        pair.body.controlBlock⟩) := by
  have ordered := stores.grown.ordered
  have small := stores.grown.outputId_lt
  have count : (pair.body.controlBlock.outputId + 2 ^ 32 -
      pair.body.controlBlock.inputId % 2 ^ 32) % 2 ^ 32 + 1 =
        pair.body.controlBlock.outputId + 1 - pair.body.controlBlock.inputId := by omega
  have whole := openChain stores.grown pair.body.controlBlock.chain [] (by
    intro id member
    rw [ControlBlock.chain, count, List.mem_range'_1] at member
    omega)
  rw [Body.open, whole, ControlBlock.chain, count, List.append_nil]
  rfl

theorem read {Value : Type} {operation : channel.State → Option Value × channel.State}
    {value : Message → Value} {left : Message → List Message} {member : Member}
    (stores : Stores pair chain messages) (present : pair.consumer = some member)
    (takes : Takes operation value left) :
    ∃ next after final, pair.body.readShrinking operation (2 ^ 32) member =
        some (messages.head?.map value, next, final) ∧
      Stores ⟨next, pair.producer, some final⟩ after (leftOver left messages) := by
  have ordered := stores.grown.ordered
  have small := stores.grown.outputId_lt
  rcases stores.consuming member present with ⟨last, consuming⟩
  rcases consuming.readShrinking stores.grown takes
    (show pair.body.controlBlock.outputId < 2 ^ 32 + pair.body.controlBlock.inputId by omega)
    with ⟨next, after, final, newLast, reads, still, effect⟩
  rw [stores.pending] at reads effect
  refine ⟨next, after, final, reads, effect.grown, ⟨?_, ?_, ?_⟩, ?_, effect.pending⟩
  · rw [effect.outputId]
    exact stores.producing.connectors
  · rw [effect.outputId]
    exact stores.producing.outputId
  · exact Nat.le_trans stores.producing.inputId effect.inputId
  · intro other same
    cases same
    exact ⟨newLast, still⟩

theorem perform (stores : Stores pair chain messages) {call : Call Message}
    (enabled : pair.Enabled call) :
    ∃ returned next after messages', pair.perform call = some (returned, next) ∧
      OneList.Step messages (call, returned) messages' ∧ Stores next after messages' := by
  have ordered := stores.grown.ordered
  have small := stores.grown.outputId_lt
  cases call with
  | openInput =>
      have none : pair.consumer = none := enabled
      have epoch := stores.grown.epoch
      refine ⟨.opened true, ⟨pair.body, pair.producer, some
          ⟨span pair.body.controlBlock.inputId pair.body.controlBlock.outputId,
            pair.body.controlBlock⟩⟩, chain, messages, ?_, .opened,
        ⟨stores.grown, stores.producing, ?_, stores.pending⟩⟩
      · simp only [Pair.perform, none, stores.opens]
        rfl
      · intro member opened
        cases opened
        exact ⟨_, rfl, rfl, rfl, ordered, Nat.le_refl _, by simp only; omega, by simp only; omega⟩
  | push message =>
      rcases stores.producing.pushGrowing stores.grown message
        (show 2 ^ 32 ≤ 2 ^ 32 + pair.body.controlBlock.outputId by omega) with
        ⟨accepted, next, after, final, pushes, producing, effect⟩
      have listed : Bus.pending after next.controlBlock.inputId =
          messages ++ if accepted then [message] else [] := by
        rw [effect.inputId, effect.pending, stores.pending]
      have consuming : ∀ member, pair.consumer = some member →
          ∃ last, Consuming next.controlBlock member last := by
        intro member present
        rcases stores.consuming member present with ⟨last, consuming⟩
        refine ⟨last, ?_, ?_, consuming.outputId, ?_,
          Nat.le_trans consuming.behind effect.outputId, consuming.epochLe, ?_⟩
        · rw [effect.inputId]
          exact consuming.connectors
        · rw [effect.inputId]
          exact consuming.inputId
        · rw [effect.inputId]
          exact consuming.ordered
        · rw [effect.inputId]
          exact consuming.epochGe
      refine ⟨.pushed accepted, ⟨next, final, pair.consumer⟩, after, _, ?_, ?_,
        ⟨effect.grown, producing, consuming, listed⟩⟩
      · simp only [Pair.perform, Body.push, pushes]
        rfl
      · cases accepted with
        | false =>
            simp only [Bool.false_eq_true, if_false, List.append_nil]
            exact .refused
        | true => exact .accepted
  | get =>
      rcases Option.isSome_iff_exists.mp enabled with ⟨member, present⟩
      rcases stores.read present takes_get with ⟨next, after, final, reads, kept⟩
      have same : leftOver (fun message => [message]) messages = messages := by
        cases messages <;> rfl
      rw [same] at kept
      refine ⟨.got messages.head?, _, after, messages, ?_, .got, kept⟩
      simp only [Pair.perform, present, Body.get, Option.bind_eq_bind, Option.bind_some, reads,
        Option.map_id, id]
      rfl
  | pop =>
      rcases Option.isSome_iff_exists.mp enabled with ⟨member, present⟩
      rcases stores.read present takes_pop with ⟨next, after, final, reads, kept⟩
      have dropped : leftOver (fun _ => []) messages = messages.tail := by
        cases messages <;> rfl
      have removed : (messages.head?.map fun _ => ()).isSome = !messages.isEmpty := by
        cases messages <;> rfl
      rw [dropped] at kept
      refine ⟨.popped (!messages.isEmpty), _, after, messages.tail, ?_, .popped, kept⟩
      simp only [Pair.perform, present, Body.pop, Option.bind_eq_bind, Option.bind_some, reads,
        removed]
      rfl

end Stores

theorem makeConnector_first (spec : Specification) :
    ({ spec := spec } : Body channel).makeConnector [] 0 =
      if spec.newCapacity 0 > 0 then
        some (true, ({ spec := spec } : Body channel).setConnector 0
          ⟨spec.newCapacity 0, channel.create (spec.newCapacity 0)⟩)
      else
        some (false, { spec := spec }) := by
  simp only [Body.makeConnector, Body.connector, Body.outputCapacity, Option.bind_eq_bind,
    Option.bind_some, true_or, if_true]
  rfl

theorem stores_created {spec : Specification} {body : Body channel} {member : Member}
    (created : Body.create channel spec = some (true, body, member)) :
    Stores ⟨body, member, none⟩ [⟨spec.newCapacity 0, channel.create (spec.newCapacity 0)⟩]
      [] := by
  rw [Body.create, makeConnector_first] at created
  by_cases wider : spec.newCapacity 0 > 0
  · rw [if_pos wider] at created
    cases created
    refine ⟨⟨rfl, ?_, ?_, Nat.le_refl _, rfl⟩, ⟨(span_self 0).symm, rfl, Nat.le_refl _⟩, ?_, ?_⟩
    · intro id small
      simp only [Body.setConnector, Nat.zero_mod]
      cases id with
      | zero => rfl
      | succ id => simp
    · intro id connector found
      cases id with
      | zero =>
          cases found
          exact UInt32.lt_iff_toNat_lt.mp wider
      | succ id => cases found
    · intro reader present
      cases present
    · simp [pending, Body.setConnector, channel.contents_create]
  · rw [if_neg wider] at created
    cases created

theorem Pair.enabled_of_step {pair next : Pair channel} {call : Call Message}
    {returned : Returned Message} (performed : pair.perform call = some (returned, next)) :
    pair.Enabled call := by
  cases call with
  | push message => exact trivial
  | openInput =>
      cases present : pair.consumer with
      | none => exact present
      | some consumer =>
          rw [Pair.perform, present] at performed
          cases performed
  | get | pop =>
      cases present : pair.consumer with
      | none =>
          rw [Pair.perform, present] at performed
          cases performed
      | some consumer =>
          change pair.consumer.isSome
          rw [present]
          rfl

/-- Growth is transparent: in every run every call returns, and the results are
those of one list to which exactly the accepted pushes are appended. -/
theorem bus_growth_transparent {spec : Specification} {body : Body channel} {member : Member}
    (created : Body.create channel spec = some (true, body, member))
    {labels : List (Call Message × Returned Message)} {pair : Pair channel}
    (run : Run Pair.Step ⟨body, member, none⟩ labels pair) :
    ∃ messages, Run OneList.Step [] labels messages ∧
      ∀ call, pair.Enabled call → ∃ returned next, pair.perform call = some (returned, next) := by
  have matched : ∀ {pair : Pair channel} {messages label next},
      (∃ chain, Stores pair chain messages) → Pair.Step pair label next →
      ∃ messages', OneList.Step messages label messages' ∧
        ∃ chain, Stores next chain messages' := by
    rintro pair messages ⟨call, returned⟩ next ⟨chain, stores⟩ performed
    change pair.perform call = some (returned, next) at performed
    rcases stores.perform (Pair.enabled_of_step performed) with
      ⟨returned', next', after, messages', returns, step, kept⟩
    rw [returns] at performed
    cases performed
    exact ⟨messages', step, after, kept⟩
  rcases run.simulate OneList.Step (fun pair messages => ∃ chain, Stores pair chain messages)
    matched ⟨_, stores_created created⟩ with ⟨messages, listed, chain, stores⟩
  refine ⟨messages, listed, ?_⟩
  intro call enabled
  rcases stores.perform enabled with ⟨returned, next, -, -, returns, -, -⟩
  exact ⟨returned, next, returns⟩

/-- Connectors of the capacities 2, 4, 8 and 16, of which the second and the third
are added before the consumer reads, and the last one while it is empty. -/
theorem bus_growth_transparent_widened : ∃ messages,
    Run OneList.Step []
      [(.push 1, .pushed true), (.push 1, .pushed true), (.push 3, .pushed true),
        (.openInput, .opened true), (.push 6, .pushed true), (.get, .got (some 1)),
        (.pop, .popped true), (.pop, .popped true), (.get, .got (some 3)),
        (.pop, .popped true), (.pop, .popped true), (.get, .got none),
        (.push 17, .pushed false), (.push 9, .pushed true), (.get, .got (some 9))] messages := by
  have capacity : Specification.newCapacity ⟨2, 16, 100⟩ 0 = 2 := by decide
  have created : Body.create (Channel.bounded id) ⟨2, 16, 100⟩ = some (true,
      ({ spec := ⟨2, 16, 100⟩ } : Body (Channel.bounded id)).setConnector 0 ⟨2, (2, [])⟩,
      { connectors := [0] }) := by
    rw [Body.create, makeConnector_first, capacity]
    rfl
  rcases Run.exists_of_computes
    (show Run.computes Pair.perform
      ⟨({ spec := ⟨2, 16, 100⟩ } : Body (Channel.bounded id)).setConnector 0 ⟨2, (2, [])⟩,
        { connectors := [0] }, none⟩
      [(.push 1, .pushed true), (.push 1, .pushed true), (.push 3, .pushed true),
        (.openInput, .opened true), (.push 6, .pushed true), (.get, .got (some 1)),
        (.pop, .popped true), (.pop, .popped true), (.get, .got (some 3)),
        (.pop, .popped true), (.pop, .popped true), (.get, .got none),
        (.push 17, .pushed false), (.push 9, .pushed true), (.get, .got (some 9))]
      (fun _ => true) = true by decide +kernel) with ⟨pair, run, -⟩
  rcases bus_growth_transparent created run with ⟨messages, listed, -⟩
  exact ⟨messages, listed⟩

end Qbus.Bus
