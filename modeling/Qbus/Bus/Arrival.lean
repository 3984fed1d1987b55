import Qbus.Bus.Traffic

/-! # No message is abandoned

Every message whose push has returned true is in a connector that was the last one
of the chain when the message came. Nothing comes on time to a connector that has a
successor, so a reader that finds it empty then can drop it. -/

namespace Qbus.Bus

variable {Message : Type}

namespace Traffic

def Holds (traffic : Traffic Message) (letter : Letter Message) : Prop :=
  (traffic.stored letter.connector)[letter.position]? = some letter.message

def OnTime (traffic : Traffic Message) (letter : Letter Message) : Prop :=
  letter.position < traffic.onTime letter.connector

/-- What was on time is there. -/
def Sound (traffic : Traffic Message) : Prop :=
  ∀ id, traffic.onTime id ≤ (traffic.stored id).length

structure Later (traffic next : Traffic Message) : Prop where
  outputId : traffic.controlBlock.outputId ≤ next.controlBlock.outputId
  stored : ∀ id, traffic.stored id <+: next.stored id
  popped : ∀ id, traffic.popped id ≤ next.popped id
  onTime : ∀ id, traffic.onTime id ≤ next.onTime id
  closed : ∀ id < traffic.controlBlock.outputId, next.onTime id = traffic.onTime id

variable {traffic next : Traffic Message} {letter : Letter Message}

theorem Holds.later (holds : traffic.Holds letter) (later : traffic.Later next) :
    next.Holds letter := by
  rcases later.stored letter.connector with ⟨added, longer⟩
  have inside := (List.getElem?_eq_some_iff.mp holds).1
  rw [Holds, ← longer, List.getElem?_append_left inside]
  exact holds

theorem OnTime.later (onTime : traffic.OnTime letter) (later : traffic.Later next) :
    next.OnTime letter :=
  Nat.lt_of_lt_of_le onTime (later.onTime letter.connector)

theorem Later.refl (traffic : Traffic Message) : traffic.Later traffic :=
  ⟨Nat.le_refl _, fun _ => List.prefix_refl _, fun _ => Nat.le_refl _, fun _ => Nat.le_refl _,
    fun _ _ => rfl⟩

theorem stored_post (id : Nat) : (traffic.post letter).stored id =
    if id = letter.connector then traffic.stored id ++ [letter.message] else traffic.stored id := by
  change Function.update traffic.stored letter.connector _ id = _
  by_cases same : id = letter.connector
  · rw [same, Function.update_self, if_pos rfl]
  · rw [Function.update_of_ne same, if_neg same]

theorem onTime_post (id : Nat) : (traffic.post letter).onTime id =
    if id = letter.connector ∧ id = traffic.controlBlock.outputId then
      (traffic.stored id).length + 1
    else traffic.onTime id := by
  simp only [post]
  by_cases last : letter.connector = traffic.controlBlock.outputId
  · rw [if_pos last]
    by_cases same : id = letter.connector
    · rw [if_pos ⟨same, same.trans last⟩, same, Function.update_self]
    · rw [if_neg (fun both => same both.1), Function.update_of_ne same]
  · rw [if_neg last, if_neg]
    intro both
    exact last (both.1.symm.trans both.2)

theorem Sound.post (sound : traffic.Sound) (letter : Letter Message) :
    (traffic.post letter).Sound := by
  intro id
  have before := sound id
  rw [stored_post, onTime_post]
  split
  next both =>
    rw [if_pos both.1, List.length_append, List.length_singleton]
  next =>
    split
    · rw [List.length_append]
      exact Nat.le_add_right_of_le before
    · exact before

theorem later_post (sound : traffic.Sound) (letter : Letter Message) :
    traffic.Later (traffic.post letter) where
  outputId := Nat.le_refl _
  stored := by
    intro id
    rw [stored_post]
    split
    · exact List.prefix_append _ _
    · exact List.prefix_refl _
  popped := fun _ => Nat.le_refl _
  onTime := by
    intro id
    rw [onTime_post]
    split
    · exact Nat.le_succ_of_le (sound id)
    · exact Nat.le_refl _
  closed := by
    intro id less
    rw [onTime_post, if_neg]
    exact fun both => Nat.ne_of_lt less both.2

theorem later_postAll (sound : traffic.Sound) (letter : Option (Letter Message)) :
    traffic.Later (traffic.postAll letter) := by
  cases letter with
  | none => exact .refl traffic
  | some letter => exact later_post sound letter

@[simp] theorem takeAll_stored (taken : Option Nat) :
    (traffic.takeAll taken).stored = traffic.stored := by
  cases taken <;> rfl

@[simp] theorem takeAll_onTime (taken : Option Nat) :
    (traffic.takeAll taken).onTime = traffic.onTime := by
  cases taken <;> rfl

@[simp] theorem postAll_popped (letter : Option (Letter Message)) :
    (traffic.postAll letter).popped = traffic.popped := by
  cases letter <;> rfl

theorem le_popped_takeAll (taken : Option Nat) (id : Nat) :
    traffic.popped id ≤ (traffic.takeAll taken).popped id := by
  cases taken with
  | none => exact Nat.le_refl _
  | some other =>
      change traffic.popped id ≤
        Function.update traffic.popped other (traffic.popped other + 1) id
      rw [Function.update_apply]
      split
      next same =>
        rw [same]
        exact Nat.le_succ _
      next => exact Nat.le_refl _

theorem Sound.postAll (sound : traffic.Sound) (letter : Option (Letter Message)) :
    (traffic.postAll letter).Sound := by
  cases letter with
  | none => exact sound
  | some letter => exact sound.post letter

theorem posted (known : letter.connector ≤ traffic.controlBlock.outputId)
    (position : letter.position = (traffic.stored letter.connector).length) :
    (traffic.post letter).Holds letter ∧
      (letter.connector < traffic.controlBlock.outputId ∨ (traffic.post letter).OnTime letter) := by
  constructor
  · rw [Holds, stored_post, if_pos rfl, position, List.getElem?_concat_length]
  · rcases Nat.lt_or_eq_of_le known with less | last
    · exact .inl less
    · right
      rw [OnTime, onTime_post, if_pos ⟨rfl, last⟩, position]
      exact Nat.lt_succ_self _

end Traffic

section Leaves

variable {traffic : Traffic Message} {motion : Motion Message} {party : Party Message}
  {controlBlock : ControlBlock}

theorem Party.leaves_stored : (party.leaves traffic motion controlBlock).stored =
    (traffic.postAll (party.posts traffic motion)).stored :=
  Traffic.takeAll_stored _

theorem Party.leaves_onTime : (party.leaves traffic motion controlBlock).onTime =
    (traffic.postAll (party.posts traffic motion)).onTime :=
  Traffic.takeAll_onTime _

theorem Party.later_leaves (sound : traffic.Sound)
    (forward : traffic.controlBlock.outputId ≤ controlBlock.outputId) :
    traffic.Later (party.leaves traffic motion controlBlock) := by
  have posts := Traffic.later_postAll sound (party.posts traffic motion)
  refine ⟨forward, ?_, ?_, ?_, ?_⟩
  · intro id
    rw [leaves_stored]
    exact posts.stored id
  · intro id
    have takes := @Traffic.le_popped_takeAll Message
      (traffic.postAll (party.posts traffic motion)) (party.takes motion) id
    rw [Traffic.postAll_popped] at takes
    exact takes
  · intro id
    rw [leaves_onTime]
    exact posts.onTime id
  · intro id less
    rw [leaves_onTime]
    exact posts.closed id less

theorem Party.sound_leaves (sound : traffic.Sound) :
    (party.leaves traffic motion controlBlock).Sound := by
  intro id
  rw [leaves_onTime, leaves_stored]
  exact sound.postAll _ id

theorem Party.posts_elsewhere (elsewhere : party.participant.place ≠ .pushing) :
    party.posts traffic motion = none := by
  unfold posts
  split
  next pushing => exact absurd pushing elsewhere
  next => rfl

theorem Party.onTime_leaves (elsewhere : party.participant.place ≠ .pushing) :
    (party.leaves traffic motion controlBlock).onTime = traffic.onTime := by
  rw [leaves_onTime, posts_elsewhere elsewhere]
  rfl

end Leaves

/-! ## What a step does to the connectors -/

/-- The chain and the connectors of a participant grow by one connector at their
beginning, or the participant drops its input connector. -/
inductive Change (shared : ControlBlock) (member : Member) (place : Place)
    (next : ControlBlock) (after : Member) : Prop
  | kept : next = shared → after.connectors = member.connectors →
      after.controlBlock.outputId = member.controlBlock.outputId →
      Change shared member place next after
  | added : place = .adding → next.outputId = shared.outputId + 1 →
      after.connectors = (shared.outputId + 1) :: member.connectors →
      after.controlBlock.outputId = shared.outputId + 1 → Change shared member place next after
  | grown : next = shared →
      after.connectors = (member.controlBlock.outputId + 1) :: member.connectors →
      after.controlBlock.outputId = member.controlBlock.outputId + 1 →
      Change shared member place next after
  | dropped : place.drops member.controlBlock = true → next.outputId = shared.outputId →
      after.connectors = member.connectors.dropLast →
      after.controlBlock.outputId = member.controlBlock.outputId →
      Change shared member place next after

theorem removeConnector_long {made : Bool} {controlBlock : ControlBlock} {connectors : List Nat}
    (long : 2 ≤ connectors.length) :
    removeConnector made controlBlock connectors =
      (true, controlBlock.removed, connectors.dropLast) := by
  rw [removeConnector, if_neg]
  intro empty
  have short := @List.length_dropLast _ connectors
  rw [empty, List.length_nil] at short
  omega

theorem proceed_change {result reads : Bool} {shared next : ControlBlock}
    {member after : Member} {place nextPlace : Place}
    (orderly : place.Orderly result reads shared member)
    (stepped : proceed result shared ⟨member, place⟩ = some (next, ⟨after, nextPlace⟩)) :
    Change shared member place next after ∧ nextPlace ≠ .closed := by
  have resumed : ∀ (caller : Caller) (status : UpdateStatus), caller.resume status ≠ .closed := by
    intro caller status
    cases caller <;> cases status <;> simp [Caller.resume, UpdateStatus.hasInput,
      UpdateStatus.hasOutput]
  cases place with
  | closed => cases stepped
  | idle => cases stepped
  | pushing =>
      simp only [proceed, Participant.enter] at stepped
      split at stepped
      · cases stepped
      · cases stepped
        exact ⟨.kept rfl rfl rfl, by cases result <;> simp⟩
  | full =>
      cases stepped
      exact ⟨.kept rfl rfl rfl, by split <;> simp⟩
  | adding =>
      cases result with
      | false =>
          cases stepped
          exact ⟨.kept rfl rfl rfl, by simp⟩
      | true =>
          cases stepped
          exact ⟨.added rfl rfl rfl rfl, by simp⟩
  | reading =>
      simp only [proceed, Participant.enter] at stepped
      split at stepped
      · cases stepped
      · cases stepped
        exact ⟨.kept rfl rfl rfl, by cases result <;> simp⟩
  | drained =>
      cases stepped
      exact ⟨.kept rfl rfl rfl, by split <;> simp⟩
  | removing =>
      have long : 2 ≤ member.connectors.length := orderly
      simp only [proceed, Member.removeConnector, removeConnector_long long] at stepped
      split at stepped
      · cases stepped
      · cases stepped
        exact ⟨.dropped rfl rfl rfl rfl, by simp⟩
  | checking caller =>
      rw [proceed_checking] at stepped
      split at stepped
      · cases stepped
        exact ⟨.kept rfl rfl rfl, resumed _ _⟩
      · cases stepped
        exact ⟨.kept rfl rfl rfl, by simp⟩
  | comparing caller =>
      cases stepped
      exact ⟨.kept rfl rfl rfl, by split <;> simp⟩
  | growing caller target =>
      simp only [proceed, Participant.enter] at stepped
      split at stepped
      · cases stepped
        exact ⟨.kept rfl rfl rfl, by simp⟩
      · split at stepped
        · cases result with
          | false =>
              cases stepped
              exact ⟨.kept rfl rfl rfl, resumed _ _⟩
          | true =>
              cases stepped
              exact ⟨.grown rfl rfl rfl, by simp⟩
        · cases stepped
          exact ⟨.kept rfl rfl rfl, resumed _ _⟩
  | reaching caller grown =>
      cases stepped
      refine ⟨.kept rfl rfl rfl, ?_⟩
      split
      · exact resumed _ _
      · simp
  | shrinking caller grown =>
      simp only [proceed, Participant.enter] at stepped
      split at stepped
      next able =>
        have long : 2 ≤ member.connectors.length := by
          simp only [Place.Orderly, if_pos able] at orderly
          exact orderly
        simp only [Member.shrink, removeConnector_long long] at stepped
        split at stepped
        · cases stepped
        · cases stepped
          exact ⟨.dropped able rfl rfl rfl, resumed _ _⟩
      next unable =>
        cases stepped
        exact ⟨.kept rfl rfl rfl, resumed _ _⟩

/-! ## What a reader has gone past -/

/-- The participant has the connectors from `first` on, and has gone past all messages
on time in the connectors before; also in `first`, once it has found that drained. -/
structure Reader.Keeps (traffic : Traffic Message) (member : Member) (first : Nat)
    (reader : Reader) : Prop where
  since : reader.since ≤ first
  ordered : first ≤ member.controlBlock.outputId
  connectors : member.connectors = span first member.controlBlock.outputId
  past : ∀ id, reader.since ≤ id → id < first → traffic.onTime id ≤ traffic.popped id
  drained : reader.drained = true →
    first < traffic.controlBlock.outputId ∧ traffic.onTime first ≤ traffic.popped first

namespace Reader

variable {traffic next : Traffic Message} {member after : Member} {first : Nat} {reader : Reader}

theorem Keeps.later (keeps : reader.Keeps traffic member first)
    (behind : member.controlBlock.outputId ≤ traffic.controlBlock.outputId)
    (later : traffic.Later next) : reader.Keeps next member first where
  since := keeps.since
  ordered := keeps.ordered
  connectors := keeps.connectors
  past := by
    intro id since less
    have ordered := keeps.ordered
    rw [later.closed id (by omega)]
    exact Nat.le_trans (keeps.past id since less) (later.popped id)
  drained := by
    intro drained
    have found := keeps.drained drained
    rw [later.closed first found.1]
    exact ⟨Nat.lt_of_lt_of_le found.1 later.outputId,
      Nat.le_trans found.2 (later.popped first)⟩

theorem Keeps.forward (keeps : reader.Keeps traffic member first) (later : traffic.Later next)
    (same : next.onTime = traffic.onTime) : reader.Keeps next member first where
  since := keeps.since
  ordered := keeps.ordered
  connectors := keeps.connectors
  past := by
    intro id since less
    rw [same]
    exact Nat.le_trans (keeps.past id since less) (later.popped id)
  drained := by
    intro drained
    have found := keeps.drained drained
    rw [same]
    exact ⟨Nat.lt_of_lt_of_le found.1 later.outputId,
      Nat.le_trans found.2 (later.popped first)⟩

theorem Keeps.kept (keeps : reader.Keeps traffic member first)
    (connectors : after.connectors = member.connectors)
    (outputId : after.controlBlock.outputId = member.controlBlock.outputId) :
    (reader.unread member after).Keeps traffic after first where
  since := keeps.since
  ordered := by
    rw [outputId]
    exact keeps.ordered
  connectors := by
    rw [connectors, outputId]
    exact keeps.connectors
  past := keeps.past
  drained := fun drained => keeps.drained (Bool.and_elim_left drained)

theorem Keeps.extended (keeps : reader.Keeps traffic member first)
    (connectors : after.connectors =
      (member.controlBlock.outputId + 1) :: member.connectors)
    (outputId : after.controlBlock.outputId = member.controlBlock.outputId + 1) :
    (reader.unread member after).Keeps traffic after first where
  since := keeps.since
  ordered := by
    rw [outputId]
    exact Nat.le_succ_of_le keeps.ordered
  connectors := by
    rw [connectors, outputId, keeps.connectors, span_succ (Nat.le_succ_of_le keeps.ordered)]
  past := keeps.past
  drained := fun drained => keeps.drained (Bool.and_elim_left drained)

theorem Keeps.long (keeps : reader.Keeps traffic member first)
    (long : 2 ≤ member.connectors.length) : first < member.controlBlock.outputId := by
  rw [keeps.connectors, span, List.length_reverse, List.length_range'] at long
  omega

theorem Keeps.dropped (keeps : reader.Keeps traffic member first)
    (drained : reader.drained = true) (long : 2 ≤ member.connectors.length)
    (connectors : after.connectors = member.connectors.dropLast)
    (outputId : after.controlBlock.outputId = member.controlBlock.outputId) :
    (reader.unread member after).Keeps traffic after (first + 1) := by
  have further := keeps.long long
  have shorter : after.connectors = span (first + 1) after.controlBlock.outputId := by
    rw [connectors, outputId, keeps.connectors, dropLast_span keeps.ordered]
  refine ⟨Nat.le_succ_of_le keeps.since, ?_, shorter, ?_, ?_⟩
  · rw [outputId]
    exact further
  · intro id since less
    rcases Nat.lt_or_eq_of_le (Nat.le_of_lt_succ less) with before | same
    · exact keeps.past id since before
    · rw [same]
      exact (keeps.drained drained).2
  · -- the input connector is another one
    intro still
    have same := of_decide_eq_true (Bool.and_elim_right still)
    rw [shorter, keeps.connectors, getLast?_span keeps.ordered,
      getLast?_span (by rw [outputId]; exact further)] at same
    have same := Option.some.inj same
    omega

theorem Keeps.change {place : Place} {controlBlock : ControlBlock}
    (keeps : reader.Keeps traffic member first)
    (change : Change traffic.controlBlock member place controlBlock after)
    (adding : place = .adding →
      member.controlBlock.outputId = traffic.controlBlock.outputId)
    (dropping : place.drops member.controlBlock = true →
      reader.drained = true ∧ 2 ≤ member.connectors.length) :
    ∃ first, (reader.unread member after).Keeps traffic after first := by
  cases change with
  | kept _ connectors outputId => exact ⟨first, keeps.kept connectors outputId⟩
  | added place _ connectors outputId =>
      rw [← adding place] at connectors outputId
      exact ⟨first, keeps.extended connectors outputId⟩
  | grown _ connectors outputId => exact ⟨first, keeps.extended connectors outputId⟩
  | dropped drops _ connectors outputId =>
      rcases dropping drops with ⟨drained, long⟩
      exact ⟨first + 1, keeps.dropped drained long connectors outputId⟩

theorem Keeps.missed (keeps : reader.Keeps traffic member first) (sound : traffic.Sound)
    (nothing : (traffic.stored first).length ≤ traffic.popped first) :
    Reader.Keeps traffic member first { reader with
      drained := reader.drained ||
        member.connectors.getLast?.any (· < traffic.controlBlock.outputId) } where
  since := keeps.since
  ordered := keeps.ordered
  connectors := keeps.connectors
  past := keeps.past
  drained := by
    intro drained
    rcases (Bool.or_eq_true _ _).mp drained with before | found
    · exact keeps.drained before
    · rw [keeps.connectors, getLast?_span keeps.ordered, Option.any_some] at found
      exact ⟨of_decide_eq_true found, Nat.le_trans (sound first) nothing⟩

end Reader

/-! ## Where a sender has put its message -/

/-- What is known in an update after a successful push: the connector was the output
connector, and as long as no connector is new, it was the last one of the chain. -/
def Place.Carried (traffic : Traffic Message) (outputId : Nat) (letter : Letter Message) :
    Place → Prop
  | .checking .afterPush | .comparing .afterPush =>
      traffic.Holds letter ∧ letter.connector = outputId ∧
        (letter.connector < traffic.controlBlock.outputId ∨ traffic.OnTime letter)
  | .reaching .afterPush false | .shrinking .afterPush false =>
      traffic.Holds letter ∧ traffic.OnTime letter
  | _ => True

section Carried

variable {traffic next : Traffic Message} {letter : Letter Message} {result reads : Bool}
  {member after : Member} {place nextPlace : Place} {controlBlock : ControlBlock}

theorem Place.Carried.later {outputId : Nat} (carried : place.Carried traffic outputId letter)
    (later : traffic.Later next) : place.Carried next outputId letter := by
  unfold Place.Carried at carried ⊢
  split at carried
  all_goals
    first
    | exact trivial
    | exact ⟨carried.1.later later, carried.2.later later⟩
    | refine ⟨carried.1.later later, carried.2.1, ?_⟩
      rcases carried.2.2 with less | onTime
      · exact .inl (Nat.lt_of_lt_of_le less later.outputId)
      · exact .inr (onTime.later later)

theorem Caller.carried_resume (caller : Caller) (status : UpdateStatus) (outputId : Nat) :
    (caller.resume status).Carried traffic outputId letter := by
  cases caller <;> cases status <;> exact trivial

theorem Caller.eq_afterPush {caller : Caller} (returning : caller.returning = some true) :
    caller = .afterPush := by
  cases caller <;> first | rfl | cases returning

theorem onTime_of_last (behind : Behind traffic.controlBlock member)
    (small : traffic.controlBlock.outputId < 2 ^ 32)
    (same : SameWord traffic.controlBlock.outputId member.controlBlock.outputId)
    (carried : letter.connector = member.controlBlock.outputId ∧
      (letter.connector < traffic.controlBlock.outputId ∨ traffic.OnTime letter)) :
    traffic.OnTime letter := by
  have known := behind.outputId
  rcases carried with ⟨output, less | onTime⟩
  · rw [SameWord] at same
    omega
  · exact onTime

theorem proceed_carried (behind : Behind traffic.controlBlock member)
    (small : traffic.controlBlock.outputId < 2 ^ 32)
    (carried : place.Carried traffic member.controlBlock.outputId letter)
    (elsewhere : place ≠ .pushing)
    (stepped : proceed result traffic.controlBlock ⟨member, place⟩ =
      some (controlBlock, ⟨after, nextPlace⟩)) :
    nextPlace.Carried traffic after.controlBlock.outputId letter := by
  cases place with
  | closed => cases stepped
  | idle => cases stepped
  | pushing => exact absurd rfl elsewhere
  | full =>
      cases stepped
      split <;> exact trivial
  | adding =>
      cases result <;> cases stepped <;> exact trivial
  | reading =>
      simp only [proceed, Participant.enter] at stepped
      split at stepped
      · cases stepped
      · cases stepped
        cases result <;> exact trivial
  | drained =>
      cases stepped
      split <;> exact trivial
  | removing =>
      simp only [proceed] at stepped
      split at stepped
      · cases stepped
      · split at stepped
        all_goals
          cases stepped
          exact trivial
  | checking caller =>
      rw [proceed_checking] at stepped
      split at stepped
      · cases stepped
        exact caller.carried_resume _ _
      · cases stepped
        cases caller <;> exact carried
  | comparing caller =>
      cases stepped
      split
      next same =>
        cases caller with
        | afterPush => exact ⟨carried.1, onTime_of_last behind small same carried.2⟩
        | _ => exact trivial
      next => exact trivial
  | growing caller target =>
      simp only [proceed, Participant.enter] at stepped
      split at stepped
      · cases stepped
        cases caller <;> exact trivial
      · split at stepped
        · split at stepped
          · cases stepped
            exact trivial
          · cases stepped
            exact caller.carried_resume _ _
        · cases stepped
          exact caller.carried_resume _ _
  | reaching caller grown =>
      cases stepped
      split
      · exact caller.carried_resume _ _
      · cases caller <;> cases grown <;> exact carried
  | shrinking caller grown =>
      simp only [proceed, Participant.enter] at stepped
      split at stepped
      · split at stepped
        · cases stepped
        · split at stepped
          all_goals
            cases stepped
            exact caller.carried_resume _ _
      · cases stepped
        exact caller.carried_resume _ _

theorem proceed_sent (behind : Behind traffic.controlBlock member)
    (small : traffic.controlBlock.outputId < 2 ^ 32)
    (tracks : place.Tracks traffic.controlBlock member)
    (orderly : place.Orderly result reads traffic.controlBlock member)
    (carried : place.Carried traffic member.controlBlock.outputId letter)
    (returning : place.returning = some true)
    (stepped : proceed result traffic.controlBlock ⟨member, place⟩ =
      some (controlBlock, ⟨after, .idle⟩)) :
    traffic.Holds letter ∧ traffic.OnTime letter := by
  cases place with
  | closed | idle | reading | drained | removing | pushing | full | adding => cases returning
  | checking caller =>
      have same := Caller.eq_afterPush returning
      subst same
      rw [proceed_checking] at stepped
      split at stepped
      next level =>
        have current := (tracks level.symm).outputId
        exact ⟨carried.1, onTime_of_last behind small current.symm carried.2⟩
      next => cases stepped
  | comparing caller =>
      simp only [proceed, Participant.enter] at stepped
      split at stepped <;> cases stepped
  | growing caller target =>
      have same := Caller.eq_afterPush returning
      subst same
      simp only [proceed, Participant.enter] at stepped
      split at stepped
      · cases stepped
      next different =>
        rcases orderly with same | ⟨able, made⟩
        · exact absurd same different
        · subst made
          rw [if_pos able] at stepped
          cases stepped
  | reaching caller grown =>
      have same := Caller.eq_afterPush returning
      subst same
      simp only [proceed, Participant.enter] at stepped
      cases grown with
      | false => exact carried
      | true => split at stepped <;> cases stepped
  | shrinking caller grown =>
      have same := Caller.eq_afterPush returning
      subst same
      cases grown with
      | false => exact carried
      | true =>
          simp only [proceed, Participant.enter] at stepped
          split at stepped
          next able =>
            have long : 2 ≤ member.connectors.length := by
              simp only [Place.Orderly, if_pos able] at orderly
              exact orderly
            simp only [Member.shrink, removeConnector_long long] at stepped
            split at stepped <;> cases stepped
          next unable =>
            simp only [Place.Orderly, if_neg unable] at orderly
            cases orderly trivial

end Carried

/-! ## Participants with their messages -/

/-- The output connector is the newest one in the copy, a reader has gone past what it
has dropped, and the last copies of all successful pushes have come on time. -/
structure Party.Keeps (traffic : Traffic Message) (party : Party Message) : Prop where
  output : party.participant.place ≠ .closed → party.participant.member.connectors.head? =
    some party.participant.member.controlBlock.outputId
  reading : party.participant.place ≠ .closed → party.reader.reads = true →
    ∃ first, party.reader.Keeps traffic party.participant.member first
  carried : ∀ letter ∈ party.sender.letter, party.participant.place.Carried traffic
    party.participant.member.controlBlock.outputId letter
  sent : ∀ letter ∈ party.sender.sent, traffic.Holds letter ∧ traffic.OnTime letter

section Party

variable {traffic next : Traffic Message} {party last : Party Message}
  {motion : Motion Message}

theorem Party.Keeps.later (keeps : party.Keeps traffic)
    (behind : Behind traffic.controlBlock party.participant.member)
    (later : traffic.Later next) : party.Keeps next where
  output := keeps.output
  reading := by
    intro isOpen reads
    rcases keeps.reading isOpen reads with ⟨first, keeps⟩
    exact ⟨first, keeps.later behind.outputId later⟩
  carried := fun letter member => (keeps.carried letter member).later later
  sent := fun letter member =>
    ⟨(keeps.sent letter member).1.later later, (keeps.sent letter member).2.later later⟩

theorem Party.Keeps.forward (keeps : party.Keeps traffic) (later : traffic.Later next)
    (same : next.onTime = traffic.onTime) : party.Keeps next where
  output := keeps.output
  reading := by
    intro isOpen reads
    rcases keeps.reading isOpen reads with ⟨first, keeps⟩
    exact ⟨first, keeps.forward later same⟩
  carried := fun letter member => (keeps.carried letter member).later later
  sent := fun letter member =>
    ⟨(keeps.sent letter member).1.later later, (keeps.sent letter member).2.later later⟩

theorem Change.head? {shared controlBlock : ControlBlock} {member after : Member}
    {place : Place} (change : Change shared member place controlBlock after)
    (dropping : place.drops member.controlBlock = true → 2 ≤ member.connectors.length)
    (output : member.connectors.head? = some member.controlBlock.outputId) :
    after.connectors.head? = some after.controlBlock.outputId := by
  cases change with
  | kept _ connectors outputId => rw [connectors, outputId, output]
  | added _ _ connectors outputId => rw [connectors, outputId, List.head?_cons]
  | grown _ connectors outputId => rw [connectors, outputId, List.head?_cons]
  | dropped drops _ connectors outputId =>
      rw [connectors, outputId, List.head?_dropLast, if_pos (Nat.lt_of_succ_le (dropping drops)),
        output]

theorem Place.Orderly.long {result reads : Bool} {shared : ControlBlock} {member : Member}
    {place : Place} (orderly : place.Orderly result reads shared member)
    (drops : place.drops member.controlBlock = true) : 2 ≤ member.connectors.length := by
  cases place with
  | removing => exact orderly
  | shrinking caller grown =>
      simp only [Place.Orderly, if_pos (show member.controlBlock.canRemoveConnector = true
        from drops)] at orderly
      exact orderly
  | _ => cases drops

theorem Change.forward {shared controlBlock : ControlBlock} {member after : Member}
    {place : Place} (change : Change shared member place controlBlock after) :
    shared.outputId ≤ controlBlock.outputId := by
  cases change with
  | kept same | grown same => rw [same]
  | added _ outputId => exact outputId ▸ Nat.le_succ _
  | dropped _ outputId => exact Nat.le_of_eq outputId.symm

theorem Party.mem_posts_pushing {member : Member} {sender : Sender Message} {reader : Reader}
    {letter : Letter Message}
    (output : member.connectors.head? = some member.controlBlock.outputId)
    (stored : letter ∈ posts traffic (.next true) ⟨⟨member, .pushing⟩, sender, reader⟩) :
    letter.connector = member.controlBlock.outputId ∧
      letter.position = (traffic.stored letter.connector).length := by
  rcases Option.bind_eq_some_iff.mp stored with ⟨id, newest, mapped⟩
  rcases Option.map_eq_some_iff.mp mapped with ⟨message, _, same⟩
  rw [← same]
  exact ⟨Option.some.inj (newest.symm.trans output), rfl⟩

theorem Sender.letterAfter_elsewhere {sender : Sender Message}
    {posted : Option (Letter Message)} {place : Place} (elsewhere : place ≠ .pushing) :
    sender.letterAfter motion posted place = sender.letter := by
  unfold letterAfter
  split
  next => exact absurd rfl elsewhere
  next => rfl

theorem Sender.mem_sentAfter {sender : Sender Message} {place nextPlace : Place}
    {letter : Letter Message} (sent : letter ∈ sender.sentAfter place nextPlace) :
    letter ∈ sender.sent ∨
      letter ∈ sender.letter ∧ place.returning = some true ∧ nextPlace = .idle := by
  unfold sentAfter at sent
  split at sent
  next returning =>
    rcases List.mem_append.mp sent with before | last
    · exact .inl before
    · exact .inr ⟨Option.mem_toList.mp last, returning, rfl⟩
  next => exact .inl sent

theorem Reader.record_next {reader : Reader} {result : Bool} {participant after : Participant}
    (found : participant.place = .reading → result = true) :
    reader.record traffic (.next result) participant after =
      reader.unread participant.member after.member := by
  unfold record
  split
  next closed => cases closed
  next getting => cases getting
  next popping => cases popping
  next reading same =>
    cases same
    cases found reading
  next => rfl

theorem Reader.record_reads {reader : Reader} {participant after : Participant} :
    (reader.record traffic motion participant after).reads = reader.reads := by
  unfold record
  split <;> rfl

theorem Party.moved_reads {after : Participant} :
    (party.moved traffic motion after).reader.reads = party.reader.reads :=
  Reader.record_reads

structure Party.Follows (traffic : Traffic Message) (motion : Motion Message)
    (party : Party Message) : Prop where
  proper : Proper traffic.controlBlock
  small : traffic.controlBlock.outputId < 2 ^ 32
  behind : Behind traffic.controlBlock party.participant.member
  tracks : party.participant.place.Tracks traffic.controlBlock party.participant.member
  orderly : party.Orderly traffic.controlBlock motion
  drained : party.participant.place.drops party.participant.member.controlBlock = true →
    party.reader.reads = true → party.reader.drained = true

theorem Party.Keeps.pushing {result : Bool} {member : Member} {sender : Sender Message}
    {reader : Reader} (keeps : Party.Keeps traffic ⟨⟨member, .pushing⟩, sender, reader⟩)
    (behind : Behind traffic.controlBlock member)
    (later : traffic.Later
      (leaves traffic (.next result) ⟨⟨member, .pushing⟩, sender, reader⟩ traffic.controlBlock)) :
    Party.Keeps
      (leaves traffic (.next result) ⟨⟨member, .pushing⟩, sender, reader⟩ traffic.controlBlock)
      ⟨⟨member, if result then .checking .afterPush else .full⟩,
        sender.record (.next result)
          (posts traffic (.next result) ⟨⟨member, .pushing⟩, sender, reader⟩) .pushing
          (if result then .checking .afterPush else .full),
        reader.record traffic (.next result) ⟨member, .pushing⟩
          ⟨member, if result then .checking .afterPush else .full⟩⟩ := by
  have output := keeps.output (by simp)
  have before := keeps.later behind later
  refine ⟨fun _ => output, ?_, ?_, ?_⟩
  · intro _ reads
    rw [Reader.record_reads] at reads
    rw [Reader.record_next (by simp)]
    rcases before.reading (by simp) reads with ⟨first, keeps⟩
    exact ⟨first, keeps.kept rfl rfl⟩
  · cases result with
    | false => exact fun _ _ => trivial
    | true =>
        intro letter stored
        have connector := mem_posts_pushing output stored
        have known : letter.connector ≤ traffic.controlBlock.outputId := by
          rw [connector.1]
          exact behind.outputId
        have placed := Traffic.posted known connector.2
        have post : posts traffic (.next true) ⟨⟨member, .pushing⟩, sender, reader⟩ =
            some letter := stored
        refine ⟨?_, connector.1, placed.2.imp id ?_⟩
        · rw [Traffic.Holds, leaves_stored, post]
          exact placed.1
        · intro onTime
          rw [Traffic.OnTime, leaves_onTime, post]
          exact onTime
  · intro letter sent
    have listed : letter ∈ sender.sentAfter .pushing
        (if result then .checking .afterPush else .full) := sent
    rcases Sender.mem_sentAfter listed with older | ⟨_, returning, _⟩
    · exact before.sent letter older
    · cases returning

theorem Reader.unread_self (reader : Reader) (member : Member) :
    reader.unread member member = reader := by
  simp [unread]

theorem Party.Keeps.proceed {result : Bool} {place : Place} {member after : Member}
    {nextPlace : Place} {sender : Sender Message} {reader : Reader} {controlBlock : ControlBlock}
    (keeps : Party.Keeps traffic ⟨⟨member, place⟩, sender, reader⟩) (sound : traffic.Sound)
    (follows : Party.Follows traffic (.next result) ⟨⟨member, place⟩, sender, reader⟩)
    (elsewhere : place ≠ .pushing)
    (answered : Party.answered traffic (.next result) ⟨⟨member, place⟩, sender, reader⟩ = true)
    (stepped : Bus.proceed result traffic.controlBlock ⟨member, place⟩ =
      some (controlBlock, ⟨after, nextPlace⟩)) :
    Party.Keeps traffic ⟨⟨after, nextPlace⟩,
      sender.record (.next result) none place nextPlace,
      reader.record traffic (.next result) ⟨member, place⟩ ⟨after, nextPlace⟩⟩ := by
  have orderly : place.Orderly result reader.reads traffic.controlBlock member := follows.orderly
  rcases proceed_change orderly stepped with ⟨change, _⟩
  have isOpen : place ≠ .closed := by
    intro closed
    rw [closed] at stepped
    cases stepped
  refine ⟨fun _ => change.head? orderly.long (keeps.output isOpen), ?_, ?_, ?_⟩
  · intro _ reads
    rw [Reader.record_reads] at reads
    rcases keeps.reading isOpen reads with ⟨first, keeps⟩
    by_cases found : place = .reading → result = true
    · rw [Reader.record_next found]
      apply keeps.change change
      · intro adding
        subst adding
        exact orderly reads
      · exact fun drops => ⟨follows.drained drops reads, orderly.long drops⟩
    · -- a read that finds nothing
      obtain ⟨reading, missed⟩ := Classical.not_imp.mp found
      subst reading
      have missed := Bool.eq_false_of_not_eq_true missed
      subst missed
      have unchanged : after = member := by
        simp only [Bus.proceed, Participant.enter] at stepped
        split at stepped
        · cases stepped
        · cases stepped
          rfl
      have input : member.connectors.getLast? = some first := by
        rw [keeps.connectors, getLast?_span keeps.ordered]
      have nothing : finds traffic ⟨⟨member, .reading⟩, sender, reader⟩ = false :=
        (eq_of_beq answered).symm
      rw [finds, input, Bool.not_eq_false', List.isEmpty_iff, Traffic.remaining,
        List.drop_eq_nil_iff] at nothing
      rw [unchanged]
      exact ⟨first, keeps.missed sound nothing⟩
  · intro letter stored
    rw [show (sender.record (.next result) none place nextPlace).letter = sender.letter from
      Sender.letterAfter_elsewhere elsewhere] at stored
    exact proceed_carried follows.behind follows.small (keeps.carried letter stored) elsewhere
      stepped
  · intro letter sent
    have listed : letter ∈ sender.sentAfter place nextPlace := sent
    rcases Sender.mem_sentAfter listed with older | ⟨last, returning, idle⟩
    · exact keeps.sent letter older
    · subst idle
      exact proceed_sent follows.behind follows.small follows.tracks orderly
        (keeps.carried letter last) returning stepped

theorem Party.Keeps.opened {sender : Sender Message} {reader : Reader} {member : Member}
    (keeps : Party.Keeps traffic ⟨⟨member, .closed⟩, sender, reader⟩)
    (proper : Proper traffic.controlBlock) (small : traffic.controlBlock.outputId < 2 ^ 32) :
    Party.Keeps traffic
      ⟨⟨⟨traffic.controlBlock.chain.reverse, traffic.controlBlock⟩, .idle⟩, sender,
        { reads := reader.reads, since := traffic.controlBlock.inputId }⟩ where
  output := by
    intro _
    rw [ControlBlock.chain_reverse proper.ordered small]
    exact head?_span proper.ordered
  reading := by
    intro _ _
    refine ⟨traffic.controlBlock.inputId, Nat.le_refl _, proper.ordered,
      ControlBlock.chain_reverse proper.ordered small, ?_, fun drained => (by cases drained)⟩
    intro id since less
    exact absurd since (Nat.not_le_of_lt less)
  carried := fun _ _ => trivial
  sent := keeps.sent

theorem Party.Keeps.begun {member : Member} {sender : Sender Message} {reader : Reader}
    {place : Place} {message : Option Message} {popping : Bool}
    (keeps : Party.Keeps traffic ⟨⟨member, .idle⟩, sender, reader⟩)
    (begins : place = .checking .beforePush ∨ place = .reading) :
    Party.Keeps traffic ⟨⟨member, place⟩, { sender with message := message },
      { reader with popping := popping }⟩ where
  output := fun _ => keeps.output (by simp)
  reading := by
    intro _ reads
    rcases keeps.reading (by simp) reads with ⟨first, keeps⟩
    exact ⟨first, keeps.since, keeps.ordered, keeps.connectors, keeps.past, keeps.drained⟩
  carried := by
    intro letter stored
    rcases begins with pushing | reading
    · subst pushing
      exact trivial
    · subst reading
      exact trivial
  sent := keeps.sent

theorem Party.Keeps.elsewhere {stepped : ControlBlock × Participant}
    (keeps : party.Keeps traffic) (sound : traffic.Sound) (follows : party.Follows traffic motion)
    (elsewhere : party.participant.place ≠ .pushing) (answered : party.answered traffic motion)
    (programmed : program motion.event traffic.controlBlock party.participant = some stepped) :
    Party.Keeps traffic ⟨stepped.2,
      party.sender.record motion none party.participant.place stepped.2.place,
      party.reader.record traffic motion party.participant stepped.2⟩ := by
  rcases party with ⟨⟨member, place⟩, sender, reader⟩
  cases motion with
  | «open» made =>
      simp only [Motion.event, program] at programmed
      split at programmed
      next closed =>
        subst closed
        cases programmed
        cases made with
        | true => exact keeps.opened follows.proper follows.small
        | false =>
            exact ⟨fun isOpen => absurd rfl isOpen, fun isOpen => absurd rfl isOpen,
              keeps.carried, keeps.sent⟩
      next => cases programmed
  | close =>
      simp only [Motion.event, program] at programmed
      split at programmed
      next idle =>
        subst idle
        cases programmed
        exact ⟨fun isOpen => absurd rfl isOpen, fun isOpen => absurd rfl isOpen,
          fun _ _ => trivial, keeps.sent⟩
      next => cases programmed
  | push message =>
      simp only [Motion.event, program] at programmed
      split at programmed
      next idle =>
        subst idle
        cases programmed
        have same : reader.record traffic (.push message) ⟨member, .idle⟩
            ⟨member, .checking .beforePush⟩ = reader := reader.unread_self member
        rw [Participant.enter, same]
        exact @Party.Keeps.begun _ _ _ _ _ _ _ reader.popping keeps (.inl rfl)
      next => cases programmed
  | get =>
      simp only [Motion.event, program] at programmed
      split at programmed
      next idle =>
        subst idle
        cases programmed
        exact keeps.begun (.inr rfl)
      next => cases programmed
  | pop =>
      simp only [Motion.event, program] at programmed
      split at programmed
      next idle =>
        subst idle
        cases programmed
        exact keeps.begun (.inr rfl)
      next => cases programmed
  | next result => exact keeps.proceed sound follows elsewhere answered programmed

theorem program_forward {reads : Bool} {shared : ControlBlock} {participant : Participant}
    {stepped : ControlBlock × Participant}
    (orderly : ∀ result, motion = .next result →
      participant.place.Orderly result reads shared participant.member)
    (programmed : program motion.event shared participant = some stepped) :
    shared.outputId ≤ stepped.1.outputId := by
  cases motion with
  | next result => exact (proceed_change (orderly result rfl) programmed).1.forward
  | _ =>
      simp only [Motion.event, program] at programmed
      split at programmed
      · cases programmed
        exact Nat.le_refl _
      · cases programmed

theorem carry_keeps (keeps : party.Keeps traffic) (sound : traffic.Sound)
    (follows : party.Follows traffic motion)
    (carried : carry motion traffic party = some (next, last)) :
    traffic.Later next ∧ next.Sound ∧ last.Keeps next := by
  rcases carry_cases carried with ⟨answered, transported⟩
  rcases transport_cases transported with ⟨stepped, programmed, rfl, rfl⟩
  have forward : traffic.controlBlock.outputId ≤ stepped.1.outputId := by
    apply @program_forward Message motion party.reader.reads _ party.participant _ _ programmed
    intro result same
    subst same
    exact follows.orderly
  have later := @Party.later_leaves _ _ motion party _ sound forward
  refine ⟨later, Party.sound_leaves sound, ?_⟩
  by_cases pushing : party.participant.place = .pushing
  · rcases party with ⟨⟨member, place⟩, sender, reader⟩
    subst pushing
    cases motion with
    | next result =>
        have nonempty : member.connectors ≠ [] := by
          intro empty
          have output := keeps.output (by simp)
          rw [empty] at output
          cases output
        simp only [Motion.event, program, proceed, Participant.enter, if_neg nonempty]
          at programmed
        cases programmed
        exact keeps.pushing follows.behind later
    | _ => cases programmed
  · have kept := keeps.elsewhere sound follows pushing answered programmed
    rw [Party.moved, Party.posts_elsewhere pushing]
    exact kept.forward later (Party.onTime_leaves pushing)

/-! ## Names -/

theorem Party.mem_unlinks {id : Nat} (taken : id ∈ party.unlinks motion) :
    id ∈ party.participant.member.connectors := by
  unfold unlinks at taken
  split at taken
  · exact taken
  · split at taken
    · exact List.mem_of_getLast? (Option.mem_toList.mp taken)
    · cases taken
  · cases taken

theorem carry_knows {id : Nat} (known : id ≤ traffic.controlBlock.outputId)
    (knows : party.Knows id) (orderly : party.Orderly traffic.controlBlock motion)
    (carried : carry motion traffic party = some (next, last)) : last.Knows id := by
  rcases transport_cases (carry_cases carried).2 with ⟨stepped, programmed, rfl, rfl⟩
  intro isOpen reads
  rw [Party.moved_reads] at reads
  cases motion with
  | «open» made =>
      simp only [Motion.event, program] at programmed
      split at programmed
      next closed =>
        cases programmed
        cases made with
        | true => exact known
        | false => exact absurd closed isOpen
      next => cases programmed
  | close =>
      simp only [Motion.event, program] at programmed
      split at programmed
      · cases programmed
        exact absurd rfl isOpen
      · cases programmed
  | next result =>
      have wasOpen : party.participant.place ≠ .closed := by
        intro closed
        rw [Motion.event, program, proceed, closed] at programmed
        cases programmed
      have before := knows wasOpen reads
      cases (proceed_change orderly programmed).1 with
      | kept _ _ outputId | dropped _ _ _ outputId => exact outputId ▸ before
      | added _ _ _ outputId => exact outputId ▸ Nat.le_succ_of_le known
      | grown _ _ outputId => exact outputId ▸ Nat.le_succ_of_le before
  | _ =>
      simp only [Motion.event, program] at programmed
      split at programmed
      next idle =>
        cases programmed
        exact knows (by simp [idle]) reads
      next => cases programmed

end Party

/-! ## Runs -/

structure MailInv (state : Mail Message) : Prop where
  chain : ChainInv state.system
  epochs : EpochInv state.system
  sound : state.shared.Sound
  keeps : ∀ party ∈ state.places, party.Keeps state.shared
  known : ∀ id ∈ state.shared.unlinked, id ≤ state.shared.controlBlock.outputId
  linked : ∀ party ∈ state.places, ∀ id ∈ state.shared.unlinked, party.Knows id

theorem Mail.step_system {state next : Mail Message} {label : Nat × Motion Message}
    (step : MailStep state label next) :
    Step state.system (label.1, label.2.event) next.system := by
  cases step with
  | @act traffic nextTraffic parties index party last motion found carried =>
      have moved : Threads.Follows program traffic.controlBlock party.participant motion.event
          nextTraffic.controlBlock last.participant := by
        rcases transport_cases (carry_cases carried).2 with ⟨stepped, programmed, rfl, rfl⟩
        exact programmed
      have placed : (parties.map Party.participant)[index]? = some party.participant := by
        rw [List.getElem?_map, found]
        rfl
      have acts := Threads.Step.act placed moved
      rw [← List.map_set] at acts
      exact acts

theorem carry_unlinked {traffic next : Traffic Message} {party last : Party Message}
    {motion : Motion Message} (carried : carry motion traffic party = some (next, last)) :
    next.unlinked = party.unlinks motion ++ traffic.unlinked := by
  rcases transport_cases (carry_cases carried).2 with ⟨stepped, _, rfl, _⟩
  rfl

theorem MailInv.follows {state : Mail Message} {index : Nat} {motion : Motion Message}
    {party : Party Message} (inv : MailInv state) (orderly : Orderly state (index, motion))
    (drained : DropsDrained state (index, motion)) (found : state.places[index]? = some party) :
    party.Follows state.shared motion where
  proper := inv.chain.proper
  small := orderly.small
  behind := (inv.chain.follows _ (List.mem_map_of_mem (List.mem_of_getElem? found))).behind
  tracks := inv.epochs _ (List.mem_map_of_mem (List.mem_of_getElem? found))
  orderly := orderly.orderly party found
  drained := drained party found

theorem MailInv.step {state next : Mail Message} {label : Nat × Motion Message}
    (inv : MailInv state) (orderly : Orderly state label) (drained : DropsDrained state label)
    (step : MailStep state label next) : MailInv next := by
  have projected := Mail.step_system step
  have chain := inv.chain.step orderly.checked projected
  have epochs := inv.epochs.step orderly.apart projected
  cases step with
  | @act traffic nextTraffic parties index party last motion found carried =>
      have member := List.mem_of_getElem? found
      rcases carry_keeps (inv.keeps party member) inv.sound (inv.follows orderly drained found)
        carried with ⟨later, sound, kept⟩
      have unlinked : nextTraffic.unlinked = party.unlinks motion ++ traffic.unlinked :=
        carry_unlinked carried
      have known : ∀ id ∈ nextTraffic.unlinked, id ≤ traffic.controlBlock.outputId := by
        intro id taken
        rw [unlinked] at taken
        rcases List.mem_append.mp taken with new | old
        · exact (inv.chain.follows _ (List.mem_map_of_mem member)).behind.connectors id
            (Party.mem_unlinks new)
        · exact inv.known id old
      have before : ∀ other ∈ parties, ∀ id ∈ nextTraffic.unlinked, other.Knows id := by
        intro other placed id taken
        rw [unlinked] at taken
        rcases List.mem_append.mp taken with new | old
        · exact orderly.spared party found id new other placed
        · exact inv.linked other placed id old
      refine ⟨chain, epochs, sound, ?_, ?_, ?_⟩
      · intro other placed
        rcases List.getElem?_of_mem placed with ⟨position, placed⟩
        rcases Threads.found_after_set placed with ⟨-, same⟩ | ⟨-, older⟩
        · rw [same]
          exact kept
        · have member := List.mem_of_getElem? older
          exact (inv.keeps other member).later
            (inv.chain.follows _ (List.mem_map_of_mem member)).behind later
      · exact fun id taken => Nat.le_trans (known id taken) later.outputId
      · intro other placed id taken
        rcases List.getElem?_of_mem placed with ⟨position, placed⟩
        rcases Threads.found_after_set placed with ⟨-, same⟩ | ⟨-, older⟩
        · rw [same]
          exact carry_knows (known id taken) (before party member id taken)
            (orderly.orderly party found) carried
        · exact before other (List.mem_of_getElem? older) id taken

theorem Mail.system_start (reader count : Nat) :
    (@Mail.start Message reader count).system = System.start count := by
  rw [system, start, System.start, List.map_cons, List.map_map]
  congr
  exact List.map_const'.trans (by rw [List.length_range])

theorem start_mailInv (reader count : Nat) :
    MailInv (@Mail.start Message reader count) where
  chain := by
    rw [Mail.system_start]
    exact start_chainInv count
  epochs := by
    rw [Mail.system_start]
    exact start_epochInv count
  sound := fun _ => Nat.le_refl _
  keeps := by
    intro party member
    rcases List.mem_cons.mp member with creator | other
    · rw [creator]
      refine ⟨fun _ => rfl, ?_, fun _ stored => (by cases stored), fun _ sent => (by cases sent)⟩
      intro _ _
      refine ⟨0, Nat.le_refl _, Nat.le_refl _, rfl, ?_, fun drained => (by cases drained)⟩
      exact fun _ _ less => absurd less (Nat.not_lt_zero _)
    · rcases List.mem_map.mp other with ⟨index, _, same⟩
      rw [← same]
      exact ⟨fun isOpen => absurd rfl isOpen, fun isOpen => absurd rfl isOpen,
        fun _ stored => (by cases stored), fun _ sent => (by cases sent)⟩
  known := fun _ taken => (by cases taken)
  linked := fun _ _ _ taken => (by cases taken)

/-- A reader that has had the connector of the letter, or will open it, has gone past the
letter, or still has the connector to read, or still can open it. -/
def Party.Reaches (traffic : Traffic Message) (letter : Letter Message)
    (party : Party Message) : Prop :=
  party.participant.place ≠ .closed → party.reader.reads = true →
    party.reader.since ≤ letter.connector →
      letter.position < traffic.popped letter.connector ∨
      letter.connector ∈ party.participant.member.connectors ∨
      (∀ id ∈ party.participant.member.connectors, id < letter.connector) ∧
        letter.connector ∉ traffic.unlinked

instance (traffic : Traffic Message) (letter : Letter Message) :
    DecidablePred (Party.Reaches traffic letter) := fun party => by
  unfold Party.Reaches
  infer_instance

/-- Every message whose push has returned true is where it has been put, and no reader
misses it. -/
def Arrives (state : Mail Message) : Prop :=
  ∀ party ∈ state.places, ∀ letter ∈ party.sender.sent,
    state.shared.Holds letter ∧ ∀ other ∈ state.places, other.Reaches state.shared letter

instance [DecidableEq Message] : DecidablePred (@Arrives Message) := fun state => by
  unfold Arrives Traffic.Holds
  infer_instance

theorem MailInv.arrives {state : Mail Message} (inv : MailInv state) : Arrives state := by
  intro party member letter sent
  rcases (inv.keeps party member).sent letter sent with ⟨holds, onTime⟩
  refine ⟨holds, ?_⟩
  intro other placed isOpen reads since
  rcases (inv.keeps other placed).reading isOpen reads with ⟨first, keeps⟩
  rw [keeps.connectors]
  rcases Nat.lt_or_ge letter.connector first with dropped | remains
  · exact .inl (Nat.lt_of_lt_of_le onTime (keeps.past _ since dropped))
  rcases Nat.lt_or_ge other.participant.member.controlBlock.outputId letter.connector with
    later | known
  · refine .inr (.inr ⟨fun id held => Nat.lt_of_le_of_lt (mem_span.mp held).2 later, ?_⟩)
    intro taken
    exact Nat.not_le_of_lt later (inv.linked other placed _ taken isOpen reads)
  · exact .inr (.inl (mem_span.mpr ⟨remains, known⟩))

end Qbus.Bus
