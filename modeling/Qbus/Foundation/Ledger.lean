import Mathlib.Algebra.Ring.Nat
import Mathlib.Data.Finset.Card

/-! # Reference-counted logs

A log that is read by a changing set of members. Every member has a cursor, the
index of the next message it reads. A message is referenced by the members whose
cursor has not passed it, and by references that members left behind when they
went away. Messages without references are collected from the front. -/

namespace Qbus

structure Ledger (Member Message : Type) where
  log : List Message
  /-- The number of messages that have been collected. -/
  collected : Nat
  members : Finset Member
  cursor : Member → Nat
  /-- The references that members left behind. -/
  leaked : Nat → Nat

namespace Ledger

variable {Member Message : Type}
variable {ledger : Ledger Member Message} {member : Member} {index count : Nat}

def waiting (ledger : Ledger Member Message) (index : Nat) : Finset Member :=
  {member ∈ ledger.members | ledger.cursor member ≤ index}

/-- The number of references to a message. -/
def refs (ledger : Ledger Member Message) (index : Nat) : Nat :=
  (ledger.waiting index).card + ledger.leaked index

structure Valid (ledger : Ledger Member Message) : Prop where
  collectedLe : ledger.collected ≤ ledger.log.length
  cursorGe : ∀ member ∈ ledger.members, ledger.collected ≤ ledger.cursor member
  cursorLe : ∀ member ∈ ledger.members, ledger.cursor member ≤ ledger.log.length
  leakedEq : ∀ index, ledger.log.length ≤ index → ledger.leaked index = 0

/-! ## Operations -/

def empty (members : Finset Member) : Ledger Member Message where
  log := []
  collected := 0
  members := members
  cursor := fun _ => 0
  leaked := fun _ => 0

def publish (ledger : Ledger Member Message) (message : Message) :
    Ledger Member Message :=
  { ledger with log := ledger.log ++ [message] }

def collect (ledger : Ledger Member Message) (count : Nat) : Ledger Member Message :=
  { ledger with collected := ledger.collected + count }

/-! ## References -/

theorem mem_waiting : member ∈ ledger.waiting index ↔
    member ∈ ledger.members ∧ ledger.cursor member ≤ index := by
  simp [waiting]

theorem refs_pos (isMember : member ∈ ledger.members)
    (unread : ledger.cursor member ≤ index) : 0 < ledger.refs index := by
  have nonempty : 0 < (ledger.waiting index).card :=
    Finset.card_pos.mpr ⟨member, mem_waiting.mpr ⟨isMember, unread⟩⟩
  rw [refs]
  omega

@[simp] theorem refs_collect (ledger : Ledger Member Message) (count index : Nat) :
    (ledger.collect count).refs index = ledger.refs index := rfl

theorem refs_length (valid : ledger.Valid) :
    ledger.refs ledger.log.length = ledger.members.card := by
  have everyone : ledger.waiting ledger.log.length = ledger.members :=
    Finset.filter_true_of_mem valid.cursorLe
  rw [refs, everyone, valid.leakedEq _ (Nat.le_refl _), Nat.add_zero]

theorem valid_empty (members : Finset Member) :
    (empty members : Ledger Member Message).Valid where
  collectedLe := Nat.le_refl _
  cursorGe := fun _ _ => Nat.le_refl _
  cursorLe := fun _ _ => Nat.le_refl _
  leakedEq := fun _ _ => rfl

theorem Valid.publish (valid : ledger.Valid) (message : Message) :
    (ledger.publish message).Valid where
  collectedLe := by
    have inside := valid.collectedLe
    simp only [Ledger.publish, List.length_append]
    omega
  cursorGe := valid.cursorGe
  cursorLe := by
    intro member isMember
    have inside := valid.cursorLe member isMember
    simp only [Ledger.publish, List.length_append]
    omega
  leakedEq := by
    intro index beyond
    simp only [Ledger.publish, List.length_append] at beyond
    exact valid.leakedEq index (by omega)

theorem Valid.collect (valid : ledger.Valid)
    (inside : ledger.collected + count ≤ ledger.log.length)
    (unreferenced : ∀ index, ledger.collected ≤ index →
      index < ledger.collected + count → ledger.refs index = 0) :
    (ledger.collect count).Valid where
  collectedLe := inside
  cursorGe := by
    intro member isMember
    have before := valid.cursorGe member isMember
    refine Nat.le_of_not_lt fun unread => ?_
    simp only [Ledger.collect] at unread
    have positive := refs_pos isMember (Nat.le_refl (ledger.cursor member))
    rw [refs_collect, unreferenced _ before unread] at positive
    exact Nat.lt_irrefl 0 positive
  cursorLe := valid.cursorLe
  leakedEq := valid.leakedEq

/-! ## Garbage -/

/-- Exactly `count` messages at the front are collected: they have no references,
and the message behind them has. -/
structure Garbage (ledger : Ledger Member Message) (count : Nat) : Prop where
  unreferenced : ∀ index, ledger.collected ≤ index → index < ledger.collected + count →
    ledger.refs index = 0
  stops : ledger.collected + count = ledger.log.length ∨
    0 < ledger.refs (ledger.collected + count)

/-- The messages without references at the front of `before` are collected in
`after`. -/
def Sweeps (before after : Ledger Member Message) : Prop :=
  ∀ bound, bound ≤ before.log.length → (∀ index, before.collected ≤ index →
    index < bound → before.refs index = 0) → bound ≤ after.collected

theorem Garbage.sweeps (garbage : ledger.Garbage count) :
    ledger.Sweeps (ledger.collect count) := by
  intro bound inside unreferenced
  refine Nat.le_of_not_lt fun short => ?_
  rcases garbage.stops with all | referenced
  · simp only [collect] at short
    omega
  · rw [unreferenced _ (Nat.le_add_right _ _) short] at referenced
    exact Nat.lt_irrefl 0 referenced

/-! ## Evolution -/

/-- How a ledger changes while `member` acts: messages are added behind the log,
the cursor of the member moves forward, and messages without references are
collected. -/
structure Evolves (before after : Ledger Member Message) (member : Member)
    (more : List Message) : Prop where
  log : after.log = before.log ++ more
  members : after.members = before.members
  others : ∀ other, other ≠ member → after.cursor other = before.cursor other
  cursor : before.cursor member ≤ after.cursor member
  collected : before.collected ≤ after.collected
  leaked : after.leaked = before.leaked
  unreferenced : ∀ index, before.collected ≤ index → index < after.collected →
    after.refs index = 0

namespace Evolves

variable {before middle after : Ledger Member Message} {more later : List Message}

theorem refl (ledger : Ledger Member Message) (member : Member) :
    Evolves ledger ledger member [] :=
  ⟨(List.append_nil _).symm, rfl, fun _ _ => rfl, Nat.le_refl _, Nat.le_refl _, rfl,
    fun _ lower upper => absurd upper (Nat.not_lt_of_le lower)⟩

theorem refs_le (evolves : Evolves before after member more) (index : Nat) :
    after.refs index ≤ before.refs index := by
  have fewer : after.waiting index ⊆ before.waiting index := by
    intro other waits
    rw [mem_waiting, evolves.members] at waits
    refine mem_waiting.mpr ⟨waits.1, Nat.le_trans ?_ waits.2⟩
    by_cases same : other = member
    · rw [same]
      exact evolves.cursor
    · rw [evolves.others other same]
  rw [refs, refs, evolves.leaked]
  exact Nat.add_le_add_right (Finset.card_le_card fewer) _

theorem refs_eq (evolves : Evolves before after member more)
    (passed : index < before.cursor member) : after.refs index = before.refs index := by
  have same : after.waiting index = before.waiting index := by
    ext other
    rw [mem_waiting, mem_waiting, evolves.members]
    by_cases same : other = member
    · rw [same]
      have moved := evolves.cursor
      exact and_congr_right fun _ => by omega
    · rw [evolves.others other same]
  rw [refs, refs, same, evolves.leaked]

theorem trans (first : Evolves before middle member more)
    (second : Evolves middle after member later) :
    Evolves before after member (more ++ later) where
  log := by rw [second.log, first.log, List.append_assoc]
  members := second.members.trans first.members
  others := fun other different =>
    (second.others other different).trans (first.others other different)
  cursor := Nat.le_trans first.cursor second.cursor
  collected := Nat.le_trans first.collected second.collected
  leaked := second.leaked.trans first.leaked
  unreferenced := by
    intro index lower upper
    rcases Nat.lt_or_ge index middle.collected with early | late
    · have before := second.refs_le index
      rw [first.unreferenced index lower early] at before
      exact Nat.eq_zero_of_le_zero before
    · exact second.unreferenced index late upper

theorem collect (garbage : ledger.Garbage count) (member : Member) :
    Evolves ledger (ledger.collect count) member [] :=
  ⟨(List.append_nil _).symm, rfl, fun _ _ => rfl, Nat.le_refl _, Nat.le_add_right _ _, rfl,
    garbage.unreferenced⟩

theorem publish (ledger : Ledger Member Message) (member : Member) (message : Message) :
    Evolves ledger (ledger.publish message) member [message] :=
  ⟨rfl, rfl, fun _ _ => rfl, Nat.le_refl _, Nat.le_refl _, rfl,
    fun _ lower upper => absurd upper (Nat.not_lt_of_le lower)⟩

end Evolves

/-! ## Changing members -/

variable [DecidableEq Member]

/-- Move the cursor of a member past one message. -/
def advance (ledger : Ledger Member Message) (member : Member) :
    Ledger Member Message :=
  { ledger with
    cursor := Function.update ledger.cursor member (ledger.cursor member + 1) }

def seek (ledger : Ledger Member Message) (member : Member) (index : Nat) :
    Ledger Member Message :=
  { ledger with cursor := Function.update ledger.cursor member index }

@[simp] theorem seek_cursor_self (ledger : Ledger Member Message) (member : Member)
    (index : Nat) : (ledger.seek member index).cursor member = index := by
  simp [seek]

theorem seek_cursor (ledger : Ledger Member Message) (member : Member) :
    ledger.seek member (ledger.cursor member) = ledger := by
  rw [seek, Function.update_eq_self]

theorem advance_seek (ledger : Ledger Member Message) (member : Member) (index : Nat) :
    (ledger.advance member).seek member index = ledger.seek member index := by
  simp only [seek, advance, Function.update_idem]

theorem seek_advance (ledger : Ledger Member Message) (member : Member) (index : Nat) :
    (ledger.seek member index).advance member = ledger.seek member (index + 1) := by
  simp only [seek, advance, Function.update_self, Function.update_idem]

def join (ledger : Ledger Member Message) (member : Member) : Ledger Member Message :=
  { ledger with
    members := insert member ledger.members
    cursor := Function.update ledger.cursor member ledger.log.length }

/-- A leaving member leaves the references to the messages it has not read. -/
def leave (ledger : Ledger Member Message) (member : Member) : Ledger Member Message :=
  { ledger with
    members := ledger.members.erase member
    leaked := fun index => ledger.leaked index +
      if ledger.cursor member ≤ index ∧ index < ledger.log.length then 1 else 0 }

theorem Evolves.advance (ledger : Ledger Member Message) (member : Member) :
    Evolves ledger (ledger.advance member) member [] where
  log := (List.append_nil _).symm
  members := rfl
  others := fun _ different => Function.update_of_ne different _ _
  cursor := by
    simp only [Ledger.advance, Function.update_self]
    exact Nat.le_succ _
  collected := Nat.le_refl _
  leaked := rfl
  unreferenced := fun _ lower upper => absurd upper (Nat.not_lt_of_le lower)

theorem Evolves.seek (forward : ledger.cursor member ≤ index) :
    Evolves ledger (ledger.seek member index) member [] where
  log := (List.append_nil _).symm
  members := rfl
  others := fun _ different => Function.update_of_ne different _ _
  cursor := by
    rw [seek_cursor_self]
    exact forward
  collected := Nat.le_refl _
  leaked := rfl
  unreferenced := fun _ lower upper => absurd upper (Nat.not_lt_of_le lower)

theorem refs_advance_self (isMember : member ∈ ledger.members) :
    (ledger.advance member).refs (ledger.cursor member) + 1 =
      ledger.refs (ledger.cursor member) := by
  have removed : (ledger.advance member).waiting (ledger.cursor member) =
      (ledger.waiting (ledger.cursor member)).erase member := by
    ext other
    rw [Finset.mem_erase, mem_waiting, mem_waiting]
    rcases eq_or_ne other member with same | different
    · rw [same]
      simp [advance]
    · simp [advance, different]
  have inside : member ∈ ledger.waiting (ledger.cursor member) :=
    mem_waiting.mpr ⟨isMember, Nat.le_refl _⟩
  have positive := Finset.card_pos.mpr ⟨member, inside⟩
  rw [refs, refs, removed, Finset.card_erase_of_mem inside]
  change _ - 1 + ledger.leaked _ + 1 = _
  omega

theorem refs_advance_of_ne (different : index ≠ ledger.cursor member) :
    (ledger.advance member).refs index = ledger.refs index := by
  have same : (ledger.advance member).waiting index = ledger.waiting index := by
    ext other
    rw [mem_waiting, mem_waiting]
    rcases eq_or_ne other member with isMember | other
    · rw [isMember]
      simp only [advance, Function.update_self]
      exact and_congr_right fun _ => by omega
    · simp [advance, other]
  rw [refs, refs, same]
  rfl

theorem refs_join (newcomer : member ∉ ledger.members)
    (older : index < ledger.log.length) :
    (ledger.join member).refs index = ledger.refs index := by
  have same : (ledger.join member).waiting index = ledger.waiting index := by
    ext other
    rw [mem_waiting, mem_waiting]
    rcases eq_or_ne other member with isMember | different
    · rw [isMember]
      simp only [join, Function.update_self, newcomer, false_and, iff_false, not_and]
      omega
    · simp [join, different]
  rw [refs, refs, same]
  rfl

theorem refs_leave (isMember : member ∈ ledger.members)
    (older : index < ledger.log.length) :
    (ledger.leave member).refs index = ledger.refs index := by
  have others : (ledger.leave member).waiting index =
      (ledger.waiting index).erase member := by
    ext other
    rw [Finset.mem_erase, mem_waiting, mem_waiting]
    simp [leave, and_assoc]
  rw [refs, refs, others]
  simp only [leave]
  by_cases unread : ledger.cursor member ≤ index
  · have inside : member ∈ ledger.waiting index := mem_waiting.mpr ⟨isMember, unread⟩
    have positive := Finset.card_pos.mpr ⟨member, inside⟩
    rw [Finset.card_erase_of_mem inside, if_pos ⟨unread, older⟩]
    omega
  · have outside : member ∉ ledger.waiting index := fun inside =>
      unread (mem_waiting.mp inside).2
    rw [Finset.erase_eq_of_notMem outside, if_neg (fun both => unread both.1)]
    omega

theorem Valid.advance (valid : ledger.Valid)
    (unread : ledger.cursor member < ledger.log.length) :
    (ledger.advance member).Valid where
  collectedLe := valid.collectedLe
  cursorGe := by
    intro other isMember
    have before := valid.cursorGe other isMember
    rcases eq_or_ne other member with same | different
    · rw [same] at before ⊢
      simp only [Ledger.advance, Function.update_self]
      omega
    · simpa [Ledger.advance, different] using before
  cursorLe := by
    intro other isMember
    have before := valid.cursorLe other isMember
    rcases eq_or_ne other member with same | different
    · rw [same]
      simp only [Ledger.advance, Function.update_self]
      omega
    · simpa [Ledger.advance, different] using before
  leakedEq := valid.leakedEq

theorem Valid.join (valid : ledger.Valid) (member : Member) :
    (ledger.join member).Valid where
  collectedLe := valid.collectedLe
  cursorGe := by
    intro other isMember
    rcases eq_or_ne other member with same | different
    · rw [same]
      simpa [Ledger.join] using valid.collectedLe
    · have before := valid.cursorGe other (Finset.mem_of_mem_insert_of_ne isMember different)
      simpa [Ledger.join, different] using before
  cursorLe := by
    intro other isMember
    rcases eq_or_ne other member with same | different
    · rw [same]
      simp [Ledger.join]
    · have before := valid.cursorLe other (Finset.mem_of_mem_insert_of_ne isMember different)
      simpa [Ledger.join, different] using before
  leakedEq := valid.leakedEq

theorem Valid.leave (valid : ledger.Valid) (member : Member) :
    (ledger.leave member).Valid where
  collectedLe := valid.collectedLe
  cursorGe := fun other isMember =>
    valid.cursorGe other (Finset.mem_of_mem_erase isMember)
  cursorLe := fun other isMember =>
    valid.cursorLe other (Finset.mem_of_mem_erase isMember)
  leakedEq := by
    intro index beyond
    have before := valid.leakedEq index beyond
    simp only [Ledger.leave] at beyond ⊢
    rw [if_neg (by omega), before]

end Ledger

end Qbus
