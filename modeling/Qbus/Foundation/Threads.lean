import Mathlib.Algebra.Ring.Nat
import Mathlib.Algebra.Order.BigOperators.Group.List
import Mathlib.Algebra.Order.Group.Nat
import Mathlib.Data.Finset.Card
import Mathlib.Data.Nat.Cast.Basic
import Mathlib.Tactic.ByContra
import Qbus.Foundation.Run

/-! # Interleaved threads

Any number of threads, each in a place of its own program, around one shared
state. A step is one atomic action of one thread; which thread moves next, and
which of its possible actions it takes, is left open. Quantities that the shared
state keeps about the threads are sums of weights over their places. -/

namespace Qbus

structure Threads (Shared Local : Type) where
  shared : Shared
  places : List Local
deriving DecidableEq

namespace Threads

variable {Shared Local Label : Type}

inductive Step (act : Shared → Local → Label → Shared → Local → Prop) :
    Threads Shared Local → Nat × Label → Threads Shared Local → Prop
  | act {shared nextShared places index place nextPlace label} :
      places[index]? = some place → act shared place label nextShared nextPlace →
      Step act ⟨shared, places⟩ (index, label) ⟨nextShared, places.set index nextPlace⟩

theorem found_after_set {places : List Local} {index other : Nat} {place nextPlace : Local}
    (found : (places.set index nextPlace)[other]? = some place) :
    other = index ∧ place = nextPlace ∨ other ≠ index ∧ places[other]? = some place := by
  by_cases same : other = index
  · subst same
    have inside := (List.getElem?_eq_some_iff.mp found).1
    rw [List.length_set] at inside
    rw [List.getElem?_set_self inside] at found
    exact .inl ⟨rfl, (Option.some.inj found).symm⟩
  · rw [List.getElem?_set_ne (Ne.symm same)] at found
    exact .inr ⟨same, found⟩

def total (weight : Local → Nat) (places : List Local) : Nat :=
  (places.map weight).sum

variable {weight other : Local → Nat} {places : List Local} {index : Nat}
  {place nextPlace : Local}

@[simp] theorem total_nil : total weight [] = 0 := rfl

@[simp] theorem total_cons :
    total weight (place :: places) = weight place + total weight places := by
  simp [total]

@[simp] theorem total_append {later : List Local} :
    total weight (places ++ later) = total weight places + total weight later := by
  simp [total]

theorem total_replicate (count : Nat) :
    total weight (List.replicate count place) = count * weight place := by
  rw [total, List.map_replicate, List.sum_replicate, nsmul_eq_mul, Nat.cast_id]

theorem total_set (weight : Local → Nat) (nextPlace : Local) (found : places[index]? = some place) :
    total weight (places.set index nextPlace) + weight place =
      total weight places + weight nextPlace := by
  induction places generalizing index with
  | nil => simp at found
  | cons head tail induction =>
      cases index with
      | zero =>
          simp only [List.getElem?_cons_zero, Option.some.injEq] at found
          subst found
          simp only [List.set_cons_zero, total_cons]
          omega
      | succ index =>
          rw [List.getElem?_cons_succ] at found
          have moved := induction found
          simp only [List.set_cons_succ, total_cons]
          omega

theorem le_total (weight : Local → Nat) (found : places[index]? = some place) :
    weight place ≤ total weight places := by
  apply List.le_sum_of_mem
  exact List.mem_map_of_mem (List.mem_of_getElem? found)

theorem total_eq_zero : total weight places = 0 ↔ ∀ place ∈ places, weight place = 0 := by
  simp [total, List.sum_eq_zero_iff]

theorem exists_of_total_pos (positive : 0 < total weight places) :
    ∃ (index : Nat) (place : Local), places[index]? = some place ∧ 0 < weight place := by
  by_contra none
  have zero : total weight places = 0 := by
    rw [total_eq_zero]
    intro place member
    rcases List.getElem?_of_mem member with ⟨index, found⟩
    by_contra nonzero
    exact none ⟨index, place, found, Nat.pos_of_ne_zero nonzero⟩
  omega

theorem total_add : total (fun place => weight place + other place) places =
    total weight places + total other places := by
  induction places with
  | nil => rfl
  | cons head tail induction =>
      simp only [total_cons, induction]
      omega

theorem total_mono (places : List Local) (smaller : ∀ place, weight place ≤ other place) :
    total weight places ≤ total other places := by
  induction places with
  | nil => simp
  | cons head tail induction =>
      have first := smaller head
      simp only [total_cons]
      omega

theorem add_le_total (weight : Local → Nat) {second : Nat} {secondPlace : Local}
    (found : places[index]? = some place) (foundSecond : places[second]? = some secondPlace) (different : index ≠ second) :
    weight place + weight secondPlace ≤ total weight places := by
  induction places generalizing index second with
  | nil => simp at found
  | cons head tail induction =>
      cases index with
      | zero =>
          cases second with
          | zero => exact absurd rfl different
          | succ second =>
              simp only [List.getElem?_cons_zero, Option.some.injEq] at found
              subst found
              rw [List.getElem?_cons_succ] at foundSecond
              have rest := le_total weight foundSecond
              rw [total_cons]
              omega
      | succ index =>
          rw [List.getElem?_cons_succ] at found
          cases second with
          | zero =>
              simp only [List.getElem?_cons_zero, Option.some.injEq] at foundSecond
              subst foundSecond
              have rest := le_total weight found
              rw [total_cons]
              omega
          | succ second =>
              rw [List.getElem?_cons_succ] at foundSecond
              have rest := induction found foundSecond (by omega)
              rw [total_cons]
              omega

theorem eq_of_total_le_one (weight : Local → Nat) {second : Nat} {secondPlace : Local}
    (atMostOne : total weight places ≤ 1) (found : places[index]? = some place)
    (foundSecond : places[second]? = some secondPlace) (carries : 0 < weight place)
    (carriesSecond : 0 < weight secondPlace) : index = second := by
  by_contra different
  have both := add_le_total weight found foundSecond different
  omega

theorem card_le_total (indices : Finset Nat)
    (carries : ∀ index ∈ indices, ∃ place, places[index]? = some place ∧ 0 < weight place) :
    indices.card ≤ total weight places := by
  induction places using List.reverseRecOn generalizing indices with
  | nil =>
      have none : indices = ∅ := by
        apply Finset.eq_empty_of_forall_notMem
        intro index member
        rcases carries index member with ⟨place, found, -⟩
        cases found
      rw [none, Finset.card_empty]
      exact Nat.zero_le _
  | append_singleton places last induction =>
      have earlier : (indices.erase places.length).card ≤ total weight places := by
        apply induction
        intro index member
        rcases Finset.mem_erase.mp member with ⟨different, isIndex⟩
        rcases carries index isIndex with ⟨place, found, positive⟩
        have inside := (List.getElem?_eq_some_iff.mp found).1
        rw [List.length_append, List.length_singleton] at inside
        rw [List.getElem?_append_left (by omega)] at found
        exact ⟨place, found, positive⟩
      rw [total_append, total_cons, total_nil, Nat.add_zero]
      by_cases member : places.length ∈ indices
      · rcases carries _ member with ⟨place, found, positive⟩
        rw [List.getElem?_concat_length] at found
        cases found
        have card := Finset.card_erase_add_one member
        omega
      · rw [Finset.erase_eq_of_notMem member] at earlier
        omega

/-! ## Computed runs -/

section Execution

def Follows (program : Label → Shared → Local → Option (Shared × Local))
    (shared : Shared) (place : Local) (label : Label) (nextShared : Shared)
    (nextPlace : Local) : Prop :=
  program label shared place = some (nextShared, nextPlace)

variable {program : Label → Shared → Local → Option (Shared × Local)}
  {Keeps : Threads Shared Local → Nat × Label → Prop} [∀ state, DecidablePred (Keeps state)]

def move (program : Label → Shared → Local → Option (Shared × Local))
    (state : Threads Shared Local) (label : Nat × Label) : Option (Threads Shared Local) :=
  match state.places[label.1]? with
  | none => none
  | some place =>
      match program label.2 state.shared place with
      | none => none
      | some (nextShared, nextPlace) => some ⟨nextShared, state.places.set label.1 nextPlace⟩

theorem step_of_move {state next : Threads Shared Local} {label : Nat × Label}
    (moved : move program state label = some next) :
    Step (Follows program) state label next := by
  rcases state with ⟨shared, places⟩
  rcases label with ⟨index, event⟩
  unfold move at moved
  split at moved
  · cases moved
  next place found =>
    split at moved
    · cases moved
    next nextShared nextPlace programmed =>
      cases moved
      exact .act found programmed

def follow (program : Label → Shared → Local → Option (Shared × Local))
    (Keeps : Threads Shared Local → Nat × Label → Prop) [∀ state, DecidablePred (Keeps state)] :
    Threads Shared Local → List (Nat × Label) → Option (Threads Shared Local)
  | state, [] => some state
  | state, label :: rest =>
      if Keeps state label then
        match move program state label with
        | some next => follow program Keeps next rest
        | none => none
      else none

theorem run_of_follow {state final : Threads Shared Local} {labels : List (Nat × Label)}
    (followed : follow program Keeps state labels = some final) :
    Run (fun state label next => Step (Follows program) state label next ∧ Keeps state label)
      state labels final := by
  induction labels generalizing state with
  | nil =>
      cases followed
      exact .nil
  | cons label rest induction =>
      rw [follow] at followed
      split at followed
      case isFalse => cases followed
      case isTrue kept =>
        split at followed
        case h_2 => cases followed
        case h_1 next moved => exact .cons ⟨step_of_move moved, kept⟩ (induction followed)

end Execution

end Threads

end Qbus
