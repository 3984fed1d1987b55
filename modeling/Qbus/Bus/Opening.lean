import Qbus.Bus.ControlBlock

/-! # Creating and opening a bus

What `base_safe_bus::do_create` and `do_open` do with the segment of the bus, access by
access. The locks are released at the end of the scopes that took them, wherever the
segment has been unmapped. -/

namespace Qbus.Bus

/-- The parts of the segment of a bus: the spinlock and the mutex, as far as they are
locked, the attach counter and the control block. -/
structure BusSegment where
  spinlock : Bool
  counter : Nat
  mutex : Bool
  controlBlock : ControlBlock
deriving DecidableEq, Repr

inductive Access
  | lockSpinlock
  | unlockSpinlock
  | readCounter
  | incCounter
  | buildMutex
  | lockMutex
  | unlockMutex
  | readSpec
  | writeSpec
  | readControlBlock
  | writeControlBlock
deriving DecidableEq, Repr

def Access.perform (segment : BusSegment) : Access → BusSegment
  | .lockSpinlock => { segment with spinlock := true }
  | .unlockSpinlock => { segment with spinlock := false }
  | .incCounter => { segment with counter := (segment.counter + 1) % 2 ^ 32 }
  | .buildMutex => { segment with mutex := false }
  | .lockMutex => { segment with mutex := true }
  | .unlockMutex => { segment with mutex := false }
  | .writeControlBlock => { segment with controlBlock := {} }
  | .readCounter | .readSpec | .writeSpec | .readControlBlock => segment

/-- A bus object that is attached to a segment. The trace lists its accesses, and whether
the segment was mapped at the time. -/
structure Attachment where
  segment : BusSegment
  mapped : Bool
  /-- The identifiers of the connectors in `m_pconnectors`. -/
  connectors : List Nat
  trace : List (Access × Bool)
deriving DecidableEq, Repr

namespace Attachment

/-- What is not mapped cannot be changed. -/
def access (attachment : Attachment) (access : Access) : Attachment :=
  { attachment with
    segment := if attachment.mapped then access.perform attachment.segment
      else attachment.segment
    trace := attachment.trace ++ [(access, attachment.mapped)] }

def attached (segment : BusSegment) : Attachment where
  segment := segment
  mapped := true
  connectors := []
  trace := []

def freeMemory (attachment : Attachment) : Attachment := { attachment with mapped := false }

end Attachment

inductive Making
  | opened
  | created
  | failed
deriving DecidableEq, Repr

/-- `make_connector` reads the specification when the connector cannot be opened. -/
def makeConnector (attachment : Attachment) : Making → Bool × Attachment
  | .opened => (true, attachment)
  | .created => (true, attachment.access .readSpec)
  | .failed => (false, attachment.access .readSpec)

/-- The loop of `base_bus::do_open`; `make` tells how each connector is made. -/
def openConnectors (make : Nat → Making) :
    (fuel : Nat) → (id : Nat) → Attachment → Option (Bool × Attachment)
  | 0, _, _ => none
  | fuel + 1, id, attachment =>
      match makeConnector attachment (make (id % 2 ^ 32)) with
      | (false, attachment) => some (false, { attachment with connectors := [] })
      | (true, attachment) =>
          let attachment := { attachment with connectors := id :: attachment.connectors }
          let attachment := attachment.access .readControlBlock
          if SameWord id attachment.segment.controlBlock.outputId then
            some (true, attachment)
          else
            openConnectors make fuel (id + 1) attachment

def attachBody (make : Nat → Making) (attachment : Attachment) :
    Option (Bool × Attachment) :=
  let attachment := attachment.access .readControlBlock
  -- the identifiers have 32 bits, so that the loop comes to `output_id`
  match openConnectors make (2 ^ 32) attachment.segment.controlBlock.inputId attachment with
  | some (true, attachment) => some (true, attachment.access .readControlBlock)
  | some (false, attachment) => some (false, attachment.freeMemory)
  | none => none

def release (lock : Access) : Bool × Attachment → Bool × Attachment
  | (result, attachment) => (result, attachment.access lock)

/-- `base_safe_bus::do_open`, behind a successful `open_memory`. -/
def doOpen (make : Nat → Making) (segment : BusSegment) : Option (Bool × Attachment) :=
  let attachment := Attachment.attached segment
  let attachment := attachment.access .lockSpinlock
  let attachment := attachment.access .readCounter
  if attachment.segment.counter > 0 then
    let attachment := attachment.access .lockMutex
    match attachBody make attachment with
    | some (true, attachment) =>
        let attachment := attachment.access .incCounter
        some (release .unlockSpinlock (release .unlockMutex (true, attachment)))
    | some (false, attachment) =>
        some (release .unlockSpinlock (release .unlockMutex (false, attachment)))
    | none => none
  else
    some (release .unlockSpinlock (false, attachment))

/-- A segment that has just been created: all bytes are zero, which is a locked spinlock. -/
def BusSegment.zeros : BusSegment where
  spinlock := true
  counter := 0
  mutex := false
  controlBlock := {}

def createBody (make : Nat → Making) (attachment : Attachment) : Bool × Attachment :=
  let attachment := attachment.access .writeSpec
  let attachment := attachment.access .writeControlBlock
  let attachment := attachment.access .readControlBlock
  match makeConnector attachment (make 0) with
  | (true, attachment) => (true, { attachment with connectors := 0 :: attachment.connectors })
  | (false, attachment) => (false, attachment.freeMemory)

/-- `base_safe_bus::do_create`, behind a successful `create_memory`. -/
def doCreate (make : Nat → Making) : Bool × Attachment :=
  let attachment := Attachment.attached .zeros
  let attachment := attachment.access .buildMutex
  let attachment := attachment.access .lockMutex
  match createBody make attachment with
  | (true, attachment) =>
      let attachment := attachment.access .incCounter
      let attachment := attachment.access .unlockSpinlock
      release .unlockMutex (true, attachment)
  | (false, attachment) => release .unlockMutex (false, attachment)

/-- A failed call has cleaned up in order: it has released the locks while the segment was
mapped, has not accessed it afterwards, and leaves the attach counter and open locks. -/
structure CleansUp (before : BusSegment) (after : Attachment) : Prop where
  released : (.unlockMutex, true) ∈ after.trace ∧ (.unlockSpinlock, true) ∈ after.trace
  mapped : ∀ access ∈ after.trace, access.2 = true
  counter : after.segment.counter = before.counter
  unlocked : after.segment.mutex = false ∧ after.segment.spinlock = false

/-! ## The loop over the connectors -/

structure OnlyReads (before after : Attachment) : Prop where
  mapped : after.mapped = before.mapped
  segment : after.segment = before.segment
  trace : ∃ more, after.trace = before.trace ++ more ∧
    ∀ access ∈ more, access = (.readSpec, before.mapped) ∨
      access = (.readControlBlock, before.mapped)

namespace OnlyReads

theorem refl (attachment : Attachment) : OnlyReads attachment attachment :=
  ⟨rfl, rfl, [], (List.append_nil _).symm, by simp⟩

theorem trans {before middle after : Attachment} (first : OnlyReads before middle)
    (second : OnlyReads middle after) : OnlyReads before after := by
  rcases first.trace with ⟨more, firstTrace, firstReads⟩
  rcases second.trace with ⟨later, secondTrace, secondReads⟩
  refine ⟨second.mapped.trans first.mapped, second.segment.trans first.segment,
    more ++ later, ?_, ?_⟩
  · rw [secondTrace, firstTrace, List.append_assoc]
  · rw [first.mapped] at secondReads
    intro access member
    rcases List.mem_append.mp member with early | late
    · exact firstReads access early
    · exact secondReads access late

theorem readSpec (attachment : Attachment) : OnlyReads attachment (attachment.access .readSpec) :=
  ⟨rfl, ite_self _, [_], rfl, by simp⟩

theorem readControlBlock (attachment : Attachment) :
    OnlyReads attachment (attachment.access .readControlBlock) :=
  ⟨rfl, ite_self _, [_], rfl, by simp⟩

theorem connectors {before after : Attachment} (reads : OnlyReads before after)
    (connectors : List Nat) : OnlyReads before { after with connectors := connectors } :=
  ⟨reads.mapped, reads.segment, reads.trace⟩

end OnlyReads

theorem makeConnector_spec (attachment : Attachment) (making : Making) :
    ((makeConnector attachment making).1 = true ↔ making ≠ .failed) ∧
      OnlyReads attachment (makeConnector attachment making).2 := by
  cases making with
  | opened => exact ⟨by simp [makeConnector], .refl attachment⟩
  | created => exact ⟨by simp [makeConnector], .readSpec attachment⟩
  | failed => exact ⟨by simp [makeConnector], .readSpec attachment⟩

/-- The loop opens connectors up to the one with the identifier `output_id`, or up to one
that fails. -/
theorem openConnectors_spec (make : Nat → Making) {output : Nat} (remaining : Nat) {id fuel : Nat}
    {attachment : Attachment} (enough : remaining < fuel)
    (ends : attachment.segment.controlBlock.outputId = output)
    (last : SameWord (id + remaining) output)
    (before : ∀ step < remaining, ¬SameWord (id + step) output) :
    ∃ result after, openConnectors make fuel id attachment = some (result, after) ∧
      OnlyReads attachment after ∧
      (result = true ↔ ∀ step ≤ remaining, make ((id + step) % 2 ^ 32) ≠ .failed) := by
  induction remaining generalizing id fuel attachment with
  | zero =>
      rcases Nat.exists_eq_succ_of_ne_zero (Nat.ne_of_gt enough) with ⟨fuel, rfl⟩
      rcases makeConnector_spec attachment (make (id % 2 ^ 32)) with ⟨made, reads⟩
      rw [openConnectors]
      cases connected : makeConnector attachment (make (id % 2 ^ 32)) with
      | mk result next =>
          rw [connected] at made reads
          cases result with
          | false =>
              refine ⟨false, _, rfl, reads.connectors [], ?_⟩
              simp only [Nat.le_zero, forall_eq, Nat.add_zero]
              exact made
          | true =>
              have later := reads.connectors (id :: next.connectors)
              have read := later.trans (.readControlBlock _)
              simp only
              rw [read.segment, ends, if_pos (Nat.add_zero id ▸ last)]
              refine ⟨true, _, rfl, read, ?_⟩
              simp only [Nat.le_zero, forall_eq, Nat.add_zero]
              exact iff_of_true trivial (made.mp rfl)
  | succ remaining induction =>
      rcases Nat.exists_eq_succ_of_ne_zero (Nat.ne_of_gt (Nat.zero_lt_of_lt enough)) with
        ⟨fuel, rfl⟩
      rcases makeConnector_spec attachment (make (id % 2 ^ 32)) with ⟨made, reads⟩
      rw [openConnectors]
      cases connected : makeConnector attachment (make (id % 2 ^ 32)) with
      | mk result next =>
          rw [connected] at made reads
          cases result with
          | false =>
              refine ⟨false, _, rfl, reads.connectors [], ?_⟩
              refine iff_of_false (by simp) fun all => ?_
              exact absurd (made.mpr (all 0 (Nat.zero_le _))) (by simp)
          | true =>
              have later := reads.connectors (id :: next.connectors)
              have read := later.trans (.readControlBlock _)
              simp only
              rw [read.segment, ends, if_neg (Nat.add_zero id ▸ before 0 (Nat.succ_pos _))]
              have shift : ∀ step, id + 1 + step = id + (step + 1) := fun step => by omega
              rcases @induction (id + 1) fuel _ (by omega) (by rw [read.segment]; exact ends)
                (by rw [shift]; exact last)
                (fun step below => by rw [shift]; exact before (step + 1) (by omega)) with
                ⟨result, after, looped, further, all⟩
              refine ⟨result, after, looped, read.trans further, all.trans ?_⟩
              constructor
              · intro rest step inside
                cases step with
                | zero => exact made.mp rfl
                | succ step =>
                    rw [← shift]
                    exact rest step (by omega)
              · intro whole step inside
                rw [shift]
                exact whole (step + 1) (by omega)

theorem mem_chain {controlBlock : ControlBlock} {id : Nat} :
    id ∈ controlBlock.chain ↔ ∃ step,
      step ≤ (controlBlock.outputId + 2 ^ 32 - controlBlock.inputId % 2 ^ 32) % 2 ^ 32 ∧
        id = controlBlock.inputId + step := by
  rw [ControlBlock.chain, List.mem_range']
  constructor
  · rintro ⟨step, below, rfl⟩
    exact ⟨step, by omega, by omega⟩
  · rintro ⟨step, inside, rfl⟩
    exact ⟨step, by omega, by omega⟩

/-- `attach_body` fails when some connector of the chain does, and then unmaps the segment. -/
theorem attachBody_spec (make : Nat → Making) (attachment : Attachment) :
    ∃ result after middle, attachBody make attachment = some (result, after) ∧
      OnlyReads attachment middle ∧ after = (if result then middle else middle.freeMemory) ∧
      (result = true ↔ ∀ id ∈ attachment.segment.controlBlock.chain,
        make (id % 2 ^ 32) ≠ .failed) := by
  have read := OnlyReads.readControlBlock attachment
  have same := congrArg BusSegment.controlBlock read.segment
  rcases @openConnectors_spec make attachment.segment.controlBlock.outputId
    ((attachment.segment.controlBlock.outputId + 2 ^ 32 -
      attachment.segment.controlBlock.inputId % 2 ^ 32) % 2 ^ 32)
    attachment.segment.controlBlock.inputId (2 ^ 32) (attachment.access .readControlBlock)
    (Nat.mod_lt _ (by decide)) (congrArg ControlBlock.outputId same)
    (by unfold SameWord; omega) (fun step below => by unfold SameWord; omega) with
    ⟨result, after, looped, further, all⟩
  rw [attachBody]
  simp only [same, looped]
  have chained : (∀ id ∈ attachment.segment.controlBlock.chain, make (id % 2 ^ 32) ≠ .failed) ↔
      result = true := by
    rw [all]
    simp only [mem_chain]
    constructor
    · intro whole step inside
      exact whole _ ⟨step, inside, rfl⟩
    · rintro whole id ⟨step, inside, rfl⟩
      exact whole step inside
  rw [chained]
  cases result with
  | false => exact ⟨false, _, after, rfl, read.trans further, rfl, Iff.rfl⟩
  | true =>
      exact ⟨true, _, _, rfl, (read.trans further).trans (.readControlBlock after), rfl, Iff.rfl⟩

/-! ## Failing -/

structure LeavesLocked (before : BusSegment) (after : Attachment) : Prop where
  mutex : after.segment.mutex = true
  spinlock : after.segment.spinlock = true
  counter : after.segment.counter = before.counter
  unmapped : (.unlockMutex, false) ∈ after.trace

theorem LeavesLocked.not_cleansUp {before : BusSegment} {after : Attachment}
    (leaves : LeavesLocked before after) : ¬CleansUp before after := by
  intro cleans
  have mapped := cleans.mapped _ leaves.unmapped
  cases mapped

theorem doOpen_failed (make : Nat → Making) {segment : BusSegment}
    (attached : 0 < segment.counter) {id : Nat} (inChain : id ∈ segment.controlBlock.chain)
    (failed : make (id % 2 ^ 32) = .failed) :
    ∃ after, doOpen make segment = some (false, after) ∧ LeavesLocked segment after := by
  rcases attachBody_spec make ((((Attachment.attached segment).access .lockSpinlock).access
    .readCounter).access .lockMutex) with ⟨result, after, middle, attaches, reads, rfl, all⟩
  have fails : result = false := by
    rw [← Bool.not_eq_true, all]
    exact fun whole => whole id inChain failed
  subst fails
  have locked := reads.segment
  refine ⟨(middle.freeMemory.access .unlockMutex).access .unlockSpinlock, ?_, ?_⟩
  · have positive : (((Attachment.attached segment).access .lockSpinlock).access
        .readCounter).segment.counter > 0 := attached
    rw [doOpen]
    simp only [attaches]
    rw [if_pos positive]
    rfl
  · have same : ((middle.freeMemory.access .unlockMutex).access .unlockSpinlock).segment =
        middle.segment := rfl
    refine ⟨?_, ?_, ?_, ?_⟩
    · rw [same, locked]
      rfl
    · rw [same, locked]
      rfl
    · rw [same, locked]
      rfl
    · simp [Attachment.access, Attachment.freeMemory]

/-- When every connector of the chain can be made, the bus is opened, and the locks are
released in the mapped segment. -/
theorem doOpen_succeeded (make : Nat → Making) {segment : BusSegment}
    (attached : 0 < segment.counter)
    (whole : ∀ id ∈ segment.controlBlock.chain, make (id % 2 ^ 32) ≠ .failed) :
    ∃ after, doOpen make segment = some (true, after) ∧ after.segment.mutex = false ∧
      after.segment.spinlock = false ∧
      after.segment.counter = (segment.counter + 1) % 2 ^ 32 ∧
      ∀ access ∈ after.trace, access.2 = true := by
  rcases attachBody_spec make ((((Attachment.attached segment).access .lockSpinlock).access
    .readCounter).access .lockMutex) with ⟨result, after, middle, attaches, reads, rfl, all⟩
  have succeeds : result = true := all.mpr whole
  subst succeeds
  have positive : (((Attachment.attached segment).access .lockSpinlock).access
      .readCounter).segment.counter > 0 := attached
  have mapped : middle.mapped = true := reads.mapped
  rcases reads.trace with ⟨more, trace, isRead⟩
  refine ⟨((middle.access .incCounter).access .unlockMutex).access .unlockSpinlock, ?_, ?_⟩
  · rw [doOpen]
    simp only [attaches]
    rw [if_pos positive]
    rfl
  · have readsMapped : ∀ access ∈ more, access.2 = true := by
      intro access member
      rcases isRead access member with rfl | rfl <;> rfl
    have segmentEq := reads.segment
    simp only [Attachment.access, mapped, if_true, Access.perform, segmentEq, trace,
      Attachment.attached, true_and]
    simpa using readsMapped

theorem doCreate_failed {make : Nat → Making} (failed : make 0 = .failed) :
    ∃ after, doCreate make = (false, after) ∧ LeavesLocked .zeros after := by
  have created : doCreate make = release .unlockMutex (false, Attachment.freeMemory
      (Attachment.access (Attachment.access (Attachment.access (Attachment.access
        (Attachment.access (Attachment.access (.attached .zeros) .buildMutex) .lockMutex)
        .writeSpec) .writeControlBlock) .readControlBlock) .readSpec)) := by
    rw [doCreate, createBody, failed]
    rfl
  rw [created]
  exact ⟨_, rfl, rfl, rfl, rfl, by decide⟩

/-- A bus that cannot be created or opened because a connector cannot be made never cleans up
in order. The locks are released when the segment is not mapped any more, and stay locked
for the others. -/
theorem failed_bus_leaves_locks (make : Nat → Making) :
    (∀ segment : BusSegment, 0 < segment.counter → segment.spinlock = false →
      segment.mutex = false → ∀ id ∈ segment.controlBlock.chain,
      make (id % 2 ^ 32) = .failed →
        ∃ after, doOpen make segment = some (false, after) ∧ ¬CleansUp segment after ∧
          LeavesLocked segment after) ∧
    (make 0 = .failed → ∃ after, doCreate make = (false, after) ∧ ¬CleansUp .zeros after ∧
      LeavesLocked .zeros after) := by
  constructor
  · intro segment attached _ _ id inChain failed
    rcases doOpen_failed make attached inChain failed with ⟨after, opens, leaves⟩
    exact ⟨after, opens, leaves.not_cleansUp, leaves⟩
  · intro failed
    rcases doCreate_failed failed with ⟨after, creates, leaves⟩
    exact ⟨after, creates, leaves.not_cleansUp, leaves⟩

/-- The first connector of a new bus cannot be made. -/
theorem failed_bus_leaves_locks_create : ∃ after,
    doCreate (fun _ => .failed) = (false, after) ∧ ¬CleansUp .zeros after ∧
      LeavesLocked .zeros after :=
  (failed_bus_leaves_locks fun _ => .failed).2 rfl

/-- The second of three connectors cannot be opened. -/
theorem failed_open_stays_locked : ∃ after,
    doOpen (fun id => if id = 4 then .failed else .opened)
        ⟨false, 1, false, { inputId := 3, outputId := 5 }⟩ = some (false, after) ∧
      ¬CleansUp ⟨false, 1, false, { inputId := 3, outputId := 5 }⟩ after := by
  rcases @doOpen_failed (fun id => if id = 4 then .failed else .opened)
    ⟨false, 1, false, { inputId := 3, outputId := 5 }⟩ (by decide) 4
    (show 4 ∈ ControlBlock.chain { inputId := 3, outputId := 5 } by decide) rfl with
    ⟨after, opens, leaves⟩
  exact ⟨after, opens, leaves.not_cleansUp⟩

end Qbus.Bus
