import Qbus.Queue.Reserve

/-! # The account of the free space

The free space of a smart queue is what the stored messages leave of its capacity, and it
covers every message that is stored. The constructor with a parent queue does not set the
free space, and then nothing does. -/

namespace Qbus

open Queue

namespace Queue

variable {metered : Prop} {queue : Queue} {ledger : Ledger Nat Entry} {member : Nat}

def serviceAttempts (check : List UInt8 → Nat → Queue → Bool) (code : ServiceMessage.Code) :
    (clock : List Nat) → Queue → Bool
  | [], _ => true
  | now :: clock, queue =>
      queue.special.attempts (check [code.toByte] now) ServiceMessage.tag [code.toByte] now &&
        match queue.special.push ServiceMessage.tag [code.toByte] now with
        | .ok (false, pushed) => serviceAttempts check code clock (queue.restored pushed)
        | _ => true

theorem SmartMember.serviceAttempts_covers (reader : SmartMember metered queue ledger member)
    (isMetered : metered) (code : ServiceMessage.Code) (clock : List Nat) :
    queue.serviceAttempts covers code clock = true := by
  induction clock generalizing queue ledger with
  | nil => rfl
  | cons now clock induction =>
      rcases reader.special.push (List.cons_ne_nil code.toByte []) ServiceMessage.tag now
        (fun user => absurd rfl user) with ⟨accepted, pushed, after, result, -, still, -, -,
          covered, -⟩
      rw [serviceAttempts, covered isMetered, result, Bool.true_and]
      cases accepted with
      | true => rfl
      | false => exact induction (still.restored queue)

theorem Newcomer.serviceAttempts_covers (newcomer : Newcomer metered queue ledger member)
    (isMetered : metered) (code : ServiceMessage.Code) (clock : List Nat) :
    queue.serviceAttempts covers code clock = true := by
  induction clock generalizing queue ledger with
  | nil => rfl
  | cons now clock induction =>
      rcases newcomer.special.push rfl (List.cons_ne_nil code.toByte []) ServiceMessage.tag now with
        ⟨accepted, pushed, after, result, acts, accounted, -, self, covered⟩
      rw [serviceAttempts, covered isMetered, result, Bool.true_and]
      cases accepted with
      | true => rfl
      | false =>
          refine induction (newcomer.of_acts (Acts.of_special acts) accounted ?_)
          rw [restored, self]
          rfl

end Queue

def World.attempts (check : List UInt8 → Nat → Queue → Bool) (world : World) : Action → Bool
  | .attach _ type sid clock =>
      serviceAttempts check .connect clock ⟨world.memory, newHandle type sid world.memory.counter⟩
  | .push id tag data now => (world.queue id).attempts (check data now) tag.toNat data now
  | .destroy id clock => (world.queue id).serviceAttempts check .disconnect clock
  | _ => true

/-- In a queue that has been created without a parent queue the free space and the total
sizes of the stored messages make up the capacity, and it covers every message that is
taken from it. -/
theorem smart_queue_accounts {first world : World} {labels : List (Action × Result)}
    (fresh : first.FreshSmart)
    (run : Run (fun world label next => world.SmartSound label.1 ∧ world.Step label next)
      first labels world) :
    world.memory.freeSpace + world.memory.totalSize world.memory.count = world.memory.capacity ∧
      ∀ action, world.SmartSound action → world.Enabled action →
        world.attempts covers action = true := by
  rcases fresh.run run with ⟨ledger, smart⟩
  refine ⟨(Accounted.iff_totalSize smart.tracks.ring).mp (smart.accounted trivial), ?_⟩
  intro action sound enabled
  cases action with
  | attach id type sid clock =>
      rcases sound with ⟨rfl, -, -⟩
      have notMember : id ∉ ledger.members := by
        rw [smart.members, Finset.union_empty]
        exact enabled
      have isNew : Newcomer True ⟨world.memory, newHandle .smart sid world.memory.counter⟩
          ledger id :=
        .behind rfl smart.tracks smart.accounted notMember rfl smart.subscribed smart.few
      exact isNew.serviceAttempts_covers trivial .connect clock
  | push id tag data now =>
      rcases smart.push sound.1 sound.2 enabled with ⟨-, -, -, -, -, -, covered, -⟩
      exact covered trivial
  | destroy id clock =>
      exact (smart.member enabled).serviceAttempts_covers trivial .disconnect clock
  | get id => rfl
  | pop id => rfl
  | clean id => rfl
  | keepaliveTimeout value => rfl

/-- Two messages in a queue of 300 bytes, one of them split. -/
theorem smart_queue_accounts_split : ∃ world : World,
    world.memory.count = 2 ∧
    world.memory.freeSpace + world.memory.totalSize world.memory.count = world.memory.capacity := by
  have fresh := World.freshSmart_created (by decide) (by decide) (by decide)
    (show (create .zeros .smart 0 300 1 [5]).isOk = true by decide +kernel)
  rcases World.exists_run World.SmartSound
    (show World.runs _ (World.created 0 (created .smart 300 1 [5]))
      [(.push 0 4 (List.replicate 150 7) 9, .pushed true), (.get 0, .message none),
        (.attach 1 .smart 2 [10], .done), (.push 0 4 (List.replicate 60 8) 11, .pushed true)]
      (fun world => decide (world.memory.count = 2)) = true by decide +kernel) with
    ⟨world, run, counted⟩
  exact ⟨world, of_decide_eq_true counted, (smart_queue_accounts fresh run).1⟩

/-- In a memory of zeros, the queue that one of two subscribers creates with their queue as
the parent has taken two messages of 25 bytes from a free space of zero. -/
theorem smart_queue_booked_no_account : ∃ (parents : World) (queue : Queue),
    Run World.Step (World.created 0 (created .smart 300 1 [5]))
      [(.attach 1 .smart 2 [6], .done)] parents ∧
    createBooked .zeros 1 300 1 (some (parents.queue 0)) (fun _ => [7]) [8] = .ok queue ∧
    queue.memory.freeSpace + queue.memory.totalSize queue.memory.count ≠
      queue.memory.capacity := by
  rcases World.exists_run (fun _ _ => True)
    (show World.runs _ (World.created 0 (created .smart 300 1 [5]))
      [(.attach 1 .smart 2 [6], .done)]
      (fun parents => (createBooked .zeros 1 300 1 (some (parents.queue 0)) (fun _ => [7])
        [8]).toOption.any fun queue => decide (queue.memory.freeSpace +
          queue.memory.totalSize queue.memory.count ≠ queue.memory.capacity)) = true by
      decide +kernel) with ⟨parents, run, observed⟩
  cases creates : createBooked .zeros 1 300 1 (some (parents.queue 0)) (fun _ => [7]) [8] with
  | error fault =>
      rw [creates] at observed
      cases observed
  | ok queue =>
      rw [creates] at observed
      exact ⟨parents, queue, run.mono fun step => step.2, creates, of_decide_eq_true observed⟩

end Qbus
