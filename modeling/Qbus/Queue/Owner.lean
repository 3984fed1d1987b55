import Qbus.Queue.Frame
import Qbus.Queue.World

/-! # The process of an object

In any state at all, no call of an object changes the process that it belongs to. -/

namespace Qbus

namespace Queue

variable {queue next : Queue}

theorem popMessage_sid {message : MessageDesc} (pops : queue.popMessage message = .ok next) :
    next.self.sid = queue.self.sid := by
  rw [popMessage] at pops
  split at pops
  · cases pops
  · cases kind : queue.self.type with
    | simple =>
        simp only [kind] at pops
        have same := Except.ok.inj pops
        rw [← same, setMemory]
    | shared | unreadable | smart =>
        simp only [kind] at pops
        split at pops
        · cases pops
        · have same := Except.ok.inj pops
          rw [← same]

theorem baseCleanMessages_sid {info : GarbageInfo}
    (cleans : queue.baseCleanMessages = .ok (info, next)) : next.self.sid = queue.self.sid := by
  rw [baseCleanMessages] at cleans
  split at cleans
  · rcases Outcome.returned cleans with ⟨⟨found, walked⟩, -, cleans⟩
    cases cleans
    rfl
  · cases cleans
    rfl

theorem cleanMessages_sid {info : GarbageInfo}
    (cleans : queue.cleanMessages = .ok (info, next)) : next.self.sid = queue.self.sid := by
  rw [cleanMessages] at cleans
  cases kind : queue.self.type with
  | simple =>
      rw [kind] at cleans
      cases cleans
      rfl
  | shared =>
      rw [kind] at cleans
      exact baseCleanMessages_sid cleans
  | unreadable =>
      rw [kind] at cleans
      rcases Outcome.returned cleans with ⟨⟨found, cleaned⟩, collects, cleans⟩
      have same := baseCleanMessages_sid collects
      cases cleans
      exact same
  | smart =>
      rw [kind] at cleans
      rcases Outcome.returned cleans with ⟨⟨found, cleaned⟩, collects, cleans⟩
      have same := baseCleanMessages_sid collects
      simp only at cleans
      split at cleans
      · cases cleans
        exact same
      · cases cleans
        exact same

theorem basePushMessage_sid {data : List UInt8} {now : Nat} {message : MessageDesc}
    (pushes : queue.basePushMessage data now = .ok (message, next)) :
    next.self.sid = queue.self.sid := by
  rcases Outcome.returned pushes with ⟨⟨made, bytes⟩, -, pushes⟩
  cases pushes
  rfl

theorem sharedPushMessage_sid {data : List UInt8} {now : Nat} {message : MessageDesc}
    (pushes : queue.sharedPushMessage data now = .ok (message, next)) :
    next.self.sid = queue.self.sid := by
  rcases Outcome.returned pushes with ⟨⟨made, pushed⟩, base, pushes⟩
  have same := basePushMessage_sid base
  simp only at pushes
  split at pushes
  · cases pushes
    exact same
  · cases pushes
    exact same

theorem pushMessage_sid {data : List UInt8} {now : Nat} {message : MessageDesc}
    (pushes : queue.pushMessage data now = .ok (message, next)) :
    next.self.sid = queue.self.sid := by
  rw [pushMessage] at pushes
  cases kind : queue.self.type with
  | simple =>
      rw [kind] at pushes
      exact basePushMessage_sid pushes
  | shared | unreadable =>
      rw [kind] at pushes
      exact sharedPushMessage_sid pushes
  | smart =>
      rw [kind] at pushes
      rcases Outcome.returned pushes with ⟨⟨made, pushed⟩, shared, pushes⟩
      have same := sharedPushMessage_sid shared
      simp only at pushes
      split at pushes
      · cases pushes
        exact same
      · cases pushes
        exact same

theorem smartGetMessage_sid {fuel : Nat} {message : MessageDesc}
    (gets : smartGetMessage fuel queue = .ok (message, next)) :
    next.self.sid = queue.self.sid := by
  induction fuel generalizing queue with
  | zero => cases gets
  | succ fuel induction =>
      rcases Outcome.returned gets with ⟨found, -, gets⟩
      split at gets
      · cases gets
      · split at gets
        · cases gets
          rfl
        · rcases Outcome.returned gets with ⟨popped, pops, gets⟩
          have same := popMessage_sid pops
          split at gets
          · exact (induction gets).trans same
          · cases gets
            exact same

theorem getMessage_sid {message : MessageDesc} (gets : queue.getMessage = .ok (message, next)) :
    next.self.sid = queue.self.sid := by
  rw [getMessage] at gets
  split at gets
  · exact smartGetMessage_sid gets
  · rcases Outcome.returned gets with ⟨found, -, gets⟩
    cases gets
    rfl

theorem doPush_sid {tag now : Nat} {data : List UInt8} {accepted : Bool}
    (pushes : queue.doPush tag data now = .ok (accepted, next)) :
    next.self.sid = queue.self.sid := by
  rcases Outcome.returned pushes with ⟨⟨info, cleaned⟩, cleans, pushes⟩
  rcases Outcome.returned pushes with ⟨⟨message, made⟩, makes, pushes⟩
  have same := (pushMessage_sid makes).trans (cleanMessages_sid cleans)
  simp only at pushes
  split at pushes
  · cases pushes
    exact same
  · cases pushes
    exact same

theorem removeExpired_sid {tag now limit fuel : Nat} {data : List UInt8} {accepted : Bool}
    (removes : removeExpired tag data now limit fuel queue = .ok (accepted, next)) :
    next.self.sid = queue.self.sid := by
  induction fuel generalizing queue with
  | zero => cases removes
  | succ fuel induction =>
      rw [removeExpired] at removes
      split at removes
      · cases removes
        rfl
      · rcases Outcome.returned removes with ⟨⟨message, got⟩, gets, later⟩
        have found := getMessage_sid gets
        simp only at later
        split at later
        · cases later
          exact found
        · split at later
          · cases later
            exact found
          · rcases Outcome.returned later with ⟨popped, pops, pushing⟩
            rcases Outcome.returned pushing with ⟨⟨result, pushed⟩, pushes, last⟩
            have same := (doPush_sid pushes).trans ((popMessage_sid pops).trans found)
            simp only at last
            split at last
            · cases last
              exact same
            · exact (induction last).trans same

theorem push_sid {tag now : Nat} {data : List UInt8} {accepted : Bool}
    (pushes : queue.push tag data now = .ok (accepted, next)) :
    next.self.sid = queue.self.sid := by
  rcases Outcome.returned pushes with ⟨⟨result, attempted⟩, attempt, pushes⟩
  have same := doPush_sid attempt
  simp only at pushes
  split at pushes
  · cases pushes
    exact same
  · split at pushes
    · exact (removeExpired_sid pushes).trans same
    · cases pushes
      exact same

theorem get_sid {chain : Chain} (gets : queue.get = .ok (chain, next)) :
    next.self.sid = queue.self.sid := by
  rw [get] at gets
  split at gets
  · rcases Outcome.returned gets with ⟨⟨message, read⟩, reads, later⟩
    have same := getMessage_sid reads
    cases later
    exact same
  · cases gets
    rfl

theorem pop_sid {removed : Bool} (pops : queue.pop = .ok (removed, next)) :
    next.self.sid = queue.self.sid := by
  rw [pop] at pops
  split at pops
  · have found : ∃ (message : MessageDesc) (read : Queue), read.self.sid = queue.self.sid ∧
        (read.popMessage message >>= fun popped => pure (true, { popped with
          self := { popped.self with messageDesc := { message with first := [] } } })) =
          .ok (removed, next) := by
      split at pops
      · rcases Outcome.returned pops with ⟨⟨message, read⟩, reads, later⟩
        exact ⟨message, read, getMessage_sid reads, later⟩
      · exact ⟨queue.self.messageDesc, queue, rfl, pops⟩
    rcases found with ⟨message, read, found, later⟩
    rcases Outcome.returned later with ⟨popped, removes, returns⟩
    have same := popMessage_sid removes
    cases returns
    exact same.trans found
  · cases pops
    rfl

theorem pushServiceMessage_sid {code : ServiceMessage.Code} {clock : List Nat}
    (pushes : pushServiceMessage code clock queue = .ok next) :
    next.self.sid = queue.self.sid := by
  induction clock generalizing queue with
  | nil => cases pushes
  | cons now clock induction =>
      rcases Outcome.returned pushes with ⟨⟨accepted, pushed⟩, attempt, pushes⟩
      have same := push_sid attempt
      simp only at pushes
      split at pushes
      · cases pushes
        exact same
      · exact (induction pushes).trans same

theorem initializeQueue_sid {clock : List Nat}
    (initializes : queue.initializeQueue clock = .ok next) :
    next.self.sid = queue.self.sid := by
  rcases Outcome.returned initializes with ⟨pushed, pushes, initializes⟩
  have same := pushServiceMessage_sid pushes
  cases initializes
  exact same

theorem attach_sid {memory : QueueMemory} {type : QueueType} {sid : Nat} {clock : List Nat}
    (attaches : attach memory type sid clock = .ok next) : next.self.sid = sid := by
  cases type with
  | simple | shared | unreadable =>
      cases attaches
      rfl
  | smart => exact initializeQueue_sid attaches

end Queue

def Action.sids : Action → (Nat → Nat) → Nat → Nat
  | .attach id _ sid _, sids => Function.update sids id sid
  | .push _ _ _ _, sids | .get _, sids | .pop _, sids | .clean _, sids | .destroy _ _, sids
  | .keepaliveTimeout _, sids => sids

theorem World.perform_sids {world next : World} {action : Action} {result : Result}
    (performed : world.perform action = .ok (result, next)) (other : Nat) :
    (next.handle other).sid = action.sids (fun id => (world.handle id).sid) other := by
  have updates : ∀ {id : Nat} {queue : Queue} {sid : Nat}, queue.self.sid = sid →
      ((world.update id queue).handle other).sid =
        Function.update (fun id => (world.handle id).sid) id sid other := by
    intro id queue sid same
    by_cases equal : other = id
    · rw [equal, update_handle_self, same, Function.update_self]
    · rw [update_handle_of_ne world queue equal, Function.update_of_ne equal]
  have keeps : ∀ {id : Nat} {queue : Queue}, queue.self.sid = (world.handle id).sid →
      ((world.update id queue).handle other).sid = (world.handle other).sid := by
    intro id queue same
    rw [updates same, Function.update_eq_self]
  cases action with
  | attach id type sid clock =>
      rcases Outcome.returned performed with ⟨queue, attaches, returns⟩
      cases returns
      exact updates (Queue.attach_sid attaches)
  | push id tag data now =>
      rcases Outcome.returned performed with ⟨⟨accepted, queue⟩, pushes, returns⟩
      cases returns
      exact keeps (Queue.push_sid pushes)
  | get id =>
      rcases Outcome.returned performed with ⟨⟨chain, queue⟩, gets, returns⟩
      cases returns
      exact keeps (Queue.get_sid gets)
  | pop id =>
      rcases Outcome.returned performed with ⟨⟨removed, queue⟩, pops, returns⟩
      cases returns
      exact keeps (Queue.pop_sid pops)
  | clean id =>
      rcases Outcome.returned performed with ⟨⟨count, queue⟩, cleans, returns⟩
      rcases Outcome.returned cleans with ⟨⟨info, cleaned⟩, collects, counted⟩
      cases returns
      cases counted
      exact keeps (Queue.cleanMessages_sid collects)
  | destroy id clock =>
      rcases Outcome.returned performed with ⟨memory, -, returns⟩
      cases returns
      rfl
  | keepaliveTimeout value =>
      cases performed
      rfl

end Qbus
