import Mathlib.Data.List.AList
import SomeIPRuntime.StepSystems
import SomeIPRuntime.StubDispatchers

set_option autoImplicit false

/-!
# Replies of a stub

A method with reply keeps the message in `pending_` until the stub calls back, which it
may do any number of times and from any thread. A reply runs in two blocks under
`mutex_`: `sendReplyMessage` puts the response in the place of the message, and
`sendReplyMessageHelper` fills it in, sends it and removes it.
-/
namespace SomeIPRuntime.StubReplies
open OutputStream (Write)
open Serialization ProgramRuns StubDispatchers StepSystems

abbrev CallId := BitVec 32

structure Reply where
  dispatcher : ℕ
  call : CallId
  isLittleEndian : Bool
  outArgs : List (Write Unit)

/-- An incoming message is told from the others by its number. `sent` are the answers with the
    numbers of the messages they are sent for, `unserialized` the messages whose reply could not
    be serialized. -/
structure State where
  received : ℕ
  currentCall : ℕ → CallId
  pending : ℕ → AList fun _ : CallId => ℕ × VsomeipMessage
  replies : List Reply
  sent : List (ℕ × VsomeipMessage)
  unserialized : List ℕ

def initial : State := ⟨0, fun _ => 0, fun _ => ∅, [], [], []⟩

inductive Action
  /-- A message for an adapter with these helpers; `isConnected` and `laterConnected` are the
      answers of the connection to what is sent at once. -/
  | receive (helpers : List Helper) (answer : StubAnswer) (isConnected laterConnected : Bool)
      (message : VsomeipMessage)
  | sendReplyMessage (reply : Reply)
  /-- `isConnected` holds if the connection is still there, and sends. -/
  | sendReplyMessageHelper (index : ℕ) (isConnected : Bool)

def wait (dispatcher : ℕ) (message : VsomeipMessage) (s : State) : State :=
  { s with
    currentCall := Function.update s.currentCall dispatcher (s.currentCall dispatcher + 1)
    pending := Function.update s.pending dispatcher
      ((s.pending dispatcher).insert (s.currentCall dispatcher) (s.received, message)) }

def receive (handling : Handling) (message : VsomeipMessage) (s : State) : State :=
  let s := match handling.waiting with
    | some dispatcher => wait dispatcher message s
    | none => s
  { s with
    received := s.received + 1
    sent := handling.sent.map (fun answer => (s.received, answer)) ++ s.sent }

def sendReplyMessage (reply : Reply) (s : State) : State :=
  match (s.pending reply.dispatcher).lookup reply.call with
  | some (number, itsMessage) =>
    { s with
      pending := Function.update s.pending reply.dispatcher
        ((s.pending reply.dispatcher).insert reply.call (number, itsMessage.createResponseMessage))
      replies := reply :: s.replies }
  | none => s

def finish (reply : Reply) (s : State) : State :=
  { s with
    pending := Function.update s.pending reply.dispatcher
      ((s.pending reply.dispatcher).erase reply.call) }

def sendReplyMessageHelper (reply : Reply) (isConnected : Bool) (s : State) : Option State :=
  match (s.pending reply.dispatcher).lookup reply.call with
  | none => some s
  | some (number, itsReply) =>
    match writeArguments reply.isLittleEndian reply.outArgs itsReply with
    | .error _ => none
    | .ok none => some { finish reply s with unserialized := number :: s.unserialized }
    | .ok (some handed) =>
      some { finish reply s with
        sent := (sentBy isConnected (some handed)).map (fun answer => (number, answer)) ++ s.sent }

def step (s : State) : Action → Option State
  | .receive helpers answer isConnected laterConnected message =>
    match findDispatcherAndHandle answer isConnected laterConnected message helpers with
    | .ok handling => some (receive handling message s)
    | .error _ => none
  | .sendReplyMessage reply => some (sendReplyMessage reply s)
  | .sendReplyMessageHelper index isConnected =>
    s.replies[index]?.bind fun reply =>
      sendReplyMessageHelper reply isConnected { s with replies := s.replies.eraseIdx index }

/-- At most one answer is sent for a message, and the call of a message that was answered or whose
    reply could not be serialized is no longer pending. -/
structure AnsweredOnce (s : State) : Prop where
  once : (s.sent.map Prod.fst).Nodup
  gone : ∀ number, number ∈ s.sent.map Prod.fst ∨ number ∈ s.unserialized →
    ∀ dispatcher call message, (s.pending dispatcher).lookup call ≠ some (number, message)

section Invariant
variable {s t : State}

/-- The messages that are pending were received, wait for one call each and have no answer. -/
structure Good (s : State) : Prop where
  once : (s.sent.map Prod.fst).Nodup
  answered : ∀ number, number ∈ s.sent.map Prod.fst ∨ number ∈ s.unserialized → number < s.received
  waiting : ∀ dispatcher call number message,
    (s.pending dispatcher).lookup call = some (number, message) →
      number < s.received ∧ number ∉ s.sent.map Prod.fst ∧ number ∉ s.unserialized
  alone : ∀ dispatcher call message dispatcher' call' message' number,
    (s.pending dispatcher).lookup call = some (number, message) →
      (s.pending dispatcher').lookup call' = some (number, message') →
        dispatcher = dispatcher' ∧ call = call'

theorem Good.answeredOnce (h : Good s) : AnsweredOnce s where
  once := h.once
  gone number hmem dispatcher call message hlookup := by
    obtain ⟨-, hsent, hfailed⟩ := h.waiting dispatcher call number message hlookup
    exact hmem.elim hsent hfailed

theorem initial_good : Good initial where
  once := List.nodup_nil
  answered _ h := h.elim (fun hmem => (by cases hmem)) fun hmem => (by cases hmem)
  waiting _ _ _ _ h := by cases h
  alone _ _ _ _ _ _ _ h := by cases h

variable {pending : ℕ → AList fun _ : CallId => ℕ × VsomeipMessage} {dispatcher : ℕ} {call : CallId}

theorem lookup_put (entry : ℕ × VsomeipMessage) (dispatcher' : ℕ) (call' : CallId) :
    (Function.update pending dispatcher ((pending dispatcher).insert call entry) dispatcher').lookup call' =
      if dispatcher' = dispatcher ∧ call' = call then some entry else (pending dispatcher').lookup call' := by
  by_cases hd : dispatcher' = dispatcher
  · subst hd
    rw [Function.update_self]
    by_cases hc : call' = call
    · subst hc
      rw [AList.lookup_insert, if_pos ⟨rfl, rfl⟩]
    · rw [AList.lookup_insert_ne hc, if_neg fun h => hc h.2]
  · rw [Function.update_of_ne hd, if_neg fun h => hd h.1]

theorem lookup_erased (dispatcher' : ℕ) (call' : CallId) :
    (Function.update pending dispatcher ((pending dispatcher).erase call) dispatcher').lookup call' =
      if dispatcher' = dispatcher ∧ call' = call then none else (pending dispatcher').lookup call' := by
  by_cases hd : dispatcher' = dispatcher
  · subst hd
    rw [Function.update_self]
    by_cases hc : call' = call
    · subst hc
      rw [AList.lookup_erase, if_pos ⟨rfl, rfl⟩]
    · rw [AList.lookup_erase_ne hc, if_neg fun h => hc h.2]
  · rw [Function.update_of_ne hd, if_neg fun h => hd h.1]

/-- A message begins to wait, or another one is put in the place of the one that waits. -/
theorem Good.put (h : Good s) {number : ℕ} {message : VsomeipMessage}
    (hpending : t.pending = Function.update s.pending dispatcher
      ((s.pending dispatcher).insert call (number, message)))
    (hsent : t.sent = s.sent) (hfailed : t.unserialized = s.unserialized)
    (hreceived : s.received ≤ t.received) (hnumber : number < t.received)
    (hanswer : number ∉ s.sent.map Prod.fst ∧ number ∉ s.unserialized)
    (halone : ∀ dispatcher' call' message',
      (s.pending dispatcher').lookup call' = some (number, message') →
        dispatcher' = dispatcher ∧ call' = call) : Good t where
  once := hsent ▸ h.once
  answered n hn := by
    rw [hsent, hfailed] at hn
    exact lt_of_lt_of_le (h.answered n hn) hreceived
  waiting d c n m hlookup := by
    rw [hsent, hfailed]
    rw [hpending, lookup_put] at hlookup
    split at hlookup
    · cases hlookup
      exact ⟨hnumber, hanswer⟩
    · obtain ⟨hlt, hrest⟩ := h.waiting d c n m hlookup
      exact ⟨lt_of_lt_of_le hlt hreceived, hrest⟩
  alone d c m d' c' m' n hlookup hlookup' := by
    rw [hpending, lookup_put] at hlookup hlookup'
    split at hlookup
    · rename_i hhere
      cases hlookup
      split at hlookup'
      · rename_i hhere'
        exact ⟨hhere.1.trans hhere'.1.symm, hhere.2.trans hhere'.2.symm⟩
      · obtain ⟨hd, hc⟩ := halone d' c' m' hlookup'
        exact ⟨hhere.1.trans hd.symm, hhere.2.trans hc.symm⟩
    · split at hlookup'
      · rename_i hhere'
        cases hlookup'
        obtain ⟨hd, hc⟩ := halone d c m hlookup
        exact ⟨hd.trans hhere'.1.symm, hc.trans hhere'.2.symm⟩
      · exact h.alone d c m d' c' m' n hlookup hlookup'

theorem Good.ended (h : Good s) {number : ℕ} {message : VsomeipMessage}
    (hfound : (s.pending dispatcher).lookup call = some (number, message))
    (hpending : t.pending = Function.update s.pending dispatcher ((s.pending dispatcher).erase call))
    (hreceived : t.received = s.received)
    (hsent : t.sent.map Prod.fst = s.sent.map Prod.fst ∨
      t.sent.map Prod.fst = number :: s.sent.map Prod.fst)
    (hfailed : ∀ n ∈ t.unserialized, n = number ∨ n ∈ s.unserialized) : Good t := by
  obtain ⟨hnumber, hanswer, -⟩ := h.waiting dispatcher call number message hfound
  have hmem : ∀ n ∈ t.sent.map Prod.fst, n = number ∨ n ∈ s.sent.map Prod.fst := by
    intro n hn
    cases hsent with
    | inl heq => exact Or.inr (heq ▸ hn)
    | inr heq => exact List.mem_cons.1 (heq ▸ hn)
  refine ⟨?_, fun n hn => ?_, fun d c n m hlookup => ?_, fun d c m d' c' m' n hlookup hlookup' => ?_⟩
  · cases hsent with
    | inl heq => exact heq ▸ h.once
    | inr heq => exact heq ▸ List.nodup_cons.2 ⟨hanswer, h.once⟩
  · rw [hreceived]
    cases hn with
    | inl hn => exact (hmem n hn).elim (fun heq => heq ▸ hnumber) fun hold => h.answered n (Or.inl hold)
    | inr hn => exact (hfailed n hn).elim (fun heq => heq ▸ hnumber) fun hold => h.answered n (Or.inr hold)
  · rw [hpending, lookup_erased] at hlookup
    split at hlookup
    · cases hlookup
    · rename_i helse
      obtain ⟨hlt, hno, hnot⟩ := h.waiting d c n m hlookup
      have hne : n ≠ number := by
        intro heq
        subst heq
        exact helse (h.alone d c m dispatcher call message n hlookup hfound)
      rw [hreceived]
      exact ⟨hlt, fun hn => (hmem n hn).elim hne hno, fun hn => (hfailed n hn).elim hne hnot⟩
  · rw [hpending, lookup_erased] at hlookup hlookup'
    split at hlookup
    · cases hlookup
    · split at hlookup'
      · cases hlookup'
      · exact h.alone d c m d' c' m' n hlookup hlookup'

theorem numbers_of_once (number : ℕ) {answers : List VsomeipMessage} (h : answers.length ≤ 1) :
    (answers.map fun answer => (number, answer)).map Prod.fst = [] ∨
      (answers.map fun answer => (number, answer)).map Prod.fst = [number] := by
  match answers, h with
  | [], _ => exact Or.inl rfl
  | [_], _ => exact Or.inr rfl

theorem receive_good (h : Good s) {handling : Handling} (honce : handling.AnswersOnce)
    (message : VsomeipMessage) : Good (receive handling message s) := by
  have hfresh : s.received ∉ s.sent.map Prod.fst ∧ s.received ∉ s.unserialized :=
    ⟨fun hn => lt_irrefl _ (h.answered _ (Or.inl hn)), fun hn => lt_irrefl _ (h.answered _ (Or.inr hn))⟩
  have hnumber : ∀ n ∈ (handling.sent.map fun answer => (s.received, answer)).map Prod.fst,
      n = s.received := by
    intro n hn
    obtain hnone | hone := numbers_of_once s.received honce.once
    · rw [hnone] at hn
      cases hn
    · rw [hone] at hn
      exact List.mem_singleton.1 hn
  cases hwaiting : handling.waiting with
  | some dispatcher =>
    have hnothing : handling.sent = [] := honce.waiting (by rw [hwaiting]; exact Option.some_ne_none _)
    unfold receive
    rw [hwaiting, hnothing]
    refine h.put rfl rfl rfl (Nat.le_succ _) (Nat.lt_succ_self _) hfresh ?_
    intro dispatcher' call' message' hlookup
    exact absurd (h.waiting _ _ _ _ hlookup).1 (lt_irrefl _)
  | none =>
    unfold receive
    rw [hwaiting]
    refine ⟨?_, fun n hn => ?_, fun d c n m hlookup => ?_, h.alone⟩
    · dsimp only
      rw [List.map_append]
      obtain hnone | hone := numbers_of_once s.received honce.once
      · rw [hnone]
        exact h.once
      · rw [hone]
        exact List.nodup_cons.2 ⟨hfresh.1, h.once⟩
    · dsimp only at hn ⊢
      rw [List.map_append, List.mem_append, or_assoc] at hn
      cases hn with
      | inl hnew => rw [hnumber n hnew]; exact Nat.lt_succ_self _
      | inr hold => exact (h.answered n hold).trans (Nat.lt_succ_self _)
    · obtain ⟨hlt, hno, hnot⟩ := h.waiting d c n m hlookup
      refine ⟨hlt.trans (Nat.lt_succ_self _), fun hn => ?_, hnot⟩
      dsimp only at hn
      rw [List.map_append, List.mem_append] at hn
      exact hn.elim (fun hnew => absurd (hnumber n hnew) hlt.ne) hno

theorem sendReplyMessage_good (h : Good s) (reply : Reply) : Good (sendReplyMessage reply s) := by
  unfold sendReplyMessage
  split
  · rename_i number itsMessage hfound
    obtain ⟨hnumber, hanswer⟩ := h.waiting _ _ _ _ hfound
    exact h.put rfl rfl rfl (le_refl _) hnumber hanswer fun dispatcher' call' message' hlookup =>
      h.alone _ _ _ _ _ _ _ hlookup hfound
  · exact h

theorem sendReplyMessageHelper_good (h : Good s) {reply : Reply} {isConnected : Bool}
    (hstep : sendReplyMessageHelper reply isConnected s = some t) : Good t := by
  unfold sendReplyMessageHelper at hstep
  split at hstep
  · cases hstep
    exact h
  · rename_i number itsReply hfound
    split at hstep
    · cases hstep
    · cases hstep
      exact h.ended hfound rfl rfl (Or.inl rfl) fun n hn => List.mem_cons.1 hn
    · rename_i handed _
      cases hstep
      refine h.ended hfound rfl rfl ?_ fun n hn => Or.inr hn
      dsimp only [finish]
      rw [List.map_append]
      obtain hnone | hone := numbers_of_once number (@sentBy_length isConnected (some handed))
      · exact Or.inl (by rw [hnone]; rfl)
      · exact Or.inr (by rw [hone]; rfl)

theorem step_good {a : Action} (h : Good s) (hstep : step s a = some t) : Good t := by
  cases a with
  | receive helpers answer isConnected laterConnected message =>
    change (match findDispatcherAndHandle answer isConnected laterConnected message helpers with
      | .ok handling => some (receive handling message s)
      | .error _ => none) = some t at hstep
    split at hstep
    · rename_i handling hrun
      cases hstep
      exact receive_good h (findDispatcherAndHandle_once answer helpers handling hrun) message
    · cases hstep
  | sendReplyMessage reply =>
    cases hstep
    exact sendReplyMessage_good h reply
  | sendReplyMessageHelper index isConnected =>
    obtain ⟨reply, -, hstep⟩ := Option.bind_eq_some_iff.1 hstep
    have hrest : Good { s with replies := s.replies.eraseIdx index } :=
      ⟨h.once, h.answered, h.waiting, h.alone⟩
    exact sendReplyMessageHelper_good hrest hstep

/-- However dispatchers, replies and the connection take turns, a message has one answer at most. -/
theorem requests_answered_once (h : Reachable step Free initial s) : AnsweredOnce s :=
  (h.invariant initial_good fun _ _ _ hgood _ => step_good hgood).answeredOnce

end Invariant

def helper : Helper where
  hasStub := true
  stubDispatcherTable method := if method = 0x21 then some (.methodWithReply 0 true true []) else none

def twoReplies : List Action :=
  [.receive [helper] ⟨[], pure ()⟩ true true (.createMethodCall ⟨0x1234, 1, 1, 0⟩ 0x21),
    .sendReplyMessage ⟨0, 0, true, []⟩, .sendReplyMessage ⟨0, 0, true, []⟩,
    .sendReplyMessageHelper 0 true, .sendReplyMessageHelper 0 true]

theorem two_replies_answered_once : ∃ s, run step initial twoReplies = some s ∧ AnsweredOnce s := by
  have hrun : (run step initial twoReplies).isSome := rfl
  obtain ⟨s, hs⟩ := Option.isSome_iff_exists.1 hrun
  exact ⟨s, hs, requests_answered_once (reachable_of_run hs)⟩

end SomeIPRuntime.StubReplies
