import SomeIPRuntime.HandlerOwnership
import SomeIPRuntime.StepSystems

set_option autoImplicit false

namespace SomeIPRuntime.AsyncAnswers
open StepSystems

variable {s t : State}

/-- A callback that waits for the service, the connection or one of its threads has the handler. -/
def Held (s : State) (handler : ℕ) : Prop :=
  (∃ waiting ∈ s.timeouts, waiting.handler = handler) ∨
    (∃ x ∈ s.asyncAnswers.entries, x.2.handler = handler) ∨
    (∃ x ∈ s.asyncTimeouts.entries, x.2.handler = handler) ∨
    ∃ worker ∈ s.workers, ∃ x ∈ worker.asyncAnswersToProcess.entries, x.2.handler = handler

def Invoked (s : State) (handler : ℕ) : Prop := ∃ invocation ∈ s.invoked, invocation.handler = handler

/-- The handlers of all calls are held or have been invoked. -/
def NoneLost (s : State) : Prop := ∀ handler < s.handlers, Held s handler ∨ Invoked s handler

theorem mem_held {handler : ℕ} {answers : Answers} :
    handler ∈ held answers ↔ ∃ x ∈ answers.entries, x.2.handler = handler := List.mem_map

theorem mem_working {handler : ℕ} : handler ∈ working s ↔
    ∃ worker ∈ s.workers, ∃ x ∈ worker.asyncAnswersToProcess.entries, x.2.handler = handler := by
  unfold working
  induction s.workers with
  | nil => exact iff_of_false (Multiset.notMem_zero _) (fun ⟨worker, hmem, _⟩ => List.not_mem_nil hmem)
  | cons worker rest ih =>
    rw [List.map_cons, List.sum_cons, Multiset.mem_add, ih, mem_held]
    simp only [List.mem_cons, exists_eq_or_imp]

theorem mem_handlers {handler : ℕ} : handler ∈ handlers s ↔ Held s handler ∨ Invoked s handler := by
  have hwaiting : handler ∈ waiting s ↔ ∃ waiting ∈ s.timeouts, waiting.handler = handler :=
    List.mem_map
  have hanswered : handler ∈ answered s ↔ Invoked s handler := List.mem_map
  unfold handlers Held
  rw [Multiset.mem_add, Multiset.mem_add, Multiset.mem_add, Multiset.mem_add, hwaiting, mem_held,
    mem_held, mem_working, hanswered]
  simp only [or_assoc]

theorem step_noneLost {timeoutWarnThreshold : Option ℤ} {a : Action} (h : NoneLost s) (hok : Kept s a)
    (hstep : step timeoutWarnThreshold s a = some t) : NoneLost t := by
  obtain ⟨_, hkept, hcount⟩ := step_handlers hstep
  intro handler hlt
  rw [← mem_handlers, hkept hok, Multiset.mem_add]
  by_cases hold : handler < s.handlers
  · exact .inr (mem_handlers.2 (h handler hold))
  · obtain hnew | hnew := newHandler_cases s a
    · rw [hnew, Multiset.card_zero] at hcount
      omega
    · rw [hnew, Multiset.card_singleton] at hcount
      rw [hnew, Multiset.mem_singleton]
      omega

/-- In every run that keeps the handlers no call is lost. -/
theorem no_call_lost {timeoutWarnThreshold : Option ℤ}
    (h : Reachable (step timeoutWarnThreshold) Kept initial s) : NoneLost s := by
  have hinitial : NoneLost initial := fun handler hlt => absurd hlt (Nat.not_lt_zero handler)
  exact h.invariant hinitial fun _ _ _ => step_noneLost

instance (message : MessageObject) (isConnected : Bool) (session : Option SessionId) (s : State) :
    Decidable (Sent message isConnected session s) := inferInstanceAs (Decidable (_ ∧ _ ∧ _))

instance (message : MessageObject) (s : State) : Decidable (Pushed message s) :=
  inferInstanceAs (Decidable (_ ∉ s.asyncAnswers))

instance (worker : Worker) (key : FakeSessionId) (mainLoop throws : Bool) (s : State) :
    Decidable (Processed worker key mainLoop throws s) :=
  inferInstanceAs (Decidable (if mainLoop then _ else _))

instance (s : State) : (a : Action) → Decidable (Kept s a)
  | .callMethodAsync message isAvailable _ isConnected session =>
    inferInstanceAs (Decidable (isAvailable = true →
      Sent ⟨s.objects, some s.handlers, message⟩ isConnected session s))
  | .availabilityCallback i isAvailable _ isConnected session =>
    inferInstanceAs (Decidable (∀ waiting ∈ s.timeouts[i]?,
      if isAvailable then Sent waiting.message isConnected session s else Pushed waiting.message s))
  | .processAnswer i key mainLoop throws =>
    inferInstanceAs (Decidable (∀ worker ∈ s.workers[i]?, Processed worker key mainLoop throws s))
  | .startBlocking .. | .finishBlocking .. | .deliver _ | .receive .. | .dispatch _
  | .handleProxyReceive _ | .cleanup _ | .cancelAsyncAnswers .. | .pushQueue _ | .elapse _ =>
    .isTrue trivial

def methodCall (method : MethodId) : VsomeipMessage :=
  VsomeipMessage.createMethodCall ⟨1, 1, 1, 0⟩ method

/-- A call is answered, one finds no service, one times out after its warn threshold, and one is
    cancelled. -/
def differentEnds : List Action :=
  [.callMethodAsync (methodCall 1) true 1000 true (some 1),
    .deliver { methodCall 1 with session := 1, messageType := .response }, .receive 0 false,
    .handleProxyReceive 0,
    .callMethodAsync (methodCall 2) false 1000 true none, .availabilityCallback 0 false 0 true none,
    .receive 0 false, .handleProxyReceive 0,
    .callMethodAsync (methodCall 3) true 1000 true (some 2), .elapse 750000001, .cleanup 750000001,
    .elapse 250000000, .cleanup 1000000001, .processAnswer 1 2 true false, .pushQueue 1, .dispatch 0,
    .handleProxyReceive 0,
    .callMethodAsync (methodCall 4) true 1000 true (some 3), .cancelAsyncAnswers 1 1,
    .processAnswer 2 3 false true]

theorem different_ends_kept : ∃ s, run (step (some 500)) initial differentEnds = some s ∧
    s.invoked.map Invocation.handler = [0, 1, 2, 3] ∧ NoneLost s := by
  have hrun : ∃ s, run (step (some 500)) initial differentEnds = some s ∧
      s.invoked.map Invocation.handler = [0, 1, 2, 3] := ⟨_, rfl, by decide⟩
  obtain ⟨s, hs, hinvoked⟩ := hrun
  exact ⟨s, hs, hinvoked, no_call_lost (.of_run differentEnds (by decide) hs)⟩

/-- The connection is lost after the proxy has found its service available. -/
theorem disconnected_call_lost :
    ¬ ∀ (timeoutWarnThreshold : Option ℤ) (s : State),
      Reachable (step timeoutWarnThreshold) Free initial s → NoneLost s := by
  intro h
  obtain ⟨s, hrun, hcount, hnone⟩ : ∃ s, run (step none) initial
      [.callMethodAsync (methodCall 1) true 1000 false none] = some s ∧ s.handlers = 1 ∧
      handlers s = 0 := ⟨_, rfl, rfl, rfl⟩
  have hmem := mem_handlers.2 (h none s (reachable_of_run hrun) 0 (hcount ▸ Nat.one_pos))
  rw [hnone] at hmem
  exact absurd hmem (Multiset.notMem_zero _)

/-- The sessions have come round while a call still waits for its reply. -/
example : ∃ s, run (step none) initial
    [.callMethodAsync (methodCall 1) true 100000 true (some 1),
      .callMethodAsync (methodCall 2) true 1000 true (some 2),
      .callMethodAsync (methodCall 3) true 1000 true (some 1)] = some s ∧ s.handlers = 3 ∧
    0 ∉ handlers s :=
  ⟨_, rfl, rfl, by decide⟩

end SomeIPRuntime.AsyncAnswers
