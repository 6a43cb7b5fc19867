import Mathlib.Data.List.Sort
import SomeIPRuntime.AsyncAnswers
import SomeIPRuntime.ProgramRuns
import SomeIPRuntime.StepSystems

set_option autoImplicit false

namespace SomeIPRuntime.CleanupThread
open ProgramRuns StepSystems
open MethodCalls (CallStatus)
open AsyncAnswers (Answers Entry FakeSessionId MessageObject Time warned isExpired)

/-- The exceptions of `std::unique_lock` and of a handler, and a wait on a mutex that is not held. -/
inductive Failure
  | operationNotPermitted
  | resourceDeadlock
  | handler (key : FakeSessionId)
  | undefined
  deriving DecidableEq

/-- What the thread does for a call, and its waits, with the state of `itsLock`. -/
inductive Event
  | onMessageReply (key : FakeSessionId) (callStatus : CallStatus) (response : MessageObject)
      (locked : Bool)
  | pushQueue (key : FakeSessionId) (response : MessageObject) (locked : Bool)
  | waitFor (timeout : ℤ) (locked : Bool)

inductive Status
  | waiting
  | ended
  | failed (failure : Failure)
  deriving DecidableEq

/-- `taken` and `events` record the last pass: the keys of `asyncAnswersToProcess`, and what the thread
    has done. -/
structure State where
  ownsLock : Bool
  asyncAnswers : Answers
  asyncTimeouts : Answers
  objects : ℕ
  timeout : ℤ
  status : Status
  taken : List FakeSessionId
  events : List Event

/-- What a pass meets: how its wait has ended, what other threads do to `asyncAnswers_` before each of
    the two blocks under `sendReceiveMutex_`, what the clock shows there, whether a call finds the
    main loop, whether its handler throws, and whether the thread is cancelled. -/
structure Round where
  timedOut : Bool
  before : Answers → Answers
  now : Time
  mainLoop : FakeSessionId → Bool
  throws : FakeSessionId → Bool
  between : Answers → Answers
  later : Time
  cancelled : Bool

abbrev Thread := EStateM Failure State

def intMax : ℤ := 2 ^ 31 - 1

def unlock : Thread Unit := do
  if (← get).ownsLock then
    modify fun s => { s with ownsLock := false }
  else
    throw .operationNotPermitted

def lock : Thread Unit := do
  if (← get).ownsLock then
    throw .resourceDeadlock
  else
    modify fun s => { s with ownsLock := true }

def record (event : Bool → Event) : Thread Unit :=
  modify fun s => { s with events := s.events ++ [event s.ownsLock] }

def waitFor : Thread Unit := do
  let s ← get
  record (.waitFor s.timeout)
  if !s.ownsLock then
    throw .undefined

def createResponse (message : MessageObject) : Thread MessageObject := do
  let s ← get
  set { s with objects := s.objects + 1 }
  pure ⟨s.objects, message.call, message.message.createErrorResponseMessage .timeout⟩

/-- The calls that are due, in the order of a `std::map`. -/
def dueAnswers (now : Time) (answers : Answers) : List (Sigma fun _ : FakeSessionId => Entry) :=
  (Tables.filter (fun _ entry => isExpired now entry)
    (Tables.map (warned now) answers)).entries.insertionSort fun x y => x.1 ≤ y.1

def pendingAnswers (now : Time) (answers : Answers) : Answers :=
  Tables.filter (fun _ entry => !isExpired now entry) (Tables.map (warned now) answers)

def takeExpired (round : Round) : Thread (List (Sigma fun _ : FakeSessionId => Entry)) := do
  let s ← get
  let answers := round.before s.asyncAnswers
  let asyncAnswersToProcess := dueAnswers round.now answers
  set { s with
    asyncAnswers := pendingAnswers round.now answers
    taken := asyncAnswersToProcess.map Sigma.fst }
  pure asyncAnswersToProcess

def onMessageReply (round : Round) (key : FakeSessionId) (response : MessageObject) : Thread Unit := do
  record (.onMessageReply key .remoteError response)
  if round.throws key then
    throw (.handler key)

def pushTimeout (answer : Sigma fun _ : FakeSessionId => Entry) (response : MessageObject) :
    Thread Unit := do
  modify fun s => { s with asyncTimeouts := s.asyncTimeouts.insert answer.1 answer.2 }
  unlock
  record (.pushQueue answer.1 response)
  lock

def replyTimeout (round : Round) (key : FakeSessionId) (response : MessageObject) : Thread Unit :=
  tryCatch (do
    unlock
    onMessageReply round key response
    lock) fun _ => pure ()

def processAnswer (round : Round) (answer : Sigma fun _ : FakeSessionId => Entry) : Thread Unit := do
  let response ← createResponse answer.2.message
  if round.mainLoop answer.1 then
    pushTimeout answer response
  else
    replyTimeout round answer.1 response

def processAnswers (round : Round) : List (Sigma fun _ : FakeSessionId => Entry) → Thread Unit
  | [] => pure ()
  | answer :: rest => do
    processAnswer round answer
    processAnswers round rest

def remainingTime (now : Time) (entry : Entry) : ℤ :=
  (BitVec.ofInt 32 ((entry.timeoutTime - now).tdiv 1000000)).toInt

def upcomingTimeout (now : Time) (answers : Answers) : ℤ :=
  answers.entries.foldl (fun timeout x => min timeout (remainingTime now x.2)) intMax

def updateTimeout (round : Round) : Thread Unit :=
  modify fun s =>
    { s with
      asyncAnswers := round.between s.asyncAnswers
      timeout := upcomingTimeout round.later (round.between s.asyncAnswers) }

def endPass (round : Round) : Thread Unit := do
  updateTimeout round
  if !round.cancelled then
    waitFor

def pass (round : Round) : Thread Unit := do
  if round.timedOut then
    let asyncAnswersToProcess ← takeExpired round
    processAnswers round asyncAnswersToProcess
  endPass round

def step (s : State) (round : Round) : Option State :=
  if s.status = .waiting then
    match pass round { s with taken := [], events := [] } with
    | .ok _ t => some { t with status := if round.cancelled then .ended else .waiting }
    | .error failure t => some { t with status := .failed failure }
  else none

def started (answers : Answers) : State :=
  ⟨true, answers, ∅, 0, intMax, .waiting, [], [.waitFor intMax true]⟩

def Event.call : Event → Option FakeSessionId
  | .onMessageReply key .. => some key
  | .pushQueue key .. => some key
  | .waitFor .. => none

def Event.LocksRight : Event → Prop
  | .onMessageReply _ _ _ locked => locked = false
  | .pushQueue _ _ locked => locked = false
  | .waitFor _ locked => locked = true

def calls (s : State) : List FakeSessionId := s.events.filterMap Event.call

/-- In the last pass, each call that was taken has been timed out once, under the right locks. -/
structure Right (s : State) : Prop where
  runs : ∀ failure, s.status ≠ .failed failure
  once : ∀ key, (calls s).count key = if key ∈ s.taken then 1 else 0
  locks : ∀ event ∈ s.events, event.LocksRight

section Calls
variable {round : Round} {s t u : State} {answer : Sigma fun _ : FakeSessionId => Entry}
  {answers : List (Sigma fun _ : FakeSessionId => Entry)}

/-- The call goes to the main loop, or its handler does not throw. -/
def Survives (round : Round) (key : FakeSessionId) : Prop :=
  round.mainLoop key = true ∨ round.throws key = false

instance (round : Round) (key : FakeSessionId) : Decidable (Survives round key) :=
  inferInstanceAs (Decidable (_ ∨ _))

structure Went (answers : List (Sigma fun _ : FakeSessionId => Entry)) (s t : State) : Prop where
  taken : t.taken = s.taken
  calls : calls t = calls s ++ answers.map Sigma.fst
  locks : (∀ event ∈ s.events, event.LocksRight) → ∀ event ∈ t.events, event.LocksRight

theorem went_nothing (htaken : t.taken = s.taken) (hevents : t.events = s.events) : Went [] s t := by
  refine ⟨htaken, ?_, hevents ▸ id⟩
  unfold CleanupThread.calls
  rw [hevents, List.map_nil, List.append_nil]

theorem went_event {event : Event} (htaken : t.taken = s.taken) (hevents : t.events = s.events ++ [event])
    (hcall : event.call.toList = answers.map Sigma.fst) (hlocks : event.LocksRight) : Went answers s t := by
  refine ⟨htaken, ?_, ?_⟩
  · unfold CleanupThread.calls
    rw [hevents, List.filterMap_append, ← hcall]
    cases event <;> rfl
  · intro h other hother
    rw [hevents, List.mem_append, List.mem_singleton] at hother
    rcases hother with hold | rfl
    · exact h other hold
    · exact hlocks

theorem Went.trans {rest : List (Sigma fun _ : FakeSessionId => Entry)} (h : Went answers s t)
    (h' : Went rest t u) : Went (answers ++ rest) s u :=
  ⟨h'.taken.trans h.taken, by rw [h'.calls, h.calls, List.map_append, List.append_assoc],
    fun hlocks => h'.locks (h.locks hlocks)⟩

theorem createResponse_run (message : MessageObject) (s : State) :
    createResponse message s =
      .ok ⟨s.objects, message.call, message.message.createErrorResponseMessage .timeout⟩
        { s with objects := s.objects + 1 } := rfl

theorem record_run (event : Bool → Event) (s : State) :
    record event s = .ok ⟨⟩ { s with events := s.events ++ [event s.ownsLock] } := rfl

theorem tryCatch_run (x : Thread Unit) (handle : Failure → Thread Unit) :
    tryCatch x handle s = match x s with
      | .ok a t => .ok a t
      | .error failure t => handle failure t := by
  change EStateM.tryCatch x handle s = _
  unfold EStateM.tryCatch
  cases x s <;> rfl

theorem unlock_owned (h : s.ownsLock = true) : unlock s = .ok ⟨⟩ { s with ownsLock := false } := by
  unfold unlock
  rw [bind_ok (get_run s), if_pos h]
  rfl

theorem unlock_released (h : s.ownsLock = false) : unlock s = .error .operationNotPermitted s := by
  unfold unlock
  rw [bind_ok (get_run s), if_neg (h ▸ Bool.false_ne_true)]
  rfl

theorem lock_released (h : s.ownsLock = false) : lock s = .ok ⟨⟩ { s with ownsLock := true } := by
  unfold lock
  rw [bind_ok (get_run s), if_neg (h ▸ Bool.false_ne_true)]
  rfl

theorem pushTimeout_owned {response : MessageObject} (hs : s.ownsLock = true) :
    ∃ t, pushTimeout answer response s = .ok ⟨⟩ t ∧ Went [answer] s t ∧ t.ownsLock = true := by
  unfold pushTimeout
  rw [bind_ok (modify_run _ s)]
  generalize hu : ({ s with asyncTimeouts := s.asyncTimeouts.insert answer.1 answer.2 } : State) = u
  have hlock : u.ownsLock = true := by rw [← hu]; exact hs
  rw [bind_ok (unlock_owned hlock), bind_ok (record_run _ _), lock_released rfl]
  subst hu
  exact ⟨_, rfl, went_event rfl rfl rfl rfl, rfl⟩

theorem replyTimeout_owned {response : MessageObject} (hs : s.ownsLock = true) :
    ∃ t, replyTimeout round answer.1 response s = .ok ⟨⟩ t ∧ Went [answer] s t ∧
      (t.ownsLock = true ↔ round.throws answer.1 = false) := by
  unfold replyTimeout onMessageReply
  rw [tryCatch_run, bind_ok (unlock_owned hs), bind_assoc, bind_ok (record_run _ _)]
  cases round.throws answer.1 with
  | true =>
    rw [if_pos rfl]
    exact ⟨_, rfl, went_event rfl rfl rfl rfl, iff_of_false nofun nofun⟩
  | false =>
    rw [if_neg Bool.false_ne_true, bind_ok (pure_run _ _), lock_released rfl]
    exact ⟨_, rfl, went_event rfl rfl rfl rfl, iff_of_true rfl rfl⟩

/-- A thread that holds the lock times the call out. It gets the lock back unless the handler throws. -/
theorem processAnswer_owned (round : Round) (answer : Sigma fun _ : FakeSessionId => Entry)
    (hs : s.ownsLock = true) :
    ∃ t, processAnswer round answer s = .ok ⟨⟩ t ∧ Went [answer] s t ∧
      (t.ownsLock = true ↔ Survives round answer.1) := by
  unfold processAnswer Survives
  rw [bind_ok (createResponse_run _ s)]
  cases round.mainLoop answer.1 with
  | true =>
    rw [if_pos rfl]
    rcases pushTimeout_owned (s := { s with objects := s.objects + 1 }) hs with ⟨t, hrun, hwent, ht⟩
    exact ⟨t, hrun, ⟨hwent.taken, hwent.calls, hwent.locks⟩, iff_of_true ht (Or.inl rfl)⟩
  | false =>
    rw [if_neg Bool.false_ne_true]
    rcases replyTimeout_owned (s := { s with objects := s.objects + 1 }) hs with ⟨t, hrun, hwent, ht⟩
    exact ⟨t, hrun, ⟨hwent.taken, hwent.calls, hwent.locks⟩,
      ht.trans (or_iff_right Bool.false_ne_true).symm⟩

theorem processAnswer_released (round : Round) (answer : Sigma fun _ : FakeSessionId => Entry)
    (hs : s.ownsLock = false) :
    (∃ failure t, processAnswer round answer s = .error failure t) ∨
      ∃ t, processAnswer round answer s = .ok ⟨⟩ t ∧ Went [] s t ∧ t.ownsLock = false := by
  unfold processAnswer
  rw [bind_ok (createResponse_run _ s)]
  cases round.mainLoop answer.1 with
  | true =>
    left
    rw [if_pos rfl]
    unfold pushTimeout
    rw [bind_ok (modify_run _ _)]
    exact ⟨_, _, bind_error (unlock_released hs)⟩
  | false =>
    right
    rw [if_neg Bool.false_ne_true]
    unfold replyTimeout
    rw [tryCatch_run]
    have hunlock := unlock_released (s := { s with objects := s.objects + 1 }) hs
    rw [bind_error hunlock]
    exact ⟨_, rfl, went_nothing rfl rfl, hs⟩

theorem processAnswers_released (round : Round)
    (answers : List (Sigma fun _ : FakeSessionId => Entry)) (hs : s.ownsLock = false) :
    (answers ≠ [] ∧ ∃ failure t, processAnswers round answers s = .error failure t) ∨
      ∃ t, processAnswers round answers s = .ok ⟨⟩ t ∧ Went [] s t ∧ t.ownsLock = false := by
  induction answers generalizing s with
  | nil => exact Or.inr ⟨s, rfl, went_nothing rfl rfl, hs⟩
  | cons answer rest ih =>
    rcases processAnswer_released round answer hs with
      ⟨failure, t, hrun⟩ | ⟨t, hrun, hwent, ht⟩
    · exact Or.inl ⟨List.cons_ne_nil _ _, failure, t, bind_error hrun⟩
    · rcases ih ht with ⟨_, failure, u, hrest⟩ | ⟨u, hrest, hwent', hu⟩
      · exact Or.inl ⟨List.cons_ne_nil _ _, failure, u, (bind_ok hrun).trans hrest⟩
      · exact Or.inr ⟨u, (bind_ok hrun).trans hrest, hwent.trans hwent', hu⟩

/-- All calls are timed out up to the first that throws, and none behind it. -/
theorem processAnswers_owned (round : Round)
    (answers : List (Sigma fun _ : FakeSessionId => Entry)) (hs : s.ownsLock = true) :
    ((∀ answer ∈ answers, Survives round answer.1) ∧
      ∃ t, processAnswers round answers s = .ok ⟨⟩ t ∧ Went answers s t ∧ t.ownsLock = true) ∨
    ∃ before answer behind, answers = before ++ answer :: behind ∧
      (∀ answer ∈ before, Survives round answer.1) ∧ ¬ Survives round answer.1 ∧
      ((behind ≠ [] ∧ ∃ failure t, processAnswers round answers s = .error failure t) ∨
        ∃ t, processAnswers round answers s = .ok ⟨⟩ t ∧ Went (before ++ [answer]) s t ∧
          t.ownsLock = false) := by
  induction answers generalizing s with
  | nil => exact Or.inl ⟨List.forall_mem_nil _, s, rfl, went_nothing rfl rfl, hs⟩
  | cons answer rest ih =>
    rcases processAnswer_owned round answer hs with ⟨t, hrun, hwent, hlock⟩
    by_cases hsurvives : Survives round answer.1
    · rcases ih (hlock.2 hsurvives) with ⟨hall, u, hrest, hwent', hu⟩ |
        ⟨before, throwing, behind, rfl, hbefore, hthrows, hends⟩
      · exact Or.inl ⟨List.forall_mem_cons.2 ⟨hsurvives, hall⟩, u, (bind_ok hrun).trans hrest,
          hwent.trans hwent', hu⟩
      · refine Or.inr ⟨answer :: before, throwing, behind, rfl,
          List.forall_mem_cons.2 ⟨hsurvives, hbefore⟩, hthrows, ?_⟩
        rcases hends with ⟨hne, failure, u, hrest⟩ | ⟨u, hrest, hwent', hu⟩
        · exact Or.inl ⟨hne, failure, u, (bind_ok hrun).trans hrest⟩
        · exact Or.inr ⟨u, (bind_ok hrun).trans hrest, hwent.trans hwent', hu⟩
    · have ht : t.ownsLock = false := by
        rw [← Bool.not_eq_true, hlock]
        exact hsurvives
      refine Or.inr ⟨[], answer, rest, rfl, List.forall_mem_nil _, hsurvives, ?_⟩
      rcases processAnswers_released round rest ht with
        ⟨hne, failure, u, hrest⟩ | ⟨u, hrest, hwent', hu⟩
      · exact Or.inl ⟨hne, failure, u, (bind_ok hrun).trans hrest⟩
      · exact Or.inr ⟨u, (bind_ok hrun).trans hrest, hwent.trans hwent', hu⟩

end Calls

section Passes
variable {round : Round} {s t : State}

def answersOf (s : State) (round : Round) : List (Sigma fun _ : FakeSessionId => Entry) :=
  if round.timedOut then dueAnswers round.now (round.before s.asyncAnswers) else []

/-- No handler throws. The last one may if the thread ends with the pass. -/
def Quiet (s : State) (round : Round) : Prop :=
  ∀ answer ∈ if round.cancelled then (answersOf s round).dropLast else answersOf s round,
    Survives round answer.1

instance (s : State) (round : Round) : Decidable (Quiet s round) :=
  inferInstanceAs (Decidable (∀ answer ∈ _, _))

theorem answersOf_nodup (s : State) (round : Round) : ((answersOf s round).map Sigma.fst).Nodup := by
  unfold answersOf dueAnswers
  split
  · refine ((List.perm_insertionSort _ _).map Sigma.fst).nodup_iff.2 ?_
    exact (Tables.filter _ _).nodupKeys
  · exact List.nodup_nil

theorem pass_run (round : Round) (s : State) :
    ∃ u, u.ownsLock = s.ownsLock ∧ u.taken = (answersOf s round).map Sigma.fst ∧ calls u = [] ∧
      (∀ event ∈ u.events, event.LocksRight) ∧
      pass round { s with taken := [], events := [] } =
        (processAnswers round (answersOf s round) >>= fun _ => endPass round) u := by
  unfold pass answersOf
  cases round.timedOut with
  | false =>
    exact ⟨{ s with taken := [], events := [] }, rfl, rfl, rfl, List.forall_mem_nil _, rfl⟩
  | true =>
    exact ⟨{ s with
        asyncAnswers := pendingAnswers round.now (round.before s.asyncAnswers)
        taken := (dueAnswers round.now (round.before s.asyncAnswers)).map Sigma.fst
        events := [] }, rfl, rfl, rfl, List.forall_mem_nil _, rfl⟩

theorem endPass_owned (round : Round) (hs : s.ownsLock = true) :
    ∃ t, endPass round s = .ok ⟨⟩ t ∧ Went [] s t ∧ t.ownsLock = true := by
  unfold endPass updateTimeout
  rw [bind_ok (modify_run _ s)]
  generalize hu : ({ s with
    asyncAnswers := round.between s.asyncAnswers
    timeout := upcomingTimeout round.later (round.between s.asyncAnswers) } : State) = u
  have hlock : u.ownsLock = true := by rw [← hu]; exact hs
  have hwent : Went [] s u := by subst hu; exact went_nothing rfl rfl
  cases round.cancelled with
  | true => exact ⟨u, rfl, hwent, hlock⟩
  | false =>
    have hwait : waitFor u = .ok ⟨⟩ { u with events := u.events ++ [.waitFor u.timeout u.ownsLock] } := by
      unfold waitFor
      rw [bind_ok (get_run u), bind_ok (record_run _ _), if_neg (by rw [hlock]; decide)]
      rfl
    exact ⟨_, hwait, hwent.trans (went_event rfl rfl rfl hlock), hlock⟩

theorem endPass_released (round : Round) (hs : s.ownsLock = false) :
    if round.cancelled then ∃ t, endPass round s = .ok ⟨⟩ t ∧ Went [] s t
    else ∃ failure t, endPass round s = .error failure t := by
  unfold endPass updateTimeout
  rw [bind_ok (modify_run _ s)]
  generalize hu : ({ s with
    asyncAnswers := round.between s.asyncAnswers
    timeout := upcomingTimeout round.later (round.between s.asyncAnswers) } : State) = u
  have hlock : u.ownsLock = false := by rw [← hu]; exact hs
  cases round.cancelled with
  | true =>
    subst hu
    exact ⟨_, rfl, went_nothing rfl rfl⟩
  | false =>
    have hwait : waitFor u = .error .undefined
        { u with events := u.events ++ [.waitFor u.timeout u.ownsLock] } := by
      unfold waitFor
      rw [bind_ok (get_run u), bind_ok (record_run _ _), if_pos (by rw [hlock]; rfl)]
      rfl
    exact ⟨_, _, hwait⟩

theorem step_enabled (hstep : step s round = some t) : s.status = .waiting := by
  unfold step at hstep
  split at hstep
  · assumption
  · cases hstep

theorem step_returned (hs : s.status = .waiting)
    (hrun : pass round { s with taken := [], events := [] } = .ok ⟨⟩ t) :
    step s round = some { t with status := if round.cancelled then .ended else .waiting } := by
  unfold step
  rw [if_pos hs, hrun]

theorem step_failed {failure : Failure} (hs : s.status = .waiting)
    (hrun : pass round { s with taken := [], events := [] } = .error failure t) :
    step s round = some { t with status := .failed failure } := by
  unfold step
  rw [if_pos hs, hrun]

theorem quiet_of_all (h : ∀ answer ∈ answersOf s round, Survives round answer.1) : Quiet s round := by
  intro answer hmem
  split at hmem
  · exact h answer (List.mem_of_mem_dropLast hmem)
  · exact h answer hmem

theorem not_quiet {answer : Sigma fun _ : FakeSessionId => Entry}
    {before behind : List (Sigma fun _ : FakeSessionId => Entry)}
    (hanswers : answersOf s round = before ++ answer :: behind) (hthrows : ¬ Survives round answer.1)
    (h : behind ≠ [] ∨ round.cancelled = false) : ¬ Quiet s round := by
  intro hquiet
  refine hthrows (hquiet answer ?_)
  rw [hanswers]
  split
  · have hne := h.resolve_right (by rw [‹round.cancelled = true›]; exact nofun)
    rw [List.dropLast_append_cons, List.dropLast_cons_of_ne_nil hne]
    exact List.mem_append_right _ List.mem_cons_self
  · exact List.mem_append_right _ List.mem_cons_self

theorem right_of_went {u v : State} {status : Status} (hstatus : ∀ failure, status ≠ .failed failure)
    (htaken : u.taken = (answersOf s round).map Sigma.fst) (hcalls : calls u = [])
    (hlocks : ∀ event ∈ u.events, event.LocksRight) (hwent : Went (answersOf s round) u v) :
    Right { v with status := status } := by
  refine ⟨hstatus, ?_, hwent.locks hlocks⟩
  intro key
  have hkeys : calls v = (answersOf s round).map Sigma.fst := by
    rw [hwent.calls, hcalls, List.nil_append]
  change (calls v).count key = if key ∈ v.taken then 1 else 0
  rw [hkeys, hwent.taken, htaken, (answersOf_nodup s round).count]

theorem not_right_of_went {u v : State} {status : Status}
    {before behind : List (Sigma fun _ : FakeSessionId => Entry)} (hbehind : behind ≠ [])
    (hanswers : answersOf s round = before ++ behind)
    (htaken : u.taken = (answersOf s round).map Sigma.fst) (hcalls : calls u = [])
    (hwent : Went before u v) : ¬ Right { v with status := status } := by
  intro h
  rcases List.exists_mem_of_ne_nil behind hbehind with ⟨missed, hmissed⟩
  have hnodup := answersOf_nodup s round
  have honce : (calls v).count missed.1 = if missed.1 ∈ v.taken then 1 else 0 := h.once missed.1
  rw [hanswers, List.map_append, List.nodup_append'] at hnodup
  rw [hwent.calls, hcalls, List.nil_append, hwent.taken, htaken, hanswers, List.map_append,
    if_pos (List.mem_append_right _ (List.mem_map_of_mem hmissed)), List.count_eq_zero.2] at honce
  · cases honce
  · exact fun hmem => hnodup.2.2 hmem (List.mem_map_of_mem hmissed)

/-- From a wait with the lock, a pass is right just if it is quiet, and then the next wait has the
    lock. -/
theorem step_right_iff (hlock : s.ownsLock = true) (hstep : step s round = some t) :
    (Right t ↔ Quiet s round) ∧ (Quiet s round → t.status = .waiting → t.ownsLock = true) := by
  have hwaiting := step_enabled hstep
  rcases pass_run round s with ⟨u, hu, htaken, hcalls, hlocks, hpass⟩
  rcases processAnswers_owned round (answersOf s round) (hu.trans hlock) with
    ⟨hall, v, hrun, hwent, hv⟩ | ⟨before, answer, behind, hanswers, hbefore, hthrows, hends⟩
  · rcases endPass_owned round hv with ⟨w, hend, hwent', hw⟩
    have hreturned := step_returned hwaiting (hpass.trans ((bind_ok hrun).trans hend))
    cases hstep.symm.trans hreturned
    refine ⟨iff_of_true ?_ (quiet_of_all hall), fun _ _ => hw⟩
    refine right_of_went (fun _ => by split <;> exact nofun) htaken hcalls hlocks ?_
    have htrans := hwent.trans hwent'
    rw [List.append_nil] at htrans
    exact htrans
  · have hfailed : ∀ {failure : Failure} {w : State},
        pass round { s with taken := [], events := [] } = .error failure w → ¬ Right t := by
      intro failure w hfails h
      cases hstep.symm.trans (step_failed hwaiting hfails)
      exact h.runs failure rfl
    rcases hends with ⟨hne, failure, v, hrun⟩ | ⟨v, hrun, hwent, hv⟩
    · have hno := not_quiet hanswers hthrows (Or.inl hne)
      exact ⟨iff_of_false (hfailed (hpass.trans (bind_error hrun))) hno, fun h => absurd h hno⟩
    · have hend := endPass_released round hv
      cases hcancelled : round.cancelled with
      | false =>
        rw [hcancelled] at hend
        rcases hend with ⟨failure, w, hend⟩
        have hno := not_quiet hanswers hthrows (Or.inr hcancelled)
        exact ⟨iff_of_false (hfailed (hpass.trans ((bind_ok hrun).trans hend))) hno,
          fun h => absurd h hno⟩
      | true =>
        rw [hcancelled] at hend
        rcases hend with ⟨w, hend, hwent'⟩
        have hreturned := step_returned hwaiting (hpass.trans ((bind_ok hrun).trans hend))
        cases hstep.symm.trans hreturned
        have htrans := hwent.trans hwent'
        rw [List.append_nil] at htrans
        by_cases hbehind : behind = []
        · subst hbehind
          rw [← hanswers] at htrans
          refine ⟨iff_of_true (right_of_went (fun _ => by split <;> exact nofun) htaken hcalls hlocks htrans)
            ?_, fun _ h => by rw [hcancelled] at h; cases h⟩
          intro other hmem
          rw [if_pos hcancelled, hanswers, List.dropLast_concat] at hmem
          exact hbefore other hmem
        · have hsplit : answersOf s round = (before ++ [answer]) ++ behind := by
            rw [hanswers, List.append_assoc]
            rfl
          have hno := not_quiet hanswers hthrows (Or.inl hbehind)
          exact ⟨iff_of_false (not_right_of_went hbehind hsplit htaken hcalls htrans) hno,
            fun h => absurd h hno⟩

end Passes

structure Waiting (s : State) : Prop where
  right : Right s
  ownsLock : s.status = .waiting → s.ownsLock = true

theorem started_waiting (answers : Answers) : Waiting (started answers) := by
  refine ⟨⟨nofun, fun _ => rfl, ?_⟩, fun _ => rfl⟩
  intro event hevent
  cases List.mem_singleton.1 hevent
  rfl

/-- Along a run, each pass times its calls out once, under the right locks, just if no handler of a
    call that is timed out without a main loop throws. -/
theorem cleanup_survives_iff {answers : Answers} {rounds : List Round} {t : State}
    (hrun : run step (started answers) rounds = some t) :
    Along step Right (started answers) rounds ↔ Meets step Quiet (started answers) rounds := by
  refine along_iff_meets hrun (started_waiting answers) (fun _ => Waiting.right) ?_ ?_
  · intro s round t hs hquiet hstep
    rcases step_right_iff (hs.ownsLock (step_enabled hstep)) hstep with ⟨hiff, hnext⟩
    exact ⟨hiff.2 hquiet, hnext hquiet⟩
  · intro s round t hs hstep hright
    exact (step_right_iff (hs.ownsLock (step_enabled hstep)) hstep).1.1 hright

def twoDue : Answers :=
  ((∅ : Answers).insert 2 ⟨0, ⟨1, some 1, VsomeipMessage.createMethodCall ⟨1, 1, 1, 0⟩ 2⟩, 1, 0⟩).insert 1
    ⟨0, ⟨0, some 0, VsomeipMessage.createMethodCall ⟨1, 1, 1, 0⟩ 1⟩, 0, 0⟩

def passOver (mainLoop : Bool) (throwing : List FakeSessionId) : Round :=
  ⟨true, id, 1, fun _ => mainLoop, fun key => throwing.contains key, id, 1, false⟩

theorem quiet_passes_survive :
    Along step Right (started twoDue) [passOver true [1, 2], passOver false []] :=
  (cleanup_survives_iff (t := (run step (started twoDue) [passOver true [1, 2], passOver false []]).get
    (by decide +kernel)) (Option.some_get _).symm).2 (by decide +kernel)

/-- Only the first of two calls is timed out, and the next wait is without the lock. -/
theorem throwing_handler_loses_call :
    ¬ ∀ (answers : Answers) (rounds : List Round) (t : State),
      run step (started answers) rounds = some t → Along step Right (started answers) rounds := by
  intro h
  have hrun : ∃ t, run step (started twoDue) [passOver false [1]] = some t ∧ calls t = [1] ∧
      t.taken = [1, 2] ∧ t.status = .failed .undefined := ⟨_, rfl, rfl, rfl, rfl⟩
  rcases hrun with ⟨t, hrun, _, _, hstatus⟩
  have hstep : step (started twoDue) (passOver false [1]) = some t := by
    rw [run, Option.bind_eq_some_iff] at hrun
    rcases hrun with ⟨u, hstep, hu⟩
    cases hu
    exact hstep
  have halong := h twoDue [passOver false [1]] t hrun
  exact (halong.2 t hstep).runs _ hstatus

end SomeIPRuntime.CleanupThread
