import SomeIPRuntime.CleanupPass

set_option autoImplicit false

/-!
# The deadlines of the calls and the sleep of the cleanup

The cleanup thread, and the threads that put calls into `asyncAnswers_` and take them out. Each block
under `sendReceiveMutex_`, each notification, each look at the clock and each wait is one step.
-/
namespace SomeIPRuntime.CleanupDeadlines
open StepSystems
open AsyncAnswers (Entry FakeSessionId MessageObject Time milliseconds ASYNC_MESSAGE_REPLY_TIMEOUT_MS)
open CleanupThread (intMax remainingTime upcomingTimeout)

/-- Where the thread is in `cleanup`. From `expiring` to `bounded` it holds `cleanupMutex_` if `locked`;
    in a wait it does not. -/
inductive Place
  | starting
  | waiting (wakes : Time)
  | awake (timedOut : Bool)
  | expiring (now : Time)
  | processing (locked : Bool)
  | updating (locked : Bool) (now : Time)
  | bounded (locked : Bool) (now : Time) (timeout : ℤ)
  | ended
  deriving DecidableEq

/-- `notifiers` counts the threads that have stored a call and not yet notified the cleanup. -/
structure System where
  connection : AsyncAnswers.State
  place : Place
  notifiers : ℕ
  cleanupCancelled : Bool

def initial : System := ⟨AsyncAnswers.initial, .starting, 0, false⟩

inductive Action
  | sendMessageWithReplyAsync (message : MessageObject) (handler : ℕ) (timeout : ℤ) (isConnected : Bool)
      (session : Option SessionId)
  | notify
  | proxyPushMessageToMainLoop (message : MessageObject) (handler : ℕ)
  | handleProxyReceive (message : MessageObject)
  | cancelAsyncAnswers (service : ServiceId) (instance_ : InstanceId)
  | doDisconnect
  | elapse (time : ℕ)
  | wait
  | wake (timedOut : Bool)
  | readClock
  | expire
  | unlock
  | lock
  | updateTimeout

def Place.holdsMutex : Place → Bool
  | .expiring _ => true
  | .processing locked => locked
  | .updating locked _ => locked
  | .bounded locked _ _ => locked
  | .starting | .waiting _ | .awake _ | .ended => false

def Place.notified : Place → Place
  | .waiting _ => .awake false
  | place => place

/-- `wait_for` begins at the time of the step, unless the thread has been cancelled. -/
def startWait (timeout : ℤ) (s : System) : System :=
  if s.cleanupCancelled then { s with place := .ended }
  else { s with place := .waiting (s.connection.now + milliseconds timeout) }

def step (timeoutWarnThreshold : Option ℤ) (s : System) : Action → Option System
  | .sendMessageWithReplyAsync message handler timeout isConnected session =>
    let (sent, connection) := AsyncAnswers.sendMessageWithReplyAsync timeoutWarnThreshold message handler
      timeout isConnected session s.connection
    some { s with connection, notifiers := if sent then s.notifiers + 1 else s.notifiers }
  | .notify =>
    if 0 < s.notifiers ∧ s.place.holdsMutex = false then
      some { s with place := s.place.notified, notifiers := s.notifiers - 1 }
    else none
  | .proxyPushMessageToMainLoop message handler =>
    some { s with connection := AsyncAnswers.proxyPushMessageToMainLoop message handler s.connection }
  | .handleProxyReceive message =>
    some { s with connection := AsyncAnswers.handleProxyReceive message s.connection }
  | .cancelAsyncAnswers service instance_ =>
    some { s with connection := AsyncAnswers.cancelAsyncAnswers service instance_ s.connection }
  | .doDisconnect =>
    if s.place.holdsMutex = false then
      some { s with place := s.place.notified, cleanupCancelled := true }
    else none
  | .elapse time =>
    some { s with connection := { s.connection with now := s.connection.now + time } }
  | .wait =>
    match s.place with
    | .starting => some (startWait intMax s)
    | .bounded _ _ timeout => some (startWait timeout s)
    | _ => none
  | .wake timedOut =>
    match s.place with
    | .waiting wakes =>
      if timedOut = true → wakes ≤ s.connection.now then some { s with place := .awake timedOut } else none
    | _ => none
  | .readClock =>
    match s.place with
    | .awake true => some { s with place := .expiring s.connection.now }
    | .awake false => some { s with place := .updating true s.connection.now }
    | .processing locked => some { s with place := .updating locked s.connection.now }
    | _ => none
  | .expire =>
    match s.place with
    | .expiring now =>
      some { s with connection := AsyncAnswers.cleanup now s.connection, place := .processing true }
    | _ => none
  | .unlock => if s.place = .processing true then some { s with place := .processing false } else none
  | .lock => if s.place = .processing false then some { s with place := .processing true } else none
  | .updateTimeout =>
    match s.place with
    | .updating locked now =>
      some { s with place := .bounded locked now (upcomingTimeout now s.connection.asyncAnswers) }
    | _ => none

def InTime (now wakes deadline : Time) : Prop := wakes < deadline + milliseconds 1 ∨ wakes ≤ now

instance (now wakes deadline : Time) : Decidable (InTime now wakes deadline) :=
  inferInstanceAs (Decidable (_ ∨ _))

/-- While the thread sleeps, it wakes in time for all calls, or a notification is still to come. -/
def NoneSleptThrough (s : System) : Prop :=
  ∀ wakes, s.place = .waiting wakes → 0 < s.notifiers ∨
    ∀ x ∈ s.connection.asyncAnswers.entries, InTime s.connection.now wakes x.2.timeoutTime

def ShortEnough (s : System) (deadline : Time) : Prop :=
  match s.place with
  | .waiting wakes => InTime s.connection.now wakes deadline
  | .bounded _ now timeout => timeout ≤ 0 ∨ now + milliseconds timeout ≤ deadline
  | _ => True

/-- What keeps the thread from sleeping through a deadline. A call that is stored without a notification
    finds it awake, or with a notification on the way, or in a short enough wait. The first wait begins
    before a call has been notified. No handler leaves the mutex released. Nothing is overdue by as much
    as an `int` of milliseconds. And a wait begins in the millisecond in which its clock was read. -/
def Careful (s : System) : Action → Prop
  | .proxyPushMessageToMainLoop _ _ =>
    0 < s.notifiers ∨ ShortEnough s (s.connection.now + milliseconds ASYNC_MESSAGE_REPLY_TIMEOUT_MS)
  | .readClock => s.place ≠ .processing false
  | .updateTimeout =>
    match s.place with
    | .updating _ now => ∀ x ∈ s.connection.asyncAnswers.entries,
        -2 ^ 31 ≤ (x.2.timeoutTime - now).tdiv 1000000
    | _ => True
  | .wait =>
    match s.place with
    | .starting =>
      0 < s.notifiers ∨ ∀ x ∈ s.connection.asyncAnswers.entries,
        s.connection.now + milliseconds intMax < x.2.timeoutTime + milliseconds 1
    | .bounded _ now timeout =>
      0 < s.notifiers ∨ s.connection.asyncAnswers.entries = [] ∨ timeout ≤ 0 ∨
        s.connection.now < now + milliseconds 1
    | _ => True
  | _ => True

theorem milliseconds_mono {a b : ℤ} (h : a ≤ b) : milliseconds a ≤ milliseconds b :=
  mul_le_mul_of_nonneg_right h (by decide)

/-- A time of `int` milliseconds is not longer than the time that is left. -/
theorem remainingTime_le {now : Time} {entry : Entry}
    (h : -2 ^ 31 ≤ (entry.timeoutTime - now).tdiv 1000000) :
    remainingTime now entry ≤ 0 ∨ now + milliseconds (remainingTime now entry) ≤ entry.timeoutTime := by
  have hwrap : remainingTime now entry =
      ((entry.timeoutTime - now).tdiv 1000000).bmod (2 ^ 32) := BitVec.toInt_ofInt _
  rcases lt_or_ge (entry.timeoutTime - now) 0 with hover | hleft
  · left
    have hneg : 0 ≤ (-(entry.timeoutTime - now)).tdiv 1000000 :=
      Int.tdiv_nonneg (neg_nonneg.2 hover.le) (by decide)
    rw [Int.neg_tdiv] at hneg
    rw [hwrap, Int.bmod_def]
    split <;> omega
  · right
    have hdiv := Int.tdiv_eq_ediv_of_nonneg (b := 1000000) hleft
    have hle : remainingTime now entry ≤ (entry.timeoutTime - now) / 1000000 := by
      rw [hwrap, hdiv, Int.bmod_def]
      split <;> omega
    have hsum : ∀ a c d : ℤ, a ≤ (c - d) / 1000000 → d + a * 1000000 ≤ c := by omega
    exact hsum _ _ _ hle

theorem foldl_min_le {α : Type} (f : α → ℤ) (xs : List α) (timeout : ℤ) :
    xs.foldl (fun timeout x => min timeout (f x)) timeout ≤ timeout := by
  induction xs generalizing timeout with
  | nil => exact le_rfl
  | cons x xs ih => exact (ih _).trans (min_le_left _ _)

theorem upcomingTimeout_le (now : Time) {answers : AsyncAnswers.Answers}
    {x : Sigma fun _ : FakeSessionId => Entry} (hx : x ∈ answers.entries) :
    upcomingTimeout now answers ≤ remainingTime now x.2 := by
  unfold upcomingTimeout
  generalize intMax = timeout
  revert hx
  induction answers.entries generalizing timeout with
  | nil => exact fun hx => absurd hx List.not_mem_nil
  | cons first rest ih =>
    intro hx
    rcases List.mem_cons.1 hx with rfl | hx
    · exact (foldl_min_le _ rest _).trans (min_le_right _ _)
    · exact ih _ hx

theorem inTime_of_prompt {clock now deadline : Time} {timeout : ℤ}
    (h : timeout ≤ 0 ∨ clock + milliseconds timeout ≤ deadline)
    (hprompt : timeout ≤ 0 ∨ now < clock + milliseconds 1) :
    InTime now (now + milliseconds timeout) deadline := by
  by_cases hzero : timeout ≤ 0
  · exact Or.inr (add_le_of_nonpos_right (milliseconds_mono hzero))
  · have hlt : now + milliseconds timeout < clock + milliseconds 1 + milliseconds timeout :=
      add_lt_add_left (hprompt.resolve_left hzero) _
    have hle : clock + milliseconds timeout + milliseconds 1 ≤ deadline + milliseconds 1 :=
      add_le_add_left (h.resolve_left hzero) _
    rw [add_right_comm] at hlt
    exact Or.inl (hlt.trans_le hle)

def Place.Locked : Place → Prop
  | .updating locked _ | .bounded locked _ _ => locked = true
  | _ => True

structure Watched (s : System) : Prop where
  short : 0 < s.notifiers ∨
    ∀ x ∈ s.connection.asyncAnswers.entries, ShortEnough s x.2.timeoutTime
  locked : s.place.Locked

section Steps
variable {s t : System} {timeoutWarnThreshold : Option ℤ}

theorem ShortEnough.later {deadline : Time} (h : ShortEnough s deadline) (hplace : t.place = s.place)
    (hnow : s.connection.now ≤ t.connection.now) : ShortEnough t deadline := by
  unfold ShortEnough at h ⊢
  rw [hplace]
  split
  · rename_i hwaiting
    rw [hwaiting] at h
    exact h.imp_right fun hwakes => hwakes.trans hnow
  · rename_i hbounded
    rw [hbounded] at h
    exact h
  · trivial

theorem Watched.fewer (h : Watched s) (hplace : t.place = s.place) (hnotifiers : t.notifiers = s.notifiers)
    (hfewer : ∀ x ∈ t.connection.asyncAnswers.entries, x ∈ s.connection.asyncAnswers.entries)
    (hnow : s.connection.now ≤ t.connection.now) : Watched t := by
  refine ⟨?_, hplace ▸ h.locked⟩
  rw [hnotifiers]
  exact h.short.imp_right fun hall x hx => (hall x (hfewer x hx)).later hplace hnow

theorem watched_awake (hlocked : t.place.Locked) (hshort : ∀ deadline, ShortEnough t deadline) : Watched t :=
  ⟨Or.inr fun _ _ => hshort _, hlocked⟩

theorem notified_awake (h : s.place.holdsMutex = false) (hlocked : s.place.Locked)
    (hplace : t.place = s.place.notified) : Watched t := by
  apply watched_awake
  · rw [hplace]
    cases hs : s.place with
    | waiting => trivial
    | _ =>
      rw [hs] at hlocked
      exact hlocked
  · intro deadline
    unfold ShortEnough
    rw [hplace]
    cases hs : s.place with
    | bounded =>
      rw [hs] at h hlocked
      cases h.symm.trans hlocked
    | _ => trivial

theorem sendMessageWithReplyAsync_unsent {message : MessageObject} {handler : ℕ} {timeout : ℤ}
    {isConnected : Bool} {session : Option SessionId} {connection connection' : AsyncAnswers.State}
    (h : AsyncAnswers.sendMessageWithReplyAsync timeoutWarnThreshold message handler timeout isConnected
      session connection = (false, connection')) :
    connection'.now = connection.now ∧ connection'.asyncAnswers = connection.asyncAnswers := by
  unfold AsyncAnswers.sendMessageWithReplyAsync at h
  cases isConnected with
  | false =>
    cases h
    exact ⟨rfl, rfl⟩
  | true =>
    cases session <;>
    · dsimp only [AsyncAnswers.send] at h
      rw [if_neg (by decide)] at h
      split at h <;> cases h
      exact ⟨rfl, rfl⟩

theorem sendMessageWithReplyAsync_watched {message : MessageObject} {handler : ℕ} {timeout : ℤ}
    {isConnected : Bool} {session : Option SessionId} (h : Watched s)
    (hstep : step timeoutWarnThreshold s
      (.sendMessageWithReplyAsync message handler timeout isConnected session) = some t) : Watched t := by
  cases hsend : AsyncAnswers.sendMessageWithReplyAsync timeoutWarnThreshold message handler timeout
    isConnected session s.connection with
  | mk sent connection =>
    simp only [step, hsend] at hstep
    cases hstep
    cases sent with
    | true => exact ⟨Or.inl (Nat.succ_pos _), h.locked⟩
    | false =>
      rcases sendMessageWithReplyAsync_unsent hsend with ⟨hnow, hanswers⟩
      exact h.fewer rfl rfl (fun x hx => hanswers ▸ hx) hnow.ge

theorem proxyPushMessageToMainLoop_adds (message : MessageObject) (handler : ℕ)
    (connection : AsyncAnswers.State) :
    (AsyncAnswers.proxyPushMessageToMainLoop message handler connection).now = connection.now ∧
      ∀ x ∈ (AsyncAnswers.proxyPushMessageToMainLoop message handler connection).asyncAnswers.entries,
        x.2.timeoutTime = connection.now + milliseconds ASYNC_MESSAGE_REPLY_TIMEOUT_MS ∨
          x ∈ connection.asyncAnswers.entries := by
  unfold AsyncAnswers.proxyPushMessageToMainLoop AsyncAnswers.store
  split <;>
  · refine ⟨rfl, fun x hx => ?_⟩
    rcases Tables.mem_insert_entries hx with rfl | hold
    · exact Or.inl rfl
    · exact Or.inr hold

theorem proxyPushMessageToMainLoop_watched {message : MessageObject} {handler : ℕ} (h : Watched s)
    (hok : Careful s (.proxyPushMessageToMainLoop message handler))
    (hstep : step timeoutWarnThreshold s (.proxyPushMessageToMainLoop message handler) = some t) :
    Watched t := by
  cases hstep
  rcases proxyPushMessageToMainLoop_adds message handler s.connection with ⟨hnow, hadds⟩
  refine ⟨?_, h.locked⟩
  rcases h.short with hnotifiers | hall
  · exact Or.inl hnotifiers
  · refine hok.imp_right fun hshort x hx => ?_
    rcases hadds x hx with hnew | hold
    · rw [hnew]
      exact ShortEnough.later hshort rfl hnow.ge
    · exact (hall x hold).later rfl hnow.ge

theorem handleProxyReceive_fewer (message : MessageObject) (connection : AsyncAnswers.State) :
    (AsyncAnswers.handleProxyReceive message connection).now = connection.now ∧
      ∀ x ∈ (AsyncAnswers.handleProxyReceive message connection).asyncAnswers.entries,
        x ∈ connection.asyncAnswers.entries := by
  have hsession : ∀ sessionId connection', AsyncAnswers.sessionOf message connection =
      (sessionId, connection') → connection'.now = connection.now ∧
        connection'.asyncAnswers = connection.asyncAnswers := by
    intro sessionId connection' h
    unfold AsyncAnswers.sessionOf at h
    split at h
    · split at h <;> cases h <;> exact ⟨rfl, rfl⟩
    · cases h
      exact ⟨rfl, rfl⟩
  cases hkey : AsyncAnswers.sessionOf message connection with
  | mk sessionId connection' =>
    rcases hsession sessionId connection' hkey with ⟨hnow, hanswers⟩
    unfold AsyncAnswers.handleProxyReceive
    rw [hkey, ← hnow, ← hanswers]
    dsimp only
    split_ifs
    · exact ⟨rfl, fun _ hx => hx⟩
    · exact ⟨rfl, fun _ hx => hx⟩
    · split
      · exact ⟨rfl, fun _ hx => Tables.mem_of_mem_erase hx⟩
      · split <;> exact ⟨rfl, fun _ hx => hx⟩

theorem startWait_watched {timeout : ℤ} (h : 0 < s.notifiers ∨
    ∀ x ∈ s.connection.asyncAnswers.entries, InTime s.connection.now
      (s.connection.now + milliseconds timeout) x.2.timeoutTime) : Watched (startWait timeout s) := by
  unfold startWait
  split
  · exact watched_awake trivial fun _ => trivial
  · exact ⟨h, trivial⟩

theorem wait_watched (h : Watched s) (hok : Careful s .wait)
    (hstep : step timeoutWarnThreshold s .wait = some t) : Watched t := by
  unfold Careful at hok
  simp only [step] at hstep
  cases hs : s.place with
  | starting =>
    rw [hs] at hstep hok
    cases hstep
    exact startWait_watched (hok.imp_right fun hall x hx => Or.inl (hall x hx))
  | bounded locked now timeout =>
    rw [hs] at hstep hok
    cases hstep
    apply startWait_watched
    rcases h.short with hnotifiers | hall
    · exact Or.inl hnotifiers
    · refine hok.imp_right fun hprompt x hx => ?_
      have hshort := hall x hx
      unfold ShortEnough at hshort
      rw [hs] at hshort
      rcases hprompt with hempty | hprompt
      · rw [hempty] at hx
        exact absurd hx List.not_mem_nil
      · exact inTime_of_prompt hshort hprompt
  | _ =>
    rw [hs] at hstep
    cases hstep

theorem updateTimeout_watched (h : Watched s) (hok : Careful s .updateTimeout)
    (hstep : step timeoutWarnThreshold s .updateTimeout = some t) : Watched t := by
  unfold Careful at hok
  simp only [step] at hstep
  cases hs : s.place with
  | updating locked now =>
    have hlocked := h.locked
    rw [hs] at hstep hok hlocked
    cases hstep
    refine ⟨Or.inr fun x hx => ?_, hlocked⟩
    have hle := upcomingTimeout_le now hx
    change upcomingTimeout now s.connection.asyncAnswers ≤ 0 ∨
      now + milliseconds (upcomingTimeout now s.connection.asyncAnswers) ≤ x.2.timeoutTime
    rcases remainingTime_le (hok x hx) with hover | hleft
    · exact Or.inl (hle.trans hover)
    · exact Or.inr ((add_le_add_right (milliseconds_mono hle) now).trans hleft)
  | _ =>
    rw [hs] at hstep
    cases hstep

theorem readClock_watched (hok : Careful s .readClock)
    (hstep : step timeoutWarnThreshold s .readClock = some t) : Watched t := by
  unfold Careful at hok
  simp only [step] at hstep
  cases hs : s.place with
  | awake timedOut =>
    rw [hs] at hstep
    cases timedOut with
    | false =>
      cases hstep
      exact watched_awake rfl fun _ => trivial
    | true =>
      cases hstep
      exact watched_awake trivial fun _ => trivial
  | processing locked =>
    rw [hs] at hstep hok
    cases locked with
    | false => exact absurd rfl hok
    | true =>
      cases hstep
      exact watched_awake rfl fun _ => trivial
  | _ =>
    rw [hs] at hstep
    cases hstep

theorem step_watched {a : Action} (h : Watched s) (hok : Careful s a)
    (hstep : step timeoutWarnThreshold s a = some t) : Watched t := by
  cases a with
  | sendMessageWithReplyAsync => exact sendMessageWithReplyAsync_watched h hstep
  | proxyPushMessageToMainLoop => exact proxyPushMessageToMainLoop_watched h hok hstep
  | wait => exact wait_watched h hok hstep
  | updateTimeout => exact updateTimeout_watched h hok hstep
  | readClock => exact readClock_watched hok hstep
  | notify =>
    simp only [step] at hstep
    split at hstep
    · rename_i henabled
      cases hstep
      exact notified_awake henabled.2 h.locked rfl
    · cases hstep
  | doDisconnect =>
    simp only [step] at hstep
    split at hstep
    · rename_i henabled
      cases hstep
      exact notified_awake henabled h.locked rfl
    · cases hstep
  | handleProxyReceive message =>
    cases hstep
    rcases handleProxyReceive_fewer message s.connection with ⟨hnow, hfewer⟩
    exact h.fewer rfl rfl hfewer hnow.ge
  | cancelAsyncAnswers service instance_ =>
    cases hstep
    exact h.fewer rfl rfl (fun x hx => (Tables.mem_filter.1 hx).1) le_rfl
  | elapse time =>
    cases hstep
    exact h.fewer rfl rfl (fun _ hx => hx) (le_add_of_nonneg_right (Int.natCast_nonneg time))
  | wake timedOut =>
    simp only [step] at hstep
    split at hstep
    · split at hstep
      · cases hstep
        exact watched_awake trivial fun _ => trivial
      · cases hstep
    · cases hstep
  | expire =>
    simp only [step] at hstep
    split at hstep
    · cases hstep
      exact watched_awake trivial fun _ => trivial
    · cases hstep
  | unlock =>
    simp only [step] at hstep
    split at hstep
    · cases hstep
      exact watched_awake trivial fun _ => trivial
    · cases hstep
  | lock =>
    simp only [step] at hstep
    split at hstep
    · cases hstep
      exact watched_awake trivial fun _ => trivial
    · cases hstep

end Steps

/-- In every run whose steps are careful, no deadline is slept through. -/
theorem no_deadline_slept_through {timeoutWarnThreshold : Option ℤ} {s : System}
    (h : Reachable (step timeoutWarnThreshold) Careful initial s) : NoneSleptThrough s := by
  have hinitial : Watched initial := ⟨Or.inr fun _ hx => absurd hx List.not_mem_nil, trivial⟩
  have hwatched : Watched s := h.invariant hinitial fun _ _ _ => step_watched
  intro wakes hplace
  refine hwatched.short.imp_right fun hall x hx => ?_
  have hshort := hall x hx
  unfold ShortEnough at hshort
  rw [hplace] at hshort
  exact hshort

instance (s : System) (deadline : Time) : Decidable (ShortEnough s deadline) := by
  unfold ShortEnough
  split <;> infer_instance

instance (s : System) : (a : Action) → Decidable (Careful s a)
  | .proxyPushMessageToMainLoop _ _ => inferInstanceAs (Decidable (_ ∨ _))
  | .readClock => inferInstanceAs (Decidable (_ ≠ _))
  | .updateTimeout => by
    unfold Careful
    dsimp only
    split <;> infer_instance
  | .wait => by
    unfold Careful
    dsimp only
    split <;> infer_instance
  | .sendMessageWithReplyAsync .. | .notify | .handleProxyReceive _ | .cancelAsyncAnswers .. | .doDisconnect
  | .elapse _ | .wake _ | .expire | .unlock | .lock => .isTrue trivial

def methodCall : MessageObject := ⟨0, some 0, VsomeipMessage.createMethodCall ⟨1, 1, 1, 0⟩ 1⟩

/-- A call is stored while the thread sleeps, which is woken, sleeps for the call, and times it out. A
    call that is not available finds it awake. -/
def carefulRun : List Action :=
  [.wait, .sendMessageWithReplyAsync methodCall 0 1000 true (some 1), .notify, .readClock, .updateTimeout,
    .wait, .elapse 1000000001, .wake true, .readClock, .expire, .unlock,
    .proxyPushMessageToMainLoop methodCall 1, .lock, .readClock, .updateTimeout, .wait]

theorem careful_run_in_time : ∃ s, run (step none) initial carefulRun = some s ∧
    s.place = .waiting 6000000001 ∧ NoneSleptThrough s := by
  have hrun : ∃ s, run (step none) initial carefulRun = some s ∧ s.place = .waiting 6000000001 :=
    ⟨_, rfl, by decide⟩
  rcases hrun with ⟨s, hs, hplace⟩
  exact ⟨s, hs, hplace, no_deadline_slept_through (.of_run carefulRun (by decide) hs)⟩

/-- The thread sleeps on when a call is stored without a notification. -/
theorem unnotified_call_slept_through :
    ¬ ∀ (timeoutWarnThreshold : Option ℤ) (s : System),
      Reachable (step timeoutWarnThreshold) Free initial s → NoneSleptThrough s := by
  intro h
  have hrun : ∃ s, run (step none) initial [.wait, .proxyPushMessageToMainLoop methodCall 0] = some s ∧
      s.place = .waiting (milliseconds intMax) ∧ s.notifiers = 0 ∧ s.connection.now = 0 ∧
      s.connection.asyncAnswers.entries.map (fun x => x.2.timeoutTime) = [5000000000] :=
    ⟨_, rfl, rfl, rfl, rfl, rfl⟩
  rcases hrun with ⟨s, hrun, hplace, hnotifiers, hnow, htimes⟩
  rcases h none s (reachable_of_run hrun) _ hplace with hpending | hall
  · omega
  · have hmem : (5000000000 : ℤ) ∈ s.connection.asyncAnswers.entries.map (fun x => x.2.timeoutTime) :=
      htimes ▸ List.mem_cons_self
    rcases List.mem_map.1 hmem with ⟨x, hx, htime⟩
    have hlate := hall x hx
    rw [htime, hnow] at hlate
    revert hlate
    decide

end SomeIPRuntime.CleanupDeadlines
