import SomeIPRuntime.ProxyStatus
import SomeIPRuntime.Tables

set_option autoImplicit false

/-!
# Waiting for the availability of a proxy

`isAvailableAsync` lists its callback in `timeouts_` and starts the thread that runs
`availabilityTimeoutThreadHandler`, unless one is at work. Each block under `timeoutsMutex_`, a join and
a callback are steps. The clock counts nanoseconds.
-/
namespace SomeIPRuntime.AvailabilityTimeouts
open StepSystems
open ProxyStatus (AvailabilityStatus)

/-- `AvailabilityTimeout_t`: the callback goes by the number of its call of `isAvailableAsync`. -/
structure Timeout where
  callback : ℕ
  timePoint : ℤ
  deriving DecidableEq, Repr

/-- `CallbackData_t`: a callback with its arguments, as far as they are known. -/
structure CallbackData where
  timeout : Timeout
  status : AvailabilityStatus
  timePoint : ℤ
  deriving DecidableEq

/-- Where a call of `isAvailableAsync` is. One that is about to `join` or to `lock` again has found no
    timeouts and has let go of `timeoutsMutex_`. -/
inductive CallPhase
  | check
  | join
  | lock
  | notify
  | done
  /-- the exception of a join of a thread that is not joinable -/
  | failed
  deriving DecidableEq, Repr

structure Caller where
  thread : Option ℕ
  timeoutPoint : ℤ
  phase : CallPhase
  deriving DecidableEq, Repr

/-- Where a handler thread is, with its local variables. `callbacks` of the source are those that have
    been called and the rest. -/
inductive Phase
  | begin
  | top (firstIteration : Bool)
  | chosen (firstIteration : Bool) (minTimeout : ℤ) (timeout : ℤ)
  | waiting (minTimeout : ℤ) (until_ : ℤ)
  | woken (timedOut : Bool) (minTimeout : ℤ)
  | scanning (timedOut : Bool) (minTimeout : ℤ) (rest : List Timeout) (callbacks : List CallbackData)
  | calling (called rest : List CallbackData)
  | inCallback (called rest : List CallbackData)
  | exiting
  | finished
  deriving DecidableEq

structure ThreadObject where
  id : ℕ
  joinable : Bool
  deriving DecidableEq, Repr

structure Invocation where
  timeout : Timeout
  status : AvailabilityStatus
  remaining : ℤ
  now : ℤ
  deriving DecidableEq

/-- `left`, `invoked` and `replaced` record what has left `timeouts_`, which callbacks were invoked, and
    whether an object was replaced that was joinable. -/
structure State where
  clock : ℤ
  available : Bool
  timeouts : List Timeout
  thread : Option ThreadObject
  threads : List Phase
  callers : List Caller
  left : List Timeout
  invoked : List Invocation
  replaced : Bool
  deriving DecidableEq

def initial : State := ⟨0, false, [], none, [], [], [], [], false⟩

inductive Action
  | tick (duration : ℕ)
  | setAvailable (isAvailable : Bool)
  | call (thread : Option ℕ) (timeout : BitVec 32)
  | check (call : ℕ)
  | join (call : ℕ)
  | lock (call : ℕ)
  | notify (call : ℕ)
  | wake (thread : ℕ) (timedOut : Bool)
  /-- any other step of a handler thread -/
  | run (thread : ℕ)
  deriving DecidableEq, Repr

def millisecond : ℤ := 1000000

def milliseconds (duration : ℤ) : ℤ := (duration.tdiv millisecond).bmod (2 ^ 32)

def Phase.holdsTimeoutsMutex : Phase → Bool
  | .scanning _ _ _ _ => true
  | _ => false

def Phase.holdsThreadMutex : Phase → Bool
  | .begin | .waiting _ _ | .inCallback _ _ | .finished => false
  | _ => true

def State.TimeoutsFree (s : State) : Prop := ∀ phase ∈ s.threads, phase.holdsTimeoutsMutex = false

def State.ThreadFree (s : State) : Prop := ∀ phase ∈ s.threads, phase.holdsThreadMutex = false

instance (s : State) : Decidable s.TimeoutsFree := inferInstanceAs (Decidable (∀ _ ∈ _, _))

instance (s : State) : Decidable s.ThreadFree := inferInstanceAs (Decidable (∀ _ ∈ _, _))

def State.setPhase (s : State) (thread : ℕ) (phase : Phase) : State :=
  { s with threads := s.threads.set thread phase }

def State.setCaller (s : State) (call : ℕ) (caller : Caller) (phase : CallPhase) : State :=
  { s with callers := s.callers.set call { caller with phase := phase } }

def State.push (s : State) (call : ℕ) (caller : Caller) : State :=
  { s with timeouts := s.timeouts ++ [⟨call, caller.timeoutPoint⟩] }

def State.startThread (s : State) : State :=
  { s with
    thread := some ⟨s.threads.length, true⟩
    threads := s.threads ++ [.begin]
    replaced := s.replaced || s.thread.any ThreadObject.joinable }

def isAvailabilityTimeoutThread (caller : Caller) (object : ThreadObject) : Prop :=
  caller.thread = some object.id

instance (caller : Caller) (object : ThreadObject) :
    Decidable (isAvailabilityTimeoutThread caller object) :=
  inferInstanceAs (Decidable (_ = _))

def check (call : ℕ) (caller : Caller) (s : State) : State :=
  if s.timeouts = [] then
    match s.thread with
    | some object =>
      if object.joinable = true ∧ ¬ isAvailabilityTimeoutThread caller object then
        s.setCaller call caller .join
      else if isAvailabilityTimeoutThread caller object then
        (s.push call caller).setCaller call caller .notify
      else ((s.push call caller).startThread).setCaller call caller .notify
    | none => ((s.push call caller).startThread).setCaller call caller .notify
  else (s.push call caller).setCaller call caller .notify

def join (call : ℕ) (caller : Caller) (s : State) : Option State :=
  match s.thread with
  | some object =>
    if object.joinable then
      if s.threads[object.id]? = some .finished then
        some ({ s with thread := some { object with joinable := false } }.setCaller call caller .lock)
      else none
    else some (s.setCaller call caller .failed)
  | none => none

def lock (call : ℕ) (caller : Caller) (s : State) : State :=
  ((s.push call caller).startThread).setCaller call caller .notify

def minTimeout : List Timeout → ℤ
  | [] => 0
  | timeout :: rest => (rest.map Timeout.timePoint).foldl min timeout.timePoint

def State.waitingTime (s : State) : ℤ :=
  if s.timeouts = [] then 2 ^ 31 - 1 else milliseconds (minTimeout s.timeouts - s.clock)

/-- What a loop over `timeouts_` does with an element. It asks whether the time point has passed if the
    waiting has timed out. -/
def collect (timedOut : Bool) (min : ℤ) (s : State) (timeout : Timeout) : Option CallbackData :=
  if timedOut = true ∧ timeout.timePoint < s.clock then
    some ⟨timeout, if s.available then .available else .notAvailable, 0⟩
  else if s.available then some ⟨timeout, .available, min⟩
  else none

def remainingTimeout (callback : CallbackData) (now : ℤ) : ℤ :=
  max 0 (milliseconds (callback.timePoint - now))

def State.invoke (s : State) (callback : CallbackData) : State :=
  { s with invoked := s.invoked ++
      [⟨callback.timeout, callback.status, remainingTimeout callback s.clock, s.clock⟩] }

def State.eraseCalled (s : State) (called : List CallbackData) : State :=
  { s with
    timeouts := s.timeouts.diff (called.map CallbackData.timeout)
    left := s.left ++ called.map CallbackData.timeout }

def State.InCall (s : State) (thread : ℕ) : Prop :=
  ∃ caller ∈ s.callers, caller.thread = some thread ∧ caller.phase ≠ .done ∧ caller.phase ≠ .failed

instance (s : State) (thread : ℕ) : Decidable (s.InCall thread) :=
  inferInstanceAs (Decidable (∃ _ ∈ _, _))

def handlerStep (i : ℕ) (s : State) : Phase → Option State
  | .begin => if s.ThreadFree then some (s.setPhase i (.top true)) else none
  | .top firstIteration =>
    if s.TimeoutsFree then
      some (s.setPhase i (.chosen firstIteration (minTimeout s.timeouts) s.waitingTime))
    else none
  | .chosen true min _ =>
    some (s.setPhase i (if s.available then .woken false min else .top false))
  | .chosen false min timeout =>
    some (s.setPhase i (.waiting min (s.clock + timeout * millisecond)))
  | .woken timedOut min =>
    if s.TimeoutsFree then some (s.setPhase i (.scanning timedOut min s.timeouts [])) else none
  | .scanning timedOut min (timeout :: rest) callbacks =>
    some (s.setPhase i
      (.scanning timedOut min rest (callbacks ++ (collect timedOut min s timeout).toList)))
  | .scanning _ _ [] callbacks => some (s.setPhase i (.calling [] callbacks))
  | .calling called (callback :: rest) =>
    some ((s.invoke callback).setPhase i (.inCallback (called ++ [callback]) rest))
  | .inCallback called rest =>
    if s.ThreadFree ∧ ¬ s.InCall i then some (s.setPhase i (.calling called rest)) else none
  | .calling called [] =>
    if s.TimeoutsFree then
      let s := s.eraseCalled called
      some (s.setPhase i (if s.timeouts = [] then .exiting else .top false))
    else none
  | .exiting => some (s.setPhase i .finished)
  | .waiting _ _ | .finished => none

def wake (i : ℕ) (timedOut : Bool) (s : State) : Phase → Option State
  | .waiting min until_ =>
    if s.ThreadFree ∧ (timedOut = true → until_ ≤ s.clock) then
      some (s.setPhase i (.woken timedOut min))
    else none
  | _ => none

def Phase.isInCallback : Phase → Bool
  | .inCallback _ _ => true
  | _ => false

/-- A thread calls in a callback, and has returned from its calls before. Other threads may always call. -/
def State.CanCall (s : State) : Option ℕ → Prop
  | none => True
  | some thread => (s.threads[thread]?).any Phase.isInCallback = true ∧ ¬ s.InCall thread

instance (s : State) : (thread : Option ℕ) → Decidable (s.CanCall thread)
  | none => .isTrue trivial
  | some _ => inferInstanceAs (Decidable (_ ∧ _))

def State.caller (s : State) (call : ℕ) (phase : CallPhase) : Option Caller :=
  (s.callers[call]?).filter fun caller => caller.phase = phase

def step (s : State) : Action → Option State
  | .tick duration => some { s with clock := s.clock + duration }
  | .setAvailable isAvailable => some { s with available := isAvailable }
  | .call thread timeout =>
    if s.CanCall thread then
      some { s with
        callers := s.callers ++ [⟨thread, s.clock + timeout.toInt * millisecond, .check⟩] }
    else none
  | .check call =>
    if s.TimeoutsFree then (s.caller call .check).map fun caller => check call caller s else none
  | .join call => (s.caller call .join).bind fun caller => join call caller s
  | .lock call =>
    if s.TimeoutsFree then (s.caller call .lock).map fun caller => lock call caller s else none
  | .notify call =>
    if s.ThreadFree then (s.caller call .notify).map fun caller => s.setCaller call caller .done
    else none
  | .wake thread timedOut => (s.threads[thread]?).bind fun phase => wake thread timedOut s phase
  | .run thread => (s.threads[thread]?).bind fun phase => handlerStep thread s phase

/-- One thread at most is at work, and no object is replaced that is joinable. -/
structure OneThread (s : State) : Prop where
  single : ∀ (i j : ℕ) (one other : Phase), s.threads[i]? = some one → s.threads[j]? = some other →
    one ≠ .finished → other ≠ .finished → i = j
  kept : s.replaced = false

/-- A callback is told that the service is not available behind its time point only, and that it is
    available with what then remains of its own time. -/
structure Invocation.Fair (invocation : Invocation) : Prop where
  late : invocation.status = .notAvailable → invocation.timeout.timePoint < invocation.now
  own : invocation.status = .available → invocation.now < invocation.timeout.timePoint →
    invocation.remaining =
      (invocation.timeout.timePoint - invocation.now).tdiv millisecond

structure Answered (s : State) : Prop where
  atMostOnce : (s.invoked.map fun invocation => invocation.timeout.callback).Nodup
  before : ∀ timeout ∈ s.left, ∃ invocation ∈ s.invoked, invocation.timeout = timeout
  fair : ∀ invocation ∈ s.invoked, invocation.Fair

def CallPhase.InWindow (phase : CallPhase) : Prop := phase = .join ∨ phase = .lock

instance (phase : CallPhase) : Decidable phase.InWindow := inferInstanceAs (Decidable (_ ∨ _))

/-- If the phase is about to find a callback available whose time is not over, its time point is the
    earliest one of the loop. -/
def InTime (s : State) : Phase → Prop
  | .scanning _ min (timeout :: _) _ =>
    s.available = true → s.clock ≤ timeout.timePoint → timeout.timePoint = min
  | _ => True

instance (s : State) : (phase : Phase) → Decidable (InTime s phase)
  | .scanning _ min (timeout :: _) _ => inferInstanceAs
      (Decidable (s.available = true → s.clock ≤ timeout.timePoint → timeout.timePoint = min))
  | .scanning _ _ [] _ | .begin | .top _ | .chosen _ _ _ | .waiting _ _ | .woken _ _ | .calling _ _
  | .inCallback _ _ | .exiting | .finished => .isTrue trivial

/-- No call finds no timeouts while another one joins, and a callback that is found available in time
    has the earliest time point. -/
def Orderly (s : State) : Action → Prop
  | .check _ => s.timeouts = [] → ∀ caller ∈ s.callers, ¬ caller.phase.InWindow
  | .run thread => ∀ phase ∈ s.threads[thread]?, InTime s phase
  | _ => True

instance (s : State) (a : Action) : Decidable (Orderly s a) := by
  cases a <;> unfold Orderly <;> infer_instance

def State.current (s : State) : Phase :=
  match s.thread with
  | some object => (s.threads[object.id]?).getD .finished
  | none => .finished

def Phase.called : Phase → List CallbackData
  | .calling called _ | .inCallback called _ => called
  | _ => []

def CallbackData.Sound (callback : CallbackData) (clock : ℤ) : Prop :=
  callback.timeout.timePoint < clock ∨
    callback.status = .available ∧ callback.timePoint = callback.timeout.timePoint

/-- A thread that is at work has timeouts, and those that it has collected are listed. -/
def Fits (timeouts : List Timeout) (clock : ℤ) : Phase → Prop
  | .begin | .top _ | .chosen _ _ _ | .waiting _ _ | .woken _ _ => timeouts ≠ []
  | .scanning _ _ rest callbacks =>
    timeouts ≠ [] ∧ (callbacks.map CallbackData.timeout ++ rest).Sublist timeouts ∧
      ∀ callback ∈ callbacks, callback.Sound clock
  | .calling called rest | .inCallback called rest =>
    timeouts ≠ [] ∧ ((called ++ rest).map CallbackData.timeout).Sublist timeouts ∧
      ∀ callback ∈ rest, callback.Sound clock
  | .exiting | .finished => True

def CallPhase.Pushed (phase : CallPhase) : Prop := phase = .notify ∨ phase = .done

instance (phase : CallPhase) : Decidable phase.Pushed := inferInstanceAs (Decidable (_ ∨ _))

/-- No time lies farther ahead than an `int` can say in milliseconds. -/
def limit : ℤ := (2 ^ 31 - 1) * millisecond

structure Threads (s : State) : Prop where
  known : ∀ object ∈ s.thread, object.id < s.threads.length
  busy : ∀ i phase, s.threads[i]? = some phase → phase ≠ .finished →
    ∃ object, s.thread = some object ∧ object.id = i ∧ object.joinable = true

structure Window (s : State) : Prop where
  none : ∀ caller ∈ s.callers, caller.phase.InWindow → s.timeouts = []
  alone : ∀ (i j : ℕ) (one other : Caller), s.callers[i]? = some one → s.callers[j]? = some other →
    one.phase.InWindow → other.phase.InWindow → i = j
  joined : ∀ caller ∈ s.callers, caller.phase = .lock → ∀ object ∈ s.thread, object.joinable = false

structure Ledger (s : State) : Prop where
  invoked : (s.invoked.map Invocation.timeout).Perm
    (s.left ++ s.current.called.map CallbackData.timeout)
  distinct : ((s.left ++ s.timeouts).map Timeout.callback).Nodup
  pushed : ∀ timeout ∈ s.left ++ s.timeouts, ∃ caller, s.callers[timeout.callback]? = some caller ∧
    caller.phase.Pushed

structure Limited (s : State) : Prop where
  timeouts : ∀ timeout ∈ s.timeouts, timeout.timePoint ≤ s.clock + limit
  callers : ∀ caller ∈ s.callers, caller.timeoutPoint ≤ s.clock + limit

structure Good (s : State) : Prop where
  threads : Threads s
  window : Window s
  fits : Fits s.timeouts s.clock s.current
  ledger : Ledger s
  limited : Limited s
  fair : ∀ invocation ∈ s.invoked, invocation.Fair
  kept : s.replaced = false

section Invariant
variable {s t : State} {i call : ℕ} {phase next : Phase} {caller : Caller}

theorem initial_good : Good initial where
  threads := ⟨by simp [initial], by simp [initial]⟩
  window := ⟨by simp [initial], by simp [initial], by simp [initial]⟩
  fits := trivial
  ledger := ⟨List.Perm.refl _, List.nodup_nil, by simp [initial]⟩
  limited := ⟨by simp [initial], by simp [initial]⟩
  fair := by simp [initial]
  kept := rfl

theorem Fits.mono {timeouts others : List Timeout} {clock later : ℤ} (h : Fits timeouts clock phase)
    (hsub : timeouts.Sublist others) (hclock : clock ≤ later) : Fits others later phase := by
  have hnonempty : timeouts ≠ [] → others ≠ [] := by
    rintro hne rfl
    exact hne (List.sublist_nil.1 hsub)
  have hsound : ∀ callback : CallbackData, callback.Sound clock → callback.Sound later :=
    fun _ hs => hs.imp (fun hlt => hlt.trans_le hclock) id
  cases phase with
  | begin | top _ | chosen _ _ _ | waiting _ _ | woken _ _ => exact hnonempty h
  | scanning _ _ _ _ | calling _ _ | inCallback _ _ =>
    exact ⟨hnonempty h.1, h.2.1.trans hsub, fun c hc => hsound c (h.2.2 c hc)⟩
  | exiting | finished => trivial

theorem Fits.called_nil (h : Fits [] s.clock phase) : phase.called = [] := by
  cases phase with
  | calling _ _ | inCallback _ _ => exact absurd rfl h.1
  | begin | top _ | chosen _ _ _ | waiting _ _ | woken _ _ | scanning _ _ _ _ | exiting | finished => rfl

theorem Threads.current_eq (h : Threads s) (hphase : s.threads[i]? = some phase)
    (hbusy : phase ≠ .finished) : s.current = phase := by
  rcases h.busy i phase hphase hbusy with ⟨object, hobject, rfl, -⟩
  unfold State.current
  rw [hobject]
  dsimp only
  rw [hphase]
  rfl

theorem Threads.current_set (h : Threads s) (hphase : s.threads[i]? = some phase)
    (hbusy : phase ≠ .finished) (hthread : t.thread = s.thread)
    (hthreads : t.threads = s.threads.set i next) : t.current = next := by
  rcases h.busy i phase hphase hbusy with ⟨object, hobject, rfl, -⟩
  unfold State.current
  rw [hthread, hobject, hthreads]
  dsimp only
  rw [List.getElem?_set_self (List.getElem?_eq_some_iff.1 hphase).1]
  rfl

theorem Threads.set (h : Threads s) (hphase : s.threads[i]? = some phase) (hbusy : phase ≠ .finished)
    (hthread : t.thread = s.thread) (hthreads : t.threads = s.threads.set i next) : Threads t where
  known := by
    rw [hthread, hthreads, List.length_set]
    exact h.known
  busy j other hother hne := by
    rw [hthread]
    rw [hthreads] at hother
    by_cases hsame : j = i
    · subst hsame
      exact h.busy j phase hphase hbusy
    · rw [List.getElem?_set_ne (Ne.symm hsame)] at hother
      exact h.busy j other hother hne

theorem Good.setPhase (h : Good s) (hphase : s.threads[i]? = some phase) (hbusy : phase ≠ .finished)
    (hcalled : next.called = phase.called) (hfits : Fits s.timeouts s.clock next) :
    Good (s.setPhase i next) := by
  have hcurrent : (s.setPhase i next).current = next := h.threads.current_set hphase hbusy rfl rfl
  refine { h with threads := h.threads.set hphase hbusy rfl rfl, window := ?_, fits := ?_, ledger := ?_, limited := ?_ }
  · exact ⟨h.window.none, h.window.alone, h.window.joined⟩
  · rw [hcurrent]
    exact hfits
  · refine ⟨?_, h.ledger.distinct, h.ledger.pushed⟩
    rw [hcurrent, hcalled, ← h.threads.current_eq hphase hbusy]
    exact h.ledger.invoked
  · exact ⟨h.limited.timeouts, h.limited.callers⟩

theorem collect_spec {timedOut : Bool} {min : ℤ} {timeout : Timeout} {callback : CallbackData}
    (hok : s.available = true → s.clock ≤ timeout.timePoint → timeout.timePoint = min)
    (h : callback ∈ collect timedOut min s timeout) :
    callback.timeout = timeout ∧ callback.Sound s.clock := by
  unfold collect at h
  split at h
  · rename_i hpast
    cases h
    exact ⟨rfl, Or.inl hpast.2⟩
  · split at h
    · rename_i havailable
      cases h
      by_cases htime : s.clock ≤ timeout.timePoint
      · exact ⟨rfl, Or.inr ⟨rfl, (hok havailable htime).symm⟩⟩
      · exact ⟨rfl, Or.inl (not_le.1 htime)⟩
    · cases h

theorem Good.collect (h : Good s) {timedOut : Bool} {min : ℤ} {timeout : Timeout}
    {rest : List Timeout} {callbacks : List CallbackData}
    (hphase : s.threads[i]? = some (.scanning timedOut min (timeout :: rest) callbacks))
    (hok : InTime s (.scanning timedOut min (timeout :: rest) callbacks)) :
    Good (s.setPhase i (.scanning timedOut min rest
      (callbacks ++ (collect timedOut min s timeout).toList))) := by
  have hfits := h.fits
  rw [h.threads.current_eq hphase (by simp)] at hfits
  rcases hfits with ⟨hne, hsub, hsound⟩
  refine h.setPhase hphase (by simp) rfl ⟨hne, ?_, ?_⟩
  · cases hcollect : AvailabilityTimeouts.collect timedOut min s timeout with
    | none =>
      rw [Option.toList_none, List.append_nil]
      exact ((List.sublist_cons_self timeout rest).append_left _).trans hsub
    | some callback =>
      have htimeout := (collect_spec hok hcollect).1
      rw [Option.toList_some, List.map_append, List.map_singleton, htimeout, List.append_assoc]
      exact hsub
  · intro callback hcallback
    rcases List.mem_append.1 hcallback with hold | hnew
    · exact hsound callback hold
    · exact (collect_spec hok (Option.mem_toList.1 hnew)).2

theorem milliseconds_eq {duration : ℤ} (hpos : 0 ≤ duration) (hle : duration ≤ limit) :
    milliseconds duration = duration.tdiv millisecond := by
  unfold milliseconds
  have hquot : duration.tdiv millisecond = duration / millisecond :=
    Int.tdiv_eq_ediv_of_nonneg hpos
  unfold limit millisecond at *
  rw [hquot]
  apply Int.bmod_eq_of_le <;> omega

theorem invocation_fair {callback : CallbackData} (hsound : callback.Sound s.clock)
    (hlimit : callback.timeout.timePoint ≤ s.clock + limit) :
    Invocation.Fair
      ⟨callback.timeout, callback.status, remainingTimeout callback s.clock, s.clock⟩ where
  late hstatus := by
    rcases hsound with hpast | ⟨havailable, -⟩
    · exact hpast
    · exact absurd (hstatus.symm.trans havailable) (by decide)
  own _ htime := by
    dsimp only at htime ⊢
    rcases hsound with hpast | ⟨-, hown⟩
    · exact absurd hpast (not_lt.2 htime.le)
    · unfold remainingTimeout
      rw [hown, milliseconds_eq (by omega) (by omega)]
      exact max_eq_right (Int.tdiv_nonneg (by omega) (by decide))

theorem Good.invoke (h : Good s) {callback : CallbackData} {called rest : List CallbackData}
    (hphase : s.threads[i]? = some (.calling called (callback :: rest))) :
    Good ((s.invoke callback).setPhase i (.inCallback (called ++ [callback]) rest)) := by
  have hcurrent := h.threads.current_eq hphase (by simp)
  have hnext : ((s.invoke callback).setPhase i (.inCallback (called ++ [callback]) rest)).current =
      .inCallback (called ++ [callback]) rest := h.threads.current_set hphase (by simp) rfl rfl
  have hfits := h.fits
  rw [hcurrent] at hfits
  rcases hfits with ⟨hne, hsub, hsound⟩
  have hlisted : callback.timeout ∈ s.timeouts :=
    hsub.subset (List.mem_map_of_mem (List.mem_append_right _ List.mem_cons_self))
  refine ⟨h.threads.set hphase (by simp) rfl rfl,
    ⟨h.window.none, h.window.alone, h.window.joined⟩, ?_, ⟨?_, h.ledger.distinct, h.ledger.pushed⟩,
    ⟨h.limited.timeouts, h.limited.callers⟩, fun invocation hinvocation => ?_, h.kept⟩
  · rw [hnext]
    refine ⟨hne, ?_, fun other hother => hsound other (List.mem_cons_of_mem _ hother)⟩
    rw [List.append_assoc]
    exact hsub
  · rw [hnext]
    change ((s.invoked ++ [_]).map Invocation.timeout).Perm
      (s.left ++ (called ++ [callback]).map CallbackData.timeout)
    have hinvoked := h.ledger.invoked
    rw [hcurrent] at hinvoked
    rw [List.map_append, List.map_append, ← List.append_assoc]
    exact hinvoked.append_right _
  · rcases List.mem_append.1 hinvocation with hold | hnew
    · exact h.fair invocation hold
    · rw [List.mem_singleton.1 hnew]
      exact invocation_fair (hsound callback List.mem_cons_self) (h.limited.timeouts _ hlisted)

theorem Good.eraseCalled (h : Good s) {called : List CallbackData}
    (hphase : s.threads[i]? = some (.calling called []))
    (hnext : next = if (s.eraseCalled called).timeouts = [] then .exiting else .top false) :
    Good ((s.eraseCalled called).setPhase i next) := by
  have hcurrent := h.threads.current_eq hphase (by simp)
  have hnow : ((s.eraseCalled called).setPhase i next).current = next :=
    h.threads.current_set hphase (by simp) rfl rfl
  have hfits := h.fits
  rw [hcurrent] at hfits
  rcases hfits with ⟨hne, hsub, -⟩
  rw [List.append_nil] at hsub
  have hperm : (called.map CallbackData.timeout ++
      s.timeouts.diff (called.map CallbackData.timeout)).Perm s.timeouts :=
    List.subperm_append_diff_self_of_count_le fun timeout _ => hsub.count_le timeout
  have hall : (s.left ++ called.map CallbackData.timeout ++
      s.timeouts.diff (called.map CallbackData.timeout)).Perm (s.left ++ s.timeouts) := by
    rw [List.append_assoc]
    exact hperm.append_left s.left
  have hquiet : ∀ caller ∈ s.callers, ¬ caller.phase.InWindow :=
    fun caller hcaller hwindow => hne (h.window.none caller hcaller hwindow)
  refine ⟨h.threads.set hphase (by simp) rfl rfl,
    ⟨fun caller hcaller hwindow => absurd hwindow (hquiet caller hcaller), h.window.alone,
      h.window.joined⟩, ?_, ⟨?_, ?_, ?_⟩,
    ⟨fun timeout htimeout => h.limited.timeouts timeout (List.diff_subset _ _ htimeout),
      h.limited.callers⟩, h.fair, h.kept⟩
  · rw [hnow, hnext]
    split
    · trivial
    · rename_i hleft
      exact hleft
  · have hcalled : next.called = [] := by
      rw [hnext]
      split <;> rfl
    rw [hnow, hcalled]
    have hinvoked := h.ledger.invoked
    rw [hcurrent] at hinvoked
    change (s.invoked.map Invocation.timeout).Perm (s.left ++ called.map CallbackData.timeout ++ [])
    rw [List.append_nil]
    exact hinvoked
  · exact (hall.map Timeout.callback).nodup_iff.2 h.ledger.distinct
  · exact fun timeout htimeout => h.ledger.pushed timeout (hall.mem_iff.1 htimeout)

theorem Good.run (h : Good s) (hphase : s.threads[i]? = some phase) (hok : InTime s phase)
    (hstep : handlerStep i s phase = some t) : Good t := by
  have hcurrent : phase ≠ .finished → s.current = phase := h.threads.current_eq hphase
  have hfits := h.fits
  cases phase with
  | begin =>
    rw [hcurrent (by simp)] at hfits
    rcases Option.ite_none_right_eq_some.1 hstep with ⟨-, ⟨⟩⟩
    exact h.setPhase hphase (by simp) rfl hfits
  | top firstIteration =>
    rw [hcurrent (by simp)] at hfits
    rcases Option.ite_none_right_eq_some.1 hstep with ⟨-, ⟨⟩⟩
    exact h.setPhase hphase (by simp) rfl hfits
  | chosen firstIteration min timeout =>
    rw [hcurrent (by simp)] at hfits
    cases firstIteration with
    | true =>
      cases hstep
      split
      · exact h.setPhase hphase (by simp) rfl hfits
      · exact h.setPhase hphase (by simp) rfl hfits
    | false =>
      cases hstep
      exact h.setPhase hphase (by simp) rfl hfits
  | waiting min until_ => cases hstep
  | woken timedOut min =>
    rw [hcurrent (by simp)] at hfits
    rcases Option.ite_none_right_eq_some.1 hstep with ⟨-, ⟨⟩⟩
    exact h.setPhase hphase (by simp) rfl
      ⟨hfits, List.Sublist.refl _, fun _ hmem => absurd hmem List.not_mem_nil⟩
  | scanning timedOut min rest callbacks =>
    cases rest with
    | nil =>
      rw [hcurrent (by simp)] at hfits
      cases hstep
      refine h.setPhase hphase (by simp) rfl ⟨hfits.1, ?_, hfits.2.2⟩
      simpa using hfits.2.1
    | cons timeout rest =>
      cases hstep
      exact h.collect hphase hok
  | calling called rest =>
    cases rest with
    | nil =>
      rcases Option.ite_none_right_eq_some.1 hstep with ⟨-, ⟨⟩⟩
      exact h.eraseCalled hphase rfl
    | cons callback rest =>
      cases hstep
      exact h.invoke hphase
  | inCallback called rest =>
    rw [hcurrent (by simp)] at hfits
    rcases Option.ite_none_right_eq_some.1 hstep with ⟨-, ⟨⟩⟩
    exact h.setPhase hphase (by simp) rfl hfits
  | exiting =>
    cases hstep
    exact h.setPhase hphase (by simp) rfl trivial
  | finished => cases hstep

theorem Good.wake (h : Good s) {timedOut : Bool} (hphase : s.threads[i]? = some phase)
    (hstep : wake i timedOut s phase = some t) : Good t := by
  cases phase with
  | waiting min until_ =>
    have hfits := h.fits
    rw [h.threads.current_eq hphase (by simp)] at hfits
    rcases Option.ite_none_right_eq_some.1 hstep with ⟨-, ⟨⟩⟩
    exact h.setPhase hphase (by simp) rfl hfits
  | begin | top _ | chosen _ _ _ | woken _ _ | scanning _ _ _ _ | calling _ _ | inCallback _ _
  | exiting | finished => cases hstep

theorem caller_spec {place : CallPhase} (h : s.caller call place = some caller) :
    s.callers[call]? = some caller ∧ caller.phase = place := by
  rcases Option.filter_eq_some_iff.1 h with ⟨hcaller, hplace⟩
  exact ⟨hcaller, of_decide_eq_true hplace⟩

theorem getElem?_setCaller (hcaller : s.callers[call]? = some caller) (place : CallPhase) (other : ℕ) :
    (s.setCaller call caller place).callers[other]? =
      if other = call then some { caller with phase := place } else s.callers[other]? := by
  change (s.callers.set call _)[other]? = _
  by_cases hsame : other = call
  · rw [if_pos hsame, hsame, List.getElem?_set_self (List.getElem?_eq_some_iff.1 hcaller).1]
  · rw [if_neg hsame, List.getElem?_set_ne (Ne.symm hsame)]

theorem mem_setCaller {place : CallPhase} {other : Caller}
    (h : other ∈ (s.setCaller call caller place).callers) :
    other = { caller with phase := place } ∨ other ∈ s.callers :=
  (List.mem_or_eq_of_mem_set h).symm

theorem Limited.setCaller (h : Limited s) (hcaller : s.callers[call]? = some caller)
    (place : CallPhase) : Limited (s.setCaller call caller place) where
  timeouts := h.timeouts
  callers other hother := by
    rcases mem_setCaller hother with rfl | hold
    · exact h.callers caller (List.mem_of_getElem? hcaller)
    · exact h.callers other hold

theorem Ledger.setCaller (h : Ledger s) (hcaller : s.callers[call]? = some caller) {place : CallPhase}
    (hplace : caller.phase.Pushed → place.Pushed) : Ledger (s.setCaller call caller place) where
  invoked := h.invoked
  distinct := h.distinct
  pushed timeout htimeout := by
    rcases h.pushed timeout htimeout with ⟨other, hother, hpushed⟩
    rw [getElem?_setCaller hcaller]
    split
    · rename_i hsame
      rw [hsame] at hother
      cases hcaller.symm.trans hother
      exact ⟨_, rfl, hplace hpushed⟩
    · exact ⟨other, hother, hpushed⟩

theorem Window.quiet (h : ∀ caller ∈ s.callers, ¬ caller.phase.InWindow) : Window s where
  none caller hcaller hwindow := absurd hwindow (h caller hcaller)
  alone _ _ one _ hone _ hwindow := absurd hwindow (h one (List.mem_of_getElem? hone))
  joined caller hcaller hlock := absurd (Or.inr hlock) (h caller hcaller)

theorem Window.setCaller (h : Window s) (hcaller : s.callers[call]? = some caller) {place : CallPhase}
    (hplace : place.InWindow → caller.phase.InWindow)
    (hlock : place = .lock → ∀ object ∈ s.thread, object.joinable = false) :
    Window (s.setCaller call caller place) where
  none other hother hwindow := by
    rcases mem_setCaller hother with rfl | hold
    · exact h.none caller (List.mem_of_getElem? hcaller) (hplace hwindow)
    · exact h.none other hold hwindow
  alone i j one other hone hother hwindow hwindow' := by
    have hbefore : ∀ (k : ℕ) (c : Caller), (s.setCaller call caller place).callers[k]? = some c →
        c.phase.InWindow → ∃ old, s.callers[k]? = some old ∧ old.phase.InWindow := by
      intro k c hc hin
      rw [getElem?_setCaller hcaller] at hc
      split at hc
      · rename_i hsame
        cases hc
        exact ⟨caller, hsame ▸ hcaller, hplace hin⟩
      · exact ⟨c, hc, hin⟩
    rcases hbefore i one hone hwindow with ⟨one', hone', hin⟩
    rcases hbefore j other hother hwindow' with ⟨other', hother', hin'⟩
    exact h.alone i j one' other' hone' hother' hin hin'
  joined other hother hphase := by
    rcases mem_setCaller hother with rfl | hold
    · exact hlock hphase
    · exact h.joined other hold hphase

/-- The timeout of a call that has not listed one is a new one. -/
theorem Ledger.push (h : Ledger s) (hcaller : s.callers[call]? = some caller)
    (hplace : ¬ caller.phase.Pushed) (hinvoked : t.invoked = s.invoked) (hleft : t.left = s.left)
    (htimeouts : t.timeouts = s.timeouts ++ [⟨call, caller.timeoutPoint⟩])
    (hcallers : t.callers = (s.setCaller call caller .notify).callers)
    (hcalled : t.current.called = s.current.called) : Ledger t where
  invoked := by
    rw [hinvoked, hleft, hcalled]
    exact h.invoked
  distinct := by
    rw [hleft, htimeouts, ← List.append_assoc, List.map_append, List.map_singleton]
    rw [List.nodup_append]
    refine ⟨h.distinct, List.nodup_singleton _, ?_⟩
    rintro number hnumber _ hnew rfl
    rcases List.mem_map.1 hnumber with ⟨timeout, htimeout, rfl⟩
    rcases h.pushed timeout htimeout with ⟨other, hother, hpushed⟩
    rw [List.mem_singleton.1 hnew] at hother
    cases hcaller.symm.trans hother
    exact hplace hpushed
  pushed timeout htimeout := by
    rw [hcallers, getElem?_setCaller hcaller]
    split
    · exact ⟨_, rfl, Or.inl rfl⟩
    · rename_i hne
      rw [hleft, htimeouts, ← List.append_assoc] at htimeout
      rcases List.mem_append.1 htimeout with hold | hnew
      · exact h.pushed timeout hold
      · rw [List.mem_singleton.1 hnew] at hne
        exact absurd rfl hne

theorem Limited.push (h : Limited s) (hcaller : s.callers[call]? = some caller) :
    Limited (s.push call caller) where
  timeouts timeout htimeout := by
    rcases List.mem_append.1 htimeout with hold | hnew
    · exact h.timeouts timeout hold
    · rw [List.mem_singleton.1 hnew]
      exact h.callers caller (List.mem_of_getElem? hcaller)
  callers := h.callers

/-- No call is in its window, once the one that is leaves it. -/
theorem Window.left (h : Window s) (hcaller : s.callers[call]? = some caller)
    (hwindow : caller.phase.InWindow) {place : CallPhase} (hplace : ¬ place.InWindow) :
    ∀ other ∈ (s.setCaller call caller place).callers, ¬ other.phase.InWindow := by
  intro other hother
  rcases List.mem_iff_getElem?.1 hother with ⟨j, hj⟩
  rw [getElem?_setCaller hcaller] at hj
  split at hj
  · cases hj
    exact hplace
  · rename_i hne
    exact fun hin => hne (h.alone j call other caller hj hcaller hin hwindow)

theorem quiet_setCaller (hquiet : ∀ other ∈ s.callers, ¬ other.phase.InWindow) {place : CallPhase}
    (hplace : ¬ place.InWindow) :
    ∀ other ∈ (s.setCaller call caller place).callers, ¬ other.phase.InWindow := by
  intro other hother
  rcases mem_setCaller hother with rfl | hold
  · exact hplace
  · exact hquiet other hold

theorem not_inWindow_notify : ¬ CallPhase.notify.InWindow := by decide

theorem not_inWindow_check : ¬ CallPhase.check.InWindow := by decide

/-- A call lists its timeout and leaves the rest to the thread that is at work. -/
theorem Good.push (h : Good s) (hcaller : s.callers[call]? = some caller)
    (hplace : ¬ caller.phase.Pushed)
    (hquiet : ∀ other ∈ (s.setCaller call caller .notify).callers, ¬ other.phase.InWindow) :
    Good ((s.push call caller).setCaller call caller .notify) where
  threads := ⟨h.threads.known, h.threads.busy⟩
  window := Window.quiet hquiet
  fits := h.fits.mono (List.sublist_append_left _ _) le_rfl
  ledger := h.ledger.push hcaller hplace rfl rfl rfl rfl rfl
  limited := (h.limited.push hcaller).setCaller hcaller _
  fair := h.fair
  kept := h.kept

theorem startThread_threads (hfinished : ∀ phase ∈ s.threads, phase = .finished) :
    Threads s.startThread where
  known object hobject := by
    cases hobject
    change s.threads.length < (s.threads ++ [Phase.begin]).length
    rw [List.length_append]
    exact Nat.lt_succ_self _
  busy j phase hphase hbusy := by
    refine ⟨⟨s.threads.length, true⟩, rfl, ?_, rfl⟩
    change (s.threads ++ [Phase.begin])[j]? = some phase at hphase
    by_cases hold : j < s.threads.length
    · rw [List.getElem?_append_left hold] at hphase
      exact absurd (hfinished phase (List.mem_of_getElem? hphase)) hbusy
    · have hlt := (List.getElem?_eq_some_iff.1 hphase).1
      rw [List.length_append, List.length_singleton] at hlt
      change s.threads.length = j
      omega

theorem startThread_current : s.startThread.current = .begin := by
  unfold State.current State.startThread
  dsimp only
  rw [List.getElem?_concat_length]
  rfl

theorem Threads.finished (h : Threads s) (hthread : ∀ object ∈ s.thread, object.joinable = false) :
    ∀ phase ∈ s.threads, phase = .finished := by
  intro phase hphase
  by_contra hbusy
  rcases List.mem_iff_getElem?.1 hphase with ⟨j, hj⟩
  rcases h.busy j phase hj hbusy with ⟨object, hobject, -, hjoinable⟩
  rw [hthread object hobject] at hjoinable
  cases hjoinable

/-- A call lists its timeout and starts a thread, which it does when the last one was joined. -/
theorem Good.start (h : Good s) (hcaller : s.callers[call]? = some caller)
    (hplace : ¬ caller.phase.Pushed) (hnone : s.timeouts = [])
    (hthread : ∀ object ∈ s.thread, object.joinable = false)
    (hquiet : ∀ other ∈ (s.setCaller call caller .notify).callers, ¬ other.phase.InWindow) :
    Good (((s.push call caller).startThread).setCaller call caller .notify) where
  threads :=
    have hstarted := startThread_threads (s := s.push call caller) (h.threads.finished hthread)
    ⟨hstarted.known, hstarted.busy⟩
  window := Window.quiet hquiet
  fits := by
    have hcurrent : (((s.push call caller).startThread).setCaller call caller .notify).current = .begin :=
      startThread_current (s := s.push call caller)
    rw [hcurrent]
    exact List.append_ne_nil_of_right_ne_nil _ (List.cons_ne_nil _ _)
  ledger := by
    refine h.ledger.push hcaller hplace rfl rfl rfl rfl ?_
    have hcurrent : (((s.push call caller).startThread).setCaller call caller .notify).current = .begin :=
      startThread_current (s := s.push call caller)
    have hfits := h.fits
    rw [hnone] at hfits
    rw [hcurrent, hfits.called_nil]
    rfl
  limited :=
    have hlimited := (h.limited.push hcaller).setCaller hcaller .notify
    ⟨hlimited.timeouts, hlimited.callers⟩
  fair := h.fair
  kept := by
    change (s.replaced || s.thread.any ThreadObject.joinable) = false
    rw [h.kept, Bool.false_or]
    cases hobject : s.thread with
    | none => rfl
    | some object => exact hthread object hobject

theorem Good.setCaller (h : Good s) (hcaller : s.callers[call]? = some caller) {place : CallPhase}
    (hplace : caller.phase.Pushed → place.Pushed) (hwindow : Window (s.setCaller call caller place)) :
    Good (s.setCaller call caller place) where
  threads := ⟨h.threads.known, h.threads.busy⟩
  window := hwindow
  fits := h.fits
  ledger := h.ledger.setCaller hcaller hplace
  limited := h.limited.setCaller hcaller place
  fair := h.fair
  kept := h.kept

theorem Window.opens (hcaller : s.callers[call]? = some caller) (hnone : s.timeouts = [])
    (hquiet : ∀ other ∈ s.callers, ¬ other.phase.InWindow) : Window (s.setCaller call caller .join) where
  none _ _ _ := hnone
  alone i j one other hone hother hwindow hwindow' := by
    have hcall : ∀ (k : ℕ) (c : Caller), (s.setCaller call caller .join).callers[k]? = some c →
        c.phase.InWindow → k = call := by
      intro k c hc hin
      rw [getElem?_setCaller hcaller] at hc
      by_contra hne
      rw [if_neg hne] at hc
      exact hquiet c (List.mem_of_getElem? hc) hin
    exact (hcall i one hone hwindow).trans (hcall j other hother hwindow').symm
  joined other hother hlock := by
    rcases mem_setCaller hother with rfl | hold
    · cases hlock
    · exact absurd (Or.inr hlock) (hquiet other hold)

theorem Good.check (h : Good s) (hcaller : s.callers[call]? = some caller)
    (hplace : caller.phase = .check)
    (hok : s.timeouts = [] → ∀ other ∈ s.callers, ¬ other.phase.InWindow) :
    Good (check call caller s) := by
  have hpushed : ¬ caller.phase.Pushed := by
    rw [hplace]
    decide
  have hquiet : ∀ other ∈ s.callers, ¬ other.phase.InWindow := by
    intro other hother hwindow
    exact hok (h.window.none other hother hwindow) other hother hwindow
  have hnotify : ∀ other ∈ (s.setCaller call caller .notify).callers, ¬ other.phase.InWindow :=
    quiet_setCaller hquiet not_inWindow_notify
  unfold AvailabilityTimeouts.check
  split
  · rename_i hnone
    cases hthread : s.thread with
    | none =>
      refine h.start hcaller hpushed hnone (fun object hobject => ?_) hnotify
      rw [hthread] at hobject
      cases hobject
    | some object =>
      dsimp only
      split
      · exact h.setCaller hcaller (fun hp => absurd hp hpushed) (Window.opens hcaller hnone hquiet)
      · rename_i hjoin
        split
        · exact h.push hcaller hpushed hnotify
        · rename_i hself
          refine h.start hcaller hpushed hnone (fun other hother => ?_) hnotify
          rw [hthread] at hother
          cases hother
          simpa [hself] using hjoin
  · exact h.push hcaller hpushed hnotify

/-- A joined thread has come to its end, and so have all before it. -/
theorem Good.joined (h : Good s) {object : ThreadObject} (hthread : s.thread = some object)
    (hfinished : s.threads[object.id]? = some .finished) :
    Good { s with thread := some { object with joinable := false } } where
  threads :=
    { known := fun other hother => by
        cases hother
        exact h.threads.known object hthread
      busy := fun i phase hphase hbusy => by
        rcases h.threads.busy i phase hphase hbusy with ⟨other, hother, rfl, -⟩
        cases hthread.symm.trans hother
        cases hphase.symm.trans hfinished
        exact absurd rfl hbusy }
  window := ⟨h.window.none, h.window.alone, fun _ _ _ other hother => by cases hother; rfl⟩
  fits := by
    unfold State.current
    dsimp only
    rw [hfinished]
    trivial
  ledger := by
    have hcurrent : s.current = .finished := by
      unfold State.current
      rw [hthread]
      dsimp only
      rw [hfinished]
      rfl
    have hinvoked := h.ledger.invoked
    rw [hcurrent] at hinvoked
    refine ⟨?_, h.ledger.distinct, h.ledger.pushed⟩
    unfold State.current
    dsimp only
    rw [hfinished]
    exact hinvoked
  limited := ⟨h.limited.timeouts, h.limited.callers⟩
  fair := h.fair
  kept := h.kept

theorem Good.join (h : Good s) (hcaller : s.callers[call]? = some caller)
    (hplace : caller.phase = .join) (hstep : join call caller s = some t) : Good t := by
  have hpushed : ¬ caller.phase.Pushed := by
    rw [hplace]
    decide
  unfold AvailabilityTimeouts.join at hstep
  cases hthread : s.thread with
  | none =>
    rw [hthread] at hstep
    cases hstep
  | some object =>
    rw [hthread] at hstep
    dsimp only at hstep
    split at hstep
    · rcases Option.ite_none_right_eq_some.1 hstep with ⟨hfinished, ⟨⟩⟩
      have hjoined := h.joined hthread hfinished
      refine hjoined.setCaller hcaller (fun hp => absurd hp hpushed) ?_
      refine hjoined.window.setCaller hcaller (fun _ => Or.inl hplace) fun _ other hother => ?_
      cases hother
      rfl
    · cases hstep
      refine h.setCaller hcaller (fun hp => absurd hp hpushed) ?_
      exact h.window.setCaller hcaller (fun hw => absurd hw (by decide)) (fun hl => by cases hl)

theorem Good.lock (h : Good s) (hcaller : s.callers[call]? = some caller)
    (hplace : caller.phase = .lock) : Good (lock call caller s) := by
  have hwindow : caller.phase.InWindow := Or.inr hplace
  have hmem := List.mem_of_getElem? hcaller
  refine h.start hcaller ?_ (h.window.none caller hmem hwindow)
    (h.window.joined caller hmem hplace) (h.window.left hcaller hwindow not_inWindow_notify)
  rw [hplace]
  decide

theorem Window.newCall (h : Window s) {caller : Caller} (hcheck : caller.phase = .check) :
    Window { s with callers := s.callers ++ [caller] } where
  none other hother hwindow := by
    rcases List.mem_append.1 hother with hold | hnew
    · exact h.none other hold hwindow
    · rw [List.mem_singleton.1 hnew, hcheck] at hwindow
      exact absurd hwindow not_inWindow_check
  alone i j one other hone hother hwindow hwindow' := by
    have hbefore : ∀ (k : ℕ) (c : Caller), (s.callers ++ [caller])[k]? = some c →
        c.phase.InWindow → s.callers[k]? = some c := by
      intro k c hc hin
      by_cases hlt : k < s.callers.length
      · rwa [List.getElem?_append_left hlt] at hc
      · rw [List.getElem?_append_right (not_lt.1 hlt)] at hc
        rw [List.mem_singleton.1 (List.mem_of_getElem? hc), hcheck] at hin
        exact absurd hin not_inWindow_check
    exact h.alone i j one other (hbefore i one hone hwindow) (hbefore j other hother hwindow')
      hwindow hwindow'
  joined other hother hlock := by
    rcases List.mem_append.1 hother with hold | hnew
    · exact h.joined other hold hlock
    · rw [List.mem_singleton.1 hnew, hcheck] at hlock
      cases hlock

theorem Good.newCall (h : Good s) (thread : Option ℕ) (timeout : BitVec 32) :
    Good { s with
      callers := s.callers ++ [⟨thread, s.clock + timeout.toInt * millisecond, .check⟩] } where
  threads := ⟨h.threads.known, h.threads.busy⟩
  window := h.window.newCall rfl
  fits := h.fits
  ledger :=
    { invoked := h.ledger.invoked
      distinct := h.ledger.distinct
      pushed := fun timeout htimeout => by
        rcases h.ledger.pushed timeout htimeout with ⟨other, hother, hpushed⟩
        refine ⟨other, ?_, hpushed⟩
        rw [List.getElem?_append_left (List.getElem?_eq_some_iff.1 hother).1]
        exact hother }
  limited :=
    { timeouts := h.limited.timeouts
      callers := fun other hother => by
        rcases List.mem_append.1 hother with hold | hnew
        · exact h.limited.callers other hold
        · rw [List.mem_singleton.1 hnew]
          have hlt := BitVec.toInt_lt (x := timeout)
          unfold limit millisecond
          dsimp only
          omega }
  fair := h.fair
  kept := h.kept

theorem step_good (a : Action) (h : Good s) (hok : Orderly s a) (hstep : step s a = some t) :
    Good t := by
  cases a with
  | tick duration =>
    cases hstep
    have hlater : s.clock ≤ s.clock + duration := by omega
    refine { h with threads := ⟨h.threads.known, h.threads.busy⟩, window := ?_, fits := ?_, ledger := ?_, limited := ?_ }
    · exact ⟨h.window.none, h.window.alone, h.window.joined⟩
    · exact h.fits.mono (List.Sublist.refl _) hlater
    · exact ⟨h.ledger.invoked, h.ledger.distinct, h.ledger.pushed⟩
    · exact ⟨fun timeout htimeout => (h.limited.timeouts timeout htimeout).trans (by dsimp only; omega),
        fun other hother => (h.limited.callers other hother).trans (by dsimp only; omega)⟩
  | setAvailable isAvailable =>
    cases hstep
    exact ⟨⟨h.threads.known, h.threads.busy⟩, ⟨h.window.none, h.window.alone, h.window.joined⟩, h.fits,
      ⟨h.ledger.invoked, h.ledger.distinct, h.ledger.pushed⟩,
      ⟨h.limited.timeouts, h.limited.callers⟩, h.fair, h.kept⟩
  | call thread timeout =>
    rcases Option.ite_none_right_eq_some.1 hstep with ⟨-, ⟨⟩⟩
    exact h.newCall thread timeout
  | check call =>
    rcases Option.ite_none_right_eq_some.1 hstep with ⟨-, hstep⟩
    rcases Option.map_eq_some_iff.1 hstep with ⟨caller, hcaller, rfl⟩
    exact h.check (caller_spec hcaller).1 (caller_spec hcaller).2 hok
  | join call =>
    rcases Option.bind_eq_some_iff.1 hstep with ⟨caller, hcaller, hstep⟩
    exact h.join (caller_spec hcaller).1 (caller_spec hcaller).2 hstep
  | lock call =>
    rcases Option.ite_none_right_eq_some.1 hstep with ⟨-, hstep⟩
    rcases Option.map_eq_some_iff.1 hstep with ⟨caller, hcaller, rfl⟩
    exact h.lock (caller_spec hcaller).1 (caller_spec hcaller).2
  | notify call =>
    rcases Option.ite_none_right_eq_some.1 hstep with ⟨-, hstep⟩
    rcases Option.map_eq_some_iff.1 hstep with ⟨caller, hcaller, rfl⟩
    have hcaller := (caller_spec hcaller).1
    refine h.setCaller hcaller (fun _ => Or.inr rfl) ?_
    exact h.window.setCaller hcaller (fun hw => absurd hw (by decide)) (fun hl => by cases hl)
  | wake thread timedOut =>
    rcases Option.bind_eq_some_iff.1 hstep with ⟨phase, hphase, hstep⟩
    exact h.wake hphase hstep
  | run thread =>
    rcases Option.bind_eq_some_iff.1 hstep with ⟨phase, hphase, hstep⟩
    exact h.run hphase (hok phase hphase) hstep

theorem Good.oneThread (h : Good s) : OneThread s where
  single i j one other hone hother hbusy hbusy' := by
    rcases h.threads.busy i one hone hbusy with ⟨object, hobject, rfl, -⟩
    rcases h.threads.busy j other hother hbusy' with ⟨object', hobject', rfl, -⟩
    cases hobject.symm.trans hobject'
    rfl
  kept := h.kept

theorem Fits.called_sublist {timeouts : List Timeout} {clock : ℤ} (h : Fits timeouts clock phase) :
    (phase.called.map CallbackData.timeout).Sublist timeouts := by
  cases phase with
  | calling called rest | inCallback called rest =>
    rcases h with ⟨-, hsub, -⟩
    rw [List.map_append] at hsub
    exact (List.sublist_append_left _ _).trans hsub
  | begin | top _ | chosen _ _ _ | waiting _ _ | woken _ _ | scanning _ _ _ _ | exiting | finished =>
    exact List.nil_sublist _

theorem Good.answered (h : Good s) : Answered s where
  atMostOnce := by
    have hperm := h.ledger.invoked.map Timeout.callback
    rw [List.map_map] at hperm
    refine hperm.nodup_iff.2 (h.ledger.distinct.sublist ?_)
    exact (h.fits.called_sublist.append_left s.left).map Timeout.callback
  before timeout htimeout := by
    have hmem := h.ledger.invoked.mem_iff.2 (List.mem_append_left _ htimeout)
    exact List.mem_map.1 hmem
  fair := h.fair

/-- In every run in which no call finds no timeouts while another one joins, and in which a callback
    that is found available in time has the earliest time point, one thread answers each callback
    once and in time. -/
theorem waits_answered (h : Reachable step Orderly initial s) : OneThread s ∧ Answered s :=
  have hgood := h.invariant initial_good fun _ a _ => step_good a
  ⟨hgood.oneThread, hgood.answered⟩

end Invariant

/-- A call is answered by a thread whose callback calls again. That time passes, and the next call joins
    the thread and starts another one. -/
def twoThreads : List Action :=
  [.call none 5, .check 0, .notify 0, .run 0, .run 0, .run 0, .run 0, .run 0, .setAvailable true,
    .wake 0 false, .run 0, .run 0, .run 0, .run 0, .call (some 0) 3, .check 1, .notify 1, .run 0, .run 0,
    .setAvailable false, .run 0, .run 0, .tick 4000000, .wake 0 true, .run 0, .run 0, .run 0, .run 0,
    .run 0, .run 0, .call none 1, .check 2, .run 0, .join 2, .lock 2]

theorem two_threads_answered :
    ∃ s, run step initial twoThreads = some s ∧ s.left.length = 2 ∧ OneThread s ∧ Answered s := by
  have hrun : ∃ s ∈ run step initial twoThreads, s.left.length = 2 := by decide +kernel
  have hmeets : Meets step Orderly initial twoThreads := by decide +kernel
  rcases hrun with ⟨s, hs, hlength⟩
  exact ⟨s, hs, hlength, waits_answered (.of_run _ hmeets hs)⟩

/-- Two calls find no timeouts, and the second one joins the thread before the first one goes on. -/
def twoJoin : List Action :=
  [.setAvailable true, .call none 9, .check 0, .notify 0, .run 0, .run 0, .run 0, .run 0, .run 0, .run 0,
    .run 0, .run 0, .run 0, .run 0, .call none 9, .call none 9, .check 1, .join 1, .check 2, .lock 1]

def twoTimes : List Action :=
  [.call none 1000, .check 0, .notify 0, .call none 5000, .check 1, .run 0, .run 0, .run 0, .run 0,
    .run 0, .notify 1, .setAvailable true, .wake 0 false, .run 0, .run 0, .run 0, .run 0, .run 0, .run 0,
    .run 0]

theorem threads_and_times_wrong :
    (¬ ∀ s, Reachable step Free initial s → OneThread s) ∧
      ¬ ∀ s, Reachable step Free initial s → Answered s := by
  constructor
  · intro h
    have hreplaced : ∃ s ∈ run step initial twoJoin, s.replaced = true := by decide +kernel
    rcases hreplaced with ⟨s, hs, hreplaced⟩
    rw [(h s (reachable_of_run hs)).kept] at hreplaced
    cases hreplaced
  · intro h
    have hwrong : ∃ s ∈ run step initial twoTimes, ∃ invocation ∈ s.invoked,
        invocation.status = .available ∧ invocation.now < invocation.timeout.timePoint ∧
          invocation.remaining ≠
            (invocation.timeout.timePoint - invocation.now).tdiv millisecond := by decide +kernel
    rcases hwrong with ⟨s, hs, invocation, hinvocation, hstatus, htime, hwrong⟩
    exact hwrong (((h s (reachable_of_run hs)).fair invocation hinvocation).own hstatus htime)

end SomeIPRuntime.AvailabilityTimeouts
