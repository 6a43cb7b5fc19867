import SomeIPRuntime.StepSystems

set_option autoImplicit false

/-!
# The queue of the main loop

Any threads push entries with `Watch::pushQueue`, and the thread of the main loop takes them with
`DispatchSource::dispatch`. Each block under `queueMutex_` and each successful call on the
`eventfd` is one step.
-/
namespace SomeIPRuntime.MainLoopQueue
open StepSystems

/-- Where the thread of the main loop is: outside of `dispatch`, which has returned `more`, or in
    front of the next of its steps. -/
inductive Consumer (ε : Type)
  | returned (more : Bool)
  | frontQueue
  | read (queueEntry : ε)
  | pop (queueEntry : ε)
  | processQueueEntry (queueEntry : ε)
  | emptyQueue
  | undefined
  deriving DecidableEq

/-- The producers in `writing` have pushed their entry, and are still to write to the `eventfd`. The
    last two record what has been pushed and what has been processed. -/
structure State (ε : Type) where
  queue : List ε
  eventFd : ℕ
  connection : Bool
  writing : Finset ℕ
  consumer : Consumer ε
  pushed : List ε
  processed : List ε

def initial {ε : Type} : State ε := ⟨[], 0, true, ∅, .returned false, [], []⟩

def eventFdMax : ℕ := 2 ^ 64 - 2

inductive Action (ε : Type)
  | push (producer : ℕ) (queueEntry : ε)
  | write (producer : ℕ)
  | dispatch
  | release

section Steps
variable {ε : Type}

/-- `DispatchSource::prepare` and `DispatchSource::check` -/
def check (s : State ε) : Bool := !s.queue.isEmpty

/-- The next step of `dispatch`. A read waits for a positive count. -/
def dispatch (s : State ε) : Option (State ε) :=
  match s.consumer with
  | .returned _ =>
    some { s with consumer := if s.queue.isEmpty then .emptyQueue else .frontQueue }
  | .frontQueue =>
    some { s with consumer := match s.queue with
      | queueEntry :: _ => .read queueEntry
      | [] => .undefined }
  | .read queueEntry =>
    if 0 < s.eventFd then some { s with eventFd := s.eventFd - 1, consumer := .pop queueEntry } else none
  | .pop queueEntry =>
    match s.queue with
    | _ :: rest => some { s with queue := rest, consumer := .processQueueEntry queueEntry }
    | [] => some { s with consumer := .undefined }
  | .processQueueEntry queueEntry =>
    if s.connection then
      some { s with processed := s.processed ++ [queueEntry], consumer := .emptyQueue }
    else some { s with consumer := .emptyQueue }
  | .emptyQueue => some { s with consumer := .returned (!s.queue.isEmpty) }
  | .undefined => none

def step (s : State ε) : Action ε → Option (State ε)
  | .push producer queueEntry =>
    if producer ∈ s.writing then none
    else some { s with
      queue := s.queue ++ [queueEntry]
      writing := insert producer s.writing
      pushed := s.pushed ++ [queueEntry] }
  | .write producer =>
    if producer ∈ s.writing ∧ s.eventFd < eventFdMax then
      some { s with eventFd := s.eventFd + 1, writing := s.writing.erase producer }
    else none
  | .dispatch => dispatch s
  | .release => some { s with connection := false }

def Consumer.inHand : Consumer ε → List ε
  | .processQueueEntry queueEntry => [queueEntry]
  | _ => []

def Consumer.front : Consumer ε → Option ε
  | .read queueEntry | .pop queueEntry => some queueEntry
  | _ => none

def Consumer.toPop : Consumer ε → ℕ
  | .pop _ => 1
  | _ => 0

/-- Entries are processed once and in order, only what `frontQueue` has returned is popped, and the
    thread waits in `popQueue` only for a producer between its two steps. -/
structure Delivers (s : State ε) : Prop where
  order : s.processed ++ s.consumer.inHand ++ s.queue = s.pushed
  front : ∀ queueEntry ∈ s.consumer.front, s.queue.head? = some queueEntry
  nonempty : s.consumer = .frontQueue → s.queue ≠ []
  defined : s.consumer ≠ .undefined
  count : s.eventFd ≤ s.queue.length
  wait : ∀ queueEntry, s.consumer = .read queueEntry → s.eventFd = 0 → s.writing.Nonempty

/-- Each entry in the queue is counted, is to be counted by its producer, or is to be popped. -/
structure Good (s : State ε) : Prop where
  order : s.connection = true → s.processed ++ s.consumer.inHand ++ s.queue = s.pushed
  front : ∀ queueEntry ∈ s.consumer.front, s.queue.head? = some queueEntry
  nonempty : s.consumer = .frontQueue → s.queue ≠ []
  defined : s.consumer ≠ .undefined
  counted : s.queue.length = s.eventFd + s.writing.card + s.consumer.toPop

variable {s t : State ε}

theorem Good.delivers (h : Good s) (halive : s.connection = true) : Delivers s where
  order := h.order halive
  front := h.front
  nonempty := h.nonempty
  defined := h.defined
  count := by
    have hcounted := h.counted
    omega
  wait queueEntry hread hzero := by
    have hcounted := h.counted
    have hhead := h.front queueEntry (by rw [hread]; rfl)
    have hne : s.queue ≠ [] := by
      intro hnil
      rw [hnil] at hhead
      cases hhead
    have hpos := List.length_pos_of_ne_nil hne
    rw [hread, hzero] at hcounted
    change s.queue.length = 0 + s.writing.card + 0 at hcounted
    exact Finset.card_pos.1 (by omega)

theorem Good.push (h : Good s) {producer : ℕ} (hnew : producer ∉ s.writing) (queueEntry : ε) :
    Good { s with
      queue := s.queue ++ [queueEntry]
      writing := insert producer s.writing
      pushed := s.pushed ++ [queueEntry] } where
  order halive := by
    rw [← h.order halive, ← List.append_assoc]
  front front hfront := by
    change (s.queue ++ [queueEntry]).head? = some front
    rw [List.head?_append, h.front front hfront, Option.some_or]
  nonempty _ := List.append_ne_nil_of_right_ne_nil _ (List.cons_ne_nil _ _)
  defined := h.defined
  counted := by
    have hcounted := h.counted
    change (s.queue ++ [queueEntry]).length = s.eventFd + (insert producer s.writing).card + s.consumer.toPop
    rw [List.length_append, List.length_singleton, Finset.card_insert_of_notMem hnew]
    omega

theorem Good.write (h : Good s) {producer : ℕ} (hwriting : producer ∈ s.writing) :
    Good { s with eventFd := s.eventFd + 1, writing := s.writing.erase producer } where
  order := h.order
  front := h.front
  nonempty := h.nonempty
  defined := h.defined
  counted := by
    have hcounted := h.counted
    have hcard := Finset.card_erase_add_one hwriting
    change s.queue.length = s.eventFd + 1 + (s.writing.erase producer).card + s.consumer.toPop
    omega

theorem Good.queue_front (h : Good s) {queueEntry : ε} (hfront : s.consumer.front = some queueEntry) :
    ∃ rest, s.queue = queueEntry :: rest :=
  List.head?_eq_some_iff.1 (h.front queueEntry hfront)

theorem Good.read (h : Good s) {queueEntry : ε} (hconsumer : s.consumer = .read queueEntry)
    (hpos : 0 < s.eventFd) :
    Good { s with eventFd := s.eventFd - 1, consumer := .pop queueEntry } where
  order halive := by
    rw [← h.order halive, hconsumer]
    rfl
  front front hfront := by
    cases hfront
    exact h.front queueEntry (by rw [hconsumer]; rfl)
  nonempty := nofun
  defined := nofun
  counted := by
    have hcounted := h.counted
    rw [hconsumer] at hcounted
    change s.queue.length = s.eventFd + s.writing.card + 0 at hcounted
    change s.queue.length = s.eventFd - 1 + s.writing.card + 1
    omega

theorem Good.pop (h : Good s) {queueEntry : ε} (hconsumer : s.consumer = .pop queueEntry) :
    ∃ rest, s.queue = queueEntry :: rest ∧
      Good { s with queue := rest, consumer := .processQueueEntry queueEntry } := by
  have hfront : s.consumer.front = some queueEntry := by
    rw [hconsumer]
    rfl
  have horder := h.order
  have hcounted := h.counted
  rcases h.queue_front hfront with ⟨rest, hqueue⟩
  rw [hconsumer, hqueue] at horder hcounted
  refine ⟨rest, hqueue, fun halive => ?_, nofun, nofun, nofun, ?_⟩
  · rw [← horder halive]
    change s.processed ++ [queueEntry] ++ rest = s.processed ++ [] ++ queueEntry :: rest
    rw [List.append_nil, List.append_assoc, List.singleton_append]
  · change rest.length = s.eventFd + s.writing.card + 0
    change rest.length + 1 = s.eventFd + s.writing.card + 1 at hcounted
    omega

theorem Good.processQueueEntry (h : Good s) {queueEntry : ε}
    (hconsumer : s.consumer = .processQueueEntry queueEntry) :
    Good { s with processed := s.processed ++ [queueEntry], consumer := .emptyQueue } where
  order halive := by
    rw [← h.order halive, hconsumer]
    change s.processed ++ [queueEntry] ++ [] ++ s.queue = s.processed ++ [queueEntry] ++ s.queue
    rw [List.append_nil]
  front := nofun
  nonempty := nofun
  defined := nofun
  counted := by
    rw [h.counted, hconsumer]
    rfl

theorem Good.dispatch (h : Good s) (hstep : dispatch s = some t) : Good t := by
  have horder := h.order
  have hcounted := h.counted
  unfold MainLoopQueue.dispatch at hstep
  cases hconsumer : s.consumer with
  | returned more =>
    rw [hconsumer] at hstep horder hcounted
    cases hstep
    by_cases hempty : s.queue.isEmpty = true
    · rw [if_pos hempty]
      exact ⟨horder, nofun, nofun, nofun, hcounted⟩
    · rw [if_neg hempty]
      exact ⟨horder, nofun, fun _ hnil => hempty (List.isEmpty_iff.2 hnil), nofun, hcounted⟩
  | frontQueue =>
    rw [hconsumer] at hstep horder hcounted
    cases hqueue : s.queue with
    | nil => exact absurd hqueue (h.nonempty hconsumer)
    | cons queueEntry rest =>
      rw [hqueue] at hstep horder hcounted
      cases hstep
      refine ⟨horder, ?_, nofun, nofun, hcounted⟩
      rintro front hfront
      cases hfront
      rfl
  | read queueEntry =>
    rw [hconsumer] at hstep
    rcases Option.ite_none_right_eq_some.1 hstep with ⟨hpos, ⟨⟩⟩
    exact h.read hconsumer hpos
  | pop queueEntry =>
    rcases h.pop hconsumer with ⟨rest, hqueue, hgood⟩
    rw [hconsumer] at hstep
    rw [hqueue] at hstep
    cases hstep
    exact hgood
  | processQueueEntry queueEntry =>
    rw [hconsumer] at hstep hcounted
    dsimp only at hstep
    split at hstep
    · cases hstep
      exact h.processQueueEntry hconsumer
    next hgone =>
      -- without a connection the entry is dropped
      cases hstep
      exact ⟨fun halive => absurd halive hgone, nofun, nofun, nofun, hcounted⟩
  | emptyQueue =>
    rw [hconsumer] at hstep horder hcounted
    cases hstep
    exact ⟨horder, nofun, nofun, nofun, hcounted⟩
  | undefined => exact absurd hconsumer h.defined

theorem Good.release (h : Good s) : Good { s with connection := false } :=
  ⟨nofun, h.front, h.nonempty, h.defined, h.counted⟩

theorem good_initial : Good (initial : State ε) := ⟨fun _ => rfl, nofun, nofun, nofun, rfl⟩

theorem step_good (a : Action ε) (h : Good s) (hstep : step s a = some t) : Good t := by
  cases a with
  | push producer queueEntry =>
    change (if producer ∈ s.writing then none else _) = _ at hstep
    split at hstep
    · cases hstep
    next hnew =>
      cases hstep
      exact h.push hnew queueEntry
  | write producer =>
    change (if producer ∈ s.writing ∧ _ then _ else none) = _ at hstep
    split at hstep
    next hwriting =>
      cases hstep
      exact h.write hwriting.1
    · cases hstep
  | dispatch => exact h.dispatch hstep
  | release =>
    cases hstep
    exact h.release

/-- In every run of producers and the main loop, as long as the connection is alive, the queue delivers
    each entry once and in order. -/
theorem queue_delivers (h : Reachable step Free initial s) (halive : s.connection = true) : Delivers s :=
  (h.invariant good_initial fun _ a _ hs _ hstep => step_good a hs hstep).delivers halive

end Steps

/-- The second producer pushes while the first has not written, and the main loop waits for it. -/
def twoProducers : List (Action ℕ) :=
  [.push 0 10, .dispatch, .dispatch, .push 1 11, .write 1, .dispatch, .dispatch, .dispatch, .dispatch,
    .dispatch, .dispatch]

theorem two_producers_delivered :
    ∃ s, run step initial twoProducers = some s ∧ s.consumer = .read 11 ∧ s.processed = [10] ∧
      s.writing = {0} ∧ Delivers s := by
  have hrun : ∃ s, run step initial twoProducers = some s ∧ s.connection = true ∧
      s.consumer = .read 11 ∧ s.processed = [10] ∧ s.writing = {0} := ⟨_, rfl, by decide⟩
  rcases hrun with ⟨s, hs, halive, hconsumer, hprocessed, hwriting⟩
  exact ⟨s, hs, hconsumer, hprocessed, hwriting, queue_delivers (reachable_of_run hs) halive⟩

end SomeIPRuntime.MainLoopQueue
