import SomeIPRuntime.StepSystems
import SomeIPRuntime.Tables

set_option autoImplicit false

/-!
# The listeners of the status event of a proxy

A listener that subscribes is added to `listeners_` by a function that is pushed to the main loop, or
run by a thread of its own. A listener that unsubscribes is removed at once. Each block under
`listenersMutex_` is one step, and a function is two: between them it notifies its listener.
-/
namespace SomeIPRuntime.StatusListeners
open StepSystems

abbrev Entry (κ ι : Type) := κ × ι

/-- `pushed` are functions that are still to be run, `running` those that have not added their listener
    yet. `subscribed` is what the core event has. -/
structure State (κ ι : Type) where
  listeners : List (Entry κ ι)
  pushed : List (Entry κ ι)
  running : List (Entry κ ι)
  subscribed : κ → Option ι

def initial {κ ι : Type} : State κ ι := ⟨[], [], [], fun _ => none⟩

/-- The main loop runs the functions in order, the threads do not. -/
inductive Action (κ ι : Type)
  | subscribe (subscription : κ) (listener : ι)
  | unsubscribe (subscription : κ)
  | notifySpecificListener (i : ℕ)
  | pushBack (i : ℕ)

section Steps
variable {κ ι : Type} [DecidableEq κ]

def onListenerAdded (listener : ι) (subscription : κ) (s : State κ ι) : State κ ι :=
  { s with pushed := s.pushed ++ [(subscription, listener)] }

def onListenerRemoved (subscription : κ) (s : State κ ι) : State κ ι :=
  { s with listeners := s.listeners.filter fun entry => entry.1 ≠ subscription }

/-- The core event calls `onListenerAdded` for a subscription that is not in use, and
    `onListenerRemoved` for one that is. -/
def step (s : State κ ι) : Action κ ι → Option (State κ ι)
  | .subscribe subscription listener =>
    match s.subscribed subscription with
    | none =>
      some (onListenerAdded listener subscription
        { s with subscribed := Function.update s.subscribed subscription (some listener) })
    | some _ => none
  | .unsubscribe subscription =>
    match s.subscribed subscription with
    | none => none
    | some _ =>
      some (onListenerRemoved subscription
        { s with subscribed := Function.update s.subscribed subscription none })
  | .notifySpecificListener i =>
    s.pushed[i]?.map fun entry =>
      { s with pushed := s.pushed.eraseIdx i, running := s.running ++ [entry] }
  | .pushBack i =>
    s.running[i]?.map fun entry =>
      { s with running := s.running.eraseIdx i, listeners := s.listeners ++ [entry] }

def entryOf (subscribed : κ → Option ι) (subscription : κ) : List (Entry κ ι) :=
  ((subscribed subscription).map (subscription, ·)).toList

def Listed (entries : List (Entry κ ι)) (subscribed : κ → Option ι) : Prop :=
  ∀ subscription, entries.filter (fun entry => entry.1 = subscription) = entryOf subscribed subscription

/-- Where no function is outstanding, each listener that is subscribed is in the list once, and no other
    is. -/
def Follows (s : State κ ι) : Prop := s.pushed = [] → s.running = [] → Listed s.listeners s.subscribed

/-- A listener is not unsubscribed before its function is done. -/
def Patient (s : State κ ι) : Action κ ι → Prop
  | .unsubscribe subscription => ∀ entry ∈ s.running ++ s.pushed, entry.1 ≠ subscription
  | _ => True

instance (s : State κ ι) : (a : Action κ ι) → Decidable (Patient s a)
  | .unsubscribe subscription =>
    inferInstanceAs (Decidable (∀ entry ∈ s.running ++ s.pushed, entry.1 ≠ subscription))
  | .subscribe _ _ | .notifySpecificListener _ | .pushBack _ => .isTrue trivial

/-- Each listener that is subscribed is in the list or on its way into it. -/
def Good (s : State κ ι) : Prop := Listed (s.listeners ++ (s.running ++ s.pushed)) s.subscribed

variable {s t : State κ ι}

theorem Good.follows (h : Good s) : Follows s := by
  intro hpushed hrunning
  unfold Good at h
  rw [hpushed, hrunning, List.append_nil, List.append_nil] at h
  exact h

/-- At most one entry belongs to a subscription, so their order does not matter. -/
theorem Listed.perm {entries others : List (Entry κ ι)} {subscribed : κ → Option ι}
    (h : Listed entries subscribed) (hperm : others.Perm entries) : Listed others subscribed := by
  intro subscription
  have hfilter := hperm.filter fun entry => decide (entry.1 = subscription)
  rw [h subscription] at hfilter
  unfold entryOf at hfilter ⊢
  cases hsubscribed : subscribed subscription with
  | none =>
    rw [hsubscribed] at hfilter
    exact List.perm_nil.1 hfilter
  | some listener =>
    rw [hsubscribed] at hfilter
    exact List.perm_singleton.1 hfilter

theorem entryOf_update_self (subscribed : κ → Option ι) (subscription : κ) (listener : Option ι) :
    entryOf (Function.update subscribed subscription listener) subscription =
      (listener.map (subscription, ·)).toList := by
  unfold entryOf
  rw [Function.update_self]

theorem entryOf_update_of_ne (subscribed : κ → Option ι) {subscription other : κ}
    (hne : other ≠ subscription) (listener : Option ι) :
    entryOf (Function.update subscribed subscription listener) other = entryOf subscribed other := by
  unfold entryOf
  rw [Function.update_of_ne hne]

theorem Good.subscribe (h : Good s) {subscription : κ} (hunused : s.subscribed subscription = none)
    (listener : ι) :
    Good (onListenerAdded listener subscription
      { s with subscribed := Function.update s.subscribed subscription (some listener) }) := by
  intro other
  change List.filter _ (s.listeners ++ (s.running ++ (s.pushed ++ [(subscription, listener)]))) =
    entryOf (Function.update s.subscribed subscription (some listener)) other
  rw [← List.append_assoc s.running, ← List.append_assoc s.listeners, List.filter_append, h other]
  by_cases hsame : other = subscription
  · subst hsame
    rw [entryOf_update_self, List.filter_cons_of_pos (by simp)]
    unfold entryOf
    rw [hunused]
    rfl
  · rw [entryOf_update_of_ne _ hsame, List.filter_cons_of_neg (by simpa using Ne.symm hsame)]
    exact List.append_nil _

theorem Good.unsubscribe (h : Good s) {subscription : κ}
    (hok : ∀ entry ∈ s.running ++ s.pushed, entry.1 ≠ subscription) :
    Good (onListenerRemoved subscription
      { s with subscribed := Function.update s.subscribed subscription none }) := by
  intro other
  change List.filter _ (s.listeners.filter _ ++ (s.running ++ s.pushed)) =
    entryOf (Function.update s.subscribed subscription none) other
  rw [List.filter_append, List.filter_filter]
  by_cases hsame : other = subscription
  · subst hsame
    have hlisted : s.listeners.filter
        (fun entry => decide (entry.1 = other) && decide (entry.1 ≠ other)) = [] := by
      simp
    have hcoming : (s.running ++ s.pushed).filter (fun entry => decide (entry.1 = other)) = [] :=
      List.filter_eq_nil_iff.2 fun entry hentry => by simpa using hok entry hentry
    rw [entryOf_update_self, hlisted, hcoming]
    rfl
  · have hothers : s.listeners.filter
        (fun entry => decide (entry.1 = other) && decide (entry.1 ≠ subscription)) =
          s.listeners.filter (fun entry => decide (entry.1 = other)) := by
      apply List.filter_congr
      intro entry _
      by_cases hentry : entry.1 = other
      · simp [hentry, hsame]
      · simp [hentry]
    rw [entryOf_update_of_ne _ hsame, ← h other, hothers, ← List.filter_append]

theorem step_good (a : Action κ ι) (h : Good s) (hok : Patient s a) (hstep : step s a = some t) :
    Good t := by
  cases a with
  | subscribe subscription listener =>
    cases hsubscribed : s.subscribed subscription with
    | none =>
      simp only [step, hsubscribed] at hstep
      cases hstep
      exact h.subscribe hsubscribed listener
    | some other =>
      simp only [step, hsubscribed] at hstep
      cases hstep
  | unsubscribe subscription =>
    cases hsubscribed : s.subscribed subscription with
    | none =>
      simp only [step, hsubscribed] at hstep
      cases hstep
    | some listener =>
      simp only [step, hsubscribed] at hstep
      cases hstep
      exact h.unsubscribe hok
  | notifySpecificListener i =>
    rcases Option.map_eq_some_iff.1 hstep with ⟨entry, hentry, rfl⟩
    refine Listed.perm h (List.Perm.append_left s.listeners ?_)
    change ((s.running ++ [entry]) ++ s.pushed.eraseIdx i).Perm (s.running ++ s.pushed)
    rw [List.append_assoc]
    exact (Tables.eraseIdx_perm hentry).symm.append_left s.running
  | pushBack i =>
    rcases Option.map_eq_some_iff.1 hstep with ⟨entry, hentry, rfl⟩
    refine Listed.perm h ?_
    change ((s.listeners ++ [entry]) ++ (s.running.eraseIdx i ++ s.pushed)).Perm _
    rw [List.append_assoc, List.singleton_append, ← List.cons_append]
    exact ((Tables.eraseIdx_perm hentry).symm.append_right s.pushed).append_left s.listeners

/-- In every run in which no listener is unsubscribed before its function is done, the list follows the
    subscriptions. -/
theorem listeners_follow (h : Reachable step Patient initial s) : Follows s := by
  have hinitial : Good (initial : State κ ι) := fun _ => rfl
  exact (h.invariant hinitial fun _ a _ => step_good a).follows

def Stale (subscription : κ) (s : State κ ι) : Prop :=
  s.subscribed subscription = none ∧
    ∃ entry ∈ s.listeners ++ (s.running ++ s.pushed), entry.1 = subscription

def Action.isFunction : Action κ ι → Prop
  | .notifySpecificListener _ | .pushBack _ => True
  | .subscribe _ _ | .unsubscribe _ => False

theorem Stale.step {subscription : κ} {a : Action κ ι} (h : Stale subscription s) (ha : a.isFunction)
    (hstep : step s a = some t) : Stale subscription t := by
  rcases h with ⟨hnone, entry, hentry, hkey⟩
  cases a with
  | notifySpecificListener i =>
    rcases Option.map_eq_some_iff.1 hstep with ⟨moved, hmoved, rfl⟩
    have hmem := (Tables.eraseIdx_perm hmoved).mem_iff (a := entry)
    refine ⟨hnone, entry, ?_, hkey⟩
    simp only [List.mem_append, List.mem_cons, List.not_mem_nil, or_false] at hentry hmem ⊢
    tauto
  | pushBack i =>
    rcases Option.map_eq_some_iff.1 hstep with ⟨moved, hmoved, rfl⟩
    have hmem := (Tables.eraseIdx_perm hmoved).mem_iff (a := entry)
    refine ⟨hnone, entry, ?_, hkey⟩
    simp only [List.mem_append, List.mem_cons, List.not_mem_nil, or_false] at hentry hmem ⊢
    tauto
  | subscribe _ _ => exact ha.elim
  | unsubscribe _ => exact ha.elim

/-- Once a listener has unsubscribed before its function is done, the list is wrong when the functions
    that are outstanding have been run. -/
theorem early_unsubscription_stays {subscription : κ} (hearly : ¬ Patient s (.unsubscribe subscription))
    (hstep : step s (.unsubscribe subscription) = some t) {u : State κ ι}
    (hrun : Reachable step (fun _ a => a.isFunction) t u) (hpushed : u.pushed = [])
    (hrunning : u.running = []) : ¬ Follows u := by
  have hstale : Stale subscription t := by
    cases hsubscribed : s.subscribed subscription with
    | none =>
      simp only [step, hsubscribed] at hstep
      cases hstep
    | some listener =>
      simp only [step, hsubscribed] at hstep
      cases hstep
      unfold Patient at hearly
      push Not at hearly
      rcases hearly with ⟨entry, hentry, hkey⟩
      exact ⟨Function.update_self _ _ _, entry, List.mem_append_right _ hentry, hkey⟩
  rcases hrun.invariant hstale fun _ _ _ hs ha => hs.step ha with ⟨hnone, entry, hentry, hkey⟩
  intro hfollows
  have hlisted := hfollows hpushed hrunning subscription
  rw [hpushed, hrunning, List.append_nil, List.append_nil] at hentry
  unfold entryOf at hlisted
  rw [hnone] at hlisted
  have hmem : entry ∈ u.listeners.filter fun entry => decide (entry.1 = subscription) :=
    List.mem_filter.2 ⟨hentry, decide_eq_true hkey⟩
  rw [hlisted] at hmem
  cases hmem

end Steps

def comingAndGoing : List (Action ℕ String) :=
  [.subscribe 1 "a", .notifySpecificListener 0, .subscribe 2 "b", .pushBack 0, .notifySpecificListener 0,
    .pushBack 0, .subscribe 3 "c", .unsubscribe 2, .notifySpecificListener 0, .pushBack 0]

theorem coming_and_going_followed :
    ∃ s, run step initial comingAndGoing = some s ∧ s.listeners = [(1, "a"), (3, "c")] ∧ Follows s := by
  have hrun : ∃ s, run step initial comingAndGoing = some s ∧ s.listeners = [(1, "a"), (3, "c")] :=
    ⟨_, rfl, by decide⟩
  rcases hrun with ⟨s, hs, hlisteners⟩
  exact ⟨s, hs, hlisteners, listeners_follow (.of_run comingAndGoing (by decide) hs)⟩

/-- The listener goes before the main loop has run its function. -/
theorem unsubscribed_listener_added :
    ¬ ∀ s : State ℕ String, Reachable step Free initial s → Follows s := by
  intro h
  have hrun : ∃ s, run step (initial : State ℕ String)
      [.subscribe 1 "a", .unsubscribe 1, .notifySpecificListener 0, .pushBack 0] = some s ∧
      s.listeners = [(1, "a")] ∧ s.pushed = [] ∧ s.running = [] ∧ s.subscribed 1 = none :=
    ⟨_, rfl, by decide⟩
  rcases hrun with ⟨s, hs, hlisteners, hpushed, hrunning, hnone⟩
  have hlisted := h s (reachable_of_run hs) hpushed hrunning 1
  unfold entryOf at hlisted
  rw [hlisteners, hnone] at hlisted
  cases hlisted

end SomeIPRuntime.StatusListeners
