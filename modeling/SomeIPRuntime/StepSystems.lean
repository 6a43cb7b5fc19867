import Mathlib.Tactic

set_option autoImplicit false

/-!
# Systems of atomic steps

A system is a partial step function, whose labels say which party moves and what it
chooses. A run may be bound to a condition on the state before each step. What holds
at the start and is kept by every such step holds in every state that is reached.
-/
namespace SomeIPRuntime.StepSystems

variable {σ ι : Type} {step : σ → ι → Option σ} {ok : σ → ι → Prop} {start s t : σ}

def run (step : σ → ι → Option σ) : σ → List ι → Option σ
  | s, [] => some s
  | s, a :: rest => (step s a).bind fun t => run step t rest

def Meets (step : σ → ι → Option σ) (ok : σ → ι → Prop) : σ → List ι → Prop
  | _, [] => True
  | s, a :: rest => ok s a ∧ ∀ t ∈ step s a, Meets step ok t rest

/-- The property holds in every state of the run. -/
def Along (step : σ → ι → Option σ) (P : σ → Prop) : σ → List ι → Prop
  | s, [] => P s
  | s, a :: rest => P s ∧ ∀ t ∈ step s a, Along step P t rest

/-- The states that are reached by steps that meet the condition. -/
inductive Reachable (step : σ → ι → Option σ) (ok : σ → ι → Prop) (start : σ) : σ → Prop
  | start : Reachable step ok start start
  | next {s t : σ} {a : ι} (hs : Reachable step ok start s) (hok : ok s a)
      (hstep : step s a = some t) : Reachable step ok start t

abbrev Free : σ → ι → Prop := fun _ _ => True

theorem Reachable.invariant {I : σ → Prop} (h : Reachable step ok start s) (hstart : I start)
    (hstep : ∀ s a t, I s → ok s a → step s a = some t → I t) : I s := by
  induction h with
  | start => exact hstart
  | next _ hok hs ih => exact hstep _ _ _ ih hok hs

theorem run_append (as bs : List ι) (s : σ) :
    run step s (as ++ bs) = (run step s as).bind fun t => run step t bs := by
  induction as generalizing s with
  | nil => rfl
  | cons a as ih =>
    simp only [List.cons_append, run]
    cases step s a with
    | none => rfl
    | some t => exact ih t

theorem Reachable.runs {as : List ι} (h : Reachable step ok start s) (hmeets : Meets step ok s as)
    (hrun : run step s as = some t) : Reachable step ok start t := by
  induction as generalizing s with
  | nil =>
    cases hrun
    exact h
  | cons a as ih =>
    simp only [run] at hrun
    cases hstep : step s a with
    | none =>
      rw [hstep] at hrun
      cases hrun
    | some u =>
      rw [hstep] at hrun
      exact ih (h.next hmeets.1 hstep) (hmeets.2 u hstep) hrun

theorem Reachable.of_run (as : List ι) (hmeets : Meets step ok start as)
    (hrun : run step start as = some t) : Reachable step ok start t :=
  Reachable.start.runs hmeets hrun

theorem meets_free (as : List ι) (s : σ) : Meets step Free s as := by
  induction as generalizing s with
  | nil => trivial
  | cons a as ih => exact ⟨trivial, fun t _ => ih t⟩

theorem run_history {I : List ι → σ → Prop} {before as : List ι} (hrun : run step s as = some t)
    (hmeets : Meets step ok s as) (hs : I before s)
    (hkeep : ∀ before s a t, I before s → ok s a → step s a = some t → I (before ++ [a]) t) :
    I (before ++ as) t := by
  induction as generalizing before s with
  | nil =>
    cases hrun
    exact (List.append_nil before).symm ▸ hs
  | cons a as ih =>
    simp only [run] at hrun
    cases hstep : step s a with
    | none =>
      rw [hstep] at hrun
      cases hrun
    | some u =>
      rw [hstep] at hrun
      have hnext := ih hrun (hmeets.2 u hstep) (hkeep before s a u hs hmeets.1 hstep)
      rw [List.append_assoc] at hnext
      exact hnext

/-- A property that each step keeps exactly if it meets the condition holds along exactly the runs
    whose steps all meet it. -/
theorem along_iff_meets {I P : σ → Prop} {as : List ι} (hrun : run step s as = some t) (hI : I s)
    (hP : ∀ s, I s → P s) (hkeep : ∀ s a t, I s → ok s a → step s a = some t → I t)
    (hexact : ∀ s a t, I s → step s a = some t → P t → ok s a) :
    Along step P s as ↔ Meets step ok s as := by
  induction as generalizing s with
  | nil => exact iff_of_true (hP s hI) trivial
  | cons a as ih =>
    simp only [run] at hrun
    cases hstep : step s a with
    | none =>
      rw [hstep] at hrun
      cases hrun
    | some u =>
      rw [hstep] at hrun
      refine ⟨fun h => ?_, fun h => ⟨hP s hI, fun v hv => ?_⟩⟩
      · have hu := h.2 u hstep
        have hok : ok s a := hexact s a u hI hstep (by cases as <;> first | exact hu | exact hu.1)
        refine ⟨hok, fun v hv => ?_⟩
        cases hstep.symm.trans hv
        exact (ih hrun (hkeep s a u hI hok hstep)).1 hu
      · cases hstep.symm.trans hv
        exact (ih hrun (hkeep s a u hI h.1 hstep)).2 (h.2 u hstep)

theorem reachable_of_run {as : List ι} (hrun : run step start as = some t) :
    Reachable step Free start t :=
  .of_run as (meets_free as start) hrun

instance [hok : ∀ s a, Decidable (ok s a)] :
    (as : List ι) → (s : σ) → Decidable (Meets step ok s as)
  | [], _ => .isTrue trivial
  | a :: as, s =>
    match hs : step s a, hok s a with
    | _, .isFalse h => .isFalse fun hm => h hm.1
    | none, .isTrue h => .isTrue ⟨h, fun t ht => by rw [hs] at ht; cases ht⟩
    | some t, .isTrue h =>
      match instDecidableMeets as t with
      | .isTrue hrest => .isTrue ⟨h, fun u hu => by rw [hs] at hu; cases hu; exact hrest⟩
      | .isFalse hrest => .isFalse fun hm => hrest (hm.2 t hs)

end SomeIPRuntime.StepSystems
