import Mathlib.Tactic

set_option autoImplicit false

/-!
# Runs of state programs that may halt

A program of `EStateM` either returns a value or halts early, and leaves a state
in both cases. `Respects R F` says how the state a run ends in is related to the
state it started from: by `R` when the run returns, by `F` when it halts. For a
reflexive and transitive `R` that `F` absorbs, the notion is closed under
sequencing, so a property of the primitive programs is a property of every
program composed of them. `Returns` is the same for programs without a state.
-/
namespace SomeIPRuntime.ProgramRuns

section Equations
variable {ε σ α β : Type}

def finalState : EStateM.Result ε σ α → σ
  | .ok _ t => t
  | .error _ t => t

def returned : EStateM.Result ε σ α → Option α
  | .ok a _ => some a
  | .error _ _ => none

def halted : EStateM.Result ε σ α → Option ε
  | .ok _ _ => none
  | .error e _ => some e

def fromExcept (x : Except ε α) : EStateM ε σ α :=
  match x with
  | .ok a => pure a
  | .error e => throw e

theorem eq_ok_of_returned {r : EStateM.Result ε σ α} {a : α} (h : returned r = some a) :
    r = .ok a (finalState r) := by
  cases r with
  | ok b t => exact congrArg (EStateM.Result.ok · t) (Option.some.inj h)
  | error e t => cases h

theorem bind_run (x : EStateM ε σ α) (f : α → EStateM ε σ β) (s : σ) :
    (x >>= f) s = match x s with
      | .ok a t => f a t
      | .error e t => .error e t := rfl

theorem bind_ok {x : EStateM ε σ α} {f : α → EStateM ε σ β} {s t : σ} {a : α}
    (h : x s = .ok a t) : (x >>= f) s = f a t := by
  rw [bind_run, h]

theorem bind_error {x : EStateM ε σ α} {f : α → EStateM ε σ β} {s t : σ} {e : ε}
    (h : x s = .error e t) : (x >>= f) s = .error e t := by
  rw [bind_run, h]

theorem bind_halts {x : EStateM ε σ α} {f : α → EStateM ε σ β} {s : σ} {e : ε}
    (h : ∃ t, x s = .error e t) : ∃ t, (x >>= f) s = .error e t := by
  obtain ⟨t, ht⟩ := h
  exact ⟨t, bind_error ht⟩

theorem bind_eq_ok {x : EStateM ε σ α} {f : α → EStateM ε σ β} {s u : σ} {b : β} :
    (x >>= f) s = .ok b u ↔ ∃ a t, x s = .ok a t ∧ f a t = .ok b u := by
  rw [bind_run]
  cases x s with
  | ok a t => simp
  | error e t => simp

theorem pure_run (a : α) (s : σ) : (pure a : EStateM ε σ α) s = .ok a s := rfl

theorem map_run (f : α → β) (x : EStateM ε σ α) (s : σ) :
    (f <$> x) s = match x s with
      | .ok a t => .ok (f a) t
      | .error e t => .error e t := rfl

theorem map_eq_ok {f : α → β} {x : EStateM ε σ α} {s u : σ} {b : β} :
    (f <$> x) s = .ok b u ↔ ∃ a, x s = .ok a u ∧ f a = b := by
  rw [map_run]
  cases x s with
  | ok a t => simp [and_comm]
  | error e t => simp

theorem get_run (s : σ) : (get : EStateM ε σ σ) s = .ok s s := rfl

theorem set_run (s t : σ) : (set t : EStateM ε σ PUnit) s = .ok ⟨⟩ t := rfl

theorem modify_run (f : σ → σ) (s : σ) : (modify f : EStateM ε σ PUnit) s = .ok ⟨⟩ (f s) := rfl

end Equations

section Respects
variable {ε σ α β : Type} {R : σ → σ → Prop} {F : σ → ε → σ → Prop}

def Outcome (R : σ → σ → Prop) (F : σ → ε → σ → Prop) (s : σ) : EStateM.Result ε σ α → Prop
  | .ok _ t => R s t
  | .error e t => F s e t

def Respects (R : σ → σ → Prop) (F : σ → ε → σ → Prop) (x : EStateM ε σ α) : Prop :=
  ∀ s, Outcome R F s (x s)

structure Composes (R : σ → σ → Prop) (F : σ → ε → σ → Prop) : Prop where
  refl : ∀ s, R s s
  trans : ∀ {s t u}, R s t → R t u → R s u
  absorb : ∀ {s t u e}, R s t → F t e u → F s e u

theorem Respects.ok {x : EStateM ε σ α} (h : Respects R F x) {s t : σ} {a : α}
    (hx : x s = .ok a t) : R s t := by
  have hs := h s
  rw [hx] at hs
  exact hs

theorem Respects.error {x : EStateM ε σ α} (h : Respects R F x) {s t : σ} {e : ε}
    (hx : x s = .error e t) : F s e t := by
  have hs := h s
  rw [hx] at hs
  exact hs

/-- Where halting runs are related like returning ones, the outcome does not matter. -/
theorem Respects.finalState {x : EStateM ε σ α} (h : Respects R (fun s _ t => R s t) x) (s : σ) :
    R s (finalState (x s)) := by
  have hs := h s
  cases hx : x s <;> (rw [hx] at hs; exact hs)

theorem Outcome.imp {R' : σ → σ → Prop} {F' : σ → ε → σ → Prop} {s : σ} {r : EStateM.Result ε σ α}
    (h : Outcome R F s r) (hR : ∀ t, R s t → R' s t) (hF : ∀ e t, F s e t → F' s e t) :
    Outcome R' F' s r := by
  cases r with
  | ok a t => exact hR t h
  | error e t => exact hF e t h

theorem Respects.imp {R' : σ → σ → Prop} {F' : σ → ε → σ → Prop} {x : EStateM ε σ α}
    (h : Respects R F x) (hR : ∀ s t, R s t → R' s t) (hF : ∀ s e t, F s e t → F' s e t) :
    Respects R' F' x := fun s => (h s).imp (hR s) (hF s)

/-- What is known of the state in between may be used for the rest of the run. -/
theorem outcome_bind (hc : Composes R F) {x : EStateM ε σ α} {f : α → EStateM ε σ β} {s : σ}
    (hx : Outcome R F s (x s)) (hf : ∀ a t, x s = .ok a t → Outcome R F t (f a t)) :
    Outcome R F s ((x >>= f) s) := by
  rw [bind_run]
  cases hxs : x s with
  | error e t =>
    rw [hxs] at hx
    exact hx
  | ok a t =>
    rw [hxs] at hx
    have ht := hf a t hxs
    cases hft : f a t with
    | ok b u =>
      rw [hft] at ht
      simpa [hft, Outcome] using hc.trans hx ht
    | error e u =>
      rw [hft] at ht
      simpa [hft, Outcome] using hc.absorb hx ht

/-- What the starting state is assumed to be may be used for the whole run. -/
theorem outcome_assuming {P : σ → Prop} {s : σ} {r : EStateM.Result ε σ α}
    (h : P s → Outcome R F s r) :
    Outcome (fun s t => P s → R s t) (fun s e t => P s → F s e t) s r := by
  cases r with
  | ok a t => exact h
  | error e t => exact h

theorem respects_pure (hc : Composes R F) (a : α) : Respects R F (pure a) := fun s => hc.refl s

theorem respects_bind (hc : Composes R F) {x : EStateM ε σ α} {f : α → EStateM ε σ β}
    (hx : Respects R F x) (hf : ∀ a, Respects R F (f a)) : Respects R F (x >>= f) :=
  fun s => outcome_bind hc (hx s) fun a t _ => hf a t

theorem respects_map (hc : Composes R F) (f : α → β) {x : EStateM ε σ α}
    (hx : Respects R F x) : Respects R F (f <$> x) :=
  respects_bind hc hx fun a => respects_pure hc (f a)

theorem respects_get (hc : Composes R F) : Respects R F (get : EStateM ε σ σ) := fun s => hc.refl s

theorem respects_ite {p : Prop} [Decidable p] {x y : EStateM ε σ α}
    (hx : Respects R F x) (hy : Respects R F y) : Respects R F (if p then x else y) := by
  split
  · exact hx
  · exact hy

end Respects

section Halting
variable {ε σ α β : Type} {e : ε}

theorem halted_bind_halts {x : EStateM ε σ α} {f : α → EStateM ε σ β} {s : σ}
    (h : halted (x s) = some e) : halted ((x >>= f) s) = some e := by
  rw [bind_run]
  cases hxs : x s with
  | ok a t =>
    rw [hxs] at h
    cases h
  | error d t =>
    rw [hxs] at h
    exact h

def Approximates (e : ε) (x y : EStateM ε σ α) : Prop := ∀ s, halted (x s) = some e ∨ y s = x s

theorem approximates_refl (x : EStateM ε σ α) : Approximates e x x := fun _ => Or.inr rfl

theorem approximates_bind {x y : EStateM ε σ α} {f g : α → EStateM ε σ β}
    (hx : Approximates e x y) (hf : ∀ a, Approximates e (f a) (g a)) :
    Approximates e (x >>= f) (y >>= g) := by
  intro s
  rw [bind_run, bind_run]
  obtain hbad | hsame := hx s
  · left
    cases hxs : x s with
    | ok a t =>
      rw [hxs] at hbad
      cases hbad
    | error d t =>
      rw [hxs] at hbad
      exact hbad
  · rw [hsame]
    cases x s with
    | ok a t => exact hf a t
    | error d t => exact Or.inr rfl

theorem approximates_ite {c : Prop} [Decidable c] {x y x' y' : EStateM ε σ α}
    (hx : Approximates e x x') (hy : Approximates e y y') :
    Approximates e (if c then x else y) (if c then x' else y') := by
  split
  · exact hx
  · exact hy

theorem Approximates.ok {x y : EStateM ε σ α} (h : Approximates e x y) {s t : σ} {a : α}
    (hx : x s = .ok a t) : y s = .ok a t := by
  obtain hbad | hsame := h s
  · rw [hx] at hbad
    cases hbad
  · exact hsame.trans hx

end Halting

section Returns
variable {ε α β : Type} {P : α → Prop} {Q : β → Prop}

/-- A program of `Except` returns, and what it returns has the property. -/
def Returns (x : Except ε α) (P : α → Prop) : Prop := ∃ a, x = .ok a ∧ P a

theorem returns_pure {a : α} (h : P a) : Returns (pure a : Except ε α) P := ⟨a, rfl, h⟩

theorem returns_bind {x : Except ε α} {f : α → Except ε β} (hx : Returns x P)
    (hf : ∀ a, P a → Returns (f a) Q) : Returns (x >>= f) Q := by
  obtain ⟨a, rfl, ha⟩ := hx
  exact hf a ha

theorem Returns.imp {x : Except ε α} {P' : α → Prop} (hx : Returns x P) (h : ∀ a, P a → P' a) :
    Returns x P' := by
  obtain ⟨a, ha, hp⟩ := hx
  exact ⟨a, ha, h a hp⟩

/-- If a program of `Except` returns, what it returns has the property. -/
def Ensures (x : Except ε α) (P : α → Prop) : Prop := ∀ a, x = .ok a → P a

theorem ensures_ok {a : α} (h : P a) : Ensures (.ok a : Except ε α) P := by
  intro b hb
  cases hb
  exact h

theorem ensures_error (e : ε) : Ensures (.error e : Except ε α) P :=
  fun _ hb => (by cases hb)

theorem ensures_bind {x : Except ε α} {f : α → Except ε β}
    (h : ∀ a, x = .ok a → Ensures (f a) Q) : Ensures (x >>= f) Q := by
  cases x with
  | ok a => exact h a rfl
  | error e => exact ensures_error e

theorem ensures_map {x : Except ε α} {f : α → β} (h : Ensures x fun a => Q (f a)) :
    Ensures (f <$> x) Q := by
  cases x with
  | ok a => exact ensures_ok (h a rfl)
  | error e => exact ensures_error e

theorem ensures_map_iff {x : Except ε α} {f : α → β} :
    Ensures (f <$> x) Q ↔ Ensures x fun a => Q (f a) :=
  ⟨fun h a ha => h (f a) (by rw [ha]; rfl), ensures_map⟩

theorem ensures_ite {c : Prop} [Decidable c] {x y : Except ε α} (hx : c → Ensures x P)
    (hy : ¬ c → Ensures y P) : Ensures (if c then x else y) P := by
  split
  · exact hx ‹c›
  · exact hy ‹¬ c›

end Returns

end SomeIPRuntime.ProgramRuns
