import Mathlib.Tactic

set_option autoImplicit false

namespace SomeIPRuntime.Mirroring

inductive Op (α : Type) where
  | add (argument : α)
  | remove (argument : α)
  deriving DecidableEq, Repr

variable {α κ : Type}

def Op.leaves : Op α → Option α
  | .add a => some a
  | .remove _ => none

structure View (α : Type) where
  held : Prop
  far : α → Prop
  calls : List (Op α)

def Latest (v : View α) (a : α) : Prop :=
  match v.calls.getLast? with
  | some op => op = .add a
  | none => v.far a

inductive Settles : Option α → List (Op α) → Option α → Prop
  | nil (there : Option α) : Settles there [] there
  | add {there settled : Option α} {a : α} {calls : List (Op α)} (hthere : ∀ b ∈ there, b = a)
      (hrest : Settles (some a) calls settled) : Settles there (.add a :: calls) settled
  | remove {settled : Option α} {a : α} {calls : List (Op α)}
      (hrest : Settles none calls settled) : Settles (some a) (.remove a :: calls) settled

theorem Settles.snoc {there settled : Option α} {calls : List (Op α)}
    (h : Settles there calls settled) {op : Op α} {after : Option α}
    (hlast : Settles settled [op] after) : Settles there (calls ++ [op]) after := by
  induction h with
  | nil _ => exact hlast
  | add hthere _ ih => exact .add hthere (ih hlast)
  | remove _ ih => exact .remove (ih hlast)

theorem Settles.last {there settled : Option α} {calls : List (Op α)}
    (h : Settles there calls settled) {op : Op α} (hlast : calls.getLast? = some op) :
    settled = op.leaves := by
  induction h with
  | nil _ => cases hlast
  | @add _ _ a calls _ hrest ih =>
    cases calls with
    | nil =>
      cases hlast
      cases hrest
      rfl
    | cons next calls =>
      rw [List.getLast?_cons_cons] at hlast
      exact ih hlast
  | @remove _ a calls hrest ih =>
    cases calls with
    | nil =>
      cases hlast
      cases hrest
      rfl
    | cons next calls =>
      rw [List.getLast?_cons_cons] at hlast
      exact ih hlast

def Mirrors (v : View α) : Prop :=
  ∃ there settled : Option α, (∀ a, v.far a ↔ a ∈ there) ∧ Settles there v.calls settled ∧
    (v.held ↔ settled.isSome)

theorem mirrors_nothing {v : View α} (hheld : ¬ v.held) (hfar : ∀ a, ¬ v.far a)
    (hcalls : v.calls = []) : Mirrors v := by
  refine ⟨none, none, fun a => ⟨fun ha => absurd ha (hfar a), fun ha => (by cases ha)⟩, ?_, ?_⟩
  · rw [hcalls]
    exact .nil none
  · exact ⟨fun h => absurd h hheld, fun h => (by cases h)⟩

theorem Mirrors.quiet {v : View α} (h : Mirrors v) (hcalls : v.calls = []) :
    v.held ↔ ∃ a, v.far a := by
  obtain ⟨there, settled, hfar, hsettles, hheld⟩ := h
  rw [hcalls] at hsettles
  cases hsettles
  rw [hheld, Option.isSome_iff_exists]
  exact exists_congr fun a => (hfar a).symm

theorem Mirrors.removal {v : View α} (h : Mirrors v) {a : α} {rest : List (Op α)}
    (hcalls : v.calls = .remove a :: rest) : v.far a := by
  obtain ⟨there, settled, hfar, hsettles, -⟩ := h
  rw [hcalls] at hsettles
  cases hsettles
  exact (hfar a).2 rfl

theorem latest_settled {v : View α} {there settled : Option α} {a : α}
    (hfar : ∀ b, v.far b ↔ b ∈ there) (hsettles : Settles there v.calls settled)
    (hlatest : Latest v a) : settled = some a := by
  unfold Latest at hlatest
  split at hlatest
  · rename_i op hlast
    rw [hsettles.last hlast, hlatest]
    rfl
  · rename_i hnone
    rw [List.getLast?_eq_none_iff] at hnone
    rw [hnone] at hsettles
    cases hsettles
    exact (hfar a).1 hlatest

theorem Mirrors.held_latest {v : View α} (h : Mirrors v) (hheld : v.held) : ∃ a, Latest v a := by
  obtain ⟨there, settled, hthere, hsettles, hsettled⟩ := h
  obtain ⟨a, ha⟩ := Option.isSome_iff_exists.1 (hsettled.1 hheld)
  refine ⟨a, ?_⟩
  unfold Latest
  split
  · rename_i op hlast
    cases op with
    | add b =>
      rw [hsettles.last hlast] at ha
      cases ha
      rfl
    | remove b =>
      rw [hsettles.last hlast] at ha
      cases ha
  · rename_i hnone
    rw [List.getLast?_eq_none_iff] at hnone
    rw [hnone] at hsettles
    cases hsettles
    exact (hthere a).2 ha

/-- A holder decides to add: the first one, or one that adds the same again. -/
theorem Mirrors.adds {v w : View α} (h : Mirrors v) {a : α} (hv : v.held → Latest v a)
    (hw : w.held) (hcalls : w.calls = v.calls ++ [.add a]) (hfar : ∀ b, w.far b ↔ v.far b) :
    Mirrors w := by
  obtain ⟨there, settled, hthere, hsettles, hheld⟩ := h
  refine ⟨there, some a, fun b => (hfar b).trans (hthere b), ?_, iff_of_true hw rfl⟩
  rw [hcalls]
  refine hsettles.snoc (.add (fun b hb => ?_) (.nil _))
  have hlatest := latest_settled hthere hsettles (hv (hheld.2 (Option.isSome_of_mem hb)))
  rw [hlatest] at hb
  exact (Option.some.inj hb).symm

theorem Mirrors.removes {v w : View α} (h : Mirrors v) {a : α} (hlatest : Latest v a)
    (hw : ¬ w.held) (hcalls : w.calls = v.calls ++ [.remove a]) (hfar : ∀ b, w.far b ↔ v.far b) :
    Mirrors w := by
  obtain ⟨there, settled, hthere, hsettles, -⟩ := h
  refine ⟨there, none, fun b => (hfar b).trans (hthere b), ?_,
    ⟨fun hheld => absurd hheld hw, fun hnone => (by cases hnone)⟩⟩
  rw [latest_settled hthere hsettles hlatest] at hsettles
  rw [hcalls]
  exact hsettles.snoc (.remove (.nil _))

theorem Mirrors.added {v w : View α} (h : Mirrors v) {a : α} {rest : List (Op α)}
    (hnext : v.calls = .add a :: rest) (hheld : w.held ↔ v.held) (hcalls : w.calls = rest)
    (hfar : ∀ b, w.far b ↔ v.far b ∨ b = a) : Mirrors w := by
  obtain ⟨there, settled, hthere, hsettles, hsettled⟩ := h
  rw [hnext] at hsettles
  cases hsettles with
  | add hsame hrest =>
    refine ⟨some a, settled, fun b => ?_, hcalls ▸ hrest, hheld.trans hsettled⟩
    rw [hfar b, hthere b]
    refine ⟨fun hb => hb.elim (fun hmem => ?_) fun heq => ?_, fun hb => Or.inr (Option.some.inj hb).symm⟩
    · rw [hsame b hmem]
      rfl
    · rw [heq]
      rfl

theorem Mirrors.removed {v w : View α} (h : Mirrors v) {a : α} {rest : List (Op α)}
    (hnext : v.calls = .remove a :: rest) (hheld : w.held ↔ v.held) (hcalls : w.calls = rest)
    (hfar : ∀ b, w.far b ↔ v.far b ∧ b ≠ a) : Mirrors w := by
  obtain ⟨there, settled, hthere, hsettles, hsettled⟩ := h
  rw [hnext] at hsettles
  cases hsettles with
  | remove hrest =>
    refine ⟨none, settled, fun b => ?_, hcalls ▸ hrest, hheld.trans hsettled⟩
    rw [hfar b, hthere b]
    refine ⟨fun hb => absurd (Option.some.inj hb.1).symm hb.2, fun hb => (by cases hb)⟩

theorem Mirrors.same {v w : View α} (h : Mirrors v) (hheld : w.held ↔ v.held)
    (hcalls : w.calls = v.calls) (hfar : ∀ a, w.far a ↔ v.far a) : Mirrors w := by
  obtain ⟨there, settled, hthere, hsettles, hsettled⟩ := h
  refine ⟨there, settled, fun a => (hfar a).trans (hthere a), ?_, hheld.trans hsettled⟩
  rw [hcalls]
  exact hsettles

section Keys
variable [DecidableEq κ]

def callsFor (key : κ) (calls : List (κ × Op α)) : List (Op α) :=
  (calls.filter fun c => c.1 = key).map Prod.snd

def IsNext (key : κ) (op : Op α) (calls : List (κ × Op α)) : Prop :=
  (callsFor key calls).head? = some op

instance [DecidableEq α] (key : κ) (op : Op α) (calls : List (κ × Op α)) :
    Decidable (IsNext key op calls) := by
  unfold IsNext
  infer_instance

def made [DecidableEq α] (key : κ) (op : Op α) (calls : List (κ × Op α)) : List (κ × Op α) :=
  calls.erase (key, op)

theorem callsFor_cons_self (key : κ) (op : Op α) (calls : List (κ × Op α)) :
    callsFor key ((key, op) :: calls) = op :: callsFor key calls := by
  simp [callsFor]

theorem callsFor_cons_ne {key k : κ} (h : k ≠ key) (op : Op α) (calls : List (κ × Op α)) :
    callsFor key ((k, op) :: calls) = callsFor key calls := by
  simp [callsFor, h]

theorem callsFor_decided_self (key : κ) (op : Op α) (calls : List (κ × Op α)) :
    callsFor key (calls ++ [(key, op)]) = callsFor key calls ++ [op] := by
  simp [callsFor]

theorem callsFor_decided_ne {key k : κ} (h : k ≠ key) (op : Op α) (calls : List (κ × Op α)) :
    callsFor key (calls ++ [(k, op)]) = callsFor key calls := by
  simp [callsFor, h]

theorem mem_callsFor {key : κ} {op : Op α} {calls : List (κ × Op α)} :
    op ∈ callsFor key calls ↔ (key, op) ∈ calls := by
  simp [callsFor]

theorem callsFor_of_nil {key : κ} {calls : List (κ × Op α)} (h : calls = []) :
    callsFor key calls = [] := by
  rw [h]
  rfl

theorem IsNext.callsFor {key : κ} {op : Op α} {calls : List (κ × Op α)} (h : IsNext key op calls) :
    callsFor key calls = op :: (callsFor key calls).tail :=
  List.eq_cons_of_mem_head? h

theorem mem_of_made [DecidableEq α] {key : κ} {op : Op α} {calls : List (κ × Op α)}
    {c : κ × Op α} (hmem : c ∈ made key op calls) : c ∈ calls :=
  List.mem_of_mem_erase hmem

theorem callsFor_made_self [DecidableEq α] (key : κ) (op : Op α) (calls : List (κ × Op α)) :
    callsFor key (made key op calls) = (callsFor key calls).erase op := by
  unfold made
  induction calls with
  | nil => rfl
  | cons c calls ih =>
    obtain ⟨k, o⟩ := c
    by_cases hk : k = key
    · subst hk
      by_cases ho : o = op
      · subst ho
        rw [List.erase_cons_head, callsFor_cons_self, List.erase_cons_head]
      · rw [List.erase_cons_tail (by simpa using ho), callsFor_cons_self, callsFor_cons_self,
          List.erase_cons_tail (by simpa using ho), ih]
    · rw [List.erase_cons_tail (by simp [hk]), callsFor_cons_ne hk, callsFor_cons_ne hk, ih]

theorem IsNext.made [DecidableEq α] {key : κ} {op : Op α} {calls : List (κ × Op α)}
    (h : IsNext key op calls) :
    Mirroring.callsFor key (made key op calls) = (Mirroring.callsFor key calls).tail := by
  rw [callsFor_made_self, h.callsFor, List.erase_cons_head, List.tail_cons]

theorem callsFor_made_ne [DecidableEq α] {key k : κ} (h : k ≠ key) (op : Op α)
    (calls : List (κ × Op α)) : callsFor key (made k op calls) = callsFor key calls := by
  unfold made
  induction calls with
  | nil => rfl
  | cons c calls ih =>
    obtain ⟨k', o⟩ := c
    by_cases hc : (k', o) = (k, op)
    · cases hc
      rw [List.erase_cons_head, callsFor_cons_ne h]
    · rw [List.erase_cons_tail (by simpa using hc)]
      by_cases hk : k' = key
      · subst hk
        rw [callsFor_cons_self, callsFor_cons_self, ih]
      · rw [callsFor_cons_ne hk, callsFor_cons_ne hk, ih]

end Keys

end SomeIPRuntime.Mirroring
