import Mathlib.Data.Finset.Card

set_option autoImplicit false

/-!
# Condition variables

The threads that wait on a condition variable, for any number of them. One that has been notified, or
has woken up by itself, still has to get the mutex and to look at its condition again. A notification
wakes one of the blocked threads, which nobody chooses, or is lost where there is none.
-/
namespace SomeIPRuntime.ConditionVariables

structure Condition (τ : Type) where
  blocked : Finset τ
  woken : Finset τ

namespace Condition
variable {τ : Type}

def idle : Condition τ := ⟨∅, ∅⟩

variable [DecidableEq τ]

/-- The loop `while (!holds) wait`, from where the thread has the mutex. -/
def waitWhile (holds : Prop) [Decidable holds] (t : τ) (c : Condition τ) : Condition τ :=
  if holds then c else { c with blocked := insert t c.blocked }

def wake (t : τ) (c : Condition τ) : Option (Condition τ) :=
  if t ∈ c.blocked then some ⟨c.blocked.erase t, insert t c.woken⟩ else none

def resume (t : τ) (c : Condition τ) : Option (Condition τ) :=
  if t ∈ c.woken then some { c with woken := c.woken.erase t } else none

def notifyOne (chosen : Option τ) (c : Condition τ) : Option (Condition τ) :=
  match chosen with
  | some t => c.wake t
  | none => if c.blocked = ∅ then some c else none

section Lemmas
variable {c d : Condition τ} {t : τ} {chosen : Option τ}

theorem waitWhile_of (holds : Prop) [Decidable holds] (h : holds) (t : τ) (c : Condition τ) :
    c.waitWhile holds t = c := if_pos h

theorem wake_blocked (h : c.wake t = some d) : t ∈ c.blocked ∧ d.blocked = c.blocked.erase t := by
  unfold wake at h
  split_ifs at h with hmem
  cases h
  exact ⟨hmem, rfl⟩

theorem resume_blocked (h : c.resume t = some d) : d.blocked = c.blocked := by
  unfold resume at h
  split_ifs at h
  cases h
  rfl

theorem wake_none_left (h : c.wake t = some d) (hc : c.blocked = ∅) : d.blocked = ∅ := by
  rw [(wake_blocked h).2, hc, Finset.erase_empty]

theorem notifyOne_none_left_iff (h : c.notifyOne chosen = some d) :
    d.blocked = ∅ ↔ c.blocked.card ≤ 1 := by
  cases chosen with
  | none =>
    unfold notifyOne at h
    dsimp only at h
    split_ifs at h with hempty
    cases h
    rw [hempty]
    exact iff_of_true rfl (Nat.zero_le 1)
  | some t =>
    rcases wake_blocked h with ⟨hmem, hblocked⟩
    have hcard := Finset.card_erase_add_one hmem
    rw [hblocked, ← Finset.card_eq_zero]
    omega

theorem notifyOne_none_left (h : c.notifyOne chosen = some d) (hc : c.blocked = ∅) :
    d.blocked = ∅ := by
  rw [notifyOne_none_left_iff h, hc]
  exact Nat.zero_le 1

end Lemmas

end Condition

end SomeIPRuntime.ConditionVariables
