import SomeIPRuntime.AddressTranslator

set_option autoImplicit false

namespace SomeIPRuntime.Address
open SearchTrees

def NotEquals (a b : Address) : Prop :=
  a.service ≠ b.service ∨ a.instance_ ≠ b.instance_ ∨
    (a.majorVersion ≠ anyMajorVersion ∧ b.majorVersion ≠ anyMajorVersion ∧
      a.majorVersion ≠ b.majorVersion)

instance (a b : Address) : Decidable (a.NotEquals b) := inferInstanceAs (Decidable (_ ∨ _))

/-- `b` is the wildcard between two versions that can be told from each other. -/
def Bridges (b a c : Address) : Prop :=
  b.majorVersion = anyMajorVersion ∧ a.majorVersion ≠ anyMajorVersion ∧
    c.majorVersion ≠ anyMajorVersion ∧ a.majorVersion ≠ c.majorVersion

theorem notEquals_iff (a b : Address) : a.NotEquals b ↔ ¬ a.Equals b := by
  unfold NotEquals Equals
  simp only [not_and_or, not_or, ne_eq]

theorem equals_refl (a : Address) : a.Equals a := ⟨rfl, rfl, Or.inr (Or.inr rfl)⟩

theorem equals_symm {a b : Address} (h : a.Equals b) : b.Equals a := by
  rcases h with ⟨hservice, hinstance, hmajor⟩
  refine ⟨hservice.symm, hinstance.symm, ?_⟩
  rcases hmajor with hany | hany | hsame
  · exact Or.inr (Or.inl hany)
  · exact Or.inl hany
  · exact Or.inr (Or.inr hsame.symm)

/-- A chain of two equalities leads from one address to another that is equal, unless the address
    in the middle bridges them. -/
theorem equals_trans_iff {a b c : Address} (hab : a.Equals b) (hbc : b.Equals c) :
    a.Equals c ↔ ¬ b.Bridges a c := by
  rcases hab with ⟨hservice, hinstance, hmajor⟩
  rcases hbc with ⟨hservice', hinstance', hmajor'⟩
  have hplace : a.service = c.service ∧ a.instance_ = c.instance_ :=
    ⟨hservice.trans hservice', hinstance.trans hinstance'⟩
  unfold Equals Bridges
  rw [and_iff_right hplace.1, and_iff_right hplace.2]
  constructor
  · rintro hsame ⟨_, ha, hc, hne⟩
    rcases hsame with hany | hany | hsame
    · exact ha hany
    · exact hc hany
    · exact hne hsame
  · intro hbridge
    by_contra hapart
    simp only [not_or] at hapart
    rcases hapart with ⟨ha, hc, hne⟩
    apply hbridge
    refine ⟨?_, ha, hc, hne⟩
    rcases hmajor with hany | hany | hsame
    · exact absurd hany ha
    · exact hany
    · rcases hmajor' with hany | hany | hsame'
      · exact hany
      · exact absurd hany hc
      · exact absurd (hsame.trans hsame') hne

/-- The laws that the order has. A chain of two addresses that cannot be told apart goes on as one,
    unless the address in the middle bridges the two others. -/
theorem order_laws (a b c : Address) :
    ¬ a.Less a ∧ (a.Less b → b.Less c → a.Less c) ∧ (Incomparable a b ↔ a.Equals b) ∧
      (a.NotEquals b ↔ ¬ a.Equals b) ∧
      (Incomparable a b → Incomparable b c → (Incomparable a c ↔ ¬ b.Bridges a c)) := by
  have htrans : a < b → b < c → a < c := trans_of (· < ·)
  refine ⟨irrefl_of (· < ·) a, htrans, incomparable_iff a b, notEquals_iff a b, ?_⟩
  intro hab hbc
  rw [incomparable_iff] at hab hbc ⊢
  exact equals_trans_iff hab hbc

/-- Two versions that are told apart are both equal to the wildcard. -/
theorem order_not_weak :
    ¬ ((∀ a : Address, ¬ a.Less a) ∧ (∀ a b c : Address, a.Less b → b.Less c → a.Less c) ∧
      (∀ a b c : Address, Incomparable a b → Incomparable b c → Incomparable a c) ∧
      (∀ a b : Address, Incomparable a b ↔ a.Equals b) ∧
      ∀ a b : Address, a.NotEquals b ↔ ¬ a.Equals b) := by
  rintro ⟨_, _, hweak, _, _⟩
  have happly := hweak ⟨1, 1, 1, 0⟩ ⟨1, 1, anyMajorVersion, 0⟩ ⟨1, 1, 2, 0⟩
    (by decide) (by decide)
  exact absurd happly (by decide)

end SomeIPRuntime.Address
