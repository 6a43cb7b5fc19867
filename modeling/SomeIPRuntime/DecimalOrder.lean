import Mathlib.Data.String.Basic

set_option autoImplicit false

namespace SomeIPRuntime.DecimalOrder

section Prefixes
variable {α : Type} [LinearOrder α]

theorem append_lt_append_iff (front xs ys : List α) : front ++ xs < front ++ ys ↔ xs < ys := by
  induction front with
  | nil => rfl
  | cons a front ih => rw [List.cons_append, List.cons_append, List.cons_lt_cons_iff, ih]; simp

/-- Between two words with a common prefix all words have it. -/
theorem prefix_between {front xs ys zs : List α} (hxs : front <+: xs) (hzs : front <+: zs)
    (hxy : xs ≤ ys) (hyz : ys ≤ zs) : front <+: ys := by
  induction front generalizing xs ys zs with
  | nil => exact List.nil_prefix
  | cons a front ih =>
    obtain ⟨xs, rfl⟩ := hxs
    obtain ⟨zs, rfl⟩ := hzs
    rw [List.cons_append] at hxy hyz
    cases ys with
    | nil => exact absurd hxy (not_le.2 (List.nil_lt_cons _ _))
    | cons b ys =>
      rw [← not_lt, List.cons_lt_cons_iff, not_or, not_and, not_lt] at hxy hyz
      obtain rfl : a = b := le_antisymm hxy.1 hyz.1
      exact (List.prefix_cons_inj a).2 (ih (List.prefix_append _ _) (List.prefix_append _ _)
        (not_lt.1 (hxy.2 rfl)) (not_lt.1 (hyz.2 rfl)))

theorem append_singleton_lt_iff {xs ys : List α} (h : xs.length = ys.length) (x y : α) :
    xs ++ [x] < ys ++ [y] ↔ xs < ys ∨ (xs = ys ∧ x < y) := by
  induction xs generalizing ys with
  | nil =>
    obtain rfl := List.eq_nil_of_length_eq_zero h.symm
    simp [List.cons_lt_cons_iff]
  | cons a xs ih =>
    cases ys with
    | nil => cases h
    | cons b ys =>
      rw [List.cons_append, List.cons_append, List.cons_lt_cons_iff, List.cons_lt_cons_iff,
        ih (Nat.succ.inj h), List.cons_eq_cons]
      tauto

end Prefixes

section Separators
variable {α : Type}

theorem prefix_split {a : α} {xs ys us vs : List α} (hxs : a ∉ xs) (hys : a ∉ ys)
    (h : xs ++ a :: us <+: ys ++ a :: vs) : xs = ys ∧ us <+: vs := by
  induction xs generalizing ys with
  | nil =>
    cases ys with
    | nil => exact ⟨rfl, (List.prefix_cons_inj a).1 h⟩
    | cons y ys =>
      obtain ⟨rfl, _⟩ := List.cons_prefix_cons.1 h
      exact absurd List.mem_cons_self hys
  | cons x xs ih =>
    cases ys with
    | nil =>
      obtain ⟨rfl, _⟩ := List.cons_prefix_cons.1 h
      exact absurd List.mem_cons_self hxs
    | cons y ys =>
      obtain ⟨rfl, hrest⟩ := List.cons_prefix_cons.1 h
      obtain ⟨rfl, hsplit⟩ := ih (fun hmem => hxs (List.mem_cons_of_mem x hmem))
        (fun hmem => hys (List.mem_cons_of_mem x hmem)) hrest
      exact ⟨rfl, hsplit⟩

/-- A word without the separator begins what stands before it. -/
theorem prefix_before {a : α} {xs ys zs : List α} (hxs : a ∉ xs) (h : xs <+: ys ++ a :: zs) : xs <+: ys := by
  induction xs generalizing ys with
  | nil => exact List.nil_prefix
  | cons x xs ih =>
    cases ys with
    | nil =>
      obtain ⟨rfl, _⟩ := List.cons_prefix_cons.1 h
      exact absurd List.mem_cons_self hxs
    | cons y ys =>
      obtain ⟨rfl, hrest⟩ := List.cons_prefix_cons.1 h
      exact (List.prefix_cons_inj x).2 (ih (fun hmem => hxs (List.mem_cons_of_mem x hmem)) hrest)

end Separators

section Digits
variable {m n : ℕ}

theorem lt_of_fewer_digits (h : (Nat.toDigits 10 m).length < (Nat.toDigits 10 n).length) : m < n := by
  have hm := (Nat.length_toDigits_le_iff (n := m) (by decide : 1 < 10) Nat.length_toDigits_pos).1 le_rfl
  have hn := mt (Nat.length_toDigits_le_iff (n := n) (by decide : 1 < 10)
    (Nat.length_toDigits_pos (b := 10) (n := m))).2 (not_le.2 h)
  omega

theorem digitChar_lt_iff (hm : m < 10) (hn : n < 10) : m.digitChar < n.digitChar ↔ m < n := by
  change m.digitChar.toNat < n.digitChar.toNat ↔ m < n
  rw [Nat.toNat_digitChar_of_lt_ten hm, Nat.toNat_digitChar_of_lt_ten hn]
  omega

theorem toDigits_injective (h : Nat.toDigits 10 m = Nat.toDigits 10 n) : m = n := by
  rw [← Nat.ofDigitChars_ten_toDigits (n := m), h, Nat.ofDigitChars_ten_toDigits]

/-- Of numbers with as many digits, the alphabetical order is the order of the numbers. -/
theorem toDigits_lt_iff (h : (Nat.toDigits 10 m).length = (Nat.toDigits 10 n).length) :
    Nat.toDigits 10 m < Nat.toDigits 10 n ↔ m < n := by
  have hone : ∀ k, (Nat.toDigits 10 k).length ≤ 1 ↔ k < 10 := fun k =>
    Nat.length_toDigits_le_iff (by decide) Nat.one_pos
  induction m using Nat.strong_induction_on generalizing n with
  | _ m ih =>
    by_cases hm : m < 10
    · have hn : n < 10 := (hone n).1 (h ▸ (hone m).2 hm)
      rw [Nat.toDigits_of_lt_base hm, Nat.toDigits_of_lt_base hn, List.cons_lt_cons_iff,
        digitChar_lt_iff hm hn]
      simp
    · have hn : ¬ n < 10 := fun hn => hm ((hone m).1 (h ▸ (hone n).2 hn))
      rw [Nat.toDigits_of_base_le (by decide) (not_lt.1 hm), Nat.toDigits_of_base_le (by decide) (not_lt.1 hn)] at h ⊢
      have hlength : (Nat.toDigits 10 (m / 10)).length = (Nat.toDigits 10 (n / 10)).length := by
        simpa using h
      have hsame : Nat.toDigits 10 (m / 10) = Nat.toDigits 10 (n / 10) ↔ m / 10 = n / 10 :=
        ⟨toDigits_injective, congrArg _⟩
      have hfront : Nat.toDigits 10 (m / 10) < Nat.toDigits 10 (n / 10) ↔ m / 10 < n / 10 :=
        ih (m / 10) (by omega) hlength
      rw [append_singleton_lt_iff hlength, hfront, hsame,
        digitChar_lt_iff (Nat.mod_lt m (by decide)) (Nat.mod_lt n (by decide))]
      omega

/-- A number that comes behind in the alphabet is not lower just if it does not have fewer digits. -/
theorem le_iff_of_lt (h : Nat.toDigits 10 m < Nat.toDigits 10 n) :
    m ≤ n ↔ (Nat.toDigits 10 m).length ≤ (Nat.toDigits 10 n).length := by
  obtain hless | hsame | hmore := lt_trichotomy (Nat.toDigits 10 m).length (Nat.toDigits 10 n).length
  · exact iff_of_true (lt_of_fewer_digits hless).le hless.le
  · exact iff_of_true ((toDigits_lt_iff hsame).1 h).le hsame.le
  · exact iff_of_false (not_le.2 (lt_of_fewer_digits hmore)) (not_le.2 hmore)

/-- A number that comes before in the alphabet is higher just if it has more digits. -/
theorem lt_iff_of_gt (h : Nat.toDigits 10 n < Nat.toDigits 10 m) :
    m < n ↔ (Nat.toDigits 10 m).length < (Nat.toDigits 10 n).length := by
  rw [← not_le, ← not_le, le_iff_of_lt h]

end Digits
end SomeIPRuntime.DecimalOrder
