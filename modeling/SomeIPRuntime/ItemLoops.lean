import SomeIPRuntime.VectorRoundTrip

set_option autoImplicit false

namespace SomeIPRuntime.RoundTrip
open Bits ProgramRuns Deployment
open InputStream (Read readElements)
open OutputStream (Clean Wrote)

section Loops
variable {ι γ : Type} {lengthWidth : ℕ} {size : γ → ℕ} {next : γ → Read (Option γ)} {put : γ → ι → γ}

/-- The items have been written from one stream to the other, and each is read into the container.
    Before each of them there are bytes left. -/
inductive Chain (lengthWidth : ℕ) (size : γ → ℕ) (next : γ → Read (Option γ)) (put : γ → ι → γ) :
    List ι → γ → OutputStream → OutputStream → Prop
  | nil (v : γ) (m : OutputStream) : Chain lengthWidth size next put [] v m m
  | cons {item : ι} {rest : List ι} {v : γ} {m k n : OutputStream} {extra : List ℕ}
      {new : List OutputStream.Event} (hwrote : Wrote m k extra new)
      (hread : ∀ s, Receives s m k → ∃ u, next v s = .ok (some (put v item)) u ∧ Arrived s u k)
      (hsize : size (put v item) = size v + 1)
      (hmore : lengthWidth ≠ 0 → m.payload.length < n.payload.length)
      (hrest : Chain lengthWidth size next put rest (put v item) k n) :
      Chain lengthWidth size next put (item :: rest) v m n

theorem Chain.wrote {items : List ι} {v : γ} {m n : OutputStream}
    (h : Chain lengthWidth size next put items v m n) (hm : Clean m) : ∃ extra new, Wrote m n extra new := by
  induction h with
  | nil _ _ => exact ⟨[], [], Wrote.refl hm⟩
  | cons hwrote _ _ _ _ ih =>
    rcases ih hwrote.clean with ⟨_, _, hrest⟩
    exact ⟨_, _, hwrote.trans hrest⟩

theorem Chain.back {items : List ι} {v : γ} {m n : OutputStream}
    (h : Chain lengthWidth size next put items v m n) (hm : Clean m) {maxLength : ℕ}
    (hmax : lengthWidth = 0 → maxLength = size v + items.length) {fuel : ℕ} (hfuel : items.length ≤ fuel)
    {s : InputStream} (hs : Receives s m n) :
    ∃ u, readElements lengthWidth maxLength size next fuel
        (if lengthWidth = 0 then 0 else n.payload.length - m.payload.length) v s =
        .ok (0, items.foldl put v) u ∧ Arrived s u n := by
  induction h generalizing s fuel with
  | nil v m =>
    rw [List.length_nil, Nat.add_zero] at hmax
    refine ⟨s, ?_, hs.faces, rfl, hs.errorOccurred⟩
    rw [InputStream.readElements_done _ (by split_ifs <;> omega), Nat.sub_self, ite_self]
    rfl
  | @cons item rest v m k n extra new hwrote hread hsize hmore hrest ih =>
    rcases hrest.wrote hwrote.clean with ⟨_, _, hkn⟩
    have hshort := hs.short hkn.clean
    have hle := hkn.length
    have hle' := hwrote.length
    have hbits := hwrote.bits (hle.trans_lt hshort)
    rcases hread s (hs.first hbits (hkn.bits hshort)) with ⟨u, hrun, hu⟩
    have hconsumed := hu.consumed hs.faces hm hwrote.clean hle'
    rw [List.length_cons] at hmax hfuel
    rcases Nat.exists_eq_succ_of_ne_zero (show fuel ≠ 0 by omega) with ⟨fuel, rfl⟩
    rcases ih hwrote.clean (fun hzero => by rw [hmax hzero, hsize]; omega) (Nat.le_of_succ_le_succ hfuel)
      (hs.rest hbits (hkn.bits hshort) hu) with ⟨w, hloop, hw⟩
    refine ⟨w, ?_, hu.trans hw⟩
    by_cases hzero : lengthWidth = 0
    · have hlimit := hmax hzero
      rw [if_pos hzero] at hloop ⊢
      rw [readElements_next (Or.inr ⟨hzero, by omega⟩) hrun, if_neg (not_not_intro hzero), hloop,
        List.foldl_cons]
    · have hleft := hmore hzero
      rw [if_neg hzero] at hloop ⊢
      rw [readElements_next (Or.inl (by omega)) hrun, if_pos hzero, hconsumed,
        wrapSub_of_le (by omega) (by omega),
        show n.payload.length - m.payload.length - (k.payload.length - m.payload.length) =
          n.payload.length - k.payload.length by omega, hloop, List.foldl_cons]

end Loops

end SomeIPRuntime.RoundTrip
