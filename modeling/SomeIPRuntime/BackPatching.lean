import SomeIPRuntime.WriteOperations

set_option autoImplicit false

namespace SomeIPRuntime.BackPatching
open Bits ProgramRuns Deployment OutputStream

def occupied (p : Patch) : ℕ := p.stop - p.start + if p.pending = 0 then 0 else 1

/-- What a write from `o` to `t` is to leave behind, where it has recorded `new`. -/
structure Disciplined (o t : OutputStream) (new : List Event) : Prop where
  positions : t.positions = o.positions
  payload : o.payload <+: t.payload
  lengths : t.errorOccurred = false →
    ∀ p, .patched p ∈ new → IsWidth p.width → fieldAt t p.position p.width = occupied p

/-- No map has been left, and without an error each content has ended at a byte boundary. -/
structure Orderly (t : OutputStream) (new : List Event) : Prop where
  completed : .abandoned ∉ new
  whole : t.errorOccurred = false → ∀ p, .patched p ∈ new → IsWidth p.width → p.pending = 0

theorem positions_iff {o t : OutputStream} {extra : List ℕ} {new : List Event}
    (h : Wrote o t extra new) : t.positions = o.positions ↔ .abandoned ∉ new := by
  have hcount := h.leftover
  rw [h.positions, List.append_left_eq_self, ← List.count_eq_zero, ← List.length_eq_zero_iff]
  omega

theorem length_iff {o t : OutputStream} {p : Patch} (h : Holds o t p) :
    fieldAt t p.position p.width = occupied p ↔ p.pending = 0 := by
  rw [h.field]
  unfold occupied
  split <;> omega

theorem disciplined_iff {o t : OutputStream} {extra : List ℕ} {new : List Event}
    (h : Wrote o t extra new) (hshort : t.payload.length < 2 ^ 32) :
    Disciplined o t new ↔ Orderly t new := by
  constructor
  · intro hd
    refine ⟨(positions_iff h).1 hd.positions, fun herror p hp hwidth => ?_⟩
    exact (length_iff (h.patches herror hshort p hp hwidth)).1 (hd.lengths herror p hp hwidth)
  · intro horderly
    refine ⟨(positions_iff h).2 horderly.completed, h.payload hshort, fun herror p hp hwidth => ?_⟩
    exact (length_iff (h.patches herror hshort p hp hwidth)).2
      (horderly.whole herror p hp hwidth)

/-- Every write returns, unless a string cannot be transcoded, and keeps to the discipline
    exactly where it is orderly. -/
theorem back_patching_disciplined_iff {w : Write Unit} (hw : WriteOp w) {o : OutputStream}
    (ho : Clean o) :
    (∃ t new, w o = .ok ⟨⟩ t ∧ t.history = new ++ o.history ∧ Clean t ∧
      (t.payload.length < 2 ^ 32 → (Disciplined o t new ↔ Orderly t new))) ∨
    ∃ e t, w o = .error e t ∧ Untranscodable e := by
  obtain ⟨t, extra, new, hrun, hwrote⟩ | hhalt := hw.returns ho
  · exact Or.inl ⟨t, new, hrun, hwrote.history, hwrote.clean, disciplined_iff hwrote⟩
  · exact Or.inr hhalt

theorem byte_struct_disciplined :
    ∃ t, writeStruct (some ⟨1⟩) (writeUInt8 none 5) (create true) = .ok ⟨⟩ t ∧
      Disciplined (create true) t t.history := by
  have hreturns : returned (writeStruct (some ⟨1⟩) (writeUInt8 none 5) (create true)) = some ⟨⟩ := by
    decide
  have hrun := eq_ok_of_returned hreturns
  refine ⟨_, hrun, ?_⟩
  obtain ⟨t, new, ht, hnew, -, hiff⟩ | ⟨e, t, ht, -⟩ :=
    back_patching_disciplined_iff (.struct (some ⟨1⟩) (.integer uint8 none 5)) (create_clean true)
  · cases hrun.symm.trans ht
    have hhistory : (finalState (writeStruct (some ⟨1⟩) (writeUInt8 none 5) (create true))).history =
        [.patched ⟨0, 1, 1, 2, 0⟩] := by decide
    rw [show new = _ from (hnew.trans (List.append_nil new)).symm, hhistory] at hiff
    rw [hhistory]
    refine (hiff (by decide)).2 ⟨by decide, fun _ p hp _ => ?_⟩
    cases List.mem_singleton.1 hp
    rfl
  · cases hrun.symm.trans ht

theorem nibble_struct_announces_nothing :
    ¬ ∀ (w : Write Unit) (o t : OutputStream) (new : List Event), WriteOp w → Clean o →
      w o = .ok ⟨⟩ t → t.history = new ++ o.history → t.payload.length < 2 ^ 32 →
      Disciplined o t new := by
  intro h
  have hrun : returned (writeStruct (some ⟨1⟩) (writeUInt8 (some ⟨4, none⟩) 5) (create true)) =
      some ⟨⟩ := by decide
  have hd := h _ _ _ [.patched ⟨0, 1, 1, 1, 4⟩] (.struct (some ⟨1⟩) (.integer uint8 (some ⟨4, none⟩) 5))
    (create_clean true) (eq_ok_of_returned hrun) (by decide) (by decide)
  have hlength := hd.lengths (by decide) ⟨0, 1, 1, 1, 4⟩ (by decide) (by decide)
  exact absurd hlength (by decide)

/-- A key out of range: the positions of the map stay. -/
example : (finalState (writeMap none (writeRangedInteger 0 9 none) writeBool [(10, true)]
    (create true))).positions = [4, 0] := by decide

end SomeIPRuntime.BackPatching
