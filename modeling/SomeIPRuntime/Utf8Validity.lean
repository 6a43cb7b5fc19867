import SomeIPRuntime.Utf8Scanning

set_option autoImplicit false

namespace SomeIPRuntime.StringEncoder
open Bits ProgramRuns Unicode

/-- The low sixteen bits of the number are those of a surrogate. -/
def Shadowed (c : Char) : Prop := 0xd800 ≤ c.toNat % 0x10000 ∧ c.toNat % 0x10000 ≤ 0xdfff

instance (c : Char) : Decidable (Shadowed c) := inferInstanceAs (Decidable (_ ∧ _))

theorem valid_iff_not_shadowed (c : Char) : isCodePointValid c.toNat = true ↔ ¬ Shadowed c := by
  have hrange := char_range c
  rw [valid_iff]
  exact and_iff_right (by omega)

theorem utf8_ne_zero {c : Char} (hc : c.toNat ≠ 0) : ∀ b ∈ utf8 c, b ≠ 0 := by
  have hne : ∀ b : Byte, b.toNat ≠ 0 → b ≠ 0 := fun b hb hzero => hb (by rw [hzero]; rfl)
  obtain ⟨_, b, hform, hb⟩ | ⟨_, _, b, t, hform, hb, ht⟩ | ⟨_, _, b, t, u, hform, hb, ht, hu⟩ |
    ⟨_, _, b, t, u, v, hform, hb, ht, hu, hv⟩ := utf8_forms c
  · simp only [hform, List.mem_singleton, forall_eq]
    exact hne b (by omega)
  · simp only [hform, List.mem_cons, List.not_mem_nil, or_false, forall_eq_or_imp, forall_eq]
    exact ⟨hne b (by omega), hne t (by omega)⟩
  · simp only [hform, List.mem_cons, List.not_mem_nil, or_false, forall_eq_or_imp, forall_eq]
    exact ⟨hne b (by omega), hne t (by omega), hne u (by omega)⟩
  · simp only [hform, List.mem_cons, List.not_mem_nil, or_false, forall_eq_or_imp, forall_eq]
    exact ⟨hne b (by omega), hne t (by omega), hne u (by omega), hne v (by omega)⟩

theorem utf8_cons {c : Char} (hc : c.toNat ≠ 0) : ∃ b rest, b ≠ 0 ∧ utf8 c = b :: rest := by
  have hne := utf8_ne_zero hc
  cases hform : utf8 c with
  | nil =>
    obtain ⟨_, _, h, _⟩ | ⟨_, _, _, _, h, _⟩ | ⟨_, _, _, _, _, h, _⟩ | ⟨_, _, _, _, _, _, h, _⟩ :=
      utf8_forms c <;> rw [h] at hform <;> cases hform
  | cons b rest =>
    rw [hform] at hne
    exact ⟨b, rest, hne b List.mem_cons_self, rfl⟩

theorem terminated_split {value front pointer beyond : List Byte} (hfront : ∀ b ∈ front, b ≠ 0)
    (h : terminated value ++ beyond = front ++ pointer) :
    ∃ after, value = front ++ after ∧ pointer = terminated after ++ beyond := by
  induction front generalizing value with
  | nil => exact ⟨value, rfl, h.symm⟩
  | cons b front ih =>
    cases value with
    | nil =>
      have hzero : (0 : Byte) = b := (List.cons.inj h).1
      exact absurd hzero.symm (hfront b List.mem_cons_self)
    | cons b' value =>
      obtain ⟨hb, hrest⟩ := List.cons.inj h
      obtain ⟨after, hvalue, hpointer⟩ :=
        ih (fun t ht => hfront t (List.mem_cons_of_mem b ht)) hrest
      refine ⟨after, ?_, hpointer⟩
      rw [hb, hvalue]
      rfl

theorem utf8To16Loop_encode (bigEndian : Bool) {cs : List Char} (hcs : ∀ c ∈ cs, c.toNat ≠ 0)
    (hvalid : ∀ c ∈ cs, ¬ Shadowed c) {fuel : ℕ} (hfuel : cs.length < fuel)
    (beyond bytes : List Byte) :
    utf8To16Loop bigEndian fuel (terminated (encode8 cs) ++ beyond) .success bytes =
      .ok (.success, bytes ++ cs.flatMap fun c => units16 bigEndian c.toNat) := by
  induction cs generalizing fuel bytes with
  | nil =>
    obtain ⟨fuel, rfl⟩ := Nat.exists_eq_succ_of_ne_zero (Nat.ne_of_gt hfuel)
    exact congrArg (fun out => Except.ok (EncodingStatus.success, out)) (List.append_nil bytes).symm
  | cons c cs ih =>
    obtain ⟨fuel, rfl⟩ := Nat.exists_eq_succ_of_ne_zero (Nat.ne_of_gt (Nat.zero_lt_of_lt hfuel))
    have hc := hcs c List.mem_cons_self
    obtain ⟨b, rest, hb, hform⟩ := utf8_cons hc
    obtain ⟨last, hnext⟩ := getNextBytes_char hc (terminated (encode8 cs) ++ beyond)
    rw [if_pos ((valid_iff_not_shadowed c).2 (hvalid c List.mem_cons_self))] at hnext
    have hmemory : terminated (encode8 (c :: cs)) ++ beyond =
        utf8 c ++ (terminated (encode8 cs) ++ beyond) := by
      simp only [encode8, terminated, List.flatMap_cons, List.append_assoc]
    rw [hmemory]
    rw [hform] at hnext ⊢
    rw [List.cons_append] at hnext ⊢
    rw [utf8To16Loop_step hb, hnext]
    refine (ih (fun d hd => hcs d (List.mem_cons_of_mem c hd))
      (fun d hd => hvalid d (List.mem_cons_of_mem c hd)) (Nat.lt_of_succ_lt_succ hfuel)
      (bytes ++ units16 bigEndian c.toNat)).trans ?_
    rw [List.flatMap_cons, List.append_assoc]

theorem encode8_length (cs : List Char) : cs.length ≤ (encode8 cs).length := by
  induction cs with
  | nil => exact le_rfl
  | cons c cs ih =>
    have hpos : 0 < (utf8 c).length := by
      obtain ⟨_, _, h, _⟩ | ⟨_, _, _, _, h, _⟩ | ⟨_, _, _, _, _, h, _⟩ | ⟨_, _, _, _, _, _, h, _⟩ :=
        utf8_forms c <;> rw [h] <;> exact Nat.succ_pos _
    rw [encode8, List.flatMap_cons, List.length_append, List.length_cons]
    change _ ≤ _ + (encode8 cs).length
    omega

/-- The status that `isUtf8Valid` starts with is never the one that it asks for. -/
theorem isUtf8Valid_eq {value : List Byte} (hvalue : ∀ b ∈ value, b ≠ 0) (beyond : List Byte) :
    isUtf8Valid (terminated value ++ beyond) = .ok value.isEmpty := by
  cases value with
  | nil => rfl
  | cons b rest =>
    have hb := hvalue b List.mem_cons_self
    obtain ⟨last, result, hrun⟩ := getNextBytes_moves hb rest .unknown
    have hstatus : result.1 ≠ .success := by
      intro hsuccess
      obtain ⟨status, codePoint⟩ := result
      subst hsuccess
      cases (getNextBytes_success hb (hrun [])).1
    have hloop : ∀ fuel, isUtf8ValidLoop (fuel + 1) (b :: (terminated rest ++ beyond)) = (do
        let r ← getNextBytes (b :: (terminated rest ++ beyond)) .unknown
        if r.2.1 ≠ .success then pure false else isUtf8ValidLoop fuel (r.1.drop 1)) := by
      intro fuel
      rw [isUtf8ValidLoop, show head (b :: (terminated rest ++ beyond)) = .ok b from rfl]
      change (if b = 0 then _ else _) = _
      rw [if_neg hb]
    refine (hloop _).trans ?_
    rw [hrun beyond]
    exact if_pos hstatus

/-- The scan ends, and the same way whatever is behind the terminator: memory that ends there
    is enough. -/
def StaysWithin {α : Type} (scan : List Byte → Except Halt α) (value : List Byte) : Prop :=
  ∃ r, ∀ beyond, scan (terminated value ++ beyond) = .ok r

theorem isUtf8Valid_stays {value : List Byte} (hvalue : ∀ b ∈ value, b ≠ 0) :
    StaysWithin isUtf8Valid value := ⟨value.isEmpty, isUtf8Valid_eq hvalue⟩

/-- The scans stay within the string exactly where no sequence runs into the terminator. -/
theorem scans_stay_within_iff (value : List Byte) (hvalue : ∀ b ∈ value, b ≠ 0) (bigEndian : Bool) :
    StaysWithin (utf8To16 · bigEndian) value ∧ StaysWithin isUtf8Valid value ↔ Contained value := by
  constructor
  · rintro ⟨⟨r, hrun⟩, _⟩
    have hend := hrun []
    rw [List.append_nil] at hend
    exact contained_of_returns hvalue hend
  · intro h
    obtain ⟨r, hrun⟩ := utf8To16Loop_contained bigEndian h hvalue .success []
    refine ⟨⟨r, fun beyond => hrun beyond _ ?_⟩, isUtf8Valid_stays hvalue⟩
    simp only [terminated, List.length_append]
    omega

theorem two_bytes_contained :
    StaysWithin (utf8To16 · true) [0xc3, 0xa4] ∧ StaysWithin isUtf8Valid [0xc3, 0xa4] :=
  (scans_stay_within_iff [0xc3, 0xa4] (by decide) true).2 (.sequence rfl .nil)

theorem cut_sequence_escapes :
    ¬ ∀ value : List Byte, (∀ b ∈ value, b ≠ 0) → ∀ bigEndian,
      StaysWithin (utf8To16 · bigEndian) value ∧ StaysWithin isUtf8Valid value := by
  intro h
  obtain ⟨⟨r, hrun⟩, _⟩ := h [0xc3] (by decide) true
  have hend : utf8To16 (terminated [0xc3] ++ []) true = .error .outOfBounds := rfl
  cases hend.symm.trans (hrun [])

end SomeIPRuntime.StringEncoder
