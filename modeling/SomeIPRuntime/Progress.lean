import SomeIPRuntime.ReadOperations
import SomeIPRuntime.StringSafety

set_option autoImplicit false

namespace SomeIPRuntime.InputStream
open Bits ProgramRuns Deployment StringEncoder

structure Advances (s t : InputStream) : Prop where
  message : t.message = s.message
  sound : Sound s → Sound t
  position : Sound s → position s ≤ position t

abbrev Forward {α : Type} (x : Read α) : Prop := Respects Advances (fun _ _ _ => True) x

theorem advances_composes : Composes Advances fun _ (_ : Halt) _ => True where
  refl _ := ⟨rfl, id, fun _ => le_rfl⟩
  trans h k := ⟨k.1.trans h.1, k.2 ∘ h.2, fun hs => (h.3 hs).trans (k.3 (h.2 hs))⟩
  absorb _ _ := trivial

theorem advances_still {s t : InputStream} (hmessage : t.message = s.message)
    (hcurrent : t.current = s.current) (hbit : t.currentBit = s.currentBit)
    (hremaining : t.remaining = s.remaining) : Advances s t := by
  refine ⟨hmessage, fun hs => ⟨?_, ?_⟩, fun _ => ?_⟩
  · rw [hbit]
    exact hs.bit
  · rw [hcurrent, hremaining, hmessage]
    exact hs.inside
  · unfold position
    rw [hcurrent, hbit]

theorem aligned_advances (s : InputStream) : Advances s (aligned s) := by
  unfold aligned
  split
  · refine ⟨rfl, fun hs => ⟨Nat.zero_lt_succ 7, fun hle => ?_⟩, fun hs => ?_⟩
    · change s.current + 1 ≤ s.message.body.length at hle
      change s.current + 1 + wrapSub 64 s.remaining 1 = s.message.body.length
      have hin := hs.inside (by omega)
      have hfits := s.message.fits
      rw [wrapSub_of_le (by omega) (by omega)]
      omega
    · have hbit := hs.bit
      change 8 * s.current + s.currentBit ≤ 8 * (s.current + 1) + 0
      omega
  · exact advances_still rfl rfl rfl rfl

theorem skipped_advances (size : ℕ) (s : InputStream) : Advances s (skipped size s) := by
  unfold skipped
  split
  · refine ⟨rfl, fun hs => ⟨hs.bit, fun hle => ?_⟩, fun _ => ?_⟩
    · change s.current + size ≤ s.message.body.length at hle
      have hin := hs.inside (by omega)
      omega
    · change 8 * s.current + s.currentBit ≤ 8 * (s.current + size) + s.currentBit
      omega
  · refine ⟨rfl, fun hs => ⟨hs.bit, fun hle => ?_⟩, fun _ => ?_⟩
    · change s.current + size ≤ s.message.body.length at hle
      change s.current + size + (s.remaining - size) = s.message.body.length
      have hin := hs.inside (by omega)
      omega
    · change 8 * s.current + s.currentBit ≤ 8 * (s.current + size) + s.currentBit
      omega

theorem raised_advances (s : InputStream) : Advances s (raised s) := advances_still rfl rfl rfl rfl

theorem bitAlign_forward : Forward bitAlign := by
  intro s
  rw [bitAlign_run]
  exact aligned_advances s

theorem readRaw_forward (size : ℕ) : Forward (readRaw size) := by
  intro s
  rw [readRaw_run]
  exact skipped_advances size s

theorem raise_forward : Forward raise := raised_advances

theorem readField_forward {size bits : ℕ} (isSigned : Bool) (hle : bits ≤ 8 * size) :
    Forward (readField size bits isSigned) := by
  intro s
  have hkept := readField_frame size bits isSigned s
  have hcases := fun hs : Sound s => readField_cases hs isSigned hle
  cases hx : readField size bits isSigned s with
  | error e t => trivial
  | ok r t =>
    rw [hx] at hkept hcases
    have hafter : Sound s → Sound t ∧ position s ≤ position t := by
      intro hs
      obtain ⟨_, hrun⟩ | ⟨_, _, hfit, hrun⟩ | ⟨_, _, _, hrun⟩ := hcases hs
      · cases hrun
        exact ⟨⟨hs.bit, hs.inside⟩, le_rfl⟩
      · cases hrun
        refine ⟨(seek_consistent (logged (.readBits bits) s) hfit).sound, ?_⟩
        rw [seek_position]
        omega
      · cases hrun
    exact ⟨hkept.message, fun hs => (hafter hs).1, fun hs => (hafter hs).2⟩

theorem assignBits_forward {β : Type} (size bits : ℕ) (isSigned : Bool)
    (cast : BitVec (8 * size) → β) (invalid : Option β) :
    Forward (assignBits size bits isSigned cast invalid) := by
  intro s
  rw [assignBits_run]
  have hread := readField_forward isSigned (clampBits_le size bits)
    (logged (.assign (clampBits size bits) invalid.isSome) s)
  cases hx : readField size (clampBits size bits) isSigned
      (logged (.assign (clampBits size bits) invalid.isSome) s) with
  | error e t => trivial
  | ok r t =>
    rw [hx] at hread
    have hlog : Advances s (logged (.assign (clampBits size bits) invalid.isSome) s) :=
      advances_still rfl rfl rfl rfl
    exact advances_composes.trans (advances_composes.trans hlog hread)
      (advances_still rfl rfl rfl rfl)

theorem ignoreBits_forward (size bits : ℕ) (isSigned : Bool) :
    Forward (ignoreBits size bits isSigned) := by
  intro s
  rw [ignoreBits_run]
  have hread := readField_forward isSigned (clampBits_le size bits)
    (logged (.ignore (clampBits size bits)) s)
  cases hx : readField size (clampBits size bits) isSigned
      (logged (.ignore (clampBits size bits)) s) with
  | error e t => trivial
  | ok r t =>
    rw [hx] at hread
    have hlog : Advances s (logged (.ignore (clampBits size bits)) s) :=
      advances_still rfl rfl rfl rfl
    exact advances_composes.trans (advances_composes.trans hlog hread)
      (advances_still rfl rfl rfl rfl)

theorem readStringData_forward (itsSize : ℕ) (encoding : StringEncoding) (s : InputStream) :
    Outcome Advances (fun _ _ _ => True) s (readStringData itsSize encoding s) := by
  cases hdecode : decodeString (s.message.body.drop s.current) itsSize encoding with
  | error e =>
    rw [readStringData_halt hdecode]
    trivial
  | ok r =>
    obtain ⟨isError, value⟩ := r
    rw [readStringData_run hdecode]
    cases isError with
    | false => exact skipped_advances itsSize s
    | true => exact advances_composes.trans (skipped_advances itsSize s) (raised_advances _)

theorem readBytes_forward (itsSize size : ℕ) (s : InputStream) :
    Outcome Advances (fun _ _ _ => True) s
      ((readRaw itsSize >>= fun base => dereferenceRange base size) s) := by
  rw [readBytes_run]
  split
  · exact skipped_advances itsSize s
  · trivial

theorem advances_primitives : Primitives Advances fun _ (_ : Halt) _ => True where
  composes := advances_composes
  align := bitAlign_forward
  raw := readRaw_forward
  raising := raise_forward
  assign := assignBits_forward
  ignore := ignoreBits_forward
  string itsSize encoding s _ := readStringData_forward itsSize encoding s
  bytes itsSize size s _ _ := readBytes_forward itsSize size s
  fuel _ := trivial

theorem readElements_forward {γ : Type} (lengthWidth maxLength : ℕ) (size : γ → ℕ)
    {read : γ → Read (Option γ)} (hread : ∀ value, Forward (read value)) (fuel itsSize : ℕ) (value : γ) :
    Forward (readElements lengthWidth maxLength size read fuel itsSize value) :=
  respects_readElements advances_primitives.headers advances_primitives.fuel lengthWidth maxLength size hread
    fuel itsSize value

def left (s : InputStream) : ℕ := 8 * s.message.body.length - position s

theorem Advances.left_le {s t : InputStream} (h : Advances s t) (hs : Sound s) :
    left t ≤ left s := by
  have hpos := h.position hs
  unfold left
  rw [h.message]
  omega

structure AtEnd (s : InputStream) : Prop where
  remaining : s.remaining = 0
  currentBit : s.currentBit = 0

/-- A run from `s` that does not get closer to the end of the payload goes the same way
    where the payload is used up. -/
def StallsAt {α : Type} (x : Read α) (s : InputStream) : Prop :=
  ∀ a t, x s = .ok a t → left t = left s → ∀ u, AtEnd u → u.errorOccurred = s.errorOccurred →
    ∃ v, x u = .ok a v ∧ AtEnd v ∧ v.errorOccurred = t.errorOccurred

structure Steady {α : Type} (x : Read α) : Prop where
  forward : Forward x
  stalls : ∀ s, Sound s → StallsAt x s

section Rules
variable {α β : Type} {x : Read α} {f : α → Read β}

theorem steady_pure (a : α) : Steady (pure a : Read α) where
  forward := respects_pure advances_composes a
  stalls s _ b t h _ u hu herr := by
    cases h
    exact ⟨u, rfl, hu, herr⟩

/-- What follows a stalled read may use how it has returned. -/
theorem stallsAt_bind {s : InputStream} (hs : Sound s) (hforward : Forward x)
    (hx : StallsAt x s) (hf : ∀ a, Forward (f a))
    (hstalls : ∀ a m, x s = .ok a m → Sound m → left m = left s → StallsAt (f a) m) :
    StallsAt (x >>= f) s := by
  intro b t h hleft u hu herr
  obtain ⟨a, m, hxs, hfm⟩ := bind_eq_ok.1 h
  have hsm := hforward.ok hxs
  have hmt := (hf a).ok hfm
  have hm := hsm.sound hs
  have h1 := hsm.left_le hs
  have h2 := hmt.left_le hm
  obtain ⟨w, hxu, hw, hwerr⟩ := hx a m hxs (by omega) u hu herr
  obtain ⟨v, hfw, hv, hverr⟩ := hstalls a m hxs hm (by omega) b t hfm (by omega) w hw hwerr
  exact ⟨v, by rw [bind_ok hxu, hfw], hv, hverr⟩

theorem steady_bind' (hx : Steady x) (hf : ∀ a, Forward (f a))
    (hstalls : ∀ s a m, Sound s → x s = .ok a m → Sound m → left m = left s → StallsAt (f a) m) :
    Steady (x >>= f) where
  forward := respects_bind advances_composes hx.forward hf
  stalls s hs := stallsAt_bind hs hx.forward (hx.stalls s hs) hf fun a m => hstalls s a m hs

theorem steady_bind (hx : Steady x) (hf : ∀ a, Steady (f a)) : Steady (x >>= f) :=
  steady_bind' hx (fun a => (hf a).forward) fun _ a m _ _ hm _ => (hf a).stalls m hm

theorem steady_map (g : α → β) (hx : Steady x) : Steady (g <$> x) :=
  steady_bind hx fun a => steady_pure (g a)

theorem steady_ite {c : Prop} [Decidable c] {y : Read α} (hx : Steady x) (hy : Steady y) :
    Steady (if c then x else y) := by
  split
  · exact hx
  · exact hy

theorem steady_hasError : Steady hasError where
  forward := respects_hasError advances_primitives.headers
  stalls s _ b t h _ u hu herr := by
    cases h
    exact ⟨u, congrArg (fun e => EStateM.Result.ok e u) herr, hu, herr⟩

theorem steady_unlessError {tail : Read α} (value : α) (htail : Steady tail) :
    Steady (do if ← hasError then pure value else tail) :=
  steady_bind steady_hasError fun _ => steady_ite (steady_pure value) htail

theorem stallsAt_blocked {tail : Read α} (value : α) {s : InputStream}
    (herror : s.errorOccurred = true) :
    StallsAt (do if ← hasError then pure value else tail) s := by
  have hblocked : ∀ t : InputStream, t.errorOccurred = true →
      (do if ← hasError then pure value else tail : Read α) t = .ok value t := by
    intro t ht
    change (if t.errorOccurred = true then pure value else tail : Read α) t = _
    rw [if_pos ht, pure_run]
  intro a t h _ u hu herr
  rw [hblocked s herror] at h
  cases h
  exact ⟨u, hblocked u (herr.trans herror), hu, herr⟩

end Rules

theorem steady_bitAlign : Steady bitAlign where
  forward := bitAlign_forward
  stalls s _ a t h _ u hu herr := by
    rw [bitAlign_run] at h ⊢
    cases h
    have hbit : ¬ u.currentBit > 0 := by
      rw [hu.currentBit]
      omega
    refine ⟨aligned u, rfl, ?_, ?_⟩
    · unfold aligned
      rw [if_neg hbit]
      exact ⟨hu.remaining, hu.currentBit⟩
    · unfold aligned
      rw [if_neg hbit]
      split <;> exact herr

theorem steady_raise : Steady raise where
  forward := raise_forward
  stalls s _ a t h _ u hu _ := by
    rw [raise_run] at h ⊢
    cases h
    exact ⟨raised u, rfl, ⟨hu.remaining, hu.currentBit⟩, rfl⟩

theorem AtEnd.short {u : InputStream} (hu : AtEnd u) (bits : ℕ) : ¬ Enough u.toCursor bits := by
  rw [enough_iff, hu.remaining]
  omega

/-- A field that is read brings the end of the payload closer. -/
theorem readField_left {size bits : ℕ} {isSigned isError : Bool} {value : BitVec (8 * size)}
    {s t : InputStream} (hs : Sound s) (hle : bits ≤ 8 * size)
    (h : readField size bits isSigned s = .ok (isError, value) t) :
    (¬ Enough s.toCursor bits ∧ isError = true ∧ value = 0 ∧ t = logged (.readBits bits) s) ∨
      left t < left s := by
  obtain ⟨hshort, hrun⟩ | ⟨henough, _, hfit, hrun⟩ | ⟨_, _, u, hrun⟩ :=
    readField_cases hs isSigned hle
  · rw [hrun] at h
    cases h
    exact Or.inl ⟨hshort, rfl, rfl, rfl⟩
  · rw [hrun] at h
    cases h
    obtain ⟨hne, _⟩ := (enough_iff _ _).1 henough
    refine Or.inr ?_
    have hmessage : (seek (position s + bits) (logged (.readBits bits) s)).message = s.message := rfl
    unfold left
    rw [hmessage, seek_position]
    omega
  · rw [hrun] at h
    cases h

section Scalars
variable {β : Type} {size bits : ℕ} {isSigned : Bool} {cast : BitVec (8 * size) → β}
  {invalid : Option β}

theorem assignBits_stalled {s t : InputStream} {a : β} (hs : Sound s)
    (h : assignBits size bits isSigned cast invalid s = .ok a t) (hleft : left t = left s) :
    a = invalid.getD (cast 0) ∧ t.errorOccurred = !invalid.isSome := by
  rw [assignBits_run] at h
  cases hx : readField size (clampBits size bits) isSigned
      (logged (.assign (clampBits size bits) invalid.isSome) s) with
  | error e t =>
    rw [hx] at h
    cases h
  | ok r m =>
    obtain ⟨isError, value⟩ := r
    rw [hx] at h
    cases h
    have hlog : Sound (logged (.assign (clampBits size bits) invalid.isSome) s) :=
      ⟨hs.bit, hs.inside⟩
    obtain ⟨_, rfl, rfl, rfl⟩ | hless := readField_left hlog (clampBits_le size bits) hx
    · exact ⟨by simp [chosen], by simp⟩
    · have hsame : left m < left s := hless
      change left m = left s at hleft
      omega

theorem assignBits_atEnd {β : Type} (size bits : ℕ) (isSigned : Bool) (cast : BitVec (8 * size) → β)
    (invalid : Option β) {u : InputStream} (hu : AtEnd u) :
    ∃ v, assignBits size bits isSigned cast invalid u = .ok (invalid.getD (cast 0)) v ∧
      AtEnd v ∧ v.errorOccurred = !invalid.isSome := by
  have hshort : ¬ Enough (logged (.assign (clampBits size bits) invalid.isSome) u).toCursor
      (clampBits size bits) := hu.short _
  rw [assignBits_run, readField_short _ isSigned hshort]
  exact ⟨_, rfl, ⟨hu.remaining, hu.currentBit⟩, by simp⟩

theorem steady_assignBits : Steady (assignBits size bits isSigned cast invalid) where
  forward := assignBits_forward _ _ _ _ _
  stalls s hs a t h hleft u hu _ := by
    obtain ⟨rfl, herror⟩ := assignBits_stalled hs h hleft
    obtain ⟨v, hv, hend, hverr⟩ := assignBits_atEnd size bits isSigned cast invalid hu
    exact ⟨v, hv, hend, hverr.trans herror.symm⟩

theorem steady_ignoreBits : Steady (ignoreBits size bits isSigned) where
  forward := ignoreBits_forward _ _ _
  stalls s hs a t h hleft u hu herr := by
    rw [ignoreBits_run] at h
    cases hx : readField size (clampBits size bits) isSigned
        (logged (.ignore (clampBits size bits)) s) with
    | error e t =>
      rw [hx] at h
      cases h
    | ok r m =>
      obtain ⟨isError, value⟩ := r
      rw [hx] at h
      cases h
      have hlog : Sound (logged (.ignore (clampBits size bits)) s) := ⟨hs.bit, hs.inside⟩
      obtain ⟨_, rfl, rfl, rfl⟩ | hless := readField_left hlog (clampBits_le size bits) hx
      · have hshort : ¬ Enough (logged (.ignore (clampBits size bits)) u).toCursor
            (clampBits size bits) := hu.short _
        rw [ignoreBits_run, readField_short _ isSigned hshort]
        exact ⟨_, rfl, ⟨hu.remaining, hu.currentBit⟩, herr⟩
      · have hsame : left m < left s := hless
        change left m = left s at hleft
        omega

end Scalars

theorem guarded_run {α : Type} (value : α) (tail : Read α) (c : InputStream → Prop)
    [∀ s, Decidable (c s)] (s : InputStream) :
    (do
      let s ← get
      if c s then
        raise
      if ← hasError then pure value else tail : Read α) s =
      if c s then .ok value (raised s) else if s.errorOccurred then .ok value s else tail s := by
  rw [bind_ok (get_run s)]
  by_cases hc : c s
  · simp only [hc, ↓reduceIte]
    rw [bind_ok (raise_run s)]
    rfl
  · simp only [hc, ↓reduceIte]
    change (if s.errorOccurred = true then pure value else tail : Read α) s = _
    split <;> rfl

/-- The tail is only run with a size that is there; where the payload is used up that
    is no size at all, or the run ends like one that the guard has stopped. -/
theorem steady_guarded {α : Type} {value : α} {tail : Read α} {c : InputStream → Prop}
    [∀ s, Decidable (c s)] (hforward : ∀ s, ¬ c s → Outcome Advances (fun _ _ _ => True) s (tail s))
    (hend : ∀ s u, AtEnd u → c s → c u)
    (htail : ∀ s, Sound s → ¬ c s → ∀ a t, tail s = .ok a t → left t = left s →
      ∀ u, AtEnd u → u.errorOccurred = s.errorOccurred →
        (¬ c u ∧ ∃ v, tail u = .ok a v ∧ AtEnd v ∧ v.errorOccurred = t.errorOccurred) ∨
        (c u ∧ a = value ∧ t.errorOccurred = true)) :
    Steady (do
      let s ← get
      if c s then
        raise
      if ← hasError then pure value else tail) where
  forward := respects_guarded advances_primitives.headers value hforward
  stalls s hs a t h hleft u hu herr := by
    rw [guarded_run] at h ⊢
    have hraised : AtEnd (raised u) := ⟨hu.remaining, hu.currentBit⟩
    by_cases hc : c s
    · rw [if_pos hc] at h
      cases h
      rw [if_pos (hend s u hu hc)]
      exact ⟨_, rfl, hraised, rfl⟩
    · rw [if_neg hc] at h
      by_cases he : s.errorOccurred = true
      · rw [if_pos he] at h
        cases h
        by_cases hcu : c u
        · rw [if_pos hcu]
          exact ⟨_, rfl, hraised, he.symm⟩
        · rw [if_neg hcu, if_pos (herr.trans he)]
          exact ⟨_, rfl, hu, herr⟩
      · rw [if_neg he] at h
        obtain ⟨hcu, v, hv, hvend, hverr⟩ | ⟨hcu, rfl, hterr⟩ := htail s hs hc a t h hleft u hu herr
        · rw [if_neg hcu, if_neg (herr ▸ he)]
          exact ⟨v, hv, hvend, hverr⟩
        · rw [if_pos hcu]
          exact ⟨_, rfl, hraised, hterr.symm⟩

theorem skipped_left {size : ℕ} {s : InputStream} (hs : Sound s) (hpos : 0 < size)
    (hsize : size ≤ s.remaining) (hin : s.current ≤ s.message.body.length) :
    left (skipped size s) < left s := by
  have hrem := hs.inside hin
  have hbit := hs.bit
  have hmore : ¬ size > s.remaining := by omega
  unfold left position skipped
  rw [if_neg hmore]
  change 8 * s.message.body.length - (8 * (s.current + size) + s.currentBit) <
    8 * s.message.body.length - (8 * s.current + s.currentBit)
  omega

theorem skipped_zero_error (s : InputStream) : (skipped 0 s).errorOccurred = s.errorOccurred := by
  unfold skipped
  rw [if_neg (Nat.not_lt_zero _)]
  rfl

theorem skipped_zero_atEnd {u : InputStream} (hu : AtEnd u) : AtEnd (skipped 0 u) := by
  unfold skipped
  rw [if_neg (Nat.not_lt_zero _)]
  refine ⟨?_, hu.currentBit⟩
  change u.remaining - 0 = 0
  rw [hu.remaining]

theorem checkBom_short (data : List Byte) {size : ℕ} (encoding : StringEncoding) (h : size ≤ 3) :
    checkBom data size encoding = .ok (false, data, size) := by
  unfold checkBom
  rw [if_neg (by omega)]
  rfl

theorem decodeString_short (data : List Byte) {size : ℕ} (encoding : StringEncoding) (h : size ≤ 3) :
    decodeString data size encoding = .ok (true, []) := by
  unfold decodeString
  rw [checkBom_short data encoding h]
  rfl

theorem decodeString_outside {size : ℕ} (encoding : StringEncoding) (h : 3 < size) :
    ∃ e, decodeString [] size encoding = .error e := by
  unfold decodeString checkBom
  rw [if_pos h]
  cases encoding <;> exact ⟨_, rfl⟩

theorem steady_readStringTail (itsSize : ℕ) (encoding : StringEncoding) :
    Steady (do
      let s ← get
      if itsSize > s.remaining then
        raise
      if ← hasError then pure [] else readStringData itsSize encoding) := by
  refine steady_guarded (c := fun s => itsSize > s.remaining)
    (fun s _ => readStringData_forward itsSize encoding s) (fun s u hu hc => ?_) ?_
  · rw [hu.remaining]
    exact Nat.lt_of_le_of_lt (Nat.zero_le _) hc
  intro s hs hc a t h hleft u hu _
  rw [hu.remaining]
  obtain hzero | hpos := Nat.eq_zero_or_pos itsSize
  · subst hzero
    have hrun : ∀ w, readStringData 0 encoding w = .ok [] (raised (skipped 0 w)) :=
      fun w => readStringData_run (decodeString_short _ encoding (by omega))
    rw [hrun] at h
    cases h
    have hend := skipped_zero_atEnd hu
    exact Or.inl ⟨by omega, _, hrun u, ⟨hend.remaining, hend.currentBit⟩, rfl⟩
  · refine Or.inr ⟨hpos, ?_⟩
    by_cases hin : s.current ≤ s.message.body.length
    · have hless := skipped_left hs hpos (by omega) hin
      have hmore := hs.inside hin
      obtain ⟨isError, value, hrun⟩ := readStringData_returns encoding
        (show s.current + itsSize ≤ s.message.body.length ∨ itsSize = 0 from Or.inl (by omega))
      rw [hrun] at h
      cases h
      have hsame : left (if isError then raised (skipped itsSize s) else skipped itsSize s) =
          left (skipped itsSize s) := by cases isError <;> rfl
      omega
    · have hnil : s.message.body.drop s.current = [] := List.drop_eq_nil_of_le (by omega)
      by_cases hshort : itsSize ≤ 3
      · rw [readStringData_run (decodeString_short _ encoding hshort)] at h
        cases h
        exact ⟨rfl, rfl⟩
      · obtain ⟨e, he⟩ := decodeString_outside encoding (Nat.lt_of_not_le hshort)
        rw [readStringData_halt (by rw [hnil]; exact he)] at h
        cases h

/-- The bytes are only read where they are, or where there is none to read. -/
theorem steady_readBytesTail {itsSize size : ℕ} (hle : size ≤ itsSize)
    (hsize : 0 < itsSize → 0 < size) {p : Prop} [Decidable p] :
    Steady (do
      let s ← get
      if p ∨ itsSize > s.remaining then
        raise
      if ← hasError then pure [] else (do
        let base ← readRaw itsSize
        dereferenceRange base size)) := by
  refine steady_guarded (c := fun s => p ∨ itsSize > s.remaining)
    (fun s _ => readBytes_forward itsSize size s) (fun s u hu hc => ?_) ?_
  · refine hc.imp id fun hmore => ?_
    rw [hu.remaining]
    exact Nat.lt_of_le_of_lt (Nat.zero_le _) hmore
  intro s hs hc a t h hleft u hu herr
  rw [not_or] at hc
  rw [readBytes_run] at h
  obtain hzero | hpos := Nat.eq_zero_or_pos itsSize
  · subst hzero
    obtain rfl : size = 0 := by omega
    rw [if_pos (Or.inr rfl)] at h
    cases h
    refine Or.inl ⟨?_, skipped 0 u, ?_, skipped_zero_atEnd hu, ?_⟩
    · rw [not_or]
      exact ⟨hc.1, Nat.not_lt_zero _⟩
    · rw [readBytes_run, if_pos (Or.inr rfl)]
      rfl
    · rw [skipped_zero_error, skipped_zero_error, herr]
  · by_cases hin : s.current ≤ s.message.body.length
    · have hless := skipped_left hs hpos (by omega) hin
      split at h
      · cases h
        omega
      · cases h
    · rw [if_neg (by have := hsize hpos; omega)] at h
      cases h

theorem steady_readWidth (width : ℕ) (permitZeroWidth : Bool) (value : ℕ) :
    Steady (readWidth width permitZeroWidth value) := by
  have hraise : Steady (do raise; pure value) := steady_bind steady_raise fun _ => steady_pure _
  unfold readWidth
  split
  · exact steady_ite (steady_pure _) hraise
  · exact steady_assignBits
  · exact steady_assignBits
  · exact steady_assignBits
  · exact hraise

/-- A length or type field that does not move the cursor leaves the error flag set. -/
theorem readWidth_stalled {width value n : ℕ} {permitZeroWidth : Bool} {s t : InputStream}
    (hs : Sound s) (h : readWidth width permitZeroWidth value s = .ok n t)
    (hleft : left t = left s) (hwidth : width = 0 → permitZeroWidth = false) :
    t.errorOccurred = true := by
  unfold readWidth at h
  split at h
  · rw [hwidth rfl] at h
    cases h
    rfl
  · exact (assignBits_stalled hs h hleft).2
  · exact (assignBits_stalled hs h hleft).2
  · exact (assignBits_stalled hs h hleft).2
  · cases h
    rfl

theorem steady_readInteger (type : IntegerType) (depl : Option (IntegerDeployment type.size)) :
    Steady (readInteger type depl) := steady_assignBits

theorem steady_readRangedInteger (minimum maximum : ℤ) (depl : Option (IntegerDeployment 4)) :
    Steady (readRangedInteger minimum maximum depl) := by
  refine steady_bind (steady_readInteger int32 depl) fun tempValue => ?_
  have hend : Steady (do
      if ← hasError then pure none else pure (some tempValue) : Read (Option (BitVec 32))) :=
    steady_unlessError none (steady_pure _)
  exact steady_ite (steady_bind steady_raise fun _ => hend) hend

theorem steady_readEnumeration (base : IntegerType)
    (depl : Option (EnumerationDeployment base.size)) : Steady (readEnumeration base depl) := by
  unfold readEnumeration
  split
  · split <;> exact steady_assignBits
  · exact steady_readInteger base none

theorem steady_readVersion : Steady readVersion :=
  steady_bind steady_bitAlign fun _ => steady_bind steady_ignoreBits fun _ =>
    steady_bind steady_ignoreBits fun _ => steady_pure _

theorem steady_readString (depl : Option StringDeployment) : Steady (readString depl []) := by
  refine steady_bind steady_bitAlign fun _ => steady_bind ?_ fun itsSize => ?_
  · unfold readStringSize
    split
    · exact steady_ite (steady_pure _) (steady_readWidth _ _ _)
    · exact steady_readWidth _ _ _
  · exact steady_readStringTail itsSize _

theorem steady_readByteCount (lengthWidth maxLength : ℕ) :
    Steady (readByteCount lengthWidth maxLength) :=
  steady_ite (steady_readWidth _ _ _) (steady_pure _)

theorem steady_readByteBuffer (depl : Option ByteBufferDeployment) :
    Steady (readByteBuffer depl) := by
  refine steady_bind steady_bitAlign fun _ =>
    steady_bind (steady_readByteCount _ _) fun itsSize => ?_
  refine steady_readBytesTail ?_ fun hpos => ?_ <;> split <;> omega

theorem steady_readByteVector (depl : Option ArrayDeployment) : Steady (readByteVector depl) :=
  steady_bind steady_bitAlign fun _ => steady_bind (steady_readByteCount _ _) fun _ =>
    steady_readBytesTail le_rfl id

section Composites
variable {α β γ κ ν : Type} [DecidableEq κ]

theorem steady_readFields {first : Read α} {rest : Read β} (hfirst : Steady first)
    (hrest : Steady rest) : Steady (readFields first rest) :=
  steady_bind hfirst fun _ => steady_bind hrest fun _ => steady_pure _

theorem steady_readStructEmpty {fields : Read α} (hfields : Steady fields) :
    Steady (readStructEmpty fields) :=
  steady_bind steady_bitAlign fun _ => steady_unlessError none (steady_map some hfields)

theorem steady_get {x : Read α} (hx : Steady x) : Steady (get >>= fun _ : InputStream => x) := hx

theorem steady_readStruct (depl : Option StructDeployment) {fields : Read α}
    (hfields : Steady fields) : Steady (readStruct depl fields) := by
  refine steady_bind steady_bitAlign fun _ => ?_
  by_cases hwidth : (depl.map (·.structLengthWidth)).getD 0 = 0
  · rw [hwidth]
    refine steady_bind (steady_readWidth _ _ _) fun itsSize => steady_unlessError none ?_
    exact steady_get (steady_bind hfields fun value => steady_pure _)
  · refine steady_bind' (steady_readWidth _ _ _) (fun itsSize => ?_) fun s n m hs h _ hleft => ?_
    · exact respects_unlessError advances_primitives.headers none
        (respects_readStructFields advances_primitives.headers _ itsSize hfields.forward)
    · exact stallsAt_blocked none (readWidth_stalled hs h hleft fun hzero => absurd hzero hwidth)

theorem steady_readPolymorphicStruct {create : BitVec 32 → Read α}
    (hcreate : ∀ serial, Steady (create serial)) : Steady (readPolymorphicStruct create) :=
  steady_bind steady_bitAlign fun _ => steady_bind steady_assignBits fun serial =>
    steady_unlessError none (steady_map some (hcreate serial))

/-- The type field of a union has no width zero, so a header that does not move the
    cursor leaves the error flag set. -/
theorem readUnionHeader_stalled {unionDefaultOrder : Bool}
    {unionLengthWidth unionTypeWidth : ℕ} {uninitialised header : ℕ × ℕ} {s t : InputStream}
    (hs : Sound s)
    (h : readUnionHeader unionDefaultOrder unionLengthWidth unionTypeWidth uninitialised s =
      .ok header t) (hleft : left t = left s) : t.errorOccurred = true := by
  unfold readUnionHeader at h
  split at h
  · obtain ⟨itsSize, m, hsize, hrest⟩ := bind_eq_ok.1 h
    obtain ⟨itsType, n, htype, hpure⟩ := bind_eq_ok.1 hrest
    cases hpure
    have h1 := (steady_readWidth _ _ _).forward.ok hsize
    have h2 := (steady_readWidth _ _ _).forward.ok htype
    have hm := h1.sound hs
    have hle1 := h1.left_le hs
    have hle2 := h2.left_le hm
    exact readWidth_stalled hm htype (by omega) fun _ => rfl
  · obtain ⟨itsType, m, htype, hrest⟩ := bind_eq_ok.1 h
    obtain ⟨itsSize, n, hsize, hpure⟩ := bind_eq_ok.1 hrest
    cases hpure
    have h1 := (steady_readWidth _ _ _).forward.ok htype
    have h2 := (steady_readWidth _ _ _).forward.ok hsize
    have hm := h1.sound hs
    have hle1 := h1.left_le hs
    have hle2 := h2.left_le hm
    have herror := readWidth_stalled hs htype (by omega) fun _ => rfl
    by_cases hwidth : unionLengthWidth = 0
    · subst hwidth
      cases hsize
      exact herror
    · exact readWidth_stalled hm hsize (by omega) fun hzero => absurd hzero hwidth

theorem steady_readUnionHeader (unionDefaultOrder : Bool)
    (unionLengthWidth unionTypeWidth : ℕ) (uninitialised : ℕ × ℕ) :
    Steady (readUnionHeader unionDefaultOrder unionLengthWidth unionTypeWidth uninitialised) := by
  refine steady_ite ?_ ?_ <;>
    exact steady_bind (steady_readWidth _ _ _) fun _ => steady_bind (steady_readWidth _ _ _)
      fun _ => steady_pure _

theorem steady_readVariant (uninitialised : ℕ × ℕ) (depl : Option VariantDeployment)
    {alternatives : List (Read α)} (halternatives : ∀ d ∈ alternatives, Steady d) :
    Steady (readVariant uninitialised depl alternatives) := by
  refine steady_bind steady_bitAlign fun _ => ?_
  refine steady_bind' (steady_readUnionHeader _ _ _ _) (fun header => ?_)
    fun s header m hs h hm hleft => ?_
  · obtain ⟨itsSize, itsType⟩ := header
    intro s
    exact outcome_guarded advances_primitives.headers (0, none) fun _ =>
      respects_readAlternative advances_primitives.headers _ _ (fun d hd => (halternatives d hd).forward) s
  · obtain ⟨itsSize, itsType⟩ := header
    have herror := readUnionHeader_stalled hs h hleft
    dsimp only
    split
    · refine stallsAt_bind hm steady_raise.forward (steady_raise.stalls m hm) (fun _ => ?_)
        fun _ n hraise _ _ => ?_
      · exact respects_unlessError advances_primitives.headers (0, none)
          (respects_readAlternative advances_primitives.headers _ _ fun d hd => (halternatives d hd).forward)
      · rw [raise_run] at hraise
        cases hraise
        exact stallsAt_blocked (0, none) rfl
    · exact stallsAt_blocked (0, none) herror

theorem steady_throw (e : Halt) : Steady (throw e : Read α) where
  forward _ := trivial
  stalls _ _ _ _ h := by cases h

theorem steady_readElements (maxLength : ℕ) (size : γ → ℕ) {read : γ → Read (Option γ)}
    (hread : ∀ value, Steady (read value)) (fuel : ℕ) (value : γ) :
    Steady (readElements 0 maxLength size read fuel 0 value) := by
  induction fuel generalizing value with
  | zero =>
    unfold readElements
    exact steady_ite (steady_throw _) (steady_pure _)
  | succ fuel ih =>
    unfold readElements
    refine steady_ite ?_ (steady_pure _)
    simp only [ne_eq, not_true_eq_false, ↓reduceIte]
    refine steady_get (steady_bind (hread value) fun result => ?_)
    cases result with
    | none => exact steady_pure _
    | some value => exact steady_get (ih value)

/-- No element is announced, and the length field is all there is to go by. -/
theorem readElements_done {lengthWidth maxLength itsSize : ℕ} {size : γ → ℕ}
    {read : γ → Read (Option γ)} {value : γ} (fuel : ℕ)
    (h : ¬ (itsSize > 0 ∨ (lengthWidth = 0 ∧ size value < maxLength))) :
    readElements lengthWidth maxLength size read fuel itsSize value = pure (itsSize, value) := by
  cases fuel with
  | zero => rw [readElements, if_neg h]
  | succ fuel => rw [readElements, if_neg h]

theorem steady_checkLength (lengthWidth minLength maxLength itsSize size : ℕ) :
    Steady (checkLength lengthWidth minLength maxLength itsSize size) := by
  have hif : ∀ (c : Prop) [Decidable c] (rest : Read Unit), Steady rest →
      Steady (if c then raise >>= fun _ => rest else rest) := by
    intro c _ rest hrest
    exact steady_ite (steady_bind steady_raise fun _ => hrest) hrest
  have hend : ∀ (c : Prop) [Decidable c], Steady (if c then raise else pure () : Read Unit) := by
    intro c _
    exact steady_ite steady_raise (steady_pure _)
  refine steady_ite ?_ (hend _)
  exact hif _ _ (hif _ _ (hend _))

theorem steady_pushElement {element : Read α} (helement : Steady element) (value : List α) :
    Steady (pushElement element value) :=
  steady_bind helement fun _ => steady_unlessError none (steady_pure _)

theorem steady_readVector (fuel : ℕ) (depl : Option ArrayDeployment) {element : Read α}
    (helement : Steady element) : Steady (readVector fuel depl element) := by
  refine steady_bind steady_bitAlign fun _ => ?_
  by_cases hwidth : (depl.map (·.arrayLengthWidth)).getD 4 = 0
  · rw [hwidth]
    refine steady_unlessError [] ?_
    exact steady_bind (steady_readElements _ _ (steady_pushElement helement) fuel []) fun result =>
      steady_bind (steady_checkLength _ _ _ _ _) fun _ => steady_pure _
  · refine steady_bind' (steady_readWidth _ _ _) (fun itsSize => ?_) fun s n m hs h _ hleft => ?_
    · refine respects_unlessError advances_primitives.headers [] ?_
      refine respects_bind advances_composes (readElements_forward _ _ _
        (respects_pushElement advances_primitives.headers helement.forward) fuel _ _) fun result => ?_
      exact (steady_bind (steady_checkLength _ _ _ _ _) fun _ => steady_pure _).forward
    · exact stallsAt_blocked [] (readWidth_stalled hs h hleft fun hzero => absurd hzero hwidth)

theorem steady_readEntry {key : Read κ} {mapped : Read ν} (hkey : Steady key)
    (hmapped : Steady mapped) (value : List (κ × ν)) : Steady (readEntry key mapped value) :=
  steady_bind hkey fun _ => steady_unlessError none <|
    steady_bind hmapped fun _ => steady_unlessError none (steady_pure _)

theorem steady_readMap (fuel : ℕ) (depl : Option MapDeployment) {key : Read κ} {mapped : Read ν}
    (hkey : Steady key) (hmapped : Steady mapped) : Steady (readMap fuel depl key mapped) := by
  have hrest : ∀ (width minLength maxLength : ℕ) (result : ℕ × List (κ × ν)), Steady (do
      checkLength width minLength maxLength result.1 result.2.length
      pure result.2) := fun _ _ _ _ => steady_bind (steady_checkLength _ _ _ _ _) fun _ => steady_pure _
  have hentry := steady_readEntry hkey hmapped
  have hentries : ∀ width maxLength itsSize, Forward
      (readEntries fuel width maxLength itsSize key mapped) := fun width maxLength itsSize =>
    respects_unlessError advances_primitives.headers _ (readElements_forward _ _ _
      (fun value => (hentry value).forward) fuel _ _)
  refine steady_bind steady_bitAlign fun _ => ?_
  refine steady_bind' (steady_readWidth _ _ _) (fun itsSize => ?_) fun s n m hs h hm hleft => ?_
  · exact respects_bind advances_composes (hentries _ _ itsSize) fun result =>
      (hrest _ _ _ result).forward
  · by_cases hwidth : (depl.map (·.mapLengthWidth)).getD 4 = 0
    · rw [hwidth] at h ⊢
      cases h
      exact (steady_bind (steady_unlessError _ (steady_readElements _ _ hentry fuel []))
        fun result => hrest _ _ _ result).stalls s hm
    · have herror := readWidth_stalled hs h hleft fun hzero => absurd hzero hwidth
      exact stallsAt_bind hm (hentries _ _ n) (stallsAt_blocked _ herror)
        (fun result => (hrest _ _ _ result).forward) fun result u _ hu _ =>
          (hrest _ _ _ result).stalls u hu

theorem steady_readMapEmpty (fuel : ℕ) {key : Read κ} {mapped : Read ν} (hkey : Steady key)
    (hmapped : Steady mapped) : Steady (readMapEmpty fuel key mapped) := by
  have hrest : ∀ result : ℕ × List (κ × ν), Steady (do
      if result.1 ≠ 0 then
        raise
      pure result.2) := fun result =>
    steady_ite (steady_bind steady_raise fun _ => steady_pure _) (steady_pure _)
  refine steady_bind steady_bitAlign fun _ => ?_
  refine steady_bind' steady_assignBits (fun itsSize => ?_) fun s n m hs h hm hleft => ?_
  · exact respects_bind advances_composes (readElements_forward _ _ _
      (fun value => (steady_readEntry hkey hmapped value).forward) fuel _ _) fun result =>
        (hrest result).forward
  · obtain ⟨rfl, _⟩ := assignBits_stalled hs h hleft
    rw [readElements_done fuel (by simp)]
    exact (steady_bind (steady_pure _) hrest).stalls m hm

end Composites

/-- Every decoder either moves on or behaves as it does where the payload is used up. -/
theorem Decoder.steady {α : Type} {d : ℕ → Read α} (hd : Decoder d) (fuel : ℕ) :
    Steady (d fuel) := by
  induction hd with
  | bool => exact steady_assignBits
  | integer type depl => exact steady_readInteger type depl
  | float => exact steady_bind steady_bitAlign fun _ => steady_assignBits
  | double => exact steady_bind steady_bitAlign fun _ => steady_assignBits
  | rangedInteger minimum maximum depl => exact steady_readRangedInteger minimum maximum depl
  | enumeration base depl => exact steady_readEnumeration base depl
  | version => exact steady_readVersion
  | string depl => exact steady_readString depl
  | byteBuffer depl => exact steady_readByteBuffer depl
  | noFields => exact steady_pure _
  | fields _ _ ihfirst ihrest => exact steady_readFields ihfirst ihrest
  | structEmpty _ ih => exact steady_readStructEmpty ih
  | struct depl _ ih => exact steady_readStruct depl ih
  | polymorphicStruct _ ih => exact steady_readPolymorphicStruct ih
  | variant uninitialised depl _ ih =>
    refine steady_readVariant uninitialised depl fun d hd => ?_
    obtain ⟨e, he, rfl⟩ := List.mem_map.1 hd
    exact ih e he
  | byteVector depl => exact steady_readByteVector depl
  | vector depl _ ih => exact steady_readVector fuel depl ih
  | map depl _ _ ihkey ihmapped => exact steady_readMap fuel depl ihkey ihmapped
  | mapEmpty _ _ ihkey ihmapped => exact steady_readMapEmpty fuel ihkey ihmapped
  | convert f _ ih => exact steady_map f ih

end SomeIPRuntime.InputStream
