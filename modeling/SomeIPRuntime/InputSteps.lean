import SomeIPRuntime.InputBits

set_option autoImplicit false

namespace SomeIPRuntime.InputStream
open Bits ProgramRuns

/-- Holds of every stream that a run reaches: the cursor may have left the payload, but
    inside the payload `remaining_` is exact. -/
structure Sound (s : InputStream) : Prop where
  bit : s.currentBit < 8
  inside : s.current ≤ s.message.body.length → s.current + s.remaining = s.message.body.length

theorem Consistent.sound {s : InputStream} (h : Consistent s) : Sound s :=
  ⟨h.bit, fun _ => h.inside⟩

theorem Sound.consistent {s : InputStream} (h : Sound s) (hlt : s.current < s.message.body.length) :
    Consistent s := by
  have hin := h.inside (by omega)
  exact ⟨h.bit, hin, fun _ => by omega⟩

theorem dereference_past {s : InputStream} {i : ℕ} (h : s.message.body.length ≤ i) :
    dereference i s = .error .outOfBounds s := by
  unfold dereference
  rw [List.getElem?_eq_none h]

theorem dereferenceRange_past {s : InputStream} {size address : ℕ} (hsize : 0 < size)
    (h : s.message.body.length < address + size) :
    dereferenceRange address size s = .error .outOfBounds s := by
  induction size generalizing address with
  | zero => omega
  | succ size ih =>
    rw [dereferenceRange]
    by_cases hlt : address < s.message.body.length
    · have hd : dereference address s = .ok s.message.body[address] s := by
        simp [dereference, hlt]
      rw [bind_ok hd, bind_error (ih (by omega) (by omega))]
    · exact bind_error (dereference_past (by omega))

/-- A field that reaches past the payload makes the loop leave the payload. -/
theorem copyLoop_past (s : InputStream) {size bits p : ℕ} {neg : Bool} {init : Byte}
    (hp : 8 * s.message.body.length < p + bits) (fuel c : ℕ) (t : CopyState)
    (hc : p + c ≤ 8 * s.message.body.length) (hfuel : bits - c ≤ fuel)
    (ht : t.writePosition = c % 8) :
    ∃ u, copyLoop size neg init fuel (bits - c) t (seek (p + c) s) = .error .outOfBounds u := by
  induction fuel generalizing c t with
  | zero => omega
  | succ fuel ih =>
    have hlt : c < bits := by omega
    unfold copyLoop
    simp only [gt_iff_lt, Nat.sub_pos_of_lt hlt, ↓reduceIte]
    by_cases hin : p + c < 8 * s.message.body.length
    · obtain ⟨hpos, hsrc, htgt, hle⟩ := roundBits_bounds (p % 8) hlt
      rw [bind_ok (copyStep_seek s ht hlt hin)]
      generalize roundBits (p % 8) bits c = n at hpos hsrc htgt hle
      simp only
      rw [bind_ok (get_run _)]
      have hmore : ¬ bits - (c + n) = 0 := by omega
      by_cases hfull : c % 8 + n = 8
      · simp only [hfull, true_or, ↓reduceIte]
        exact ih (c + n) _ (by omega) (by omega) (by change 0 = _; omega)
      · simp only [hfull, hmore, or_self, ↓reduceIte]
        exact ih (c + n) _ (by omega) (by omega) (by change c % 8 + n = _; omega)
    · have hend : dereference (seek (p + c) s).current (seek (p + c) s) =
          .error .outOfBounds (seek (p + c) s) :=
        dereference_past (by rw [seek_current, seek_message]; omega)
      refine ⟨seek (p + c) s, bind_error ?_⟩
      unfold copyStep
      rw [bind_ok (get_run _)]
      exact bind_error hend

theorem copyLoop_outside {s : InputStream} {size bits : ℕ} {neg : Bool} {init : Byte}
    (t : CopyState) (hbits : 0 < bits) (h : s.message.body.length ≤ s.current) :
    copyLoop size neg init bits bits t s = .error .outOfBounds s := by
  obtain ⟨fuel, rfl⟩ := Nat.exists_eq_add_of_lt hbits
  unfold copyLoop
  simp only [gt_iff_lt, Nat.zero_add, Nat.zero_lt_succ, ↓reduceIte]
  refine bind_error ?_
  unfold copyStep
  rw [bind_ok (get_run _)]
  exact bind_error (dereference_past h)

theorem isNegative_outcome (s : InputStream) (bits : ℕ) (isSigned : Bool) :
    (∃ neg, isNegative bits isSigned s = .ok neg s) ∨
      isNegative bits isSigned s = .error .outOfBounds s := by
  unfold isNegative
  cases isSigned with
  | false => exact Or.inl ⟨false, rfl⟩
  | true =>
    simp only [↓reduceIte]
    rw [bind_ok (get_run _)]
    by_cases h : s.current + highestByte bits (bits - (8 - s.currentBit)) < s.message.body.length
    · have hd : dereference (s.current + highestByte bits (bits - (8 - s.currentBit))) s =
          .ok s.message.body[s.current + highestByte bits (bits - (8 - s.currentBit))] s := by
        simp [dereference, h]
      exact Or.inl ⟨_, by rw [bind_ok hd, pure_run]⟩
    · exact Or.inr (bind_error (dereference_past (by omega)))

/-- The check is passed but the field reaches past the payload: the run leaves the payload. -/
theorem readField_past {s : InputStream} (hs : Sound s) {size bits : ℕ} (isSigned : Bool)
    (henough : Enough s.toCursor bits)
    (hpast : 8 * s.message.body.length < position s + bits) :
    ∃ t, readField size bits isSigned s = .error .outOfBounds t := by
  obtain ⟨hne, hrem⟩ := (enough_iff _ _).1 henough
  have hcheck : ¬ (bits = 0 ∨ (logged (.readBits bits) s).remaining < ((bits - 1) >>> 3) + 1) := by
    unfold Enough at henough
    change ¬ (bits = 0 ∨ s.remaining < _)
    omega
  have hloop : ∀ neg init t, t.writePosition = 0 →
      ∃ u, copyLoop size neg init bits bits t (logged (.readBits bits) s) =
        .error .outOfBounds u := by
    intro neg init t ht
    by_cases hlt : s.current < s.message.body.length
    · have hc := hs.consistent hlt
      have hseek : seek (position s) (logged (.readBits bits) s) = logged (.readBits bits) s :=
        seek_of_consistent (s := logged (.readBits bits) s) ⟨hc.bit, hc.inside, hc.pending⟩
      rw [← hseek]
      exact copyLoop_past (logged (.readBits bits) s) hpast bits 0 t (position_le hc) (by omega) ht
    · exact ⟨_, copyLoop_outside t (by omega) (Nat.le_of_not_lt hlt)⟩
  unfold readField
  rw [bind_ok (record_run _ _), bind_ok (get_run _), if_neg hcheck]
  by_cases hfast : (logged (.readBits bits) s).currentBit = 0 ∧ bits = size <<< 3
  · rw [if_pos hfast]
    obtain ⟨hzero, hfull⟩ := hfast
    rw [Nat.shiftLeft_eq] at hfull
    have hbit : s.currentBit = 0 := hzero
    have hend : s.message.body.length < s.current + size := by
      unfold position at hpast
      omega
    refine bind_halts ⟨logged (.readBits bits) s, ?_⟩
    unfold copyBytes
    rw [bind_ok (get_run _)]
    exact bind_error (dereferenceRange_past (by omega) hend)
  · rw [if_neg hfast]
    obtain ⟨neg, hneg⟩ | hneg := isNegative_outcome (logged (.readBits bits) s) bits isSigned
    · rw [bind_ok hneg]
      refine bind_halts ?_
      exact hloop neg _ _ rfl
    · exact ⟨_, bind_error hneg⟩

/-- The three outcomes: the check fails, the field is read, or the run leaves the payload. -/
theorem readField_cases {s : InputStream} (hs : Sound s) {size bits : ℕ} (isSigned : Bool)
    (hle : bits ≤ 8 * size) :
    (¬ Enough s.toCursor bits ∧
      readField size bits isSigned s = .ok (true, 0) (logged (.readBits bits) s)) ∨
    (Enough s.toCursor bits ∧ Consistent s ∧ position s + bits ≤ 8 * s.message.body.length ∧
      readField size bits isSigned s =
        .ok (false, fieldValue size bits s.isLittleEndian isSigned
            fun i => bitAt s.message.body (position s + i))
          (seek (position s + bits) (logged (.readBits bits) s))) ∨
    (Enough s.toCursor bits ∧ 8 * s.message.body.length < position s + bits ∧
      ∃ t, readField size bits isSigned s = .error .outOfBounds t) := by
  by_cases he : Enough s.toCursor bits
  · obtain ⟨hne, hrem⟩ := (enough_iff _ _).1 he
    by_cases hfit : position s + bits ≤ 8 * s.message.body.length
    · have hlt : s.current < s.message.body.length := by
        unfold position at hfit
        omega
      have hc := hs.consistent hlt
      have hin := hc.inside
      refine Or.inr (Or.inl ⟨he, hc, hfit, readField_run hc isSigned (by omega) hle ?_⟩)
      unfold position at hfit
      omega
    · exact Or.inr (Or.inr ⟨he, by omega, readField_past hs isSigned he (by omega)⟩)
  · exact Or.inl ⟨he, readField_short s isSigned he⟩

/-- `_readBitValue` reports an error just if its check fails. -/
theorem readField_isError {size bits : ℕ} {isSigned isError : Bool} {value : BitVec (8 * size)}
    {s t : InputStream} (h : readField size bits isSigned s = .ok (isError, value) t) :
    isError = true ↔ ¬ Enough s.toCursor bits := by
  by_cases henough : Enough s.toCursor bits
  · have hcheck : ¬ (bits = 0 ∨ (logged (.readBits bits) s).remaining < ((bits - 1) >>> 3) + 1) := by
      obtain ⟨hne, hrem⟩ := henough
      change ¬ (bits = 0 ∨ s.remaining < _)
      omega
    have hfalse : isError = false := by
      unfold readField at h
      rw [bind_ok (record_run _ _), bind_ok (get_run _), if_neg hcheck] at h
      split at h
      · obtain ⟨raw, u, _, hpure⟩ := bind_eq_ok.1 h
        cases hpure
        rfl
      · obtain ⟨neg, u, _, hrest⟩ := bind_eq_ok.1 h
        obtain ⟨raw, v, _, hpure⟩ := bind_eq_ok.1 hrest
        cases hpure
        rfl
    simp [hfalse, henough]
  · rw [readField_short s isSigned henough] at h
    cases h
    simp [henough]

structure Kept (s t : InputStream) : Prop where
  message : t.message = s.message
  isLittleEndian : t.isLittleEndian = s.isLittleEndian
  errorOccurred : t.errorOccurred = s.errorOccurred
  failed : t.failed = s.failed
  history : t.history = s.history

theorem kept_composes : Composes Kept fun s (_ : Halt) t => Kept s t where
  refl _ := ⟨rfl, rfl, rfl, rfl, rfl⟩
  trans h k := ⟨k.1.trans h.1, k.2.trans h.2, k.3.trans h.3, k.4.trans h.4, k.5.trans h.5⟩
  absorb h k := ⟨k.1.trans h.1, k.2.trans h.2, k.3.trans h.3, k.4.trans h.4, k.5.trans h.5⟩

abbrev Frame {α : Type} (x : Read α) : Prop := Respects Kept (fun s _ t => Kept s t) x

theorem dereference_frame (address : ℕ) : Frame (dereference address) := by
  intro s
  unfold dereference
  cases s.message.body[address]? <;> exact ⟨rfl, rfl, rfl, rfl, rfl⟩

theorem dereferenceRange_frame (address size : ℕ) : Frame (dereferenceRange address size) := by
  induction size generalizing address with
  | zero => exact respects_pure kept_composes _
  | succ size ih =>
    refine respects_bind kept_composes (dereference_frame address) fun b => ?_
    exact respects_bind kept_composes (ih (address + 1)) fun bs => respects_pure kept_composes _

theorem isNegative_frame (bits : ℕ) (isSigned : Bool) : Frame (isNegative bits isSigned) := by
  unfold isNegative
  refine respects_ite ?_ (respects_pure kept_composes _)
  refine respects_bind kept_composes (respects_get kept_composes) fun s => ?_
  exact respects_bind kept_composes (dereference_frame _) fun b => respects_pure kept_composes _

theorem copyStep_frame (bits : ℕ) (t : CopyState) : Frame (copyStep bits t) := by
  intro s
  unfold copyStep
  rw [bind_ok (get_run _), bind_run]
  have hd := dereference_frame s.current s
  cases hx : dereference s.current s with
  | error e u =>
    rw [hx] at hd
    exact hd
  | ok b u =>
    simp only [bind_ok (set_run u _), pure_run]
    unfold advance
    split <;> exact ⟨rfl, rfl, rfl, rfl, rfl⟩

theorem copyLoop_frame (size : ℕ) (neg : Bool) (init : Byte) (fuel bits : ℕ) (t : CopyState) :
    Frame (copyLoop size neg init fuel bits t) := by
  induction fuel generalizing bits t with
  | zero => exact respects_pure kept_composes _
  | succ fuel ih =>
    unfold copyLoop
    refine respects_ite ?_ (respects_pure kept_composes _)
    refine respects_bind kept_composes (copyStep_frame bits t) fun r => ?_
    refine respects_bind kept_composes (respects_get kept_composes) fun s => ?_
    exact respects_ite (ih _ _) (ih _ _)

theorem copyBytes_frame (size : ℕ) : Frame (copyBytes size) := by
  intro s
  unfold copyBytes
  rw [bind_ok (get_run _), bind_run]
  have hd := dereferenceRange_frame s.current size s
  cases hx : dereferenceRange s.current size s with
  | error e u =>
    rw [hx] at hd
    exact hd
  | ok b u =>
    simp only [bind_ok (set_run u _), pure_run]
    exact ⟨rfl, rfl, rfl, rfl, rfl⟩

/-- Whatever its outcome, `_readBitValue` records its step and otherwise moves the cursor. -/
theorem readField_frame (size bits : ℕ) (isSigned : Bool) (s : InputStream) :
    Kept (logged (.readBits bits) s) (finalState (readField size bits isSigned s)) := by
  unfold readField
  rw [bind_ok (record_run _ _), bind_ok (get_run _)]
  generalize logged (.readBits bits) s = u
  split
  · exact kept_composes.refl u
  · split
    · have hcopy : Frame (copyBytes size >>= fun raw => pure (false, typed size raw)) :=
        respects_bind kept_composes (copyBytes_frame size) fun _ => respects_pure kept_composes _
      exact hcopy.finalState u
    · have hloop : Frame (isNegative bits isSigned >>= fun neg =>
          copyLoop size neg (0xFF#8 <<< ((bits - 1) % 8)) bits bits
              { raw := List.replicate size (if neg then 0xFF else 0)
                written := 0
                writePosition := 0
                itsCurrentByte := if neg && size == 1 then 0xFF#8 <<< ((bits - 1) % 8) else 0
                itsCurrentCount := 1 } >>= fun raw => pure (false, typed size raw)) := by
        refine respects_bind kept_composes (isNegative_frame bits isSigned) fun neg => ?_
        exact respects_bind kept_composes (copyLoop_frame _ _ _ _ _ _) fun _ =>
          respects_pure kept_composes _
      exact hloop.finalState u

def aligned (s : InputStream) : InputStream :=
  if s.currentBit > 0 then
    { logged .bitAlign s with
      current := s.current + 1, remaining := wrapSub 64 s.remaining 1, currentBit := 0 }
  else logged .bitAlign s

theorem bitAlign_run (s : InputStream) : bitAlign s = .ok ⟨⟩ (aligned s) := by
  unfold bitAlign
  rw [bind_ok (record_run _ _), modify_run]
  rfl

theorem aligned_bit (s : InputStream) : (aligned s).currentBit = 0 := by
  unfold aligned
  split
  · rfl
  · change s.currentBit = 0
    omega

theorem aligned_message (s : InputStream) : (aligned s).message = s.message := by
  unfold aligned
  split <;> rfl

theorem aligned_isLittleEndian (s : InputStream) :
    (aligned s).isLittleEndian = s.isLittleEndian := by
  unfold aligned
  split <;> rfl

theorem aligned_errorOccurred (s : InputStream) :
    (aligned s).errorOccurred = s.errorOccurred := by
  unfold aligned
  split <;> rfl

def raised (s : InputStream) : InputStream :=
  { logged .raise s with errorOccurred := true, failed := true }

theorem raise_run (s : InputStream) : raise s = .ok ⟨⟩ (raised s) := rfl

def skipped (size : ℕ) (s : InputStream) : InputStream :=
  if size > s.remaining then
    { raised (logged (.readRaw size) s) with remaining := 0, current := s.current + size }
  else
    { logged (.readRaw size) s with
      remaining := s.remaining - size, current := s.current + size }

theorem readRaw_run (size : ℕ) (s : InputStream) :
    readRaw size s = .ok s.current (skipped size s) := by
  unfold readRaw
  rw [bind_ok (record_run _ _), bind_ok (get_run _)]
  unfold skipped
  by_cases h : size > s.remaining
  · have hlog : size > (logged (.readRaw size) s).remaining := h
    simp only [hlog, h, ↓reduceIte]
    rw [bind_ok (raise_run _), bind_ok (modify_run _ _), bind_ok (modify_run _ _), pure_run]
    refine congrArg (EStateM.Result.ok s.current) ?_
    simp [raised, logged, h.le]
  · have hlog : ¬ size > (logged (.readRaw size) s).remaining := h
    simp only [hlog, h, ↓reduceIte]
    rw [bind_ok (modify_run _ _), bind_ok (modify_run _ _), pure_run]
    refine congrArg (EStateM.Result.ok s.current) ?_
    by_cases hge : s.remaining ≤ size
    · simp [logged, hge]
    · simp [logged, hge]

def chosen {size : ℕ} {β : Type} (cast : BitVec (8 * size) → β) (invalid : Option β)
    (isError : Bool) (value : BitVec (8 * size)) : β :=
  if isError then invalid.getD (cast value) else cast value

theorem assignBits_run {β : Type} (size bits : ℕ) (isSigned : Bool) (cast : BitVec (8 * size) → β)
    (invalid : Option β) (s : InputStream) :
    assignBits size bits isSigned cast invalid s =
      match readField size (clampBits size bits) isSigned
          (logged (.assign (clampBits size bits) invalid.isSome) s) with
      | .error e t => .error e t
      | .ok (isError, value) t =>
        .ok (chosen cast invalid isError value)
          { t with
            errorOccurred := isError && !invalid.isSome
            failed := t.failed || (isError && !invalid.isSome) } := by
  unfold assignBits readBitValue
  rw [bind_ok (record_run _ _), bind_run]
  cases readField size (clampBits size bits) isSigned
      (logged (.assign (clampBits size bits) invalid.isSome) s) with
  | error e t => rfl
  | ok r t =>
    obtain ⟨isError, value⟩ := r
    cases isError <;> cases invalid <;> simp [chosen, bind_run, modify_run, pure_run]

theorem ignoreBits_run (size bits : ℕ) (isSigned : Bool) (s : InputStream) :
    ignoreBits size bits isSigned s =
      match readField size (clampBits size bits) isSigned
          (logged (.ignore (clampBits size bits)) s) with
      | .error e t => .error e t
      | .ok (isError, value) t => .ok value { t with failed := t.failed || isError } := by
  unfold ignoreBits readBitValue
  rw [bind_ok (record_run _ _), bind_run]
  cases readField size (clampBits size bits) isSigned
      (logged (.ignore (clampBits size bits)) s) <;> rfl

theorem clampBits_le (size bits : ℕ) : clampBits size bits ≤ 8 * size := by
  rw [clampBits_eq]
  exact Nat.min_le_right _ _

theorem logged_consistent {step : Step} {s : InputStream} (hs : Consistent s) :
    Consistent (logged step s) := ⟨hs.bit, hs.inside, hs.pending⟩

theorem aligned_consistent {s : InputStream} (hs : Consistent s) :
    Consistent (aligned s) ∧ position (aligned s) = (position s + 7) / 8 * 8 := by
  have hbit := hs.bit
  have hin := hs.inside
  have hfits := s.message.fits
  unfold aligned position
  by_cases hpos : s.currentBit > 0
  · have hpend := hs.pending hpos
    rw [if_pos hpos]
    refine ⟨⟨Nat.zero_lt_succ 7, ?_, fun h => absurd h (lt_irrefl 0)⟩, ?_⟩
    · change s.current + 1 + wrapSub 64 s.remaining 1 = s.message.body.length
      rw [wrapSub_of_le (by omega) (by omega)]
      omega
    · change 8 * (s.current + 1) + 0 = (8 * s.current + s.currentBit + 7) / 8 * 8
      omega
  · rw [if_neg hpos]
    refine ⟨logged_consistent hs, ?_⟩
    change 8 * s.current + s.currentBit = (8 * s.current + s.currentBit + 7) / 8 * 8
    omega

/-- A field that is read leaves the cursor consistent, and of whole bytes the bit as it was. -/
theorem readField_consistent {s t : InputStream} (hs : Consistent s) {size bits : ℕ}
    {isSigned : Bool} (hle : bits ≤ 8 * size) {result : Bool × BitVec (8 * size)}
    (h : readField size bits isSigned s = .ok result t) :
    Consistent t ∧ (bits % 8 = 0 → t.currentBit = s.currentBit) := by
  obtain ⟨_, hrun⟩ | ⟨_, _, hfit, hrun⟩ | ⟨_, _, _, hrun⟩ := readField_cases hs.sound isSigned hle
  · rw [hrun] at h
    cases h
    exact ⟨logged_consistent hs, fun _ => rfl⟩
  · rw [hrun] at h
    cases h
    refine ⟨seek_consistent _ hfit, fun hmod => ?_⟩
    have hbit := hs.bit
    rw [seek_currentBit]
    unfold position
    omega
  · rw [hrun] at h
    cases h

theorem assignBits_consistent {s t : InputStream} (hs : Consistent s) {β : Type} {size bits : ℕ}
    {isSigned : Bool} {cast : BitVec (8 * size) → β} {invalid : Option β} {value : β}
    (h : assignBits size bits isSigned cast invalid s = .ok value t) :
    Consistent t ∧ (clampBits size bits % 8 = 0 → t.currentBit = s.currentBit) := by
  rw [assignBits_run] at h
  cases hx : readField size (clampBits size bits) isSigned
      (logged (.assign (clampBits size bits) invalid.isSome) s) with
  | error e u =>
    rw [hx] at h
    cases h
  | ok r u =>
    rw [hx] at h
    cases h
    obtain ⟨hu, hbit⟩ := readField_consistent (logged_consistent hs) (clampBits_le size bits) hx
    exact ⟨⟨hu.bit, hu.inside, hu.pending⟩, hbit⟩

theorem ignoreBits_consistent {s t : InputStream} (hs : Consistent s) {size bits : ℕ}
    {isSigned : Bool} {value : BitVec (8 * size)}
    (h : ignoreBits size bits isSigned s = .ok value t) : Consistent t := by
  rw [ignoreBits_run] at h
  cases hx : readField size (clampBits size bits) isSigned
      (logged (.ignore (clampBits size bits)) s) with
  | error e u =>
    rw [hx] at h
    cases h
  | ok r u =>
    rw [hx] at h
    cases h
    have hu := (readField_consistent (logged_consistent hs) (clampBits_le size bits) hx).1
    exact ⟨hu.bit, hu.inside, hu.pending⟩

def Throughout (P : List Event → Cursor → Prop) (c : Cursor) : List Event → Prop
  | [] => P [] c
  | e :: older => P (e :: older) c ∧ Throughout P e.before older

theorem Throughout.last {P : List Event → Cursor → Prop} {c : Cursor} {history : List Event}
    (h : Throughout P c history) : P history c := by
  cases history with
  | nil => exact h
  | cons e older => exact h.1

theorem Throughout.imp {P Q : List Event → Cursor → Prop} (hpq : ∀ older c, P older c → Q older c)
    {c : Cursor} {history : List Event} (h : Throughout P c history) : Throughout Q c history := by
  induction history generalizing c with
  | nil => exact hpq _ _ h
  | cons e older ih => exact ⟨hpq _ _ h.1, ih h.2⟩

theorem Throughout.replace {P : List Event → Cursor → Prop} {c c' : Cursor} {history : List Event}
    (h : Throughout P c history) (hc : P history c') : Throughout P c' history := by
  cases history with
  | nil => exact hc
  | cons e older => exact ⟨hc, h.2⟩

end SomeIPRuntime.InputStream
