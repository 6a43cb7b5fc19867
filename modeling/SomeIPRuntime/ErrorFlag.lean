import SomeIPRuntime.ReadOperations

set_option autoImplicit false

namespace SomeIPRuntime.InputStream
open Bits ProgramRuns Deployment

/-- In every state of the run a read that has failed shows in the error flag. -/
def Remembers (s : InputStream) : Prop :=
  Throughout (fun _ c => c.failed = true → c.errorOccurred = true) s.toCursor s.history

/-- A scalar read after an error fails as well; a `Version` field can be read, or there
    was an error before. -/
def Event.Honest (e : Event) : Prop :=
  match e.step with
  | .assign bits hasInvalid =>
    e.before.errorOccurred = true → ¬ Enough e.before bits ∧ hasInvalid = false
  | .ignore bits => e.before.errorOccurred = true ∨ Enough e.before bits
  | _ => True

instance : DecidablePred Event.Honest
  | ⟨.assign bits hasInvalid, before⟩ => inferInstanceAs
      (Decidable (before.errorOccurred = true → ¬ Enough before bits ∧ hasInvalid = false))
  | ⟨.ignore bits, before⟩ =>
    inferInstanceAs (Decidable (before.errorOccurred = true ∨ Enough before bits))
  | ⟨.readBits _, _⟩ => .isTrue trivial
  | ⟨.readRaw _, _⟩ => .isTrue trivial
  | ⟨.bitAlign, _⟩ => .isTrue trivial
  | ⟨.raise, _⟩ => .isTrue trivial

/-- The invariant of a run: it remembers its errors just as long as its steps are honest. -/
structure Tracked (s : InputStream) : Prop where
  flag : s.errorOccurred = true → s.failed = true
  iff : Remembers s ↔ ∀ e ∈ s.history, e.Honest

theorem create_tracked (message : Message) (isLittleEndian : Bool) :
    Tracked (create message isLittleEndian) := by
  refine ⟨id, ⟨fun _ => List.forall_mem_nil _, fun _ h => h⟩⟩

theorem Remembers.last {s : InputStream} (h : Remembers s) :
    s.failed = true → s.errorOccurred = true := Throughout.last h

/-- One more step: it is honest just if the error flag still tells. -/
theorem tracked_after (step : Step) {s t : InputStream} (h : Tracked s)
    (hhistory : t.history = ⟨step, s.toCursor⟩ :: s.history)
    (hflag : t.errorOccurred = true → t.failed = true)
    (hstep : (s.failed = true → s.errorOccurred = true) →
      (Event.Honest ⟨step, s.toCursor⟩ ↔ (t.failed = true → t.errorOccurred = true))) :
    Tracked t := by
  refine ⟨hflag, ?_⟩
  unfold Remembers
  rw [hhistory, List.forall_mem_cons]
  constructor
  · rintro ⟨ht, hs⟩
    exact ⟨(hstep (Remembers.last hs)).2 ht, h.iff.1 hs⟩
  · rintro ⟨he, hs⟩
    have hr : Remembers s := h.iff.2 hs
    exact ⟨(hstep hr.last).1 he, hr⟩

theorem tracked_silent (step : Step) {s t : InputStream} (h : Tracked s)
    (hhistory : t.history = ⟨step, s.toCursor⟩ :: s.history)
    (herror : t.errorOccurred = s.errorOccurred) (hfailed : t.failed = s.failed)
    (hstep : Event.Honest ⟨step, s.toCursor⟩) : Tracked t := by
  refine tracked_after step h hhistory (by rw [herror, hfailed]; exact h.flag) fun hs => ?_
  rw [herror, hfailed]
  exact ⟨fun _ => hs, fun _ => hstep⟩

abbrev Tracks {α : Type} (x : Read α) : Prop :=
  Respects (fun s t => Tracked s → Tracked t) (fun _ _ _ => True) x

theorem tracks_composes :
    Composes (fun s t => Tracked s → Tracked t) (fun _ (_ : Halt) _ => True) where
  refl _ := id
  trans h k := k ∘ h
  absorb _ _ := trivial

theorem bitAlign_tracks : Tracks bitAlign := by
  intro s
  rw [bitAlign_run]
  intro h
  unfold aligned
  split <;> exact tracked_silent .bitAlign h rfl rfl rfl trivial

theorem raise_tracks : Tracks raise := by
  intro s h
  exact tracked_after .raise h rfl (fun _ => rfl) fun _ => ⟨fun _ _ => rfl, fun _ => trivial⟩

theorem readRaw_tracks (size : ℕ) : Tracks (readRaw size) := by
  intro s
  rw [readRaw_run]
  intro h
  have hlog : Tracked (logged (.readRaw size) s) :=
    tracked_silent (.readRaw size) h rfl rfl rfl trivial
  unfold skipped
  split
  · refine tracked_after .raise hlog rfl (fun _ => rfl) fun _ => ?_
    exact ⟨fun _ _ => rfl, fun _ => trivial⟩
  · exact tracked_silent (.readRaw size) h rfl rfl rfl trivial

theorem tracked_kept {s t : InputStream} (hk : Kept s t) (h : Tracked s) : Tracked t := by
  have hflags : (t.failed = true → t.errorOccurred = true) ↔
      (s.failed = true → s.errorOccurred = true) := by
    rw [hk.errorOccurred, hk.failed]
  refine ⟨by rw [hk.errorOccurred, hk.failed]; exact h.flag, ?_⟩
  have hiff := h.iff
  unfold Remembers at hiff ⊢
  rw [hk.history, ← hiff]
  exact ⟨fun ht => ht.replace (hflags.1 ht.last), fun hs => hs.replace (hflags.2 hs.last)⟩

theorem frame_tracks {α : Type} {x : Read α} (hx : Frame x) : Tracks x := by
  intro s
  have hs := hx s
  cases hxs : x s with
  | error e t => trivial
  | ok a t =>
    rw [hxs] at hs
    exact tracked_kept hs

theorem fromExcept_tracks {α : Type} (x : Except Halt α) : Tracks (fromExcept x) := by
  intro s
  cases x with
  | error e => trivial
  | ok a => exact id

theorem readStringData_tracks (itsSize : ℕ) (encoding : Deployment.StringEncoding) :
    Tracks (readStringData itsSize encoding) := by
  refine respects_bind tracks_composes (readRaw_tracks itsSize) fun data => ?_
  refine respects_bind tracks_composes (respects_get tracks_composes) fun s => ?_
  refine respects_bind tracks_composes (fromExcept_tracks _) fun r => ?_
  exact respects_ite
    (respects_bind tracks_composes raise_tracks fun _ => respects_pure tracks_composes _)
    (respects_pure tracks_composes _)

section Scalars
variable {size bits : ℕ} {isSigned isError : Bool} {value : BitVec (8 * size)} {s t : InputStream}

/-- The stream after a `_readBitValue` that returned, whose step was recorded before. -/
theorem readField_tracked (step : Step)
    (h : readField size bits isSigned (logged step s) = .ok (isError, value) t) :
    t.history = ⟨.readBits bits, s.toCursor⟩ :: ⟨step, s.toCursor⟩ :: s.history ∧
      t.errorOccurred = s.errorOccurred ∧ t.failed = s.failed ∧
      (isError = true ↔ ¬ Enough s.toCursor bits) := by
  have hkept := readField_frame size bits isSigned (logged step s)
  have hiff := readField_isError h
  rw [h] at hkept
  exact ⟨hkept.history, hkept.errorOccurred, hkept.failed, hiff⟩

/-- The flags are set after the two steps of a scalar read have been recorded. -/
theorem tracked_scalar {step : Step} (h : Tracked s)
    (hhistory : t.history = ⟨.readBits bits, s.toCursor⟩ :: ⟨step, s.toCursor⟩ :: s.history)
    (hflag : t.errorOccurred = true → t.failed = true)
    (hstep : (s.failed = true → s.errorOccurred = true) →
      (Event.Honest ⟨step, s.toCursor⟩ ↔ (t.failed = true → t.errorOccurred = true))) :
    Tracked t := by
  refine ⟨hflag, ?_⟩
  unfold Remembers
  rw [hhistory, List.forall_mem_cons, List.forall_mem_cons]
  constructor
  · rintro ⟨ht, _, hs⟩
    exact ⟨trivial, (hstep (Remembers.last hs)).2 ht, h.iff.1 hs⟩
  · rintro ⟨_, he, hs⟩
    have hr : Remembers s := h.iff.2 hs
    exact ⟨(hstep hr.last).1 he, hr.last, hr⟩

end Scalars

theorem assignBits_tracks {β : Type} (size bits : ℕ) (isSigned : Bool)
    (cast : BitVec (8 * size) → β) (invalid : Option β) :
    Tracks (assignBits size bits isSigned cast invalid) := by
  intro s
  rw [assignBits_run]
  cases hx : readField size (clampBits size bits) isSigned
      (logged (.assign (clampBits size bits) invalid.isSome) s) with
  | error e t => trivial
  | ok r t =>
    obtain ⟨isError, value⟩ := r
    obtain ⟨hhistory, herror, hfailed, hiff⟩ := readField_tracked _ hx
    intro h
    refine tracked_scalar h hhistory (fun herr => ?_) fun hs => ?_
    · change (t.failed || (isError && !invalid.isSome)) = true
      rw [show (isError && !invalid.isSome) = true from herr, Bool.or_true]
    · change (s.errorOccurred = true → ¬ Enough s.toCursor (clampBits size bits) ∧
          invalid.isSome = false) ↔
        ((t.failed || (isError && !invalid.isSome)) = true → (isError && !invalid.isSome) = true)
      rw [hfailed, ← hiff]
      have hflag := h.flag
      cases isError <;> cases invalid.isSome <;> cases hf : s.failed <;>
        cases he : s.errorOccurred <;> simp_all

theorem ignoreBits_tracks (size bits : ℕ) (isSigned : Bool) :
    Tracks (ignoreBits size bits isSigned) := by
  intro s
  rw [ignoreBits_run]
  cases hx : readField size (clampBits size bits) isSigned
      (logged (.ignore (clampBits size bits)) s) with
  | error e t => trivial
  | ok r t =>
    obtain ⟨isError, value⟩ := r
    obtain ⟨hhistory, herror, hfailed, hiff⟩ := readField_tracked _ hx
    intro h
    refine tracked_scalar h hhistory (fun herr => ?_) fun hs => ?_
    · change (t.failed || isError) = true
      have herr : s.errorOccurred = true := herror ▸ herr
      rw [hfailed, h.flag herr, Bool.true_or]
    · change (s.errorOccurred = true ∨ Enough s.toCursor (clampBits size bits)) ↔
        ((t.failed || isError) = true → t.errorOccurred = true)
      rw [herror, hfailed]
      have hflag := h.flag
      by_cases henough : Enough s.toCursor (clampBits size bits)
      · have hok : isError = false := by
          cases isError
          · rfl
          · exact absurd henough (hiff.1 rfl)
        simpa [henough, hok] using hs
      · have hbad : isError = true := hiff.2 henough
        simp [henough, hbad]

theorem tracks_primitives :
    Primitives (fun s t => Tracked s → Tracked t) (fun _ (_ : Halt) _ => True) where
  composes := tracks_composes
  align := bitAlign_tracks
  raw := readRaw_tracks
  raising := raise_tracks
  assign := assignBits_tracks
  ignore := ignoreBits_tracks
  string itsSize encoding s _ := readStringData_tracks itsSize encoding s
  bytes itsSize size s _ _ :=
    respects_bind tracks_composes (readRaw_tracks itsSize)
      (fun base => frame_tracks (dereferenceRange_frame base size)) s
  fuel _ := trivial

/-- A run that returns has remembered every error just if all its steps were honest. -/
theorem remembers_iff {α : Type} {r : Read α} (hr : ReadOp r) (message : Message)
    (isLittleEndian : Bool) (h : halted (r (create message isLittleEndian)) = none) :
    Remembers (finalState (r (create message isLittleEndian))) ↔
      ∀ e ∈ (finalState (r (create message isLittleEndian))).history, e.Honest := by
  have hs := hr.respects tracks_primitives (create message isLittleEndian)
  cases hx : r (create message isLittleEndian) with
  | error e t =>
    rw [hx] at h
    cases h
  | ok a t =>
    rw [hx] at hs
    exact (hs (create_tracked message isLittleEndian)).iff

theorem truncated_remembers :
    Remembers (finalState (readFields readBool (readUInt16 none)
      (create ⟨[0x01, 0x02], by decide⟩ false))) :=
  (remembers_iff (.decode (.fields .bool (.integer uint16 none)) 0) _ _ (by decide)).2 (by decide)

/-- The version of an empty payload: both fields fail, and there is no error. -/
theorem version_forgets :
    ¬ ∀ (message : Message) (isLittleEndian : Bool) (α : Type) (r : Read α) (a : α)
      (t : InputStream), ReadOp r → r (create message isLittleEndian) = .ok a t →
      t.errorOccurred = false → t.failed = false := by
  intro h
  have hfailed := h ⟨[], by decide⟩ true Version readVersion _ _ (.decode .version 0) rfl rfl
  exact absurd hfailed (by decide)

end SomeIPRuntime.InputStream
