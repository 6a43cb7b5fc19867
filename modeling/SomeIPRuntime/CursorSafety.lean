import SomeIPRuntime.ReadOperations
import SomeIPRuntime.StringSafety

set_option autoImplicit false

namespace SomeIPRuntime.InputStream
open Bits ProgramRuns Deployment

def Event.Covered (e : Event) : Prop :=
  match e.step with
  | .readBits bits =>
    bits = 0 ∨ ¬ Enough e.before bits ∨ e.before.currentBit + bits ≤ 8 * e.before.remaining
  | .readRaw size => size < e.before.remaining ∨ e.before.currentBit = 0
  | _ => True

instance : DecidablePred Event.Covered
  | ⟨.readBits bits, before⟩ => inferInstanceAs
      (Decidable (bits = 0 ∨ ¬ Enough before bits ∨ before.currentBit + bits ≤ 8 * before.remaining))
  | ⟨.readRaw size, before⟩ =>
    inferInstanceAs (Decidable (size < before.remaining ∨ before.currentBit = 0))
  | ⟨.bitAlign, _⟩ => .isTrue trivial
  | ⟨.assign _ _, _⟩ => .isTrue trivial
  | ⟨.ignore _, _⟩ => .isTrue trivial
  | ⟨.raise, _⟩ => .isTrue trivial

def InPayload (length : ℕ) (c : Cursor) : Prop :=
  c.current + c.remaining = length ∧ (c.currentBit > 0 → c.remaining ≥ 1)

def Raised (older : List Event) (c : Cursor) : Prop :=
  c.errorOccurred = true ∨ ∃ e ∈ older, e.before.errorOccurred = true

structure SafeCursor (length : ℕ) (older : List Event) (c : Cursor) : Prop where
  bit : c.currentBit < 8
  remaining : c.remaining ≤ length
  inside : ¬ Raised older c → InPayload length c

/-- The invariant: after an error the cursor may have left the payload, with nothing remaining. -/
def Tidy (length : ℕ) (older : List Event) (c : Cursor) : Prop :=
  c.currentBit < 8 ∧ (InPayload length c ∨
    (c.remaining = 0 ∧ c.currentBit = 0 ∧ length ≤ c.current ∧ Raised older c))

theorem Tidy.safe {length : ℕ} {older : List Event} {c : Cursor} (h : Tidy length older c) :
    SafeCursor length older c := by
  obtain ⟨hbit, hin | ⟨hrem, hzero, hcur, hraised⟩⟩ := h
  · refine ⟨hbit, ?_, fun _ => hin⟩
    have hsum := hin.1
    omega
  · exact ⟨hbit, by omega, fun hno => absurd hraised hno⟩

def Good (s : InputStream) : Prop :=
  Throughout (Tidy s.message.body.length) s.toCursor s.history

theorem Good.sound {s : InputStream} (h : Good s) : Sound s := by
  obtain ⟨hbit, hin | ⟨hrem, hzero, hcur, hraised⟩⟩ := h.last
  · exact ⟨hbit, fun _ => hin.1⟩
  · exact ⟨hbit, fun hle => by omega⟩

theorem create_good (message : Message) (isLittleEndian : Bool) :
    Good (create message isLittleEndian) := by
  refine ⟨Nat.zero_lt_succ 7, Or.inl ⟨Nat.zero_add _, fun h => ?_⟩⟩
  exact absurd h (lt_irrefl 0)

def AllCovered (history : List Event) : Prop := ∀ e ∈ history, e.Covered

instance (history : List Event) : Decidable (AllCovered history) :=
  inferInstanceAs (Decidable (∀ e ∈ history, e.Covered))

structure Keeps (s t : InputStream) : Prop where
  extends_history : s.history <:+ t.history
  message : t.message = s.message
  good : AllCovered t.history → Good s → Good t

structure KeepsHalt (s : InputStream) (e : Halt) (t : InputStream) : Prop where
  extends_history : s.history <:+ t.history
  message : t.message = s.message
  good : AllCovered t.history → Good s → e ≠ .outOfBounds ∧ Good t

theorem AllCovered.suffix {older newer : List Event} (h : AllCovered newer)
    (hs : older <:+ newer) : AllCovered older :=
  fun e he => h e (hs.mem he)

theorem keeps_composes : Composes Keeps KeepsHalt where
  refl _ := ⟨List.suffix_rfl, rfl, fun _ h => h⟩
  trans h k := ⟨h.1.trans k.1, k.2.trans h.2, fun hc hg => k.3 hc (h.3 (hc.suffix k.1) hg)⟩
  absorb h k :=
    ⟨h.1.trans k.1, k.2.trans h.2, fun hc hg => k.3 hc (h.3 (hc.suffix k.1) hg)⟩

theorem Raised.logged {older : List Event} {c : Cursor} (step : Step) (h : Raised older c)
    (c' : Cursor) : Raised (⟨step, c⟩ :: older) c' := by
  obtain herr | ⟨e, he, herr⟩ := h
  · exact Or.inr ⟨_, List.mem_cons_self, herr⟩
  · exact Or.inr ⟨e, List.mem_cons_of_mem _ he, herr⟩

theorem Tidy.logged {length : ℕ} {older : List Event} {c : Cursor} (step : Step)
    (h : Tidy length older c) : Tidy length (⟨step, c⟩ :: older) c := by
  obtain ⟨hbit, hin | ⟨hrem, hzero, hcur, hraised⟩⟩ := h
  · exact ⟨hbit, Or.inl hin⟩
  · exact ⟨hbit, Or.inr ⟨hrem, hzero, hcur, hraised.logged step c⟩⟩

theorem logged_good {s : InputStream} (step : Step) (h : Good s) : Good (logged step s) :=
  ⟨h.last.logged step, h⟩

theorem good_after (step : Step) {s t : InputStream} (h : Good s)
    (hhistory : t.history = ⟨step, s.toCursor⟩ :: s.history) (hmessage : t.message = s.message)
    (ht : Tidy s.message.body.length t.history t.toCursor) : Good t := by
  unfold Good
  rw [hhistory, hmessage]
  rw [hhistory] at ht
  exact ⟨ht, h⟩

theorem bitAlign_keeps : Respects Keeps KeepsHalt bitAlign := by
  intro s
  rw [bitAlign_run]
  refine ⟨?_, ?_, fun _ h => ?_⟩
  · unfold aligned
    split <;> exact List.suffix_cons _ _
  · exact aligned_message s
  · by_cases hpos : s.currentBit > 0
    · obtain ⟨hbit, hin | ⟨hrem, hzero, hcur, hraised⟩⟩ := h.last
      · have hrem := hin.2 hpos
        have hsum := hin.1
        have hlen := s.message.fits
        have hw : wrapSub 64 s.remaining 1 = s.remaining - 1 := wrapSub_of_le hrem (by omega)
        simp only [aligned, hpos, ↓reduceIte]
        refine good_after .bitAlign h rfl rfl ⟨Nat.zero_lt_succ 7, Or.inl ⟨?_, ?_⟩⟩
        · change s.current + 1 + wrapSub 64 s.remaining 1 = _
          omega
        · exact fun hlt => absurd hlt (lt_irrefl 0)
      · omega
    · simp only [aligned, hpos, ↓reduceIte]
      exact logged_good _ h

theorem raise_keeps : Respects Keeps KeepsHalt raise := by
  intro s
  refine ⟨List.suffix_cons _ _, rfl, fun _ h => ?_⟩
  have hlast := h.last.logged .raise
  refine good_after .raise h rfl rfl ⟨hlast.1, ?_⟩
  obtain hin | ⟨hrem, hzero, hcur, _⟩ := hlast.2
  · exact Or.inl hin
  · exact Or.inr ⟨hrem, hzero, hcur, Or.inl rfl⟩

theorem readRaw_keeps (size : ℕ) : Respects Keeps KeepsHalt (readRaw size) := by
  intro s
  rw [readRaw_run]
  by_cases hmore : size > s.remaining
  · simp only [skipped, hmore, ↓reduceIte]
    refine ⟨(List.suffix_cons _ _).trans (List.suffix_cons _ _), rfl, fun hc h => ?_⟩
    have hcovered : size < s.remaining ∨ s.currentBit = 0 :=
      hc _ (List.mem_cons_of_mem _ List.mem_cons_self)
    have hzero : s.currentBit = 0 := by omega
    refine ⟨⟨h.last.1, Or.inr ⟨rfl, hzero, ?_, Or.inl rfl⟩⟩, logged_good (.readRaw size) h⟩
    change s.message.body.length ≤ s.current + size
    obtain ⟨_, hin | ⟨_, _, hcur, _⟩⟩ := h.last
    · have hsum := hin.1
      omega
    · omega
  · simp only [skipped, hmore, ↓reduceIte]
    refine ⟨List.suffix_cons _ _, rfl, fun hc h => ?_⟩
    have hcovered : size < s.remaining ∨ s.currentBit = 0 := hc _ List.mem_cons_self
    refine good_after (.readRaw size) h rfl rfl ⟨h.last.1, ?_⟩
    obtain ⟨_, hin | ⟨hrem, hzero, hcur, hraised⟩⟩ := h.last
    · refine Or.inl ⟨?_, fun hpos => ?_⟩
      · change s.current + size + (s.remaining - size) = _
        have hsum := hin.1
        omega
      · change s.currentBit > 0 at hpos
        change s.remaining - size ≥ 1
        omega
    · refine Or.inr ⟨?_, hzero, ?_, hraised.logged _ _⟩
      · change s.remaining - size = 0
        omega
      · change _ ≤ s.current + size
        omega

theorem fits_of_covered {s : InputStream} {bits : ℕ} (h : Good s)
    (hc : Event.Covered ⟨.readBits bits, s.toCursor⟩) (henough : Enough s.toCursor bits) :
    position s + bits ≤ 8 * s.message.body.length := by
  obtain ⟨hne, hrem⟩ := (enough_iff _ _).1 henough
  have hfit : s.currentBit + bits ≤ 8 * s.remaining := by
    obtain hzero | hno | hfit := hc
    · exact absurd hzero hne
    · exact absurd henough hno
    · exact hfit
  obtain ⟨_, hin | ⟨hzero, _, _, _⟩⟩ := h.last
  · have hsum := hin.1
    unfold position
    omega
  · have hrem : bits ≤ 8 * s.remaining := hrem
    omega

theorem readField_keeps {size bits : ℕ} (isSigned : Bool) (hle : bits ≤ 8 * size) :
    Respects Keeps KeepsHalt (readField size bits isSigned) := by
  intro s
  have hkept := readField_frame size bits isSigned s
  have hcases := fun hg : Good s => readField_cases hg.sound isSigned hle
  cases hx : readField size bits isSigned s with
  | error e t =>
    rw [hx] at hkept hcases
    have hhistory : t.history = ⟨.readBits bits, s.toCursor⟩ :: s.history := hkept.history
    refine ⟨hhistory ▸ List.suffix_cons _ _, hkept.message, fun hc hg => ?_⟩
    obtain ⟨_, hrun⟩ | ⟨_, _, _, hrun⟩ | ⟨henough, hpast, _⟩ := hcases hg
    · cases hrun
    · cases hrun
    · have hfit := fits_of_covered hg (hc _ (hhistory ▸ List.mem_cons_self)) henough
      omega
  | ok r t =>
    rw [hx] at hkept hcases
    have hhistory : t.history = ⟨.readBits bits, s.toCursor⟩ :: s.history := hkept.history
    refine ⟨hhistory ▸ List.suffix_cons _ _, hkept.message, fun hc hg => ?_⟩
    obtain ⟨_, hrun⟩ | ⟨_, _, hfit, hrun⟩ | ⟨_, _, _, hrun⟩ := hcases hg
    · cases hrun
      exact logged_good _ hg
    · cases hrun
      have hend := seek_consistent (logged (.readBits bits) s) hfit
      exact good_after (.readBits bits) hg rfl rfl
        ⟨hend.bit, Or.inl ⟨hend.inside, hend.pending⟩⟩
    · cases hrun

/-- The flags may change where the steps before have recorded an error. -/
theorem flags_good {s : InputStream} (h : Good s)
    (hlog : s.errorOccurred = true → ∃ e ∈ s.history, e.before.errorOccurred = true)
    (errorOccurred failed : Bool) :
    Good { s with errorOccurred := errorOccurred, failed := failed } := by
  refine Throughout.replace h ?_
  obtain ⟨hbit, hin | ⟨hrem, hzero, hcur, hraised⟩⟩ := h.last
  · exact ⟨hbit, Or.inl hin⟩
  · exact ⟨hbit, Or.inr ⟨hrem, hzero, hcur, Or.inr (hraised.elim hlog id)⟩⟩

theorem assignBits_keeps {β : Type} (size bits : ℕ) (isSigned : Bool)
    (cast : BitVec (8 * size) → β) (invalid : Option β) :
    Respects Keeps KeepsHalt (assignBits size bits isSigned cast invalid) := by
  intro s
  rw [assignBits_run]
  have hlog : Keeps s (logged (.assign (clampBits size bits) invalid.isSome) s) :=
    ⟨List.suffix_cons _ _, rfl, fun _ h => logged_good _ h⟩
  have hread := readField_keeps isSigned (clampBits_le size bits)
    (logged (.assign (clampBits size bits) invalid.isSome) s)
  have hkept := readField_frame size (clampBits size bits) isSigned
    (logged (.assign (clampBits size bits) invalid.isSome) s)
  cases hx : readField size (clampBits size bits) isSigned
      (logged (.assign (clampBits size bits) invalid.isSome) s) with
  | error e t =>
    rw [hx] at hread
    exact keeps_composes.absorb hlog hread
  | ok r t =>
    rw [hx] at hread hkept
    obtain ⟨isError, value⟩ := r
    have hst := keeps_composes.trans hlog hread
    refine ⟨hst.extends_history, hst.message, fun hc h => flags_good (hst.good hc h) ?_ _ _⟩
    intro herr
    have herr : s.errorOccurred = true := hkept.errorOccurred ▸ herr
    refine ⟨⟨.assign (clampBits size bits) invalid.isSome, s.toCursor⟩, ?_, herr⟩
    exact hread.extends_history.mem List.mem_cons_self

theorem ignoreBits_keeps (size bits : ℕ) (isSigned : Bool) :
    Respects Keeps KeepsHalt (ignoreBits size bits isSigned) := by
  intro s
  rw [ignoreBits_run]
  have hlog : Keeps s (logged (.ignore (clampBits size bits)) s) :=
    ⟨List.suffix_cons _ _, rfl, fun _ h => logged_good _ h⟩
  have hread := readField_keeps isSigned (clampBits_le size bits)
    (logged (.ignore (clampBits size bits)) s)
  cases hx : readField size (clampBits size bits) isSigned
      (logged (.ignore (clampBits size bits)) s) with
  | error e t =>
    rw [hx] at hread
    exact keeps_composes.absorb hlog hread
  | ok r t =>
    rw [hx] at hread
    obtain ⟨isError, value⟩ := r
    have hst := keeps_composes.trans hlog hread
    refine ⟨hst.extends_history, hst.message, fun hc h => ?_⟩
    exact Throughout.replace (hst.good hc h) (hst.good hc h).last

/-- What was checked against `remaining_` lies inside the payload. -/
theorem Good.readable {s : InputStream} (h : Good s) {size : ℕ} (hsize : size ≤ s.remaining) :
    s.current + size ≤ s.message.body.length ∨ size = 0 := by
  obtain ⟨_, hin | ⟨hzero, _, _, _⟩⟩ := h.last
  · have hsum := hin.1
    omega
  · omega

theorem skipped_keeps (size : ℕ) (s : InputStream) : Keeps s (skipped size s) := by
  have hs := readRaw_keeps size s
  rw [readRaw_run] at hs
  exact hs

theorem readStringData_keeps (itsSize : ℕ) (encoding : Deployment.StringEncoding)
    (s : InputStream) (hsize : itsSize ≤ s.remaining) :
    Outcome Keeps KeepsHalt s (readStringData itsSize encoding s) := by
  have hskip := skipped_keeps itsSize s
  cases hdecode : decodeString (s.message.body.drop s.current) itsSize encoding with
  | error e =>
    rw [readStringData_halt hdecode]
    refine ⟨hskip.extends_history, hskip.message, fun hc hg => absurd hdecode ?_⟩
    have hlen : itsSize ≤ (s.message.body.drop s.current).length := by
      have hin := hg.readable hsize
      rw [List.length_drop]
      omega
    obtain ⟨r, hr, _⟩ := decodeString_returns encoding hlen
    rw [hr]
    exact nofun
  | ok r =>
    obtain ⟨isError, value⟩ := r
    rw [readStringData_run hdecode]
    cases isError with
    | false => exact hskip
    | true =>
      have hraise := raise_keeps (skipped itsSize s)
      rw [raise_run] at hraise
      exact keeps_composes.trans hskip hraise

theorem readBytes_keeps (itsSize size : ℕ) (s : InputStream) (hsize : itsSize ≤ s.remaining)
    (hle : size ≤ itsSize) :
    Outcome Keeps KeepsHalt s ((readRaw itsSize >>= fun base => dereferenceRange base size) s) := by
  have hskip := skipped_keeps itsSize s
  rw [readBytes_run]
  split
  · exact hskip
  · refine ⟨hskip.extends_history, hskip.message, fun hc hg => ?_⟩
    have hin := hg.readable hsize
    omega

theorem keeps_primitives : Primitives Keeps KeepsHalt where
  composes := keeps_composes
  align := bitAlign_keeps
  raw := readRaw_keeps
  raising := raise_keeps
  assign := assignBits_keeps
  ignore := ignoreBits_keeps
  string := readStringData_keeps
  bytes := readBytes_keeps
  fuel _ := ⟨List.suffix_rfl, rfl, fun _ h => ⟨by decide, h⟩⟩

/-- Whatever a client runs, a covered run keeps the invariant. -/
theorem ReadOp.keeps_good {α : Type} {r : Read α} (hr : ReadOp r) {s : InputStream} (h : Good s)
    (hc : AllCovered (finalState (r s)).history) :
    halted (r s) ≠ some .outOfBounds ∧ Good (finalState (r s)) ∧
      (finalState (r s)).message = s.message := by
  have hs := hr.respects keeps_primitives s
  cases hx : r s with
  | ok a t =>
    rw [hx] at hs hc
    exact ⟨nofun, hs.good hc h, hs.message⟩
  | error e t =>
    rw [hx] at hs hc
    obtain ⟨hne, hgood⟩ := hs.good hc h
    exact ⟨fun heq => hne (Option.some.inj heq), hgood, hs.message⟩

/-- No byte outside the payload is dereferenced, every cursor of the run is safe, and a
    field that is not there is reported. -/
structure CursorSafe {α : Type} (message : Message) (isLittleEndian : Bool) (r : Read α) :
    Prop where
  stays : halted (r (create message isLittleEndian)) ≠ some .outOfBounds
  safe : Throughout (SafeCursor message.body.length)
    (finalState (r (create message isLittleEndian))).toCursor
    (finalState (r (create message isLittleEndian))).history
  reports : ∀ (bits size : ℕ) (isSigned : Bool) (s : InputStream),
    ⟨.readBits bits, s.toCursor⟩ ∈ (finalState (r (create message isLittleEndian))).history →
    8 * s.remaining < s.currentBit + bits →
    ∃ t, readField size bits isSigned s = .ok (true, 0) t

theorem reads_stay_inside {α : Type} {r : Read α} (hr : ReadOp r) (message : Message)
    (isLittleEndian : Bool)
    (hc : AllCovered (finalState (r (create message isLittleEndian))).history) :
    CursorSafe message isLittleEndian r := by
  obtain ⟨hstays, hgood, hmessage⟩ := hr.keeps_good (create_good message isLittleEndian) hc
  refine ⟨hstays, ?_, ?_⟩
  · have hsafe := Throughout.imp (fun _ _ => Tidy.safe) hgood
    rw [hmessage] at hsafe
    exact hsafe
  · intro bits size isSigned s he hfew
    have hcovered : bits = 0 ∨ ¬ Enough s.toCursor bits ∨ s.currentBit + bits ≤ 8 * s.remaining :=
      hc _ he
    refine ⟨_, readField_short s isSigned fun henough => ?_⟩
    obtain ⟨hne, _⟩ := (enough_iff _ _).1 henough
    obtain hzero | hno | hfit := hcovered
    · exact hne hzero
    · exact hno henough
    · omega

def straddling : Read (BitVec 8 × BitVec 8) := do
  let low ← readUInt8 (some ⟨4, none⟩)
  let high ← readUInt8 none
  pure (low, high)

theorem straddling_leaves :
    ¬ ∀ (message : Message) (isLittleEndian : Bool) (α : Type) (r : Read α), ReadOp r →
      CursorSafe message isLittleEndian r := by
  intro h
  have hop : ReadOp straddling := by
    refine .bind (.decode (.integer uint8 (some ⟨4, none⟩)) 0) fun low => ?_
    exact .bind (.decode (.integer uint8 none) 0) fun high => .pure _
  exact (h ⟨[0xFF], by decide⟩ true _ straddling hop).stays (by decide)

theorem whole_reads_stay_inside :
    CursorSafe ⟨[0x12, 0x34], by decide⟩ true (readInteger uint8 none >>= fun _ => readRaw 1) :=
  reads_stay_inside
    (.bind (.decode (.integer uint8 none) 0) fun _ => .readRaw 1) _ _ (by decide)

end SomeIPRuntime.InputStream
