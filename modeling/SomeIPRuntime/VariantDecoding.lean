import SomeIPRuntime.DeclaredLength
import SomeIPRuntime.Received

set_option autoImplicit false

namespace SomeIPRuntime.InputStream
open Bits ProgramRuns Deployment

def lengthWidth (depl : Option VariantDeployment) : ℕ := (depl.map (·.unionLengthWidth)).getD 4

def typeWidth (depl : Option VariantDeployment) : ℕ := (depl.map (·.unionTypeWidth)).getD 4

def sizeFirst (depl : Option VariantDeployment) : Bool :=
  (depl.map (·.unionDefaultOrder)).getD true

def wireNumber (s : InputStream) (place width : ℕ) : ℕ :=
  littleEndian (OutputStream.reorder s.isLittleEndian ((s.message.body.drop place).take width))

def wireSize (depl : Option VariantDeployment) (s : InputStream) : ℕ :=
  wireNumber s ((aligned s).current + if sizeFirst depl then 0 else typeWidth depl) (lengthWidth depl)

def wireType (depl : Option VariantDeployment) (s : InputStream) : ℕ :=
  wireNumber s ((aligned s).current + if sizeFirst depl then lengthWidth depl else 0) (typeWidth depl)

def announcedBy (depl : Option VariantDeployment) (itsSize : ℕ) : ℕ :=
  if lengthWidth depl ≠ 0 then itsSize else (depl.map (·.unionMaxLength)).getD 0

def HeaderThere (depl : Option VariantDeployment) (s : InputStream) : Prop :=
  typeWidth depl ≠ 0 ∧ HeaderFits (lengthWidth depl) (typeWidth depl) (aligned s).remaining

def readHeader (uninitialised : ℕ × ℕ) (depl : Option VariantDeployment) : Read (ℕ × ℕ) :=
  readUnionHeader (sizeFirst depl) (lengthWidth depl) (typeWidth depl) uninitialised

theorem wireNumber_ahead {a : InputStream} {width : ℕ} (hwidth : IsWidth width)
    (hbit : a.currentBit = 0) (hroom : a.current + width ≤ a.message.body.length) :
    wireNumber a a.current width < 2 ^ (8 * width) ∧
      RoundTrip.Ahead a (bitsOf (OutputStream.lengthField a.isLittleEndian
        (wireNumber a a.current width) width)) := by
  have hlen : ((a.message.body.drop a.current).take width).length = width := by
    rw [List.length_take, List.length_drop]
    omega
  obtain ⟨hlt, hbytes⟩ := RoundTrip.number_bytes a.isLittleEndian hwidth hlen
  refine ⟨hlt, ?_⟩
  unfold wireNumber RoundTrip.Ahead position
  rw [hbytes, hbit, Nat.add_zero, bitsOf_drop]
  refine ⟨bitsOf ((a.message.body.drop a.current).drop width), ?_⟩
  rw [← bitsOf_append, List.take_append_drop]

structure Taken (a m : InputStream) (width : ℕ) : Prop where
  consistent : Consistent m
  bit : m.currentBit = 0
  current : m.current = a.current + width
  remaining : m.remaining = a.remaining - width
  message : m.message = a.message
  isLittleEndian : m.isLittleEndian = a.isLittleEndian
  errorOccurred : m.errorOccurred = if width = 0 then a.errorOccurred else false

theorem Taken.trans {a m n : InputStream} {first second : ℕ} (h : Taken a m first)
    (h' : Taken m n second) : Taken a n (first + second) where
  consistent := h'.consistent
  bit := h'.bit
  current := by rw [h'.current, h.current, Nat.add_assoc]
  remaining := by rw [h'.remaining, h.remaining, Nat.sub_sub]
  message := h'.message.trans h.message
  isLittleEndian := h'.isLittleEndian.trans h.isLittleEndian
  errorOccurred := by
    rw [h'.errorOccurred, h.errorOccurred]
    by_cases hsecond : second = 0
    · rw [if_pos hsecond, hsecond, Nat.add_zero]
    · rw [if_neg hsecond, if_neg (by omega)]

theorem Taken.wireNumber {a m : InputStream} {size : ℕ} (h : Taken a m size) (place width : ℕ) :
    wireNumber m place width = wireNumber a place width := by
  unfold InputStream.wireNumber
  rw [h.message, h.isLittleEndian]

theorem readWidth_taken {a : InputStream} {width : ℕ} (permitZeroWidth : Bool) (before : ℕ)
    (ha : Consistent a) (hbit : a.currentBit = 0) (hfits : FieldFits width a.remaining)
    (hpermit : width = 0 → permitZeroWidth = true) :
    ∃ m, readWidth width permitZeroWidth before a = .ok (wireNumber a a.current width) m ∧
      Taken a m width := by
  obtain hzero | ⟨hwidth, hroom⟩ := hfits
  · subst hzero
    rw [hpermit rfl]
    refine ⟨a, ?_, ha, hbit, rfl, rfl, rfl, rfl, rfl⟩
    unfold wireNumber
    rw [List.take_zero]
    cases a.isLittleEndian <;> rfl
  · have hinside := ha.inside
    obtain ⟨hlt, hahead⟩ := wireNumber_ahead hwidth hbit (by omega)
    obtain ⟨m, hread, hmoved, hquiet⟩ :=
      RoundTrip.readWidth_ahead ha hwidth hlt permitZeroWidth before hahead
    have hposition := hmoved.position
    have hmbit := hmoved.consistent.bit
    have hmin := hmoved.consistent.inside
    rw [hmoved.message] at hmin
    unfold position at hposition
    refine ⟨m, hread, hmoved.consistent, by omega, by omega, by omega, hmoved.message,
      hmoved.isLittleEndian, ?_⟩
    rw [if_neg hwidth.ne_zero, hquiet]

section Headers
variable {uninitialised : ℕ × ℕ} {depl : Option VariantDeployment} {s start : InputStream}

theorem HeaderThere.consistent (h : HeaderThere depl s) (hs : Good s) : Consistent (aligned s) := by
  obtain ⟨hbit, hin | ⟨hrem, hzero, _⟩⟩ := hs.last
  · exact (aligned_consistent ⟨hbit, hin.1, hin.2⟩).1
  · have hroom := h.2.2.2
    have hne := h.1
    have hsame : (aligned s).remaining = s.remaining := by
      unfold aligned
      rw [if_neg (by omega)]
      rfl
    omega

theorem readHeader_there (uninitialised : ℕ × ℕ) (hs : Good s) (h : HeaderThere depl s) :
    ∃ start, readHeader uninitialised depl (aligned s) =
        .ok (wireSize depl s, wireType depl s) start ∧
      Taken (aligned s) start (lengthWidth depl + typeWidth depl) := by
  have hcons := h.consistent hs
  have hbit := aligned_bit s
  have hwire : ∀ place width, wireNumber (aligned s) place width = wireNumber s place width := by
    intro place width
    unfold wireNumber
    rw [aligned_message, aligned_isLittleEndian]
  obtain ⟨hne, hlength, htype, hroom⟩ := h
  have hfits : ∀ width remaining, (width = 0 ∨ IsWidth width) → width ≤ remaining →
      FieldFits width remaining := fun width remaining h hle => h.imp id fun h => ⟨h, hle⟩
  unfold readHeader readUnionHeader wireSize wireType
  cases horder : sizeFirst depl with
  | true =>
    obtain ⟨m, hsize, hm⟩ := readWidth_taken true uninitialised.1 hcons hbit
      (hfits _ _ hlength (by omega)) fun _ => rfl
    obtain ⟨n, htyped, hn⟩ := readWidth_taken false uninitialised.2 hm.consistent hm.bit
      (hfits _ _ htype (by rw [hm.remaining]; omega)) fun h => absurd h hne
    refine ⟨n, ?_, hm.trans hn⟩
    rw [if_pos rfl, if_pos rfl, if_pos rfl, bind_ok hsize, bind_ok htyped, hm.wireNumber, hm.current,
      hwire, hwire]
    rfl
  | false =>
    obtain ⟨m, htyped, hm⟩ := readWidth_taken false uninitialised.2 hcons hbit
      (hfits _ _ htype (by omega)) fun h => absurd h hne
    obtain ⟨n, hsize, hn⟩ := readWidth_taken true uninitialised.1 hm.consistent hm.bit
      (hfits _ _ hlength (by rw [hm.remaining]; omega)) fun _ => rfl
    refine ⟨n, ?_, Nat.add_comm (typeWidth depl) _ ▸ hm.trans hn⟩
    rw [if_neg Bool.false_ne_true, if_neg Bool.false_ne_true, if_neg Bool.false_ne_true,
      bind_ok htyped, bind_ok hsize, hm.wireNumber, hm.current, hwire, hwire]
    rfl

/-- The field that is read first is not there, but the one that is read next is, and its
    success resets the error flag. -/
def FirstLost (depl : Option VariantDeployment) (s : InputStream) : Prop :=
  if sizeFirst depl then
    ¬ FieldFits (lengthWidth depl) (aligned s).remaining ∧
      IsWidth (typeWidth depl) ∧ typeWidth depl ≤ (aligned s).remaining
  else
    ¬ (IsWidth (typeWidth depl) ∧ typeWidth depl ≤ (aligned s).remaining) ∧
      IsWidth (lengthWidth depl) ∧ lengthWidth depl ≤ (aligned s).remaining

theorem FirstLost.not_there (h : FirstLost depl s) : ¬ HeaderThere depl s := by
  unfold FirstLost at h
  unfold HeaderThere HeaderFits
  unfold FieldFits IsWidth at h
  unfold IsWidth
  split at h <;> omega

theorem readType_outcome {width n before : ℕ} {a m : InputStream} (ha : Sound a)
    (h : readWidth width false before a = .ok n m) :
    (IsWidth width ∧ width ≤ a.remaining ∧ m.errorOccurred = false ∧
        m.remaining = a.remaining - width) ∨
      (¬ (IsWidth width ∧ width ≤ a.remaining) ∧ m.errorOccurred = true ∧
        m.remaining = a.remaining) := by
  by_cases hzero : width = 0
  · subst hzero
    cases h
    exact Or.inr ⟨fun h => h.1.ne_zero rfl, rfl, rfl⟩
  · obtain ⟨hwidth, hread, _⟩ | ⟨hno, herror, hsame⟩ := readWidth_field ha hzero h
    · exact Or.inl ⟨hwidth, hread.enough, hread.noError, hread.remaining⟩
    · exact Or.inr ⟨hno, herror, hsame.remaining⟩

/-- The length field is there, has no width, or the error flag is set. -/
theorem readSize_outcome {width n before : ℕ} {a m : InputStream} (ha : Sound a)
    (h : readWidth width true before a = .ok n m) :
    (IsWidth width ∧ width ≤ a.remaining ∧ m.errorOccurred = false ∧
        m.remaining = a.remaining - width) ∨ (width = 0 ∧ m = a) ∨
      (¬ FieldFits width a.remaining ∧ m.errorOccurred = true ∧ m.remaining = a.remaining) := by
  by_cases hzero : width = 0
  · subst hzero
    cases h
    exact Or.inr (Or.inl ⟨rfl, rfl⟩)
  · obtain ⟨hwidth, hread, _⟩ | ⟨hno, herror, hsame⟩ := readWidth_field ha hzero h
    · exact Or.inl ⟨hwidth, hread.enough, hread.noError, hread.remaining⟩
    · exact Or.inr (Or.inr ⟨fun h => hno (h.resolve_left hzero), herror, hsame.remaining⟩)

theorem readHeader_quiet {header : ℕ × ℕ} (hs : Good s)
    (h : readHeader uninitialised depl (aligned s) = .ok header start)
    (herror : start.errorOccurred = false) : HeaderThere depl s ∨ FirstLost depl s := by
  have hsound := (aligned_run s).advances.sound hs.sound
  have hloud : ∀ {m : InputStream}, m.errorOccurred = false → ¬ m.errorOccurred = true :=
    fun h h' => Bool.false_ne_true (h.symm.trans h')
  unfold HeaderThere HeaderFits FirstLost
  unfold readHeader readUnionHeader at h
  split at h
  · obtain ⟨itsSize, m, hsize, hrest⟩ := bind_eq_ok.1 h
    obtain ⟨itsType, n, htype, hpure⟩ := bind_eq_ok.1 hrest
    cases hpure
    rw [if_pos ‹_›]
    obtain ⟨hw, hle, _⟩ | ⟨_, hbad, _⟩ :=
      readType_outcome ((readWidth_run hsize).advances.sound hsound) htype
    · have hne := hw.ne_zero
      obtain ⟨hw', hle', _, hrem⟩ | ⟨hzero, rfl⟩ | ⟨hno, _, hrem⟩ := readSize_outcome hsound hsize
      · exact Or.inl ⟨hne, Or.inr hw', Or.inr hw, by omega⟩
      · exact Or.inl ⟨hne, Or.inl hzero, Or.inr hw, by omega⟩
      · exact Or.inr ⟨hno, hw, by omega⟩
    · exact absurd hbad (hloud herror)
  · obtain ⟨itsType, m, htype, hrest⟩ := bind_eq_ok.1 h
    obtain ⟨itsSize, n, hsize, hpure⟩ := bind_eq_ok.1 hrest
    cases hpure
    rw [if_neg ‹_›]
    obtain ⟨hw', hle', _⟩ | ⟨hzero, rfl⟩ | ⟨_, hbad, _⟩ :=
      readSize_outcome ((readWidth_run htype).advances.sound hsound) hsize
    · obtain ⟨hw, hle, _, hrem⟩ | ⟨hno, _, hrem⟩ := readType_outcome hsound htype
      · exact Or.inl ⟨hw.ne_zero, Or.inr hw', Or.inr hw, by omega⟩
      · exact Or.inr ⟨hno, hw', by omega⟩
    · obtain ⟨hw, hle, _⟩ | ⟨_, hbad, _⟩ := readType_outcome hsound htype
      · exact Or.inl ⟨hw.ne_zero, Or.inl hzero, Or.inr hw, by omega⟩
      · exact absurd hbad (hloud herror)
    · exact absurd hbad (hloud herror)

theorem FirstLost.quiet {header : ℕ × ℕ} (h : FirstLost depl s) (hs : Good s)
    (hread : readHeader uninitialised depl (aligned s) = .ok header start) :
    start.errorOccurred = false := by
  have hsound := (aligned_run s).advances.sound hs.sound
  unfold FirstLost at h
  unfold readHeader readUnionHeader at hread
  split at h
  · rw [if_pos ‹_›] at hread
    obtain ⟨itsSize, m, hsize, hrest⟩ := bind_eq_ok.1 hread
    obtain ⟨itsType, n, htype, hpure⟩ := bind_eq_ok.1 hrest
    cases hpure
    obtain ⟨hno, hw, hle⟩ := h
    have hrem : m.remaining = (aligned s).remaining := by
      obtain ⟨hw', hle', _⟩ | ⟨hzero, _⟩ | ⟨_, _, hrem⟩ := readSize_outcome hsound hsize
      · exact absurd (Or.inr ⟨hw', hle'⟩) hno
      · exact absurd (Or.inl hzero) hno
      · exact hrem
    obtain ⟨_, _, hquiet, _⟩ | ⟨hbad, _⟩ :=
      readType_outcome ((readWidth_run hsize).advances.sound hsound) htype
    · exact hquiet
    · exact absurd ⟨hw, by omega⟩ hbad
  · rw [if_neg ‹_›] at hread
    obtain ⟨itsType, m, htype, hrest⟩ := bind_eq_ok.1 hread
    obtain ⟨itsSize, n, hsize, hpure⟩ := bind_eq_ok.1 hrest
    cases hpure
    obtain ⟨hno, hw, hle⟩ := h
    have hrem : m.remaining = (aligned s).remaining := by
      obtain ⟨hw', hle', _⟩ | ⟨_, _, hrem⟩ := readType_outcome hsound htype
      · exact absurd ⟨hw', hle'⟩ hno
      · exact hrem
    obtain ⟨_, _, hquiet, _⟩ | ⟨hzero, _⟩ | ⟨hbad, _⟩ :=
      readSize_outcome ((readWidth_run htype).advances.sound hsound) hsize
    · exact hquiet
    · exact absurd hzero (hw.ne_zero)
    · exact absurd (Or.inr ⟨hw, by omega⟩) hbad

end Headers

section Variants
variable {α : Type} {uninitialised : ℕ × ℕ} {depl : Option VariantDeployment}
  {alternatives : List (Read α)} {s t : InputStream}

def padding (depl : Option VariantDeployment) (itsSize : ℕ) (start stop : InputStream) : ℕ :=
  announcedBy depl itsSize - wrapSub 64 start.remaining stop.remaining

structure Passes (depl : Option VariantDeployment) (alternatives : List (Read α)) (header : ℕ × ℕ)
    (start : InputStream) (v : Option α) (stop : InputStream) : Prop where
  visited : visitAlternative alternatives (valueTypeOf alternatives.length header.2) start = .ok v stop
  errorOccurred : stop.errorOccurred = false
  inside : wrapSub 64 start.remaining stop.remaining ≤ announcedBy depl header.1
  padded : padding depl header.1 start stop ≤ stop.remaining

theorem skipped_quiet {size : ℕ} : (skipped size s).errorOccurred = false ↔
    size ≤ s.remaining ∧ s.errorOccurred = false := by
  unfold skipped
  by_cases hmore : size > s.remaining
  · rw [if_pos hmore]
    exact ⟨fun h => Bool.noConfusion h, fun h => absurd hmore (by omega)⟩
  · rw [if_neg hmore]
    exact ⟨fun h => ⟨by omega, h⟩, fun h => h.2⟩

theorem readAlternative_quiet_iff {start : InputStream} {header : ℕ × ℕ} {value : ℕ × Option α} :
    (readAlternative (announcedBy depl header.1) header.2 alternatives start = .ok value t ∧
        t.errorOccurred = false) ↔
      ∃ v stop, Passes depl alternatives header start v stop ∧
        value = (valueTypeOf alternatives.length header.2, v) ∧
        t = skipped (padding depl header.1 start stop) stop := by
  constructor
  · rintro ⟨h, herror⟩
    obtain ⟨v, stop, hvisit, hinside, rfl⟩ := readAlternative_ok h herror
    obtain ⟨hpadded, hquiet⟩ := skipped_quiet.1 herror
    rw [readAlternative_run hvisit] at h
    exact ⟨v, stop, ⟨hvisit, hquiet, hinside, hpadded⟩, (EStateM.Result.ok.inj h).1.symm, rfl⟩
  · rintro ⟨v, stop, hpasses, rfl, rfl⟩
    refine ⟨?_, skipped_quiet.2 ⟨hpasses.padded, hpasses.errorOccurred⟩⟩
    rw [readAlternative_run hpasses.visited, if_neg (Nat.not_lt_of_le hpasses.inside),
      if_neg (hpasses.errorOccurred ▸ Bool.false_ne_true)]
    rfl

theorem readVariant_quiet_iff {value : ℕ × Option α} :
    (readVariant uninitialised depl alternatives s = .ok value t ∧ t.errorOccurred = false) ↔
      ∃ header start v stop, readHeader uninitialised depl (aligned s) = .ok header start ∧
        start.errorOccurred = false ∧ header.2 ≠ 0 ∧
        Passes depl alternatives header start v stop ∧
        value = (valueTypeOf alternatives.length header.2, v) ∧
        t = skipped (padding depl header.1 start stop) stop := by
  have hrun : readVariant uninitialised depl alternatives s =
      (readHeader uninitialised depl >>= fun header => do
        if header.2 = 0 then
          raise
        if ← hasError then
          pure (0, none)
        else
          readAlternative (announcedBy depl header.1) header.2 alternatives) (aligned s) :=
    bind_ok (bitAlign_run s)
  rw [hrun]
  constructor
  · rintro ⟨h, herror⟩
    obtain ⟨header, start, hread, hrest⟩ := bind_eq_ok.1 h
    by_cases htype : header.2 = 0
    · rw [if_pos htype, bind_ok (raise_run start)] at hrest
      have hbad := (unlessError_passed hrest herror).1
      cases hbad
    · rw [if_neg htype] at hrest
      obtain ⟨hquiet, htail⟩ := unlessError_passed hrest herror
      obtain ⟨v, stop, hpasses⟩ := readAlternative_quiet_iff.1 ⟨htail, herror⟩
      exact ⟨header, start, v, stop, hread, hquiet, htype, hpasses⟩
  · rintro ⟨header, start, v, stop, hread, hquiet, htype, hpasses⟩
    obtain ⟨htail, herror⟩ := readAlternative_quiet_iff.2 ⟨v, stop, hpasses⟩
    refine ⟨?_, herror⟩
    rw [bind_ok hread, if_neg htype]
    change (if start.errorOccurred = true then pure (0, none) else _ : Read (ℕ × Option α)) start = _
    rw [if_neg (hquiet ▸ Bool.false_ne_true)]
    exact htail

/-- `valueType_` is the number of an alternative. -/
def IsNumber (maxValueType valueType : ℕ) : Prop := 1 ≤ valueType ∧ valueType ≤ maxValueType

instance (maxValueType valueType : ℕ) : Decidable (IsNumber maxValueType valueType) :=
  inferInstanceAs (Decidable (_ ∧ _))

/-- An index selects an alternative if it is not above their number, or is cut to 255. -/
theorem isNumber_iff {maxValueType itsType : ℕ} (hmax : maxValueType ≤ 255) (htype : itsType ≠ 0) :
    IsNumber maxValueType (valueTypeOf maxValueType itsType) ↔
      itsType ≤ maxValueType ∨ (maxValueType = 255 ∧ 255 < itsType) := by
  unfold IsNumber valueTypeOf wrapSub
  split <;> omega

theorem visitAlternative_number {valueType : ℕ} (h : IsNumber alternatives.length valueType) :
    ∃ alternative, alternatives[alternatives.length - valueType]? = some alternative ∧
      visitAlternative alternatives valueType = some <$> alternative := by
  obtain ⟨hpos, hle⟩ := h
  have hget := List.getElem?_eq_getElem (show alternatives.length - valueType < alternatives.length by omega)
  refine ⟨_, hget, ?_⟩
  unfold visitAlternative
  rw [if_pos hle, hget]

theorem visitAlternative_none {valueType : ℕ} (h : ¬ IsNumber alternatives.length valueType) :
    visitAlternative alternatives valueType = pure none := by
  unfold visitAlternative
  unfold IsNumber at h
  split
  · rw [List.getElem?_eq_none (by omega)]
  · rfl

/-- The result of a read that has decoded an alternative and skipped the rest. -/
structure Legal (uninitialised : ℕ × ℕ) (depl : Option VariantDeployment)
    (alternatives : List (Read α)) (s : InputStream) (value : ℕ × Option α) (t : InputStream) :
    Prop where
  header : HeaderThere depl s
  index : 1 ≤ wireType depl s ∧ wireType depl s ≤ alternatives.length
  valueType : IsNumber alternatives.length value.1
  decoded : ∃ header start alternative a stop,
    readHeader uninitialised depl (aligned s) = .ok header start ∧
      alternatives[alternatives.length - value.1]? = some alternative ∧
      alternative start = .ok a stop ∧ value.2 = some a
  skipped : position t = position (aligned s) +
    8 * (lengthWidth depl + typeWidth depl + announcedBy depl (wireSize depl s))

def InBytes (start stop : InputStream) : Prop :=
  position stop = position start + 8 * wrapSub 64 start.remaining stop.remaining

/-- The ways to a variant that is not a legal one. -/
inductive Misread (uninitialised : ℕ × ℕ) (depl : Option VariantDeployment)
    (alternatives : List (Read α)) (s : InputStream) : Prop
  /-- An uninitialised variable or zero is taken for the first header field. -/
  | lost {header : ℕ × ℕ} {start stop : InputStream} {v : Option α} (first : FirstLost depl s)
    (read : readHeader uninitialised depl (aligned s) = .ok header start) (type : header.2 ≠ 0)
    (passes : Passes depl alternatives header start v stop)
  /-- The index selects nothing, and the payload is long enough for what is announced. -/
  | unmatched (there : HeaderThere depl s) (type : wireType depl s ≠ 0)
    (number : ¬ IsNumber alternatives.length (valueTypeOf alternatives.length (wireType depl s)))
    (fits : lengthWidth depl + typeWidth depl + announcedBy depl (wireSize depl s) ≤
      (aligned s).remaining)
  /-- An index above 255 is taken for 255, which is the number of the first of 255 alternatives. -/
  | narrowed {header : ℕ × ℕ} {start stop : InputStream} {v : Option α} (there : HeaderThere depl s)
    (above : alternatives.length < wireType depl s)
    (number : IsNumber alternatives.length (valueTypeOf alternatives.length (wireType depl s)))
    (read : readHeader uninitialised depl (aligned s) = .ok header start)
    (passes : Passes depl alternatives header start v stop)
  /-- The alternative ends inside a byte, or behind the payload. -/
  | insideByte {header : ℕ × ℕ} {start stop : InputStream} {v : Option α}
    (there : HeaderThere depl s) (type : wireType depl s ≠ 0)
    (number : IsNumber alternatives.length (valueTypeOf alternatives.length (wireType depl s)))
    (read : readHeader uninitialised depl (aligned s) = .ok header start)
    (passes : Passes depl alternatives header start v stop) (off : ¬ InBytes start stop)

theorem Taken.position {a m : InputStream} {size : ℕ} (h : Taken a m size) (ha : a.currentBit = 0) :
    position m = position a + 8 * size := by
  unfold InputStream.position
  rw [h.bit, h.current, ha]
  omega

/-- What is announced is skipped just if the alternative has moved by whole bytes. -/
theorem padded_position_iff {header : ℕ × ℕ} {start stop : InputStream} {v : Option α}
    (hstart : Taken (aligned s) start (lengthWidth depl + typeWidth depl))
    (hpasses : Passes depl alternatives header start v stop) :
    position (skipped (padding depl header.1 start stop) stop) = position (aligned s) +
        8 * (lengthWidth depl + typeWidth depl + announcedBy depl header.1) ↔ InBytes start stop := by
  have hinside := hpasses.inside
  rw [(skipped_position stop _ (skipped_quiet.2 ⟨hpasses.padded, hpasses.errorOccurred⟩)).2]
  unfold InBytes padding
  rw [hstart.position (aligned_bit s)]
  omega

/-- Nothing is read where there is no alternative, and all checks are about what is announced. -/
theorem passes_unmatched_iff {header : ℕ × ℕ} {start stop : InputStream} {v : Option α}
    (hquiet : start.errorOccurred = false)
    (hnumber : ¬ IsNumber alternatives.length (valueTypeOf alternatives.length header.2)) :
    Passes depl alternatives header start v stop ↔
      v = none ∧ stop = start ∧ announcedBy depl header.1 ≤ start.remaining := by
  have hvisit := visitAlternative_none hnumber
  have hnothing : wrapSub 64 start.remaining start.remaining = 0 := wrapSub_self 64 _
  constructor
  · intro h
    have hvisited := h.visited
    rw [hvisit] at hvisited
    cases hvisited
    have hpadded := h.padded
    unfold padding at hpadded
    rw [hnothing] at hpadded
    exact ⟨rfl, rfl, hpadded⟩
  · rintro ⟨rfl, rfl, hle⟩
    refine ⟨by rw [hvisit]; rfl, hquiet, ?_, ?_⟩
    · rw [hnothing]
      exact Nat.zero_le _
    · unfold padding
      rw [hnothing]
      exact hle

def AllLegal (uninitialised : ℕ × ℕ) (depl : Option VariantDeployment) (alternatives : List (Read α))
    (s : InputStream) : Prop :=
  ∀ value t, readVariant uninitialised depl alternatives s = .ok value t → t.errorOccurred = false →
    Legal uninitialised depl alternatives s value t

theorem AllLegal.legal (hlegal : AllLegal uninitialised depl alternatives s) {header : ℕ × ℕ}
    {start stop : InputStream} {v : Option α}
    (hread : readHeader uninitialised depl (aligned s) = .ok header start)
    (hquiet : start.errorOccurred = false) (htype : header.2 ≠ 0)
    (hpasses : Passes depl alternatives header start v stop) :
    Legal uninitialised depl alternatives s (valueTypeOf alternatives.length header.2, v)
      (skipped (padding depl header.1 start stop) stop) := by
  obtain ⟨hrun, herror⟩ := readVariant_quiet_iff.2
    ⟨header, start, v, stop, hread, hquiet, htype, hpasses, rfl, rfl⟩
  exact hlegal _ _ hrun herror

theorem HeaderThere.quiet {start : InputStream} (h : HeaderThere depl s)
    (hstart : Taken (aligned s) start (lengthWidth depl + typeWidth depl)) :
    start.errorOccurred = false := by
  have hne := h.1
  rw [hstart.errorOccurred, if_neg (by omega)]

theorem Misread.not_allLegal (hs : Good s) (hmisread : Misread uninitialised depl alternatives s) :
    ¬ AllLegal uninitialised depl alternatives s := by
  intro hlegal
  cases hmisread with
  | lost first read type passes =>
    exact first.not_there (hlegal.legal read (first.quiet hs read) type passes).header
  | unmatched there type number fits =>
    obtain ⟨start, hread, hstart⟩ := readHeader_there uninitialised hs there
    have hquiet := there.quiet hstart
    have hpasses : Passes depl alternatives (wireSize depl s, wireType depl s) start none start :=
      (passes_unmatched_iff hquiet number).2 ⟨rfl, rfl, by rw [hstart.remaining]; dsimp only; omega⟩
    exact number (hlegal.legal hread hquiet type hpasses).valueType
  | narrowed there above number read passes =>
    obtain ⟨start, hread, hstart⟩ := readHeader_there uninitialised hs there
    have hsame := hread.symm.trans read
    cases hsame
    have hindex := (hlegal.legal hread (there.quiet hstart) (by dsimp only; omega) passes).index
    omega
  | insideByte there type number read passes off =>
    obtain ⟨start, hread, hstart⟩ := readHeader_there uninitialised hs there
    have hsame := hread.symm.trans read
    cases hsame
    exact off ((padded_position_iff hstart passes).1
      (hlegal.legal hread (there.quiet hstart) type passes).skipped)

/-- What is read behind a header that is there, by an alternative that its index selects. -/
theorem HeaderThere.legal {start stop : InputStream} {v : Option α} (hthere : HeaderThere depl s)
    (hmisread : ¬ Misread uninitialised depl alternatives s)
    (hread : readHeader uninitialised depl (aligned s) = .ok (wireSize depl s, wireType depl s) start)
    (hstart : Taken (aligned s) start (lengthWidth depl + typeWidth depl)) (htype : wireType depl s ≠ 0)
    (hnumber : IsNumber alternatives.length (valueTypeOf alternatives.length (wireType depl s)))
    (hpasses : Passes depl alternatives (wireSize depl s, wireType depl s) start v stop) :
    Legal uninitialised depl alternatives s (valueTypeOf alternatives.length (wireType depl s), v)
      (skipped (padding depl (wireSize depl s) start stop) stop) := by
  obtain ⟨alternative, hget, hvisit⟩ := visitAlternative_number hnumber
  have hvisited := hpasses.visited
  rw [hvisit] at hvisited
  obtain ⟨a, hrunalt, rfl⟩ := map_eq_ok.1 hvisited
  refine ⟨hthere, ⟨by omega, ?_⟩, hnumber, ⟨_, start, alternative, a, stop, hread, hget, hrunalt, rfl⟩, ?_⟩
  · by_contra habove
    exact hmisread (.narrowed hthere (by omega) hnumber hread hpasses)
  · rw [padded_position_iff hstart hpasses]
    by_contra hoff
    exact hmisread (.insideByte hthere htype hnumber hread hpasses hoff)

theorem allLegal_of_not_misread (hs : Good s) (hmisread : ¬ Misread uninitialised depl alternatives s) :
    AllLegal uninitialised depl alternatives s := by
  intro value t hrun herror
  obtain ⟨header, start, v, stop, hread, hquiet, htype, hpasses, rfl, rfl⟩ :=
    readVariant_quiet_iff.1 ⟨hrun, herror⟩
  obtain hthere | hlost := readHeader_quiet hs hread hquiet
  · obtain ⟨start', hread', hstart⟩ := readHeader_there uninitialised hs hthere
    have hsame := hread.symm.trans hread'
    cases hsame
    by_cases hnumber : IsNumber alternatives.length (valueTypeOf alternatives.length (wireType depl s))
    · exact hthere.legal hmisread hread hstart htype hnumber hpasses
    · obtain ⟨_, _, hfits⟩ := (passes_unmatched_iff hquiet hnumber).1 hpasses
      rw [hstart.remaining] at hfits
      have hroom := hthere.2.2.2
      dsimp only at hfits
      exact absurd (.unmatched hthere htype hnumber (by omega)) hmisread
  · exact absurd (.lost hlost hread htype hpasses) hmisread

/-- A variant is a legal one whenever it has been read without an error, just if it is none of
    the misread ones. -/
theorem decoded_variant_legal_iff (hs : Good s) :
    (∀ value t, readVariant uninitialised depl alternatives s = .ok value t →
        t.errorOccurred = false → Legal uninitialised depl alternatives s value t) ↔
      ¬ Misread uninitialised depl alternatives s :=
  ⟨fun hlegal hmisread => hmisread.not_allLegal hs hlegal, allLegal_of_not_misread hs⟩

end Variants

theorem byte_variant_legal :
    Legal (0, 0) (some ⟨1, 1, true, 0⟩) [readUInt8 none] (create ⟨[1, 1, 7], by decide⟩ true)
      (1, some 7) (finalState (readVariant (0, 0) (some ⟨1, 1, true, 0⟩) [readUInt8 none]
        (create ⟨[1, 1, 7], by decide⟩ true))) := by
  refine (decoded_variant_legal_iff (create_good _ _)).2 (fun h => ?_) _ _
    (eq_ok_of_returned (by decide)) (by decide)
  cases h with
  | lost first => exact first.not_there (by unfold HeaderThere HeaderFits; decide)
  | unmatched _ _ number => exact number (by decide)
  | narrowed _ above => exact absurd above (by decide)
  | insideByte _ _ _ read passes off =>
    have hheader := read.symm.trans (eq_ok_of_returned (show returned _ = some (1, 1) by decide))
    obtain ⟨rfl, rfl⟩ := EStateM.Result.ok.inj hheader
    have hvisited := passes.visited.symm.trans (eq_ok_of_returned (show returned _ = some (some 7) by decide))
    obtain ⟨rfl, rfl⟩ := EStateM.Result.ok.inj hvisited
    exact off (by unfold InBytes; decide)

/-- There is one alternative, the index is 2, and a byte is announced. -/
theorem unmatched_index_accepted :
    ¬ ∀ (message : Message) (isLittleEndian : Bool) (α : Type) (alternatives : List (ℕ → Read α))
      (fuel : ℕ) (uninitialised : ℕ × ℕ) (depl : Option VariantDeployment) (value : ℕ × Option α)
      (t : InputStream), (∀ d ∈ alternatives, Decoder d) →
      readVariant uninitialised depl (alternatives.map fun d => d fuel)
        (create message isLittleEndian) = .ok value t → t.errorOccurred = false →
      Legal uninitialised depl (alternatives.map fun d => d fuel) (create message isLittleEndian)
        value t := by
  intro h
  have hlegal := h ⟨[1, 2, 7], by decide⟩ true (BitVec 8) [fun _ => readUInt8 none] 0 (0, 0)
    (some ⟨1, 1, true, 0⟩) (0, none) _ (List.forall_mem_singleton.2 (.integer uint8 none))
    (eq_ok_of_returned (by decide)) (by decide)
  exact absurd hlegal.index.2 (by decide)

end SomeIPRuntime.InputStream
