import SomeIPRuntime.Termination
import SomeIPRuntime.PayloadReading

set_option autoImplicit false

namespace SomeIPRuntime.TypedValues
open Bits ProgramRuns Deployment
open InputStream (Read Decoder HeaderSteps Sound AtEnd QuietAtEnd left aligned raised skipped logged)
open RoundTrip
open ByteVectors (arrayMaxLength)

def keepsErrors (_ : ℕ) (hasInvalid : Bool) : Bool := !hasInvalid

mutual

def DataType.demands : DataType → Bool
  | .integer _ depl => (depl.bind (·.invalid)).isNone
  | .rangedInteger _ _ depl => (depl.bind (·.invalid)).isNone
  | .enumeration _ depl => (depl.bind (·.invalid)).isNone
  | .version => false
  | .byteBuffer depl => byteBufferLengthWidth depl ≠ 0 || 0 < byteBufferMaxLength depl
  | .byteVector depl => arrayLengthWidth depl ≠ 0 || 0 < arrayMaxLength depl
  | .structEmpty fields => fields.someDemand
  | .struct depl fields => structLengthWidth depl ≠ 0 || fields.someDemand
  | .vector depl element => arrayLengthWidth depl ≠ 0 || (0 < arrayMaxLength depl && element.demands)
  | .map depl key mapped =>
    mapLengthWidth depl ≠ 0 || (0 < mapMaxLength depl && (key.demands || mapped.demands))
  | _ => true

def DataTypes.someDemand : DataTypes → Bool
  | .nil => false
  | .cons first rest => (first.demands && rest.everyFields keepsErrors) || rest.someDemand

end

section Keeping
variable {s t u : InputStream}

def ErrorStays (s t : InputStream) : Prop :=
  AtEnd s → AtEnd t ∧ (s.errorOccurred = true → t.errorOccurred = true)

theorem errorStays_composes : Composes ErrorStays fun _ (_ : Halt) _ => True where
  refl _ := fun h => ⟨h, id⟩
  trans h k := fun hs => ⟨(k (h hs).1).1, fun herror => (k (h hs).1).2 ((h hs).2 herror)⟩
  absorb _ _ := trivial

theorem aligned_errorStays (s : InputStream) : ErrorStays s (aligned s) := by
  intro h
  have hbit : ¬ s.currentBit > 0 := by
    rw [h.currentBit]
    exact lt_irrefl 0
  unfold InputStream.aligned
  rw [if_neg hbit]
  exact ⟨⟨h.remaining, h.currentBit⟩, id⟩

theorem raised_errorStays (s : InputStream) : ErrorStays s (raised s) :=
  fun h => ⟨⟨h.remaining, h.currentBit⟩, fun _ => rfl⟩

theorem skipped_errorStays (size : ℕ) (s : InputStream) : ErrorStays s (skipped size s) := by
  intro h
  unfold InputStream.skipped
  split
  · exact ⟨⟨rfl, h.currentBit⟩, fun _ => rfl⟩
  · refine ⟨⟨?_, h.currentBit⟩, id⟩
    change s.remaining - size = 0
    rw [h.remaining, Nat.zero_sub]

theorem assignBits_errorStays {β : Type} (size bits : ℕ) (isSigned : Bool) (cast : BitVec (8 * size) → β) :
    Respects ErrorStays (fun _ (_ : Halt) _ => True)
      (InputStream.assignBits size bits isSigned cast (none : Option β)) := by
  intro s
  cases hrun : InputStream.assignBits size bits isSigned cast (none : Option β) s with
  | error e t => trivial
  | ok a t =>
    intro h
    rcases InputStream.assignBits_atEnd size bits isSigned cast (none : Option β) h with ⟨v, hv, hend, herror⟩
    cases hrun.symm.trans hv
    exact ⟨hend, fun _ => herror⟩

theorem ignoreBits_errorStays (size bits : ℕ) (isSigned : Bool) :
    Respects ErrorStays (fun _ (_ : Halt) _ => True) (InputStream.ignoreBits size bits isSigned) := by
  intro s
  cases hrun : InputStream.ignoreBits size bits isSigned s with
  | error e t => trivial
  | ok a t =>
    intro h
    have hshort : ¬ InputStream.Enough (logged (.ignore (clampBits size bits)) s).toCursor (clampBits size bits) :=
      h.short _
    rw [InputStream.ignoreBits_run, InputStream.readField_short _ isSigned hshort] at hrun
    cases hrun
    exact ⟨⟨h.remaining, h.currentBit⟩, id⟩

theorem errorStays_headers : HeaderSteps ErrorStays fun _ (_ : Halt) _ => True where
  composes := errorStays_composes
  align s := by
    rw [InputStream.bitAlign_run]
    exact aligned_errorStays s
  raw size s := by
    rw [InputStream.readRaw_run]
    exact skipped_errorStays size s
  raising := raised_errorStays
  assign size cast := assignBits_errorStays size (8 * size) false cast
  ignore size := ignoreBits_errorStays size (8 * size) false
  string itsSize encoding s _ := by
    cases hdecode : InputStream.decodeString (s.message.body.drop s.current) itsSize encoding with
    | error e =>
      rw [InputStream.readStringData_halt hdecode]
      trivial
    | ok r =>
      rcases r with ⟨isError, value⟩
      rw [InputStream.readStringData_run hdecode]
      cases isError with
      | false => exact skipped_errorStays itsSize s
      | true => exact errorStays_composes.trans (skipped_errorStays itsSize s) (raised_errorStays _)
  bytes itsSize size s _ _ := by
    rw [InputStream.readBytes_run]
    split
    · exact skipped_errorStays itsSize s
    · trivial

theorem errorStays_fields : FieldSteps keepsErrors ErrorStays fun _ (_ : Halt) _ => True where
  headers := errorStays_headers
  fuel _ := trivial
  field size bits isSigned cast invalid h := by
    cases invalid with
    | none => exact assignBits_errorStays size bits isSigned cast
    | some value => cases h

end Keeping

section Leaving
variable {α β : Type} {x : Read α} {f : α → Read β} {u t : InputStream} {a : α}

structure Exhausted (u : InputStream) : Prop where
  sound : Sound u
  atEnd : AtEnd u

theorem Exhausted.nothing_left (h : Exhausted u) : left u = 0 := by
  have hrem := h.atEnd.remaining
  have hbit := h.atEnd.currentBit
  have hin := h.sound.inside
  unfold InputStream.left InputStream.position
  omega

theorem Exhausted.after (h : Exhausted u) (hx : InputStream.Steady x) (hrun : x u = .ok a t) :
    Exhausted t ∧ left t = left u := by
  have hforward := hx.forward.ok hrun
  have hle := hforward.left_le h.sound
  have hnothing := h.nothing_left
  have hsame : left t = left u := by omega
  rcases hx.stalls u h.sound a t hrun hsame u h.atEnd rfl with ⟨v, hv, hend, _⟩
  cases hrun.symm.trans hv
  exact ⟨⟨hforward.sound h.sound, hend⟩, hsame⟩

def LeavesError (x : Read α) : Prop := ∀ u a t, Exhausted u → x u = .ok a t → t.errorOccurred = true

def KeepsError (x : Read α) : Prop :=
  ∀ u a t, Exhausted u → u.errorOccurred = true → x u = .ok a t → t.errorOccurred = true

theorem keepsError_of (hx : Respects ErrorStays (fun _ (_ : Halt) _ => True) x) : KeepsError x :=
  fun _ _ _ hu herror hrun => (hx.ok hrun hu.atEnd).2 herror

theorem keepsError_unless (value : α) (tail : Read α) :
    KeepsError (do if ← InputStream.hasError then pure value else tail) := by
  intro u a t _ herror hrun
  change (if u.errorOccurred = true then pure value else tail : Read α) u = _ at hrun
  rw [if_pos herror] at hrun
  cases hrun
  exact herror

theorem keepsError_raising {p : Prop} [Decidable p] (value : α) (tail : Read α) :
    KeepsError (do
      if p then
        InputStream.raise
      if ← InputStream.hasError then pure value else tail) := by
  intro u a t hu herror hrun
  split at hrun
  · have hraised : (pure value : Read α) (raised u) = .ok a t := hrun
    cases hraised
    rfl
  · exact keepsError_unless value tail u a t hu herror hrun

theorem leavesError_first (hsteady : InputStream.Steady x) (hx : LeavesError x) (hf : ∀ a, KeepsError (f a)) :
    LeavesError (x >>= f) := by
  intro u b t hu hrun
  rcases bind_eq_ok.1 hrun with ⟨a, m, hm, ht⟩
  exact hf a m b t (hu.after hsteady hm).1 (hx u a m hu hm) ht

theorem leavesError_rest (hsteady : InputStream.Steady x) (hf : ∀ a, LeavesError (f a)) : LeavesError (x >>= f) := by
  intro u b t hu hrun
  rcases bind_eq_ok.1 hrun with ⟨a, m, hm, ht⟩
  exact hf a m b t (hu.after hsteady hm).1 ht

theorem leavesError_map (g : α → β) (hx : LeavesError x) : LeavesError (g <$> x) := by
  intro u b t hu hrun
  rcases map_eq_ok.1 hrun with ⟨a, ha, _⟩
  exact hx u a t hu ha

theorem leavesError_unless (value : α) {tail : Read α} (htail : LeavesError tail) :
    LeavesError (do if ← InputStream.hasError then pure value else tail) := by
  intro u a t hu hrun
  change (if u.errorOccurred = true then pure value else tail : Read α) u = _ at hrun
  split at hrun
  · cases hrun
    assumption
  · exact htail u a t hu hrun

theorem leavesError_assign {size bits : ℕ} {isSigned : Bool} {cast : BitVec (8 * size) → α} :
    LeavesError (InputStream.assignBits size bits isSigned cast (none : Option α)) := by
  intro u a t hu hrun
  rcases InputStream.assignBits_atEnd size bits isSigned cast (none : Option α) hu.atEnd with ⟨v, hv, _, herror⟩
  cases hrun.symm.trans hv
  exact herror

theorem leavesError_width {width value : ℕ} {permitZeroWidth : Bool}
    (hwidth : width = 0 → permitZeroWidth = false) :
    LeavesError (InputStream.readWidth width permitZeroWidth value) := fun _ _ _ hu hrun =>
  InputStream.readWidth_stalled hu.sound hrun (hu.after (InputStream.steady_readWidth _ _ _) hrun).2 hwidth

/-- There are no bytes of any size at the end of the payload. -/
theorem leavesError_sized {p : Prop} [Decidable p] {itsSize : ℕ} (value : α) {tail : Read α}
    (htail : itsSize = 0 → LeavesError tail) :
    LeavesError (do
      let s ← get
      if p ∨ itsSize > s.remaining then
        InputStream.raise
      if ← InputStream.hasError then pure value else tail) := by
  intro u a t hu hrun
  rw [InputStream.guarded_run value tail (fun s => p ∨ itsSize > s.remaining)] at hrun
  split at hrun
  · cases hrun
    rfl
  · rename_i hno
    rw [not_or, hu.atEnd.remaining] at hno
    split at hrun
    · cases hrun
      assumption
    · exact htail (by omega) u a t hu hrun

theorem keepsError_sized {p : Prop} [Decidable p] (itsSize : ℕ) (value : α) (tail : Read α) :
    KeepsError (do
      let s ← get
      if p ∨ itsSize > s.remaining then
        InputStream.raise
      if ← InputStream.hasError then pure value else tail) := by
  intro u a t _ herror hrun
  rw [InputStream.guarded_run value tail (fun s => p ∨ itsSize > s.remaining), if_pos herror] at hrun
  split at hrun
  · cases hrun
    rfl
  · cases hrun
    exact herror

theorem leavesError_counted {lengthWidth maxLength : ℕ} (h : lengthWidth ≠ 0 ∨ 0 < maxLength) {p : ℕ → Prop}
    [DecidablePred p] (value : α) (tail : ℕ → Read α) :
    LeavesError (do
      let itsSize ← InputStream.readByteCount lengthWidth maxLength
      let s ← get
      if p itsSize ∨ itsSize > s.remaining then
        InputStream.raise
      if ← InputStream.hasError then pure value else tail itsSize) := by
  by_cases hwidth : lengthWidth = 0
  · have hpos := h.resolve_left (not_not_intro hwidth)
    have hcount : InputStream.readByteCount lengthWidth maxLength = pure maxLength := if_neg (not_not_intro hwidth)
    rw [hcount, pure_bind]
    exact leavesError_sized value fun hzero => absurd hzero hpos.ne'
  · have hcount : InputStream.readByteCount lengthWidth maxLength = InputStream.readWidth lengthWidth true 0 :=
      if_pos hwidth
    rw [hcount]
    exact leavesError_first (InputStream.steady_readWidth _ _ _)
      (leavesError_width fun hzero => absurd hzero hwidth) fun itsSize => keepsError_sized itsSize value _

end Leaving

section Overloads
variable {α κ ν : Type}

theorem string_leavesError (depl : Option StringDeployment) : LeavesError (InputStream.readString depl []) := by
  have hsize : InputStream.Steady (InputStream.readStringSize depl) := by
    unfold InputStream.readStringSize
    split
    · exact InputStream.steady_ite (InputStream.steady_pure _) (InputStream.steady_readWidth _ _ _)
    · exact InputStream.steady_readWidth _ _ _
  refine leavesError_rest InputStream.steady_bitAlign fun _ => leavesError_rest hsize fun itsSize => ?_
  intro u a t hu hrun
  rw [InputStream.guarded_run [] _ (fun s => itsSize > s.remaining), hu.atEnd.remaining] at hrun
  split at hrun
  · cases hrun
    rfl
  · split at hrun
    · cases hrun
      assumption
    · rw [InputStream.readStringData_run (InputStream.decodeString_short _ _ (by omega))] at hrun
      cases hrun
      rfl

theorem byteBuffer_leavesError (depl : Option ByteBufferDeployment)
    (h : byteBufferLengthWidth depl ≠ 0 ∨ 0 < byteBufferMaxLength depl) :
    LeavesError (InputStream.readByteBuffer depl) :=
  leavesError_rest InputStream.steady_bitAlign fun _ => leavesError_counted h
    (p := fun itsSize => byteBufferLengthWidth depl ≠ 0 ∧ itsSize < (depl.map (·.byteBufferMinLength)).getD 0) [] _

theorem byteVector_leavesError (depl : Option ArrayDeployment)
    (h : arrayLengthWidth depl ≠ 0 ∨ 0 < arrayMaxLength depl) : LeavesError (InputStream.readByteVector depl) :=
  leavesError_rest InputStream.steady_bitAlign fun _ => leavesError_counted h
    (p := fun itsSize => arrayLengthWidth depl > 0 ∧ (itsSize < (depl.map (·.arrayMinLength)).getD 0 ∨
      (arrayMaxLength depl ≠ 0 ∧ itsSize > arrayMaxLength depl))) [] _

theorem structEmpty_leavesError {fields : Read α} (hfields : LeavesError fields) :
    LeavesError (InputStream.readStructEmpty fields) :=
  leavesError_rest InputStream.steady_bitAlign fun _ => leavesError_unless none (leavesError_map some hfields)

theorem struct_leavesError (depl : Option StructDeployment) {fields : Read α}
    (h : structLengthWidth depl ≠ 0 ∨ LeavesError fields) : LeavesError (InputStream.readStruct depl fields) := by
  refine leavesError_rest InputStream.steady_bitAlign fun _ => ?_
  by_cases hwidth : structLengthWidth depl = 0
  · have hfields := h.resolve_left (not_not_intro hwidth)
    refine leavesError_rest (InputStream.steady_readWidth _ _ _) fun itsSize => leavesError_unless none ?_
    have hzero : (depl.map (·.structLengthWidth)).getD 0 = 0 := hwidth
    rw [hzero]
    exact leavesError_map some hfields
  · exact leavesError_first (InputStream.steady_readWidth _ _ _)
      (leavesError_width fun hzero => absurd hzero hwidth) fun itsSize => keepsError_unless none _

theorem union_leavesError (unionDefaultOrder : Bool) (unionLengthWidth unionTypeWidth : ℕ)
    (uninitialised : ℕ × ℕ) : LeavesError
      (InputStream.readUnionHeader unionDefaultOrder unionLengthWidth unionTypeWidth uninitialised) :=
  fun _ _ _ hu hrun => InputStream.readUnionHeader_stalled hu.sound hrun
    (hu.after (InputStream.steady_readUnionHeader _ _ _ _) hrun).2

theorem variant_leavesError (uninitialised : ℕ × ℕ) (depl : Option VariantDeployment)
    (alternatives : List (Read α)) : LeavesError (InputStream.readVariant uninitialised depl alternatives) := by
  refine leavesError_rest InputStream.steady_bitAlign fun _ => ?_
  refine leavesError_first (InputStream.steady_readUnionHeader _ _ _ _) (union_leavesError _ _ _ _) fun header => ?_
  rcases header with ⟨itsSize, itsType⟩
  exact keepsError_raising (0, none) _

theorem pushElement_leavesError {element : Read α} (hsteady : InputStream.Steady element)
    (helement : LeavesError element) (value : List α) : LeavesError (InputStream.pushElement element value) :=
  leavesError_first hsteady helement fun _ => keepsError_unless none _

/-- The loop over the elements of a container of fixed size ends at the first one. -/
theorem elements_leaveError {γ : Type} {maxLength : ℕ} {size : γ → ℕ} {read : γ → Read (Option γ)}
    (hread : ∀ value, LeavesError (read value))
    (hsome : ∀ value value' u t, read value u = .ok (some value') t → t.errorOccurred = false) (fuel : ℕ)
    {value : γ} (hmore : size value < maxLength) :
    LeavesError (InputStream.readElements 0 maxLength size read fuel 0 value) := by
  have hcond : 0 > 0 ∨ 0 = 0 ∧ size value < maxLength := Or.inr ⟨rfl, hmore⟩
  intro u result t hu hrun
  cases fuel with
  | zero =>
    rw [InputStream.readElements, if_pos hcond] at hrun
    cases hrun
  | succ fuel =>
    rw [InputStream.readElements, if_pos hcond, bind_ok (get_run u)] at hrun
    rcases bind_eq_ok.1 hrun with ⟨element, m, hm, hrest⟩
    have herror := hread value u element m hu hm
    cases element with
    | none =>
      cases hrest
      exact herror
    | some value' => cases herror.symm.trans (hsome value value' u m hm)

theorem checkLength_keepsError (lengthWidth minLength maxLength itsSize size : ℕ) (value : α) :
    KeepsError (do
      InputStream.checkLength lengthWidth minLength maxLength itsSize size
      pure value) :=
  keepsError_of (respects_bind errorStays_composes
    (InputStream.respects_checkLength errorStays_headers _ _ _ _ _) fun _ => respects_pure errorStays_composes value)

theorem vector_leavesError (fuel : ℕ) (depl : Option ArrayDeployment) {element : Read α}
    (hsteady : InputStream.Steady element)
    (h : arrayLengthWidth depl ≠ 0 ∨ (0 < arrayMaxLength depl ∧ LeavesError element)) :
    LeavesError (InputStream.readVector fuel depl element) := by
  refine leavesError_rest InputStream.steady_bitAlign fun _ => ?_
  by_cases hwidth : arrayLengthWidth depl = 0
  · rcases h.resolve_left (not_not_intro hwidth) with ⟨hpos, helement⟩
    have hzero : (depl.map (·.arrayLengthWidth)).getD 4 = 0 := hwidth
    have hsome : ∀ (value value' : List α) u t, InputStream.pushElement element value u = .ok (some value') t →
        t.errorOccurred = false := by
      intro value value' u t hok
      rcases InputStream.pushElement_ok hok with ⟨_, _, herror, _⟩
      exact herror
    rw [hzero]
    refine leavesError_unless [] (leavesError_first
      (InputStream.steady_readElements _ _ (InputStream.steady_pushElement hsteady) fuel [])
      (elements_leaveError (pushElement_leavesError hsteady helement) hsome fuel hpos) fun result => ?_)
    exact checkLength_keepsError _ _ _ _ _ _
  · exact leavesError_first (InputStream.steady_readWidth _ _ _)
      (leavesError_width fun hzero => absurd hzero hwidth) fun itsSize => keepsError_unless [] _

section Maps
variable [DecidableEq κ] {key : Read κ} {mapped : Read ν}

theorem readEntry_leavesError (hkey : InputStream.Steady key) (hmapped : InputStream.Steady mapped)
    (h : LeavesError key ∨ LeavesError mapped) (value : List (κ × ν)) :
    LeavesError (InputStream.readEntry key mapped value) := by
  rcases h with h | h
  · exact leavesError_first hkey h fun _ => keepsError_unless none _
  · exact leavesError_rest hkey fun _ => leavesError_unless none <|
      leavesError_first hmapped h fun _ => keepsError_unless none _

theorem map_leavesError (fuel : ℕ) (depl : Option MapDeployment) (hkey : InputStream.Steady key)
    (hmapped : InputStream.Steady mapped)
    (h : mapLengthWidth depl ≠ 0 ∨ (0 < mapMaxLength depl ∧ (LeavesError key ∨ LeavesError mapped))) :
    LeavesError (InputStream.readMap fuel depl key mapped) := by
  refine leavesError_rest InputStream.steady_bitAlign fun _ => ?_
  by_cases hwidth : mapLengthWidth depl = 0
  · rcases h.resolve_left (not_not_intro hwidth) with ⟨hpos, hentry⟩
    have hzero : (depl.map (·.mapLengthWidth)).getD 4 = 0 := hwidth
    have hsome : ∀ (value value' : List (κ × ν)) u t, InputStream.readEntry key mapped value u =
        .ok (some value') t → t.errorOccurred = false := by
      intro value value' u t hok
      rcases InputStream.readEntry_ok hok with ⟨_, _, _, _, _, _, herror, _⟩
      exact herror
    have hsteady : InputStream.Steady (InputStream.readEntries fuel 0 (mapMaxLength depl) 0 key mapped) :=
      InputStream.steady_unlessError _
        (InputStream.steady_readElements _ _ (InputStream.steady_readEntry hkey hmapped) fuel [])
    rw [hzero]
    intro u a t hu hrun
    rcases bind_eq_ok.1 hrun with ⟨itsSize, m, hm, hrest⟩
    cases hm
    exact leavesError_first hsteady (leavesError_unless _
      (elements_leaveError (readEntry_leavesError hkey hmapped hentry) hsome fuel hpos))
      (fun result => checkLength_keepsError _ _ _ _ _ _) u a t hu hrest
  · refine leavesError_first (InputStream.steady_readWidth _ _ _)
      (leavesError_width fun hzero => absurd hzero hwidth) fun itsSize u a t hu herror hrun => ?_
    have hentries : InputStream.readEntries fuel (mapLengthWidth depl) (mapMaxLength depl) itsSize key mapped u =
        .ok (itsSize, []) u := by
      change (if u.errorOccurred = true then pure (itsSize, []) else _ : Read (ℕ × List (κ × ν))) u = _
      rw [if_pos herror]
      rfl
    have hrest := (bind_ok hentries).symm.trans hrun
    exact checkLength_keepsError _ _ _ _ _ _ u a t hu herror hrest

theorem mapEmpty_leavesError (fuel : ℕ) : LeavesError (InputStream.readMapEmpty fuel key mapped) := by
  refine leavesError_rest InputStream.steady_bitAlign fun _ u a t hu hrun => ?_
  rcases bind_eq_ok.1 hrun with ⟨itsSize, m, hm, hrest⟩
  have herror := leavesError_assign u itsSize m hu hm
  rw [InputStream.assignBits_error hm herror, InputStream.readElements_done fuel (by simp)] at hrest
  cases hrest
  exact herror

end Maps

end Overloads

section Types
variable {uninitialised : ℕ × ℕ} {fuel : ℕ}

theorem DataType.steady (type : DataType) : InputStream.Steady (type.read DataType.initial uninitialised fuel) :=
  (type.decodes uninitialised).steady fuel

theorem DataTypes.steadyFields (types : DataTypes) :
    InputStream.Steady (types.readFields DataType.initial uninitialised fuel) :=
  (types.decodesFields uninitialised).steady fuel

theorem integer_leavesError (type : IntegerType) (depl : Option (IntegerDeployment type.size))
    (h : (depl.bind (·.invalid)).isNone = true) : LeavesError (InputStream.readInteger type depl) := by
  unfold InputStream.readInteger
  rw [Option.isNone_iff_eq_none.1 h]
  exact leavesError_assign

theorem rangedInteger_leavesError (minimum maximum : ℤ) (depl : Option (IntegerDeployment 4))
    (h : (depl.bind (·.invalid)).isNone = true) :
    LeavesError (InputStream.readRangedInteger minimum maximum depl) :=
  leavesError_first (InputStream.steady_readInteger int32 depl) (integer_leavesError int32 depl h)
    fun _ => keepsError_raising none _

theorem enumeration_leavesError (base : IntegerType) (depl : Option (EnumerationDeployment base.size))
    (h : (depl.bind (·.invalid)).isNone = true) : LeavesError (InputStream.readEnumeration base depl) := by
  cases depl with
  | none => exact integer_leavesError base none rfl
  | some d =>
    have hnone : d.invalid = none := Option.isNone_iff_eq_none.1 h
    unfold InputStream.readEnumeration
    dsimp only
    rw [hnone]
    split <;> exact leavesError_assign

mutual

theorem DataType.leavesError : ∀ type : DataType, type.demands = true →
    LeavesError (type.read DataType.initial uninitialised fuel)
  | .bool, _ => show LeavesError InputStream.readBool from leavesError_assign
  | .integer type depl, h => integer_leavesError type depl h
  | .rangedInteger minimum maximum depl, h => leavesError_map _ (rangedInteger_leavesError minimum maximum depl h)
  | .float, _ => leavesError_rest InputStream.steady_bitAlign fun _ => leavesError_assign
  | .double, _ => leavesError_rest InputStream.steady_bitAlign fun _ => leavesError_assign
  | .version, h => by cases h
  | .enumerationEmpty base, _ => integer_leavesError base none rfl
  | .enumeration base depl, h => enumeration_leavesError base depl h
  | .string depl, _ => string_leavesError depl
  | .byteBuffer depl, h => byteBuffer_leavesError depl (by simpa [DataType.demands] using h)
  | .byteVector depl, h => byteVector_leavesError depl (by simpa [DataType.demands] using h)
  | .structEmpty fields, h => leavesError_map _ (structEmpty_leavesError (fields.leaveError h))
  | .struct depl fields, h => by
    have h : structLengthWidth depl ≠ 0 ∨ fields.someDemand = true := by simpa [DataType.demands] using h
    exact leavesError_map _ (struct_leavesError depl (h.imp id fields.leaveError))
  | .variant depl alternatives, _ => variant_leavesError uninitialised depl _
  | .vector depl element, h => by
    have h : arrayLengthWidth depl ≠ 0 ∨ (0 < arrayMaxLength depl ∧ element.demands = true) := by
      simpa [DataType.demands] using h
    exact vector_leavesError fuel depl element.steady (h.imp id fun h => ⟨h.1, element.leavesError h.2⟩)
  | .map depl key mapped, h => by
    have h : mapLengthWidth depl ≠ 0 ∨
        (0 < mapMaxLength depl ∧ (key.demands = true ∨ mapped.demands = true)) := by
      simpa [DataType.demands] using h
    exact map_leavesError fuel depl key.steady mapped.steady
      (h.imp id fun h => ⟨h.1, h.2.imp key.leavesError mapped.leavesError⟩)
  | .mapEmpty key mapped, _ => mapEmpty_leavesError fuel

theorem DataTypes.leaveError : ∀ types : DataTypes, types.someDemand = true →
    LeavesError (types.readFields DataType.initial uninitialised fuel)
  | .nil, h => by cases h
  | .cons first rest, h => by
    have h : (first.demands = true ∧ rest.everyFields keepsErrors = true) ∨ rest.someDemand = true := by
      simpa [DataTypes.someDemand] using h
    rcases h with ⟨hfirst, hrest⟩ | hrest
    · refine leavesError_first first.steady (first.leavesError hfirst) fun value => keepsError_of ?_
      exact respects_bind errorStays_composes (rest.respectsFields errorStays_fields hrest)
        fun _ => respects_pure errorStays_composes _
    · refine leavesError_rest first.steady fun value => ?_
      exact leavesError_first rest.steadyFields (rest.leaveError hrest)
        fun _ => keepsError_of (respects_pure errorStays_composes _)

end

/-- A value that demands something is not had from an empty payload. -/
theorem DataType.not_quiet (type : DataType) (h : type.demands = true) :
    ¬ QuietAtEnd fun fuel => type.read DataType.initial uninitialised fuel := by
  rintro ⟨fuel, value, t, hrun, herror⟩
  have hleft := type.leavesError h InputStream.nothing value t
    ⟨InputStream.create_sound _ _, rfl, rfl⟩ hrun
  cases herror.symm.trans hleft

end Types

end SomeIPRuntime.TypedValues
