import SomeIPRuntime.VectorRoundTrip

set_option autoImplicit false

namespace SomeIPRuntime.ByteVectors
open Bits ProgramRuns Deployment RoundTrip
open OutputStream (Clean Write Writable Appends TooLarge WrittenAt lengthField widthWritten wire)

def elementBits (elementDepl : Option (IntegerDeployment 1)) : ℕ :=
  clampBits 1 ((elementDepl.map (·.bits)).getD 8)

theorem elementBits_le (elementDepl : Option (IntegerDeployment 1)) : elementBits elementDepl ≤ 8 :=
  InputStream.clampBits_le 1 _

def writeByte (isSigned : Bool) (elementDepl : Option (IntegerDeployment 1)) : Byte → Write Unit :=
  OutputStream.writeInteger ⟨1, isSigned⟩ elementDepl

/-- The overload for all other vectors, at `int8_t` and `uint8_t`. -/
def writeElementwise (isSigned : Bool) (elementDepl : Option (IntegerDeployment 1))
    (depl : Option ArrayDeployment) (value : List Byte) : Write Unit :=
  OutputStream.writeVector depl (writeByte isSigned elementDepl) value

section Elements
variable {isSigned : Bool} {elementDepl : Option (IntegerDeployment 1)} {m : OutputStream}

theorem writeByte_run (hwritable : Writable (elementBits elementDepl) isSigned) (a : Byte) (hm : Clean m) :
    ∃ n, writeByte isSigned elementDepl a m = .ok ⟨⟩ n ∧
      Appends (wire 1 (elementBits elementDepl) m.isLittleEndian a) m n :=
  @OutputStream.writeBitValue_run 1 _ a isSigned m hm hwritable

theorem writeByte_refused (hno : ¬ Writable (elementBits elementDepl) isSigned) (a : Byte) (m : OutputStream) :
    writeByte isSigned elementDepl a m = .ok ⟨⟩ { m with errorOccurred := true } := by
  have hsmall := not_not.1 hno
  have hslow : ¬ (m.currentBit = 0 ∧ elementBits elementDepl = 1 <<< 3) := by
    rw [Nat.shiftLeft_eq]
    omega
  change OutputStream.writeField 1 a (elementBits elementDepl) isSigned m = _
  unfold OutputStream.writeField
  rw [bind_ok (get_run m), if_neg hslow, if_pos hsmall]
  rfl

theorem writeElements_run (hwritable : Writable (elementBits elementDepl) isSigned) (value : List Byte)
    (hm : Clean m) (hquiet : m.errorOccurred = false) :
    ∃ n, OutputStream.writeElements (writeByte isSigned elementDepl) value m = .ok ⟨⟩ n ∧
      Appends (value.flatMap (wire 1 (elementBits elementDepl) m.isLittleEndian)) m n := by
  induction value generalizing m with
  | nil => exact ⟨m, rfl, Appends.refl hm⟩
  | cons a rest ih =>
    rcases writeByte_run hwritable a hm with ⟨k, hfirst, hk⟩
    rcases ih hk.clean (hk.errorOccurred.trans hquiet) with ⟨n, hrest, hn⟩
    refine ⟨n, ?_, ?_⟩
    · rw [OutputStream.writeElements, bind_ok hfirst, OutputStream.unlessError_run,
        if_neg (hk.errorOccurred.trans hquiet ▸ Bool.false_ne_true)]
      exact hrest
    · rw [hk.isLittleEndian] at hn
      rw [List.flatMap_cons]
      exact hk.trans hn

theorem writeElements_refused (hno : ¬ Writable (elementBits elementDepl) isSigned) {value : List Byte}
    (hvalue : value ≠ []) (m : OutputStream) :
    OutputStream.writeElements (writeByte isSigned elementDepl) value m =
      .ok ⟨⟩ { m with errorOccurred := true } := by
  cases value with
  | nil => exact absurd rfl hvalue
  | cons a rest =>
    rw [OutputStream.writeElements, bind_ok (writeByte_refused hno a m), OutputStream.unlessError_run]
    rfl

theorem wires_length (count : ℕ) (hcount : count ≤ 8) (isLittleEndian : Bool) (value : List Byte) :
    (value.flatMap (wire 1 count isLittleEndian)).length = value.length * count := by
  induction value with
  | nil => exact (Nat.zero_mul count).symm
  | cons a rest ih =>
    rw [List.flatMap_cons, List.length_append, ih, OutputStream.wire_length _ _ hcount, List.length_cons,
      Nat.succ_mul, Nat.add_comm]

theorem wires_whole (isLittleEndian : Bool) (value : List Byte) :
    value.flatMap (wire 1 8 isLittleEndian) = bitsOf value := by
  have hbyte : ∀ a : Byte, wire 1 8 isLittleEndian a = bitsOf [a] := by
    intro a
    have hraw : rawBytes 1 a = [a] := by
      refine littleEndian_injective (rawBytes_length 1 a) ?_
      rw [OutputStream.littleEndian_rawBytes]
      rfl
    change wire 1 (8 * 1) isLittleEndian a = _
    rw [OutputStream.wire_whole, hraw]
    cases isLittleEndian <;> rfl
  induction value with
  | nil => rfl
  | cons a rest ih =>
    rw [List.flatMap_cons, ih, hbyte, ← bitsOf_append]
    rfl

end Elements

section Lengths
variable {o m n t : OutputStream} {width : ℕ}

theorem wrapSub_size {stop start : ℕ} (hle : start ≤ stop) :
    wrapSub 64 stop start % 2 ^ 32 = (stop - start) % 2 ^ 32 := by
  unfold wrapSub
  omega

theorem overwritten_errorOccurred (size : ℕ) (value : BitVec (8 * size)) (place : ℕ) (o : OutputStream) :
    (OutputStream.overwritten size value place o).errorOccurred = o.errorOccurred := by
  unfold OutputStream.overwritten
  split <;> rfl

theorem writeValueAt_error {value place : ℕ}
    (h : OutputStream.writeValueAt value width place o = .ok ⟨⟩ t) :
    t.errorOccurred = (o.errorOccurred || decide (TooLarge value width)) := by
  have hchecked : ∀ (limit size : ℕ) (field : BitVec (8 * size)), (do
        if value > limit then
          OutputStream.raise
        OutputStream.writeTypedAt size field place : Write Unit) o = .ok ⟨⟩ t →
      t.errorOccurred = (o.errorOccurred || decide (value > limit)) := by
    intro limit size field hrun
    by_cases hlarge : value > limit
    · rw [if_pos hlarge] at hrun
      cases (OutputStream.writeTypedAt_run size field place { o with errorOccurred := true }).symm.trans hrun
      rw [overwritten_errorOccurred, decide_eq_true hlarge, Bool.or_true]
    · rw [if_neg hlarge] at hrun
      cases (OutputStream.writeTypedAt_run size field place o).symm.trans hrun
      rw [overwritten_errorOccurred, decide_eq_false hlarge, Bool.or_false]
  have hsmall : ∀ w, w ≠ 1 → w ≠ 2 → decide (TooLarge value w) = false := by
    intro w h1 h2
    exact decide_eq_false fun hlarge => hlarge.elim (fun h => h1 h.1) (fun h => h2 h.1)
  unfold OutputStream.writeValueAt at h
  split at h
  · rw [hchecked 0xFF 1 _ h]
    unfold TooLarge
    simp
  · rw [hchecked 0xFFFF 2 _ h]
    unfold TooLarge
    simp
  · cases (OutputStream.writeTypedAt_run _ _ _ o).symm.trans h
    rw [overwritten_errorOccurred, hsmall 4 (by decide) (by decide), Bool.or_false]
  · rename_i h1 h2 _
    cases h
    rw [hsmall width h1 h2, Bool.or_false]

def contentSize (width : ℕ) (o n : OutputStream) : ℕ :=
  n.payload.length - (behindField width o).payload.length

structure Enclosed (width : ℕ) (o n t : OutputStream) : Prop where
  errorOccurred : t.errorOccurred =
    (n.errorOccurred || decide (TooLarge (contentSize width o n % 2 ^ 32) width))
  length : t.payload.length = n.payload.length
  currentByte : t.currentByte = n.currentByte
  currentBit : t.currentBit = n.currentBit
  payload : t.errorOccurred = false → t.payload = (OutputStream.aligned o).payload ++
    lengthField (OutputStream.aligned o).isLittleEndian (contentSize width o n % 2 ^ 32) width ++
      n.payload.drop (behindField width o).payload.length

theorem enclosed_unmeasured (hpre : (behindField 0 o).payload <+: n.payload) : Enclosed 0 o n n := by
  have hsmall : ∀ size, decide (TooLarge size 0) = false := fun size => by simp [TooLarge]
  refine ⟨by rw [hsmall, Bool.or_false], rfl, rfl, rfl, fun _ => ?_⟩
  rcases hpre with ⟨content, hcontent⟩
  have hnone : ∀ size, lengthField (OutputStream.aligned o).isLittleEndian size 0 = [] := fun size =>
    if_neg (by decide)
  rw [hnone, List.append_nil, ← hcontent, List.drop_left]
  rfl

theorem enclosed_measured (hwidth : IsWidth width) (hpre : (behindField width o).payload <+: n.payload)
    (hendian : n.isLittleEndian = (OutputStream.aligned o).isLittleEndian) {positions : List ℕ}
    (ht : WrittenAt (contentSize width o n % 2 ^ 32) width (OutputStream.aligned o).payload.length
      (OutputStream.taken width (OutputStream.aligned o).payload.length
        (behindField width o).payload.length positions n) t)
    (herror : t.errorOccurred = (n.errorOccurred || decide (TooLarge (contentSize width o n % 2 ^ 32) width))) :
    Enclosed width o n t := by
  have hover := ht.overwrites
  have hfield : OutputStream.fieldWidth width = width := if_pos hwidth
  have hbehind : (behindField width o).payload = (OutputStream.aligned o).payload ++
      lengthField (OutputStream.aligned o).isLittleEndian 0 width := by
    rw [behindField, if_pos hwidth.ne_zero]
    rfl
  have hlen : (behindField width o).payload.length = (OutputStream.aligned o).payload.length + width := by
    rw [hbehind, List.length_append, OutputStream.lengthField_length, if_pos hwidth]
  rw [hfield] at hover
  refine ⟨herror, hover.length, hover.currentByte, hover.currentBit, fun hquiet => ?_⟩
  have hinside := hpre.length_le
  have hsame : t.payload.length = n.payload.length := hover.length
  rcases field_bytes hwidth (by omega) (ht.field hwidth hquiet (Nat.mod_lt _ (by decide))
    (show _ ≤ n.payload.length by omega)) with ⟨_, hbytes⟩
  have hfront : t.payload.take (OutputStream.aligned o).payload.length =
      (OutputStream.aligned o).payload := by
    rcases hpre with ⟨content, hcontent⟩
    rw [hover.before]
    change n.payload.take _ = _
    rw [← hcontent, hbehind, List.append_assoc, List.take_left]
  have hback : t.payload.drop ((OutputStream.aligned o).payload.length + width) =
      n.payload.drop (behindField width o).payload.length := by
    rw [hover.behind, hlen]
    rfl
  have hle : t.isLittleEndian = (OutputStream.aligned o).isLittleEndian :=
    hover.isLittleEndian.trans hendian
  rw [hle] at hbytes
  rw [← hbytes, ← hback, List.append_assoc, ← List.drop_drop, List.take_append_drop]
  exact (List.take_append_drop _ _).symm.trans (congrArg (fun front => front ++ _) hfront)

theorem closeLength_outcome (hwidth : width = 0 ∨ IsWidth width)
    (hshort : (OutputStream.aligned o).payload.length < 2 ^ 32)
    (hpre : (behindField width o).payload <+: n.payload)
    (hpositions : n.positions = (behindField width o).positions)
    (hendian : n.isLittleEndian = (OutputStream.aligned o).isLittleEndian) :
    ∃ t, OutputStream.closeLength width n = .ok ⟨⟩ t ∧ Enclosed width o n t := by
  rcases hwidth with rfl | hwidth
  · exact ⟨n, rfl, enclosed_unmeasured hpre⟩
  · have hpop : n.positions = (behindField width o).payload.length ::
        (OutputStream.aligned o).payload.length :: (OutputStream.aligned o).positions := by
      rw [hpositions, behindField, if_pos hwidth.ne_zero]
      rfl
    have hsize := wrapSub_size hpre.length_le
    rcases OutputStream.writeValueAt_run (contentSize width o n % 2 ^ 32) width
      ((OutputStream.aligned o).payload.length % 2 ^ 32)
      (OutputStream.taken width (OutputStream.aligned o).payload.length
        (behindField width o).payload.length (OutputStream.aligned o).positions n)
      (Nat.mod_lt _ (by decide)) with ⟨t, hrun, ht⟩
    have herror := writeValueAt_error hrun
    rw [Nat.mod_eq_of_lt hshort] at ht
    refine ⟨t, ?_, enclosed_measured hwidth hpre hendian ht herror⟩
    rw [OutputStream.closeLength, if_pos hwidth.ne_zero, OutputStream.closeContent,
      bind_ok (OutputStream.takePositions_run hpop)]
    change OutputStream.writeValueAt (wrapSub 64 n.payload.length (behindField width o).payload.length %
      2 ^ 32) width _ _ = _
    rw [hsize]
    exact hrun

end Lengths

section Writing
variable {isSigned : Bool} {elementDepl : Option (IntegerDeployment 1)} {depl : Option ArrayDeployment}
  {value : List Byte} {o n : OutputStream}

theorem behindField_errorOccurred (width : ℕ) (o : OutputStream) :
    (behindField width o).errorOccurred = o.errorOccurred := by
  have hsmall : decide (TooLarge 0 width) = false := decide_eq_false (by unfold TooLarge; omega)
  unfold behindField
  split
  · change ((OutputStream.aligned o).errorOccurred || decide (TooLarge 0 width)) = _
    rw [hsmall, Bool.or_false, OutputStream.aligned_errorOccurred]
  · exact OutputStream.aligned_errorOccurred o

theorem behindField_isLittleEndian (width : ℕ) (o : OutputStream) :
    (behindField width o).isLittleEndian = (OutputStream.aligned o).isLittleEndian := by
  unfold behindField
  split <;> rfl

theorem behindField_currentByte (width : ℕ) (o : OutputStream) :
    (behindField width o).currentByte = (OutputStream.aligned o).currentByte := by
  unfold behindField
  split <;> rfl

def Unwritable (depl : Option ArrayDeployment) (size : ℕ) (o : OutputStream) : Prop :=
  o.errorOccurred = true ∨ ¬ VectorAllowed depl size

theorem opened_quiet {size : ℕ} (h : ¬ Unwritable depl size o) :
    (behindField (arrayLengthWidth depl) o).errorOccurred = false :=
  (behindField_errorOccurred _ o).trans (Bool.eq_false_iff.2 (not_or.1 h).1)

theorem writeByteVector_refused (h : Unwritable depl value.length o) :
    ∃ t, OutputStream.writeByteVector depl value o = .ok ⟨⟩ t ∧ t.errorOccurred = true := by
  have hcheck : ∃ m, OutputStream.checkSize (arrayLengthWidth depl) ((depl.map (·.arrayMinLength)).getD 0)
      ((depl.map (·.arrayMaxLength)).getD 0xFFFFFFFF) value.length (OutputStream.aligned o) = .ok ⟨⟩ m ∧
      m.errorOccurred = true := by
    by_cases hallowed : VectorAllowed depl value.length
    · exact ⟨_, checkSize_allowed hallowed _,
        (OutputStream.aligned_errorOccurred o).trans (h.resolve_right (not_not_intro hallowed))⟩
    · exact ⟨_, checkSize_refused hallowed _, rfl⟩
  rcases hcheck with ⟨m, hrun, herror⟩
  refine ⟨m, ?_, herror⟩
  change (OutputStream.bitAlign >>= _) o = _
  rw [bind_ok (OutputStream.bitAlign_run o)]
  refine (bind_ok hrun).trans ?_
  rw [OutputStream.unlessError_run, if_pos herror]

def numbered (depl : Option ArrayDeployment) (size : ℕ) (o : OutputStream) : OutputStream :=
  widthWritten (size % 2 ^ 32) (arrayLengthWidth depl) (OutputStream.aligned o)

def bytesWritten (depl : Option ArrayDeployment) (value : List Byte) (o : OutputStream) : OutputStream :=
  { numbered depl value.length o with
    payload := (numbered depl value.length o).payload ++ value
    history := .patched ⟨(OutputStream.aligned o).payload.length, arrayLengthWidth depl,
      (numbered depl value.length o).payload.length,
      (numbered depl value.length o).payload.length + value.length, 0⟩ ::
        (numbered depl value.length o).history }

theorem writeByteVector_accepted (h : ¬ Unwritable depl value.length o) :
    OutputStream.writeByteVector depl value o = .ok ⟨⟩ (bytesWritten depl value o) ∧
      (bytesWritten depl value o).errorOccurred =
        decide (TooLarge (value.length % 2 ^ 32) (arrayLengthWidth depl)) := by
  have hno := not_or.1 h
  have hquiet : (OutputStream.aligned o).errorOccurred = false := by
    rw [OutputStream.aligned_errorOccurred]
    exact Bool.eq_false_iff.2 hno.1
  have hfield := OutputStream.writeWidth_run (value.length % 2 ^ 32) (arrayLengthWidth depl)
    (OutputStream.aligned_currentBit o)
  have hposition : ∀ o : OutputStream, OutputStream.getPosition o = .ok o.payload.length o := fun _ => rfl
  constructor
  · change (OutputStream.bitAlign >>= _) o = _
    rw [bind_ok (OutputStream.bitAlign_run o)]
    refine (bind_ok (checkSize_allowed (not_not.1 hno.2) _)).trans ?_
    rw [OutputStream.unlessError_run, if_neg (hquiet ▸ Bool.false_ne_true)]
    exact (bind_ok (hposition _)).trans ((bind_ok hfield).trans (bind_ok (hposition _)))
  · change ((OutputStream.aligned o).errorOccurred || _) = _
    rw [hquiet, Bool.false_or]

structure Content (depl : Option ArrayDeployment) (o n : OutputStream) : Prop where
  extends_payload : (behindField (arrayLengthWidth depl) o).payload <+: n.payload
  positions : n.positions = (behindField (arrayLengthWidth depl) o).positions
  isLittleEndian : n.isLittleEndian = (behindField (arrayLengthWidth depl) o).isLittleEndian

theorem writeElementwise_run (ho : Clean o)
    (hwidth : arrayLengthWidth depl = 0 ∨ IsWidth (arrayLengthWidth depl))
    (hshort : (OutputStream.aligned o).payload.length < 2 ^ 32) (hn : Content depl o n)
    (hrun : OutputStream.writeArrayContent (arrayLengthWidth depl) ((depl.map (·.arrayMinLength)).getD 0)
      ((depl.map (·.arrayMaxLength)).getD 0xFFFFFFFF) (writeByte isSigned elementDepl) value
      (behindField (arrayLengthWidth depl) o) = .ok ⟨⟩ n) :
    ∃ t, writeElementwise isSigned elementDepl depl value o = .ok ⟨⟩ t ∧
      Enclosed (arrayLengthWidth depl) o n t := by
  rcases closeLength_outcome hwidth hshort hn.extends_payload hn.positions
    (hn.isLittleEndian.trans (behindField_isLittleEndian _ o)) with ⟨t, hclose, ht⟩
  refine ⟨t, ?_, ht⟩
  change (OutputStream.bitAlign >>= _) o = _
  rw [bind_ok (OutputStream.bitAlign_run o)]
  exact (bind_ok (openLength_run _ ho).1).trans ((bind_ok hrun).trans hclose)

/-- The elements are written if the size is right and there has been no error. -/
theorem writeArrayContent_accepted (h : ¬ Unwritable depl value.length o) :
    OutputStream.writeArrayContent (arrayLengthWidth depl) ((depl.map (·.arrayMinLength)).getD 0)
        ((depl.map (·.arrayMaxLength)).getD 0xFFFFFFFF) (writeByte isSigned elementDepl) value
        (behindField (arrayLengthWidth depl) o) =
      OutputStream.writeElements (writeByte isSigned elementDepl) value
        (behindField (arrayLengthWidth depl) o) := by
  have hno := not_or.1 h
  refine (bind_ok (checkSize_allowed (not_not.1 hno.2) _)).trans ?_
  rw [OutputStream.unlessError_run, behindField_errorOccurred, if_neg hno.1]

theorem writeElementwise_refused (ho : Clean o)
    (hwidth : arrayLengthWidth depl = 0 ∨ IsWidth (arrayLengthWidth depl))
    (hshort : (OutputStream.aligned o).payload.length < 2 ^ 32) (h : Unwritable depl value.length o) :
    ∃ t, writeElementwise isSigned elementDepl depl value o = .ok ⟨⟩ t ∧ t.errorOccurred = true := by
  have hcheck : ∃ n, OutputStream.checkSize (arrayLengthWidth depl) ((depl.map (·.arrayMinLength)).getD 0)
      ((depl.map (·.arrayMaxLength)).getD 0xFFFFFFFF) value.length
      (behindField (arrayLengthWidth depl) o) = .ok ⟨⟩ n ∧ n.errorOccurred = true ∧ Content depl o n := by
    by_cases hallowed : VectorAllowed depl value.length
    · exact ⟨_, checkSize_allowed hallowed _,
        (behindField_errorOccurred _ o).trans (h.resolve_right (not_not_intro hallowed)),
        List.prefix_rfl, rfl, rfl⟩
    · exact ⟨_, checkSize_refused hallowed _, rfl, List.prefix_rfl, rfl, rfl⟩
  rcases hcheck with ⟨n, hrun, herror, hn⟩
  have hcontent : OutputStream.writeArrayContent (arrayLengthWidth depl)
      ((depl.map (·.arrayMinLength)).getD 0) ((depl.map (·.arrayMaxLength)).getD 0xFFFFFFFF)
      (writeByte isSigned elementDepl) value (behindField (arrayLengthWidth depl) o) = .ok ⟨⟩ n := by
    refine (bind_ok hrun).trans ?_
    rw [OutputStream.unlessError_run, if_pos herror]
  rcases writeElementwise_run ho hwidth hshort hn hcontent with ⟨t, ht, henclosed⟩
  refine ⟨t, ht, ?_⟩
  rw [henclosed.errorOccurred, herror, Bool.true_or]

theorem content_of_appends {xs : List Bool} (hn : Appends xs (behindField (arrayLengthWidth depl) o) n) :
    Content depl o n :=
  ⟨OutputStream.payload_extends hn.clean.bit hn.earlier, hn.positions, hn.isLittleEndian⟩

theorem behindField_length (hwidth : arrayLengthWidth depl = 0 ∨ IsWidth (arrayLengthWidth depl))
    (o : OutputStream) : (behindField (arrayLengthWidth depl) o).payload.length =
      (OutputStream.aligned o).payload.length + arrayLengthWidth depl := by
  unfold behindField
  rcases hwidth with hzero | hwidth
  · rw [if_neg (not_not_intro hzero), hzero, Nat.add_zero]
  · rw [if_pos hwidth.ne_zero, entered_payload, List.length_append, OutputStream.lengthField_length,
      if_pos hwidth]

/-- Both ways end with an error, or both without one and with the same bytes up to the same bit. -/
def SameWriting (isSigned : Bool) (elementDepl : Option (IntegerDeployment 1))
    (depl : Option ArrayDeployment) (value : List Byte) (o : OutputStream) : Prop :=
  ∃ t t', OutputStream.writeByteVector depl value o = .ok ⟨⟩ t ∧
    writeElementwise isSigned elementDepl depl value o = .ok ⟨⟩ t' ∧
    t.errorOccurred = t'.errorOccurred ∧
    (t.errorOccurred = false →
      t.payload = t'.payload ∧ t.currentBit = t'.currentBit ∧ t.currentByte = t'.currentByte)

theorem sameWriting_iff {t t' : OutputStream} (ht : OutputStream.writeByteVector depl value o = .ok ⟨⟩ t)
    (ht' : writeElementwise isSigned elementDepl depl value o = .ok ⟨⟩ t') :
    SameWriting isSigned elementDepl depl value o ↔ t.errorOccurred = t'.errorOccurred ∧
      (t.errorOccurred = false →
        t.payload = t'.payload ∧ t.currentBit = t'.currentBit ∧ t.currentByte = t'.currentByte) := by
  constructor
  · rintro ⟨u, u', hu, hu', hsame⟩
    cases ht.symm.trans hu
    cases ht'.symm.trans hu'
    exact hsame
  · exact fun hsame => ⟨t, t', ht, ht', hsame⟩

theorem same_of_bytes (ho : Clean o)
    (hwidth : arrayLengthWidth depl = 0 ∨ IsWidth (arrayLengthWidth depl))
    (hshort : (OutputStream.aligned o).payload.length < 2 ^ 32) (h : ¬ Unwritable depl value.length o)
    (hrun : OutputStream.writeElements (writeByte isSigned elementDepl) value
      (behindField (arrayLengthWidth depl) o) = .ok ⟨⟩ n)
    (hn : Appends (bitsOf value) (behindField (arrayLengthWidth depl) o) n) :
    SameWriting isSigned elementDepl depl value o := by
  have hclean := (openLength_run (arrayLengthWidth depl) ho).2
  have hbit := behindField_currentBit (arrayLengthWidth depl) o
  have hbytes := OutputStream.writeRaw_appends hclean hbit value
  rcases OutputStream.payload_of_bits hn.clean hbytes.clean (hn.bits.trans hbytes.bits.symm) with
    ⟨hpayload, hcurrentBit, hcurrentByte⟩
  rcases writeElementwise_run ho hwidth hshort
    (content_of_appends hn) ((writeArrayContent_accepted h).trans hrun) with ⟨t, ht, henclosed⟩
  rcases writeByteVector_accepted h with ⟨hfast, herror⟩
  have hsize : contentSize (arrayLengthWidth depl) o n = value.length := by
    rw [contentSize, hpayload, List.length_append, Nat.add_sub_cancel_left]
  have hquiet : n.errorOccurred = false := hn.errorOccurred.trans (opened_quiet h)
  have hsame : t.errorOccurred = (bytesWritten depl value o).errorOccurred := by
    rw [henclosed.errorOccurred, hquiet, Bool.false_or, hsize, herror]
  rw [sameWriting_iff hfast ht]
  refine ⟨hsame.symm, fun hno => ⟨?_, ?_, ?_⟩⟩
  · rw [henclosed.payload (hsame.trans hno), hsize, hpayload, List.drop_left]
    rfl
  · rw [henclosed.currentBit, hcurrentBit]
    exact (OutputStream.aligned_currentBit o).trans hbit.symm
  · rw [henclosed.currentByte, hcurrentByte]
    exact (behindField_currentByte (arrayLengthWidth depl) o).symm

/-- Elements that are not bytes: there are fewer bytes than elements. -/
theorem same_of_narrow_iff (ho : Clean o)
    (hwidth : arrayLengthWidth depl = 0 ∨ IsWidth (arrayLengthWidth depl))
    (hshort : (OutputStream.aligned o).payload.length < 2 ^ 32) (h : ¬ Unwritable depl value.length o)
    (hwritable : Writable (elementBits elementDepl) isSigned) (hnarrow : elementBits elementDepl < 8)
    (hvalue : 0 < value.length) :
    SameWriting isSigned elementDepl depl value o ↔
      TooLarge (value.length % 2 ^ 32) (arrayLengthWidth depl) ∧
        TooLarge (value.length * elementBits elementDepl / 8 % 2 ^ 32) (arrayLengthWidth depl) := by
  have hclean := (openLength_run (arrayLengthWidth depl) ho).2
  have hbit := behindField_currentBit (arrayLengthWidth depl) o
  have hquiet := opened_quiet h
  rcases writeElements_run hwritable value hclean hquiet with ⟨n, hrun, hn⟩
  rcases writeElementwise_run ho hwidth hshort (content_of_appends hn)
    ((writeArrayContent_accepted h).trans hrun) with ⟨t, ht, henclosed⟩
  rcases writeByteVector_accepted h with ⟨hfast, herror⟩
  have hbits := congrArg List.length hn.bits
  have hnbit := hn.clean.bit
  rw [List.length_append, wires_length _ (elementBits_le elementDepl), hn.clean.bits_length,
    hclean.bits_length, hbit] at hbits
  have hsize : contentSize (arrayLengthWidth depl) o n =
      value.length * elementBits elementDepl / 8 := by
    unfold contentSize
    omega
  have hterror := henclosed.errorOccurred
  rw [hn.errorOccurred, hquiet, Bool.false_or, hsize] at hterror
  rw [sameWriting_iff hfast ht, herror, hterror]
  have hfewer : value.length * elementBits elementDepl ≤ value.length * 7 :=
    Nat.mul_le_mul_left _ (Nat.le_of_lt_succ hnarrow)
  have hlonger : (bytesWritten depl value o).payload ≠ t.payload := by
    intro heq
    have hlen := congrArg List.length heq
    have hopened := behindField_length hwidth o
    have hfield : (lengthField (OutputStream.aligned o).isLittleEndian (value.length % 2 ^ 32)
        (arrayLengthWidth depl)).length = arrayLengthWidth depl := by
      rw [OutputStream.lengthField_length]
      rcases hwidth with hzero | hwidth
      · rw [hzero]
        rfl
      · exact if_pos hwidth
    rw [henclosed.length] at hlen
    change ((OutputStream.aligned o).payload ++ lengthField _ _ _ ++ value).length = _ at hlen
    rw [List.length_append, List.length_append, hfield] at hlen
    omega
  rw [decide_eq_decide]
  constructor
  · rintro ⟨hiff, hsame⟩
    by_cases hlarge : TooLarge (value.length % 2 ^ 32) (arrayLengthWidth depl)
    · exact ⟨hlarge, hiff.1 hlarge⟩
    · exact absurd (hsame (decide_eq_false hlarge)).1 hlonger
  · rintro ⟨hlarge, hlarge'⟩
    exact ⟨iff_of_true hlarge hlarge', fun hno => absurd hlarge (of_decide_eq_false hno)⟩

theorem same_of_refused_iff (ho : Clean o)
    (hwidth : arrayLengthWidth depl = 0 ∨ IsWidth (arrayLengthWidth depl))
    (hshort : (OutputStream.aligned o).payload.length < 2 ^ 32) (h : ¬ Unwritable depl value.length o)
    (hno : ¬ Writable (elementBits elementDepl) isSigned) (hvalue : value ≠ []) :
    SameWriting isSigned elementDepl depl value o ↔
      TooLarge (value.length % 2 ^ 32) (arrayLengthWidth depl) := by
  have hcontent : Content depl o { behindField (arrayLengthWidth depl) o with errorOccurred := true } :=
    ⟨List.prefix_rfl, rfl, rfl⟩
  rcases writeElementwise_run ho hwidth hshort hcontent
    ((writeArrayContent_accepted h).trans (writeElements_refused hno hvalue _)) with ⟨t, ht, henclosed⟩
  rcases writeByteVector_accepted h with ⟨hfast, herror⟩
  have hterror : t.errorOccurred = true := by
    rw [henclosed.errorOccurred, Bool.true_or]
  rw [sameWriting_iff hfast ht, herror, hterror, decide_eq_true_iff]
  exact ⟨And.left, fun hlarge => ⟨hlarge, fun hfalse => absurd hlarge (of_decide_eq_false hfalse)⟩⟩

/-- When both ways write the same: the size is refused, there are no elements, or they have all
    eight bits. Otherwise the bytes and the elements must both be too many for the length field. -/
def WritersAgree (isSigned : Bool) (elementDepl : Option (IntegerDeployment 1))
    (depl : Option ArrayDeployment) (size : ℕ) (o : OutputStream) : Prop :=
  Unwritable depl size o ∨ size = 0 ∨ elementBits elementDepl = 8 ∨
  (TooLarge (size % 2 ^ 32) (arrayLengthWidth depl) ∧
    (Writable (elementBits elementDepl) isSigned →
      TooLarge (size * elementBits elementDepl / 8 % 2 ^ 32) (arrayLengthWidth depl)))

theorem same_writing_iff (isSigned : Bool) (elementDepl : Option (IntegerDeployment 1)) (value : List Byte)
    (ho : Clean o) (hwidth : arrayLengthWidth depl = 0 ∨ IsWidth (arrayLengthWidth depl))
    (hshort : (OutputStream.aligned o).payload.length < 2 ^ 32) :
    SameWriting isSigned elementDepl depl value o ↔
      WritersAgree isSigned elementDepl depl value.length o := by
  unfold WritersAgree
  by_cases h : Unwritable depl value.length o
  · rcases writeByteVector_refused h with ⟨t, ht, herror⟩
    rcases writeElementwise_refused ho hwidth hshort h with ⟨t', ht', herror'⟩
    refine iff_of_true ?_ (Or.inl h)
    rw [sameWriting_iff ht ht']
    exact ⟨herror.trans herror'.symm, fun hno => by cases herror.symm.trans hno⟩
  · rw [or_iff_right h]
    have hclean := (openLength_run (arrayLengthWidth depl) ho).2
    have hquiet := opened_quiet h
    by_cases hzero : value.length = 0
    · obtain rfl := List.eq_nil_of_length_eq_zero hzero
      exact iff_of_true (same_of_bytes ho hwidth hshort h rfl (Appends.refl hclean)) (Or.inl hzero)
    · rw [or_iff_right hzero]
      by_cases hfull : elementBits elementDepl = 8
      · have hwritable : Writable (elementBits elementDepl) isSigned := by
          unfold Writable
          omega
        rcases writeElements_run hwritable value hclean hquiet with ⟨n, hrun, hn⟩
        rw [hfull, wires_whole] at hn
        exact iff_of_true (same_of_bytes ho hwidth hshort h hrun hn) (Or.inl hfull)
      · rw [or_iff_right hfull]
        have hnarrow := lt_of_le_of_ne (elementBits_le elementDepl) hfull
        by_cases hwritable : Writable (elementBits elementDepl) isSigned
        · rw [same_of_narrow_iff ho hwidth hshort h hwritable hnarrow (Nat.pos_of_ne_zero hzero),
            imp_iff_right hwritable]
        · rw [same_of_refused_iff ho hwidth hshort h hwritable (fun hnil => hzero (hnil ▸ rfl))]
          exact (and_iff_left fun hyes => absurd hyes hwritable).symm

end Writing

end SomeIPRuntime.ByteVectors
