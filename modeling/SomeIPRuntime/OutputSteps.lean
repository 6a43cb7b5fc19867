import SomeIPRuntime.OutputBits

set_option autoImplicit false

namespace SomeIPRuntime.OutputStream
open Bits ProgramRuns Deployment StringEncoder

structure Adds (o t : OutputStream) : Prop where
  clean : Clean t
  bits : o.bits <+: t.bits
  sticky : o.errorOccurred = true → t.errorOccurred = true
  positions : t.positions = o.positions
  isLittleEndian : t.isLittleEndian = o.isLittleEndian
  history : t.history = o.history

theorem Adds.refl {o : OutputStream} (h : Clean o) : Adds o o :=
  ⟨h, List.prefix_rfl, id, rfl, rfl, rfl⟩

theorem Adds.trans {o t u : OutputStream} (h : Adds o t) (h' : Adds t u) : Adds o u :=
  ⟨h'.clean, h.bits.trans h'.bits, fun herror => h'.sticky (h.sticky herror),
    h'.positions.trans h.positions, h'.isLittleEndian.trans h.isLittleEndian,
    h'.history.trans h.history⟩

theorem Appends.adds {xs : List Bool} {o t : OutputStream} (h : Appends xs o t) : Adds o t :=
  ⟨h.clean, h.earlier, fun herror => h.errorOccurred.trans herror, h.positions, h.isLittleEndian,
    h.history⟩

/-- What halts a write: the transcoding of a string that is read past its end. -/
def Untranscodable (e : Halt) : Prop := ∃ encoding value, encodeString encoding value = .error e

abbrev AddsBits {α : Type} (x : Write α) : Prop :=
  Respects (fun o t => Clean o → Adds o t) (fun o e _ => Clean o → Untranscodable e) x

abbrev AddsBytes {α : Type} (x : Write α) : Prop :=
  Respects (fun o t => Clean o ∧ o.currentBit = 0 → Adds o t ∧ t.currentBit = 0)
    (fun o e _ => Clean o ∧ o.currentBit = 0 → Untranscodable e) x

theorem addsBytes_composes :
    Composes (fun o t => Clean o ∧ o.currentBit = 0 → Adds o t ∧ t.currentBit = 0)
      fun o e (_ : OutputStream) => Clean o ∧ o.currentBit = 0 → Untranscodable e where
  refl _ ho := ⟨Adds.refl ho.1, ho.2⟩
  trans h h' ho := by
    obtain ⟨hadds, hbit⟩ := h ho
    obtain ⟨hadds', hbit'⟩ := h' ⟨hadds.clean, hbit⟩
    exact ⟨hadds.trans hadds', hbit'⟩
  absorb h h' ho := h' ⟨(h ho).1.clean, (h ho).2⟩

theorem raised_adds {o : OutputStream} (ho : Clean o) : Adds o { o with errorOccurred := true } :=
  ⟨⟨ho.bit, ho.rest⟩, List.prefix_rfl, fun _ => rfl, rfl, rfl, rfl⟩

theorem raise_addsBits : AddsBits raise := fun _ => raised_adds

theorem raise_addsBytes : AddsBytes raise := fun _ ho => ⟨raised_adds ho.1, ho.2⟩

theorem writeRaw_addsBytes (data : List Byte) : AddsBytes (writeRaw data) :=
  fun _ ho => ⟨(writeRaw_appends ho.1 ho.2 data).adds, ho.2⟩

theorem writeBitValue_addsBits (size : ℕ) (value : BitVec (8 * size)) (count : ℕ)
    (isSigned : Bool) : AddsBits (writeBitValue size value count isSigned) := by
  intro o
  refine outcome_assuming fun ho => ?_
  by_cases hwritable : Writable (clampBits size count) isSigned
  · obtain ⟨t, hrun, ht⟩ := writeBitValue_run value ho hwritable
    rw [hrun]
    exact ht.adds
  · unfold writeBitValue writeField
    rw [bind_ok (get_run o)]
    split
    · rename_i hfast
      exact (writeRaw_appends ho hfast.1 _).adds
    · split
      · exact raised_adds ho
      · rename_i hno
        exact absurd hno hwritable

/-- A value of whole bytes leaves the stream at a byte boundary. -/
theorem writeBitValue_addsBytes {size count : ℕ} (value : BitVec (8 * size)) (isSigned : Bool)
    (htwo : 2 ≤ count) (hle : count ≤ 8 * size) (hmod : count % 8 = 0) :
    AddsBytes (writeBitValue size value count isSigned) := by
  intro o
  refine outcome_assuming fun ho => ?_
  obtain ⟨t, hrun, ht⟩ := writeBitValue_fits value isSigned ho.1 htwo hle
  have hlen := congrArg List.length ht.bits
  have hbit := ht.clean.bit
  rw [List.length_append, wire_length _ _ hle, ht.clean.bits_length, ho.1.bits_length] at hlen
  rw [hrun]
  exact ⟨ht.adds, by omega⟩

theorem writeWidth_addsBytes (value width : ℕ) : AddsBytes (writeWidth value width) := by
  unfold writeWidth
  split
  · refine respects_ite ?_ ?_
    · exact respects_bind addsBytes_composes raise_addsBytes fun _ =>
        writeBitValue_addsBytes _ _ (by decide) (by decide) (by decide)
    · exact writeBitValue_addsBytes _ _ (by decide) (by decide) (by decide)
  · refine respects_ite ?_ ?_
    · exact respects_bind addsBytes_composes raise_addsBytes fun _ =>
        writeBitValue_addsBytes _ _ (by decide) (by decide) (by decide)
    · exact writeBitValue_addsBytes _ _ (by decide) (by decide) (by decide)
  · exact writeBitValue_addsBytes _ _ (by decide) (by decide) (by decide)
  · exact respects_pure addsBytes_composes _

theorem writeBitValue_whole (size : ℕ) (value : BitVec (8 * size)) (isSigned : Bool)
    {o : OutputStream} (hbit : o.currentBit = 0) :
    writeBitValue size value (8 * size) isSigned o =
      .ok ⟨⟩ { o with payload := o.payload ++ reorder o.isLittleEndian (rawBytes size value) } := by
  have hclamp : clampBits size (8 * size) = 8 * size := by
    rw [clampBits_eq, Nat.min_self]
  unfold writeBitValue writeField
  rw [hclamp, bind_ok (get_run o), if_pos ⟨hbit, by rw [Nat.shiftLeft_eq, Nat.mul_comm]⟩]
  rfl

/-- The bytes that `_writeValue` writes for a width; other widths are ignored. -/
def lengthField (isLittleEndian : Bool) (value width : ℕ) : List Byte :=
  if IsWidth width then reorder isLittleEndian (rawBytes width (BitVec.ofNat _ value)) else []

def TooLarge (value width : ℕ) : Prop := (width = 1 ∧ value > 0xFF) ∨ (width = 2 ∧ value > 0xFFFF)

instance (value width : ℕ) : Decidable (TooLarge value width) := by
  unfold TooLarge
  infer_instance

def widthWritten (value width : ℕ) (o : OutputStream) : OutputStream :=
  { o with
    payload := o.payload ++ lengthField o.isLittleEndian value width
    errorOccurred := o.errorOccurred || decide (TooLarge value width) }

theorem writeWidth_run (value width : ℕ) {o : OutputStream} (hbit : o.currentBit = 0) :
    writeWidth value width o = .ok ⟨⟩ (widthWritten value width o) := by
  have hfield : ∀ width, IsWidth width → ∀ u : OutputStream, u.currentBit = 0 →
      writeBitValue width (BitVec.ofNat _ value) (8 * width) false u =
        .ok ⟨⟩ { u with payload := u.payload ++ lengthField u.isLittleEndian value width } := by
    intro width hwidth u hu
    rw [writeBitValue_whole width _ false hu]
    unfold lengthField
    rw [if_pos hwidth]
  have hplain : ∀ width, ¬ TooLarge value width →
      widthWritten value width o =
        { o with payload := o.payload ++ lengthField o.isLittleEndian value width } := by
    intro width hno
    unfold widthWritten
    rw [decide_eq_false hno, Bool.or_false]
  have hlarge : ∀ width, TooLarge value width →
      widthWritten value width o =
        { o with
          payload := o.payload ++ lengthField o.isLittleEndian value width
          errorOccurred := true } := by
    intro width hyes
    unfold widthWritten
    rw [decide_eq_true hyes, Bool.or_true]
  unfold writeWidth
  split
  · by_cases h : value > 0xFF
    · rw [if_pos h, hlarge 1 (Or.inl ⟨rfl, h⟩)]
      exact hfield 1 (by decide) { o with errorOccurred := true } hbit
    · rw [if_neg h, hplain 1 (by unfold TooLarge; omega)]
      exact hfield 1 (by decide) o hbit
  · by_cases h : value > 0xFFFF
    · rw [if_pos h, hlarge 2 (Or.inr ⟨rfl, h⟩)]
      exact hfield 2 (by decide) { o with errorOccurred := true } hbit
    · rw [if_neg h, hplain 2 (by unfold TooLarge; omega)]
      exact hfield 2 (by decide) o hbit
  · rw [hplain 4 (by unfold TooLarge; omega)]
    exact hfield 4 (by decide) o hbit
  · rename_i h1 h2 h4
    have hno : ¬ IsWidth width := by
      rintro (rfl | rfl | rfl)
      · exact h1 rfl
      · exact h2 rfl
      · exact h4 rfl
    have hsmall : ¬ TooLarge value width := by
      rintro (⟨rfl, _⟩ | ⟨rfl, _⟩)
      · exact h1 rfl
      · exact h2 rfl
    rw [hplain width hsmall]
    unfold lengthField
    rw [if_neg hno, List.append_nil]
    rfl

theorem lengthField_length (isLittleEndian : Bool) (value width : ℕ) :
    (lengthField isLittleEndian value width).length = if IsWidth width then width else 0 := by
  unfold lengthField reorder
  split
  · split <;> simp
  · rfl

theorem unlessError_run (x : Write Unit) (o : OutputStream) :
    unlessError x o = if o.errorOccurred then .ok ⟨⟩ o else x o := by
  unfold unlessError
  change (if o.errorOccurred = true then pure () else x : Write Unit) o = _
  split <;> rfl

theorem respects_unlessError {R : OutputStream → OutputStream → Prop}
    {F : OutputStream → Halt → OutputStream → Prop} (hc : Composes R F) {x : Write Unit}
    (hx : Respects R F x) : Respects R F (unlessError x) := by
  intro o
  rw [unlessError_run]
  split
  · exact hc.refl o
  · exact hx o

theorem encodeString_addsBytes (encoding : StringEncoding) (value : List Byte) :
    AddsBytes (fromExcept (encodeString encoding value) : Write (List Byte)) := by
  cases hrun : encodeString encoding value with
  | ok bytes => exact respects_pure addsBytes_composes bytes
  | error e => exact fun _ _ => ⟨encoding, value, hrun⟩

theorem aligned_addsBits {x : Unit → Write Unit} (hx : AddsBytes (x ())) :
    AddsBits (bitAlign >>= x) := by
  intro o
  refine outcome_assuming fun ho => ?_
  rw [bind_ok (bitAlign_run o)]
  have halign := aligned_appends ho
  cases hrun : x () (aligned o) with
  | ok a t => exact halign.adds.trans (hx.ok hrun ⟨halign.clean, aligned_currentBit o⟩).1
  | error e t => exact hx.error hrun ⟨halign.clean, aligned_currentBit o⟩

theorem writeRangedInteger_addsBits (minimum maximum : ℤ) (depl : Option (IntegerDeployment 4))
    (value : BitVec 32) : AddsBits (writeRangedInteger minimum maximum depl value) :=
  respects_ite (writeBitValue_addsBits _ _ _ _) raise_addsBits

theorem writeEnumeration_addsBits (base : IntegerType)
    (depl : Option (EnumerationDeployment base.size)) (value : BitVec (8 * base.size)) :
    AddsBits (writeEnumeration base depl value) := by
  unfold writeEnumeration
  split
  · split <;> exact writeBitValue_addsBits _ _ _ _
  · exact writeBitValue_addsBits _ _ _ _

theorem writeVersion_addsBits (major minor : BitVec 32) : AddsBits (writeVersion major minor) :=
  aligned_addsBits (respects_bind addsBytes_composes
    (writeBitValue_addsBytes (show BitVec (8 * 4) from major) _ (by decide) (by decide)
      (by decide)) fun _ =>
        writeBitValue_addsBytes (show BitVec (8 * 4) from minor) _ (by decide) (by decide)
          (by decide))

theorem writeStringData_addsBytes (encoding : StringEncoding) (bytes : List Byte)
    (terminationSize : ℕ) : AddsBytes (writeStringData encoding bytes terminationSize) :=
  respects_bind addsBytes_composes (writeRaw_addsBytes _) fun _ =>
    respects_bind addsBytes_composes (writeRaw_addsBytes _) fun _ => writeRaw_addsBytes _

theorem writeString_addsBits (depl : Option StringDeployment) (value : List Byte) :
    AddsBits (writeString depl value) := by
  refine aligned_addsBits (respects_bind addsBytes_composes (encodeString_addsBytes _ _) fun bytes => ?_)
  unfold writeStringBytes
  refine respects_ite (respects_ite (respects_pure addsBytes_composes _) ?_) ?_
  · exact writeStringData_addsBytes _ _ _
  · exact respects_bind addsBytes_composes (writeWidth_addsBytes _ _) fun _ =>
      writeStringData_addsBytes _ _ _

theorem writeByteCount_addsBytes (lengthWidth maxSize : ℕ) :
    AddsBytes (writeByteCount lengthWidth maxSize) := by
  unfold writeByteCount
  split
  · exact respects_pure addsBytes_composes _
  · exact respects_ite raise_addsBytes (writeWidth_addsBytes _ _)
  · exact respects_ite raise_addsBytes (writeWidth_addsBytes _ _)
  · exact writeWidth_addsBytes _ _
  · exact raise_addsBytes

theorem writeByteBuffer_addsBits (depl : Option ByteBufferDeployment) (value : List Byte) :
    AddsBits (writeByteBuffer depl value) := by
  refine aligned_addsBits ?_
  have hrest : ∀ maxSize lengthWidth : ℕ, AddsBytes (do
      unlessError (writeByteCount lengthWidth maxSize)
      unlessError (writeRaw (value.take maxSize))) := fun maxSize lengthWidth =>
    respects_bind addsBytes_composes
      (respects_unlessError addsBytes_composes (writeByteCount_addsBytes _ _)) fun _ =>
        respects_unlessError addsBytes_composes (writeRaw_addsBytes _)
  exact respects_ite (respects_bind addsBytes_composes raise_addsBytes fun _ => hrest _ _) (hrest _ _)

theorem respects_checkSize {R : OutputStream → OutputStream → Prop}
    {F : OutputStream → Halt → OutputStream → Prop} (hc : Composes R F) (hraise : Respects R F raise)
    (lengthWidth minLength maxLength size : ℕ) :
    Respects R F (checkSize lengthWidth minLength maxLength size) := by
  have hif : ∀ (c : Prop) [Decidable c], Respects R F (if c then raise else pure () : Write Unit) := by
    intro c _
    exact respects_ite hraise (respects_pure hc _)
  refine respects_ite (respects_ite ?_ (hif _)) (hif _)
  exact respects_bind hc hraise fun _ => hif _

end SomeIPRuntime.OutputStream
