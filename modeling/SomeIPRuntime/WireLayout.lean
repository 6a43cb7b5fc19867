import SomeIPRuntime.TypedValues

set_option autoImplicit false

namespace SomeIPRuntime.TypedValues
open Bits ProgramRuns Deployment
open OutputStream (Clean Write WriteOp Writer Wrote fieldWidth)
open RoundTrip
open ByteVectors (Unwritable writeByteVector_refused writeByteVector_accepted)

/-- What has been written without an error ends at the bit position `after`. -/
def Ends {α : Type} (write : Write α) (after : ℕ → ℕ) : Prop :=
  ∀ o a t, Clean o → write o = .ok a t → t.errorOccurred = false → t.payload.length < 2 ^ 32 →
    t.bits.length = after o.bits.length

section Composition
variable {α β : Type} {f g : ℕ → ℕ} {o n t : OutputStream}

theorem pure_ends (a : α) : Ends (pure a) id := by
  intro o b t _ hrun _ _
  cases hrun
  rfl

theorem aligned_position (ho : Clean o) : (OutputStream.aligned o).bits.length = toByte o.bits.length := by
  have hlen := congrArg List.length (OutputStream.aligned_appends ho).bits
  have hbit := ho.bit
  rw [List.length_append, OutputStream.padding, List.length_replicate] at hlen
  rw [hlen, toByte, ho.bits_length]
  omega

theorem Ends.bind {x : Write α} {y : α → Write β} (hx : Ends x f) (hy : ∀ a, Ends (y a) g)
    (hxw : Writer x) (hyw : ∀ a, Writer (y a)) : Ends (x >>= y) (fun n => g (f n)) := by
  intro o b t ho hrun herror hshort
  rcases bind_eq_ok.1 hrun with ⟨a, m, hm, ht⟩
  rcases hxw.ok hm ho with ⟨_, _, hom⟩
  rcases (hyw a).ok ht hom.clean with ⟨_, _, hmt⟩
  rw [hy a m b t hom.clean ht herror hshort,
    hx o a m ho hm (quiet_before hmt herror) (hmt.length.trans_lt hshort)]

theorem bitAlign_ends : Ends OutputStream.bitAlign toByte := by
  intro o _ t ho hrun _ _
  cases hrun
  exact aligned_position ho

theorem raise_ends : Ends OutputStream.raise f := by
  intro o _ t _ hrun herror
  cases hrun
  cases herror

theorem unlessError_ends {x : Write Unit} (hx : Ends x f) : Ends (OutputStream.unlessError x) f := by
  intro o a t ho hrun herror hshort
  rw [OutputStream.unlessError_run] at hrun
  split at hrun
  · rename_i hbad
    cases hrun
    cases herror.symm.trans hbad
  · exact hx o a t ho hrun herror hshort

end Composition

section Fields

theorem writeBitValue_ends (size : ℕ) (value : BitVec (8 * size)) (bits : ℕ) (isSigned : Bool) :
    Ends (OutputStream.writeBitValue size value bits isSigned) (· + clampBits size bits) := by
  intro o a t ho hrun herror _
  have hle := InputStream.clampBits_le size bits
  by_cases hwritable : OutputStream.Writable (clampBits size bits) isSigned
  · rcases OutputStream.writeBitValue_run value ho hwritable with ⟨u, hrun', hu⟩
    cases hrun.symm.trans hrun'
    rw [hu.bits, List.length_append, OutputStream.wire_length _ _ hle]
  · unfold OutputStream.writeBitValue OutputStream.writeField at hrun
    rw [bind_ok (get_run o), Nat.shiftLeft_eq, show (2 : ℕ) ^ 3 = 8 from rfl, Nat.mul_comm size]
      at hrun
    split at hrun
    · rename_i hfast
      cases hrun
      have happends := OutputStream.writeRaw_appends ho hfast.1
        (OutputStream.reorder o.isLittleEndian (rawBytes size value))
      have hbytes : (OutputStream.reorder o.isLittleEndian (rawBytes size value)).length = size := by
        rw [OutputStream.reorder_length, rawBytes_length]
      rw [happends.bits, List.length_append, bitsOf_length, hbytes, hfast.2]
    · rw [if_pos (not_not.1 hwritable)] at hrun
      cases hrun
      cases herror

theorem clampBits_full (size : ℕ) : clampBits size (8 * size) = 8 * size := by
  rw [clampBits_eq, Nat.min_self]

theorem enumerationBits_backing {base : IntegerType} {d : EnumerationDeployment base.size}
    (hone : d.bits >>> 3 ≠ 1) (htwo : d.bits >>> 3 ≠ 2) :
    enumerationBits base (some d) = clampBits base.size d.bits := by
  unfold enumerationBits
  dsimp only
  split
  · exact absurd ‹_› hone
  · exact absurd ‹_› htwo
  · rfl

theorem writeEnumeration_ends (base : IntegerType) (depl : Option (EnumerationDeployment base.size))
    (value : BitVec (8 * base.size)) :
    Ends (OutputStream.writeEnumeration base depl value) (· + enumerationBits base depl) := by
  cases depl with
  | none => exact writeBitValue_ends 1 _ 8 false
  | some depl =>
    by_cases hone : depl.bits >>> 3 = 1
    · unfold OutputStream.writeEnumeration enumerationBits
      dsimp only
      rw [hone]
      exact writeBitValue_ends 1 _ _ _
    · by_cases htwo : depl.bits >>> 3 = 2
      · unfold OutputStream.writeEnumeration enumerationBits
        dsimp only
        rw [htwo]
        exact writeBitValue_ends 2 _ _ _
      · rw [writeEnumeration_backing value hone htwo, enumerationBits_backing hone htwo]
        exact writeBitValue_ends _ _ _ _

theorem writeRangedInteger_ends (minimum maximum : ℤ) (depl : Option (IntegerDeployment 4))
    (value : BitVec 32) :
    Ends (OutputStream.writeRangedInteger minimum maximum depl value)
      (· + integerBits int32 depl) := by
  unfold OutputStream.writeRangedInteger
  split
  · exact writeBitValue_ends _ _ _ _
  · exact raise_ends

theorem writeVersion_ends (major minor : BitVec 32) :
    Ends (OutputStream.writeVersion major minor) (fun n => toByte n + 64) := by
  have hfirst := writeBitValue_ends 4 major 32 false
  have hsecond := writeBitValue_ends 4 minor 32 false
  have hwriter := fun value : BitVec 32 => (OutputStream.writeBitValue_addsBits 4 value 32 false).writer
  intro o a t ho hrun herror hshort
  have hend := (bitAlign_ends.bind (fun _ => hfirst.bind (fun _ => hsecond) (hwriter _) fun _ => hwriter _)
    OutputStream.bitAlign_writer fun _ =>
      respects_bind OutputStream.writes_composes (hwriter _) fun _ => hwriter _)
    o a t ho hrun herror hshort
  exact hend

end Fields

section Bytes
variable {o t : OutputStream}

theorem bytes_position {m : OutputStream} (hm : Clean m) (hbit : m.currentBit = 0) (data : List Byte) :
    ({ m with payload := m.payload ++ data } : OutputStream).bits.length =
      m.bits.length + 8 * data.length := by
  rw [(OutputStream.writeRaw_appends hm hbit data).bits, List.length_append, bitsOf_length]

theorem lengthField_position (le : Bool) (value width : ℕ) :
    (OutputStream.lengthField le value width).length = fieldWidth width :=
  OutputStream.lengthField_length le value width

theorem writeString_ends (depl : Option StringDeployment) (value : List Byte) :
    Ends (OutputStream.writeString depl value) (fun n => toByte n + 8 * stringSize depl value) := by
  intro o a t ho hrun herror hshort
  have halign := (OutputStream.aligned_appends ho).clean
  have hbit := OutputStream.aligned_currentBit o
  dsimp only
  rw [← aligned_position ho]
  rcases writeString_ok hrun herror hshort with
    ⟨bytes, hbytes, ⟨hzero, hlong, rfl⟩ | ⟨padding, htakes, -, rfl⟩⟩
  · rw [stringSize, hbytes]
    dsimp only
    rw [if_neg (not_not_intro hzero), if_pos hlong, Nat.mul_zero, Nat.add_zero]
  · have hsize : stringSize depl value = fieldWidth (stringLengthWidth depl) + (bytes.length + 4 + padding) := by
      rw [stringSize, hbytes]
      dsimp only
      unfold Takes at htakes
      by_cases hzero : stringLengthWidth depl = 0
      · rw [if_pos hzero] at htakes
        rw [if_neg (not_not_intro hzero), if_neg (by omega), htakes, hzero]
        exact (Nat.zero_add _).symm
      · rw [if_neg hzero] at htakes
        rw [if_pos hzero, htakes, Nat.add_zero]
    have hheader := behindLength_appends depl ho (bytes.length + 4)
    have hcontent := stringWritten_appends depl ho bytes padding
    rw [hcontent.bits, hheader.bits, List.length_append, List.length_append, bitsOf_length, bitsOf_length,
      lengthField_position, contentLength, hsize]
    omega

theorem writeWidth_position {o : OutputStream} (ho : Clean o) (hbit : o.currentBit = 0) (value width : ℕ) :
    ∃ t, OutputStream.writeWidth value width o = .ok ⟨⟩ t ∧ Clean t ∧ t.currentBit = 0 ∧
      t.bits.length = o.bits.length + 8 * fieldWidth width := by
  refine ⟨_, OutputStream.writeWidth_run value width hbit,
    (OutputStream.widthWritten_adds value width ho hbit).1.clean, hbit, ?_⟩
  rw [← lengthField_position o.isLittleEndian value width]
  exact bytes_position ho hbit _

theorem writeByteCount_position {o t : OutputStream} {a : Unit} (ho : Clean o) (hbit : o.currentBit = 0)
    (lengthWidth maxSize : ℕ) (hrun : OutputStream.writeByteCount lengthWidth maxSize o = .ok a t)
    (herror : t.errorOccurred = false) :
    Clean t ∧ t.currentBit = 0 ∧ t.bits.length = o.bits.length + 8 * fieldWidth lengthWidth := by
  have hwidth : ∀ width, OutputStream.writeWidth maxSize width o = .ok a t →
      Clean t ∧ t.currentBit = 0 ∧ t.bits.length = o.bits.length + 8 * fieldWidth width := by
    intro width hwrite
    rcases writeWidth_position ho hbit maxSize width with ⟨u, hrun', hu⟩
    cases hwrite.symm.trans hrun'
    exact hu
  unfold OutputStream.writeByteCount at hrun
  split at hrun
  · cases hrun
    exact ⟨ho, hbit, rfl⟩
  · split at hrun
    · cases hrun
      cases herror
    · exact hwidth 1 hrun
  · split at hrun
    · cases hrun
      cases herror
    · exact hwidth 2 hrun
  · exact hwidth 4 hrun
  · cases hrun
    cases herror

theorem writeByteBuffer_ends (depl : Option ByteBufferDeployment) (value : List Byte) :
    Ends (OutputStream.writeByteBuffer depl value) (fun n => toByte n +
      8 * (fieldWidth (byteBufferLengthWidth depl) +
        (value.take (byteBufferSize depl value.length)).length)) := by
  intro o a t ho hrun herror _
  have halign := (OutputStream.aligned_appends ho).clean
  have hbit := OutputStream.aligned_currentBit o
  dsimp only
  rw [← aligned_position ho]
  change (OutputStream.bitAlign >>= _) o = _ at hrun
  rw [bind_ok (OutputStream.bitAlign_run o)] at hrun
  change (if (byteBufferLengthWidth depl = 0 ∧ byteBufferMaxLength depl ≠ byteBufferSize depl value.length) ∨
      (byteBufferLengthWidth depl ≠ 0 ∧ byteBufferSize depl value.length < byteBufferMinLength depl) then
        _ else _ : Write Unit) (OutputStream.aligned o) = _ at hrun
  have hrest : ∀ m : OutputStream, Clean m → m.currentBit = 0 →
      (do
        OutputStream.unlessError
          (OutputStream.writeByteCount (byteBufferLengthWidth depl) (byteBufferSize depl value.length))
        OutputStream.unlessError
          (OutputStream.writeRaw (value.take (byteBufferSize depl value.length))) : Write Unit) m =
          .ok a t →
        m.errorOccurred = false ∧ t.bits.length = m.bits.length +
          8 * (fieldWidth (byteBufferLengthWidth depl) +
            (value.take (byteBufferSize depl value.length)).length) := by
    intro m hm hmbit h
    rcases bind_eq_ok.1 h with ⟨_, k, hcount, hdata⟩
    rw [OutputStream.unlessError_run] at hcount hdata
    by_cases hk : k.errorOccurred = true
    · rw [if_pos hk] at hdata
      cases hdata
      cases herror.symm.trans hk
    · by_cases hmerror : m.errorOccurred = true
      · rw [if_pos hmerror] at hcount
        cases hcount
        exact absurd hmerror hk
      · rw [if_neg hk] at hdata
        rw [if_neg hmerror] at hcount
        rcases writeByteCount_position hm hmbit _ _ hcount (Bool.eq_false_iff.2 hk) with
          ⟨hclean, hkbit, hposition⟩
        cases hdata
        rw [bytes_position hclean hkbit, hposition]
        exact ⟨Bool.eq_false_iff.2 hmerror, by omega⟩
  split at hrun
  · have hraised := (hrest { OutputStream.aligned o with errorOccurred := true }
      ⟨halign.bit, halign.rest⟩ hbit hrun).1
    cases hraised
  · exact (hrest _ halign hbit hrun).2

theorem writeByteVector_ends (depl : Option ArrayDeployment) (value : List Byte) :
    Ends (OutputStream.writeByteVector depl value)
      (fun n => contentStart n (arrayLengthWidth depl) + 8 * value.length) := by
  intro o a t ho hrun herror _
  have halign := (OutputStream.aligned_appends ho).clean
  have hbit := OutputStream.aligned_currentBit o
  by_cases hno : Unwritable depl value.length o
  · rcases writeByteVector_refused hno with ⟨u, hrun', hu⟩
    cases hrun.symm.trans hrun'
    cases herror.symm.trans hu
  · cases hrun.symm.trans (writeByteVector_accepted hno).1
    rcases writeWidth_position halign hbit (value.length % 2 ^ 32) (arrayLengthWidth depl) with
      ⟨m, hwrite, hm, hmbit, hposition⟩
    cases hwrite.symm.trans (OutputStream.writeWidth_run _ _ hbit)
    dsimp only
    rw [contentStart, ← aligned_position ho, ← hposition]
    exact bytes_position hm hmbit value

end Bytes

section Closing
variable {n t : OutputStream} {a : Unit} {width : ℕ}

structure Unmoved (n t : OutputStream) : Prop where
  length : t.payload.length = n.payload.length
  currentBit : t.currentBit = n.currentBit
  sticky : n.errorOccurred = true → t.errorOccurred = true

theorem Unmoved.position (h : Unmoved n t) : t.bits.length = n.bits.length := by
  unfold OutputStream.bits
  rw [List.length_append, List.length_append, bitsOf_length, bitsOf_length, List.length_take,
    List.length_take, h.length, h.currentBit]
  rfl

theorem Unmoved.refl (n : OutputStream) : Unmoved n n := ⟨rfl, rfl, id⟩

theorem Unmoved.quiet (h : Unmoved n t) (herror : t.errorOccurred = false) : n.errorOccurred = false := by
  by_contra hbad
  cases herror.symm.trans (h.sticky (by simpa using hbad))

theorem closed_unmoved {position start : ℕ} {rest : List ℕ}
    (h : OutputStream.Closed n t width position start rest) : Unmoved n t := by
  rcases h.kept with ⟨_, _, hover⟩
  exact ⟨hover.length, hover.currentBit, hover.sticky⟩

theorem takePositions_ok {β : Type} {next : ℕ × ℕ → Write β} {b : β}
    (h : (OutputStream.takePositions width >>= next) n = .ok b t) :
    ∃ q p rest, n.positions = q :: p :: rest := by
  cases hpositions : n.positions with
  | nil =>
    have hpop : OutputStream.takePositions width n = .error .outOfBounds n := by
      unfold OutputStream.takePositions
      have hposition : OutputStream.getPosition n = .ok n.payload.length n := rfl
      rw [bind_ok hposition]
      apply bind_error
      unfold OutputStream.popPosition
      rw [hpositions]
    rw [bind_error hpop] at h
    cases h
  | cons q rest =>
    cases rest with
    | nil =>
      have hpop : OutputStream.takePositions width n = .error .outOfBounds { n with positions := [] } := by
        unfold OutputStream.takePositions
        have hposition : OutputStream.getPosition n = .ok n.payload.length n := rfl
        rw [bind_ok hposition, bind_ok (OutputStream.popPosition_run hpositions)]
        apply bind_error
        rfl
      rw [bind_error hpop] at h
      cases h
    | cons p rest => exact ⟨q, p, rest, rfl⟩

theorem closeLength_unmoved (h : OutputStream.closeLength width n = .ok a t) : Unmoved n t := by
  unfold OutputStream.closeLength at h
  split at h
  · rcases takePositions_ok h with ⟨q, p, rest, hpositions⟩
    rcases OutputStream.closeContent_run width hpositions with ⟨u, hrun, hu⟩
    cases h.symm.trans hrun
    exact closed_unmoved hu
  · cases h
    exact Unmoved.refl n

theorem closeUnion_unmoved {maxLength : ℕ} (h : OutputStream.closeUnion width maxLength n = .ok a t) :
    Unmoved n t := by
  rcases takePositions_ok h with ⟨q, p, rest, hpositions⟩
  rcases @OutputStream.closeUnion_run n width maxLength p q rest hpositions with ⟨u, hrun, hu⟩
  cases h.symm.trans hrun
  exact closed_unmoved hu

theorem closeMap_unmoved {completed : Bool} (h : OutputStream.closeMap width completed n = .ok a t) :
    Unmoved n t := by
  unfold OutputStream.closeMap at h
  split at h
  · exact closeLength_unmoved h
  · split at h
    · cases h
      exact ⟨rfl, rfl, id⟩
    · cases h
      exact Unmoved.refl n

theorem closeMapEmpty_unmoved {completed : Bool} (h : OutputStream.closeMapEmpty completed n = .ok a t) :
    Unmoved n t := by
  cases completed with
  | true =>
    rcases takePositions_ok h with ⟨q, p, rest, hpositions⟩
    rcases OutputStream.closeMapEmpty_run hpositions with ⟨u, hrun, hu⟩
    cases h.symm.trans hrun
    exact closed_unmoved hu
  | false =>
    cases h
    exact ⟨rfl, rfl, id⟩

end Closing

section Containers
variable {β : Type} {g : ℕ → ℕ} {header : ℕ}

/-- A container: its header, its content, and what is done behind it. -/
theorem enclosed_ends (opening : Write Unit) {content : Write β} (closing : β → Write Unit)
    (hopening : ∀ o, Clean o → o.currentBit = 0 →
      ∃ m, opening o = .ok ⟨⟩ m ∧ Clean m ∧ m.bits.length = o.bits.length + 8 * header)
    (hcontent : Ends content g)
    (hclosing : ∀ b n a t, closing b n = .ok a t → Unmoved n t) :
    Ends (do
      OutputStream.bitAlign
      opening
      let b ← content
      closing b) (fun n => g (toByte n + 8 * header)) := by
  intro o a t ho hrun herror hshort
  have halign := (OutputStream.aligned_appends ho).clean
  rcases hopening _ halign (OutputStream.aligned_currentBit o) with ⟨m, hopen, hm, hposition⟩
  rw [bind_ok (OutputStream.bitAlign_run o), bind_ok hopen] at hrun
  rcases bind_eq_ok.1 hrun with ⟨b, n, hn, hclose⟩
  have hkept := hclosing b n a t hclose
  dsimp only
  rw [hkept.position, hcontent m b n hm hn (hkept.quiet herror) (hkept.length ▸ hshort), hposition,
    aligned_position ho]

theorem openLength_position {o : OutputStream} (ho : Clean o) (hbit : o.currentBit = 0) (width : ℕ) :
    ∃ m, OutputStream.openLength width o = .ok ⟨⟩ m ∧ Clean m ∧
      m.bits.length = o.bits.length + 8 * fieldWidth width := by
  unfold OutputStream.openLength
  split
  · have hopened := entered_opened ho hbit width
    refine ⟨_, openContent_run hbit width, hopened.clean, ?_⟩
    rw [OutputStream.bits_of_aligned hbit,
      OutputStream.bits_of_aligned (show (entered width o).currentBit = 0 from hbit), entered_payload,
      bitsOf_length, bitsOf_length, List.length_append, lengthField_position, Nat.mul_add]
  · rename_i hzero
    rw [not_not.1 hzero]
    exact ⟨o, rfl, ho, rfl⟩

theorem unionHeader_position {o : OutputStream} (ho : Clean o) (hbit : o.currentBit = 0) (order : Bool)
    (lengthWidth typeWidth itsType : ℕ) :
    ∃ m, OutputStream.writeUnionHeader order lengthWidth typeWidth itsType o = .ok ⟨⟩ m ∧ Clean m ∧
      m.bits.length = o.bits.length + 8 * (fieldWidth lengthWidth + fieldWidth typeWidth) := by
  refine ⟨_, writeUnionHeader_run hbit order lengthWidth typeWidth itsType,
    (unionEntered_opened ho hbit order lengthWidth typeWidth itsType).clean, ?_⟩
  rw [OutputStream.bits_of_aligned hbit, OutputStream.bits_of_aligned (unionEntered_bit hbit order _ _ _),
    unionEntered_payload, bitsOf_length, bitsOf_length, List.length_append, unionHeader]
  split
  · rw [List.length_append, lengthField_position, lengthField_position, Nat.mul_add]
  · rw [List.length_append, lengthField_position, lengthField_position, Nat.mul_add,
      Nat.add_comm (fieldWidth typeWidth)]

theorem writeStruct_ends (depl : Option StructDeployment) {fields : Write Unit} (hfields : Ends fields g) :
    Ends (OutputStream.writeStruct depl fields) (fun n => g (contentStart n (structLengthWidth depl))) :=
  enclosed_ends _ (fun _ => OutputStream.closeLength (structLengthWidth depl))
    (fun _ ho hbit => openLength_position ho hbit (structLengthWidth depl)) (unlessError_ends hfields)
    fun _ _ _ _ h => closeLength_unmoved h

theorem writeVariant_ends (depl : Option VariantDeployment) (maxValueType valueType : ℕ)
    {content : Write Unit} (hcontent : Ends content g) :
    Ends (OutputStream.writeVariant depl maxValueType valueType content) (fun n => g (variantStart depl n)) :=
  enclosed_ends _ (fun _ => OutputStream.closeUnion (InputStream.lengthWidth depl) (unionMaxLength depl))
    (fun _ ho hbit => unionHeader_position ho hbit (InputStream.sizeFirst depl)
      (InputStream.lengthWidth depl) (InputStream.typeWidth depl)
      (OutputStream.typeOf maxValueType valueType)) (unlessError_ends hcontent)
    fun _ _ _ _ h => closeUnion_unmoved h

end Containers

section Items
variable {α κ ν : Type}

theorem writeElements_ends {element : α → Write Unit} {after : α → ℕ → ℕ} {value : List α}
    (hwrite : ∀ a ∈ value, Writer (element a)) (helement : ∀ a ∈ value, Ends (element a) (after a)) :
    Ends (OutputStream.writeElements element value) (afterItems after value) := by
  induction value with
  | nil => exact pure_ends PUnit.unit
  | cons item rest ih =>
    intro o a t ho hrun herror hshort
    have hrest := fun b hb => hwrite b (List.mem_cons_of_mem item hb)
    rcases writeElements_cons hrun herror with ⟨m, hfirst, hquiet, hnext⟩
    rcases (hwrite item List.mem_cons_self).ok hfirst ho with ⟨_, _, hom⟩
    rcases (OutputStream.writeElements_writer hrest).ok hnext hom.clean with ⟨_, _, hmt⟩
    rw [ih hrest (fun b hb => helement b (List.mem_cons_of_mem item hb)) m _ t hom.clean hnext herror hshort,
      helement item List.mem_cons_self o _ m ho hfirst hquiet (hmt.length.trans_lt hshort)]
    rfl

theorem checkSize_ends (lengthWidth minLength maxLength size : ℕ) :
    Ends (OutputStream.checkSize lengthWidth minLength maxLength size) id := by
  intro o a t _ hrun herror _
  rw [(checkSize_passed hrun herror).2]
  rfl

theorem writeVector_ends (depl : Option ArrayDeployment) {element : α → Write Unit} {after : α → ℕ → ℕ}
    {value : List α} (hwrite : ∀ a ∈ value, Writer (element a))
    (helement : ∀ a ∈ value, Ends (element a) (after a)) :
    Ends (OutputStream.writeVector depl element value)
      (fun n => afterItems after value (contentStart n (arrayLengthWidth depl))) := by
  have hcontent : Ends (OutputStream.writeArrayContent (arrayLengthWidth depl)
      ((depl.map (·.arrayMinLength)).getD 0) ((depl.map (·.arrayMaxLength)).getD 0xFFFFFFFF) element value)
      (afterItems after value) :=
    (checkSize_ends _ _ _ _).bind (fun _ => unlessError_ends (writeElements_ends hwrite helement))
      (OutputStream.checkSize_writer _ _ _ _) fun _ =>
        OutputStream.respects_unlessError OutputStream.writes_composes (OutputStream.writeElements_writer hwrite)
  exact enclosed_ends _ (fun _ => OutputStream.closeLength (arrayLengthWidth depl))
    (fun _ ho hbit => openLength_position ho hbit (arrayLengthWidth depl)) hcontent
    fun _ _ _ _ h => closeLength_unmoved h

section Entries
variable {key : κ → Write Unit} {mapped : ν → Write Unit} {afterKey : κ → ℕ → ℕ}
  {afterMapped : ν → ℕ → ℕ} {value : List (κ × ν)}

theorem writeEntries_ends (hkey : ∀ e ∈ value, Writer (key e.1))
    (hmapped : ∀ e ∈ value, Writer (mapped e.2)) (hkeyEnds : ∀ e ∈ value, Ends (key e.1) (afterKey e.1))
    (hmappedEnds : ∀ e ∈ value, Ends (mapped e.2) (afterMapped e.2)) :
    Ends (OutputStream.writeEntries key mapped value)
      (afterItems (fun e n => afterMapped e.2 (afterKey e.1 n)) value) := by
  induction value with
  | nil => exact pure_ends true
  | cons entry rest ih =>
    intro o completed t ho hrun herror hshort
    have hkeys := fun e he => hkey e (List.mem_cons_of_mem entry he)
    have hvalues := fun e he => hmapped e (List.mem_cons_of_mem entry he)
    rcases writeEntries_cons hrun herror with ⟨j, k, hfirst, hj, hsecond, hk, hrest⟩
    rcases (hkey entry List.mem_cons_self).ok hfirst ho with ⟨_, _, hoj⟩
    rcases (hmapped entry List.mem_cons_self).ok hsecond hoj.clean with ⟨_, _, hjk⟩
    rcases (OutputStream.writeEntries_writer hkeys hvalues).ok hrest hjk.clean with ⟨_, _, hkt⟩
    have hkshort := hkt.length.trans_lt hshort
    rw [ih hkeys hvalues (fun e he => hkeyEnds e (List.mem_cons_of_mem entry he))
        (fun e he => hmappedEnds e (List.mem_cons_of_mem entry he)) k _ t hjk.clean hrest herror hshort,
      hmappedEnds entry List.mem_cons_self j _ k hoj.clean hsecond hk hkshort,
      hkeyEnds entry List.mem_cons_self o _ j ho hfirst hj (hjk.length.trans_lt hkshort)]
    rfl

theorem writeMap_ends (depl : Option MapDeployment) (hkey : ∀ e ∈ value, Writer (key e.1))
    (hmapped : ∀ e ∈ value, Writer (mapped e.2)) (hkeyEnds : ∀ e ∈ value, Ends (key e.1) (afterKey e.1))
    (hmappedEnds : ∀ e ∈ value, Ends (mapped e.2) (afterMapped e.2)) :
    Ends (OutputStream.writeMap depl key mapped value) (fun n =>
      afterItems (fun e n => afterMapped e.2 (afterKey e.1 n)) value
        (contentStart n (mapLengthWidth depl))) := by
  have hcontent : Ends (OutputStream.writeMapContent (mapLengthWidth depl)
      ((depl.map (·.mapMinLength)).getD 0) ((depl.map (·.mapMaxLength)).getD 0xFFFFFFFF) key mapped value)
      (afterItems (fun e n => afterMapped e.2 (afterKey e.1 n)) value) :=
    (checkSize_ends _ _ _ _).bind (fun _ => writeEntries_ends hkey hmapped hkeyEnds hmappedEnds)
      (OutputStream.checkSize_writer _ _ _ _) fun _ => OutputStream.writeEntries_writer hkey hmapped
  exact enclosed_ends _ (fun completed => OutputStream.closeMap (mapLengthWidth depl) completed)
    (fun _ ho hbit => openLength_position ho hbit (mapLengthWidth depl)) hcontent
    fun _ _ _ _ h => closeMap_unmoved h

theorem writeMapEmpty_ends (hkey : ∀ e ∈ value, Writer (key e.1))
    (hmapped : ∀ e ∈ value, Writer (mapped e.2)) (hkeyEnds : ∀ e ∈ value, Ends (key e.1) (afterKey e.1))
    (hmappedEnds : ∀ e ∈ value, Ends (mapped e.2) (afterMapped e.2)) :
    Ends (OutputStream.writeMapEmpty key mapped value) (fun n =>
      afterItems (fun e n => afterMapped e.2 (afterKey e.1 n)) value (contentStart n 4)) :=
  enclosed_ends _ OutputStream.closeMapEmpty (fun _ ho hbit => openLength_position ho hbit 4)
    (writeEntries_ends hkey hmapped hkeyEnds hmappedEnds) fun _ _ _ _ h => closeMapEmpty_unmoved h

end Entries

end Items

mutual

theorem DataType.writes : ∀ (type : DataType) (value : type.Value), WriteOp (type.write value)
  | .bool, value => .bool value
  | .integer type depl, value => .integer type depl value
  | .rangedInteger minimum maximum depl, value => .rangedInteger minimum maximum depl value
  | .float, value => .float value
  | .double, value => .double value
  | .version, value => .version value.major value.minor
  | .enumerationEmpty base, value => .enumerationEmpty base value
  | .enumeration base depl, value => .enumeration base depl value
  | .string depl, value => .string depl value
  | .byteBuffer depl, value => .byteBuffer depl value
  | .byteVector depl, value => .byteVector depl value
  | .structEmpty fields, values => .structEmpty (fields.fields_write values)
  | .struct depl fields, values => .struct depl (fields.fields_write values)
  | .variant depl alternatives, (valueType, some alternative) =>
    .variant depl alternatives.length valueType (alternatives.alternative_writes alternative)
  | .variant depl alternatives, (valueType, none) =>
    .variant depl alternatives.length valueType .noFields
  | .vector depl element, _ => .vector depl fun value _ => element.writes value
  | .map depl key mapped, _ =>
    .map depl (fun entry _ => key.writes entry.1) fun entry _ => mapped.writes entry.2
  | .mapEmpty key mapped, _ =>
    .mapEmpty (fun entry _ => key.writes entry.1) fun entry _ => mapped.writes entry.2

theorem DataTypes.fields_write : ∀ (types : DataTypes) (values : types.Values),
    WriteOp (types.writeFields values)
  | .nil, _ => .noFields
  | .cons first rest, (value, values) => .fields (first.writes value) (rest.fields_write values)

theorem DataTypes.alternative_writes : ∀ (types : DataTypes) (alternative : types.Alternative),
    WriteOp (types.writeAlternative alternative)
  | .cons first _, .inl value => first.writes value
  | .cons _ rest, .inr alternative => rest.alternative_writes alternative

end

mutual

/-- A value that is written without an error ends where its type says, whatever its nesting. -/
theorem DataType.write_ends : ∀ (type : DataType) (value : type.Value),
    Ends (type.write value) (type.after value)
  | .bool, _ => writeBitValue_ends 4 _ 8 false
  | .integer _ _, _ => writeBitValue_ends _ _ _ _
  | .rangedInteger minimum maximum depl, value => writeRangedInteger_ends minimum maximum depl value
  | .float, value => writeBitValue_ends 4 value 32 false
  | .double, value => writeBitValue_ends 8 value 64 false
  | .version, value => writeVersion_ends value.major value.minor
  | .enumerationEmpty base, value => by
    have hends := writeBitValue_ends base.size value (8 * base.size) base.isSigned
    rw [clampBits_full] at hends
    exact hends
  | .enumeration base depl, value => writeEnumeration_ends base depl value
  | .string depl, value => writeString_ends depl value
  | .byteBuffer depl, value => writeByteBuffer_ends depl value
  | .byteVector depl, value => writeByteVector_ends depl value
  | .structEmpty fields, values =>
    bitAlign_ends.bind (fun _ => unlessError_ends (fields.writeFields_ends values))
      OutputStream.bitAlign_writer fun _ => OutputStream.respects_unlessError OutputStream.writes_composes
        (fields.fields_write values).writer
  | .struct depl fields, values => writeStruct_ends depl (fields.writeFields_ends values)
  | .variant depl alternatives, (valueType, some alternative) =>
    writeVariant_ends depl alternatives.length valueType (alternatives.writeAlternative_ends alternative)
  | .variant depl alternatives, (valueType, none) =>
    writeVariant_ends depl alternatives.length valueType (pure_ends PUnit.unit)
  | .vector depl element, _ =>
    writeVector_ends depl (fun value _ => (element.writes value).writer) fun value _ =>
      element.write_ends value
  | .map depl key mapped, _ =>
    writeMap_ends depl (fun entry _ => (key.writes entry.1).writer)
      (fun entry _ => (mapped.writes entry.2).writer) (fun entry _ => key.write_ends entry.1)
      fun entry _ => mapped.write_ends entry.2
  | .mapEmpty key mapped, _ =>
    writeMapEmpty_ends (fun entry _ => (key.writes entry.1).writer)
      (fun entry _ => (mapped.writes entry.2).writer) (fun entry _ => key.write_ends entry.1)
      fun entry _ => mapped.write_ends entry.2

theorem DataTypes.writeFields_ends : ∀ (types : DataTypes) (values : types.Values),
    Ends (types.writeFields values) (types.afterFields values)
  | .nil, _ => pure_ends PUnit.unit
  | .cons first rest, (value, values) =>
    (first.write_ends value).bind (fun _ => rest.writeFields_ends values) (first.writes value).writer
      fun _ => (rest.fields_write values).writer

theorem DataTypes.writeAlternative_ends : ∀ (types : DataTypes) (alternative : types.Alternative),
    Ends (types.writeAlternative alternative) (types.afterAlternative alternative)
  | .cons first _, .inl value => first.write_ends value
  | .cons _ rest, .inr alternative => rest.writeAlternative_ends alternative

end

end SomeIPRuntime.TypedValues
