import SomeIPRuntime.WireLayout

set_option autoImplicit false

namespace SomeIPRuntime.TypedValues
open Bits ProgramRuns Deployment
open InputStream (Consistent Read position logged)
open OutputStream (Clean Write WriteOp Writer Wrote Appends wire fieldWidth)
open RoundTrip
open ByteVectors (Unwritable writeByteVector_refused writeByteVector_accepted)

/-- What is written at the bit position `n` of a stream of this byte order is read back. -/
def Restores {α : Type} (le : Bool) (n : ℕ) (write : Write Unit) (read : Read α) (value : α) : Prop :=
  ∀ o, Clean o → o.isLittleEndian = le → o.bits.length = n → ReadBack write read value o

section Fields
variable {α : Type} {le : Bool} {n : ℕ} {o t : OutputStream} {s : InputStream}

theorem writeBitValue_ok {size bits : ℕ} {value : BitVec (8 * size)} {isSigned : Bool} {a : Unit}
    (hsize : 0 < size) (ho : Clean o)
    (hrun : OutputStream.writeBitValue size value bits isSigned o = .ok a t)
    (herror : t.errorOccurred = false) :
    0 < clampBits size bits ∧ Appends (wire size (clampBits size bits) o.isLittleEndian value) o t := by
  by_cases hwritable : OutputStream.Writable (clampBits size bits) isSigned
  · rcases OutputStream.writeBitValue_run value ho hwritable with ⟨u, hrun', hu⟩
    cases hrun.symm.trans hrun'
    unfold OutputStream.Writable at hwritable
    exact ⟨by omega, hu⟩
  · have hno := not_not.1 hwritable
    have hslow : ¬ (o.currentBit = 0 ∧ clampBits size bits = size <<< 3) := by
      rw [Nat.shiftLeft_eq]
      omega
    unfold OutputStream.writeBitValue OutputStream.writeField at hrun
    rw [bind_ok (get_run o), if_neg hslow, if_pos hno] at hrun
    cases hrun
    cases herror

theorem field_restores {size bits size' bits' : ℕ} {isSigned isSigned' : Bool} {field : BitVec (8 * size)}
    {cast : BitVec (8 * size') → α} {invalid : Option α} {a : α} (hsize : 0 < size)
    (hclamp : clampBits size' bits' = clampBits size bits)
    (hback : 0 < clampBits size bits → cast (decoded size' (clampBits size bits) le isSigned'
      (wire size (clampBits size bits) le field)) = a) :
    Restores le n (OutputStream.writeBitValue size field bits isSigned)
      (InputStream.assignBits size' bits' isSigned' cast invalid) a := by
  intro o ho hle hn t s hrun herror hs
  rcases writeBitValue_ok hsize ho hrun herror with ⟨hpos, ht⟩
  have hlen := OutputStream.wire_length o.isLittleEndian field (InputStream.clampBits_le size bits)
  have hahead := hs.ahead
  rw [ht.bits, List.drop_left] at hahead
  rcases assignBits_ahead hs.faces.consistent hahead size' bits' isSigned' cast invalid hclamp hlen hpos with
    ⟨u, hread, hmoved, hquiet⟩
  rw [hs.faces.isLittleEndian, hle, hback hpos] at hread
  exact ⟨u, hread, hmoved.faces hs.faces (by rw [ht.bits, List.length_append, hlen]) ht.isLittleEndian,
    hmoved.message, hquiet⟩

theorem bool_restores (value : Bool) (h : value = true → le = false) :
    Restores le n (OutputStream.writeBool value) InputStream.readBool value := by
  refine @field_restores Bool le n 4 8 1 8 false false (if value then 0x1 else 0x0)
    (fun itsValue => itsValue &&& 0x1 == 0x1) none value (by decide) (by decide) fun _ => ?_
  change (decoded 1 8 le false (wire 4 8 le (if value then 0x1 else 0x0)) &&& 0x1 == 0x1) = value
  rw [decoded_bool]
  cases value with
  | false => rfl
  | true =>
    rw [h rfl]
    rfl

theorem integer_restores (type : IntegerType) (depl : Option (IntegerDeployment type.size))
    (value : BitVec (8 * type.size)) (h : IntegerSurvives le type depl value) :
    Restores le n (OutputStream.writeInteger type depl value) (InputStream.readInteger type depl) value := by
  refine field_restores h.1 rfl fun hpos => ?_
  cases depl with
  | none =>
    change decoded type.size (clampBits type.size (8 * type.size)) le type.isSigned
      (wire type.size (clampBits type.size (8 * type.size)) le value) = value
    rw [clampBits_full]
    exact decoded_full h.1 le _ value
  | some d =>
    have hd := h.2 d rfl
    exact (decoded_iff hd.1 hpos (InputStream.clampBits_le _ _)).2 hd.2

theorem rangedInteger_restores (minimum maximum : ℤ) (depl : Option (IntegerDeployment 4))
    (value before : BitVec 32) (h : IntegerSurvives le int32 depl value) :
    Restores le n (OutputStream.writeRangedInteger minimum maximum depl value)
      ((·.getD before) <$> InputStream.readRangedInteger minimum maximum depl) value := by
  intro o ho hle hn t s hrun herror hs
  unfold OutputStream.writeRangedInteger at hrun
  split at hrun
  · rename_i hrange
    rcases integer_restores int32 depl value h o ho hle hn t s hrun herror hs with ⟨u, hread, hu⟩
    have hranged : InputStream.readRangedInteger minimum maximum depl s = .ok (some value) u := by
      refine (bind_ok hread).trans ?_
      rw [if_neg (by omega)]
      change (if u.errorOccurred = true then _ else _ : Read (Option (BitVec 32))) u = _
      rw [if_neg (hu.errorOccurred ▸ Bool.false_ne_true)]
      rfl
    exact ⟨u, map_eq_ok.2 ⟨some value, hranged, rfl⟩, hu⟩
  · cases hrun
    cases herror

theorem aligned_same (ho : Clean o) (hn : o.bits.length % 8 = 0) : OutputStream.aligned o = o := by
  have hlen := ho.bits_length
  have hbit := ho.bit
  unfold OutputStream.aligned
  rw [if_neg (by omega)]

theorem floating_restores {size : ℕ} (hsize : 0 < size) (value : BitVec (8 * size)) (hn : n % 8 = 0) :
    Restores le n (OutputStream.writeBitValue size value (8 * size) false)
      (do
        InputStream.bitAlign
        InputStream.assignBits size (8 * size) false id none) value := by
  intro o ho hle hlen t s hrun herror hs
  have hsame := aligned_same ho (hlen ▸ hn)
  have hstart := hs.aligned ho (by
    rw [hsame]
    exact (writeBitValue_ok hsize ho hrun herror).2.earlier)
  rw [hsame] at hstart
  have hfull : 0 < clampBits size (8 * size) → id (decoded size (clampBits size (8 * size)) le false
      (wire size (clampBits size (8 * size)) le value)) = value := by
    intro _
    rw [clampBits_full]
    exact decoded_full hsize le false value
  rcases field_restores (n := n) hsize rfl hfull o ho hle hlen t _ hrun herror hstart with ⟨u, hread, hu⟩
  exact ⟨u, (bind_ok (InputStream.bitAlign_run s)).trans hread,
    hu.faces, hu.message.trans (faces_aligned hs.faces ho).2.1, hu.errorOccurred⟩

theorem ignoreBits_ahead (hs : Consistent s) {xs : List Bool} (hx : Ahead s xs) {size bits : ℕ}
    (isSigned : Bool) (hclamp : clampBits size bits = xs.length) (hpos : 0 < xs.length) :
    ∃ u, InputStream.ignoreBits size bits isSigned s =
        .ok (decoded size xs.length s.isLittleEndian isSigned xs) u ∧ Moved xs.length s u ∧
      u.errorOccurred = s.errorOccurred := by
  have hle : xs.length ≤ 8 * size := by
    rw [← hclamp]
    exact InputStream.clampBits_le size bits
  rcases readField_ahead (s := logged (.ignore xs.length) s) (InputStream.logged_consistent hs) hx isSigned
    hpos hle with ⟨u, hrun, hu, herror⟩
  refine ⟨{ u with failed := u.failed || false }, ?_, ⟨⟨hu.consistent.bit, hu.consistent.inside,
    hu.consistent.pending⟩, hu.position, hu.isLittleEndian, hu.message⟩, herror⟩
  rw [InputStream.ignoreBits_run, hclamp, hrun]
  rfl

/-- A full width number that is read without a look at the error. -/
theorem number_ignored {m : OutputStream} {size : ℕ} (hsize : 0 < size) (value : BitVec (8 * size))
    (ho : Clean o) (hrun : OutputStream.writeBitValue size value (8 * size) false o = .ok ⟨⟩ m)
    (herror : m.errorOccurred = false) (hm : m.bits <+: t.bits) (hs : Receives s o t) :
    ∃ u, InputStream.ignoreBits size (8 * size) false s = .ok value u ∧ Arrived s u m ∧ Receives u m t := by
  rcases writeBitValue_ok hsize ho hrun herror with ⟨hpos, hom⟩
  have hlen := OutputStream.wire_length o.isLittleEndian value (InputStream.clampBits_le size (8 * size))
  have hahead := (hs.first hom.earlier hm).ahead
  rw [hom.bits, List.drop_left] at hahead
  rcases ignoreBits_ahead hs.faces.consistent hahead false hlen.symm (hlen.symm ▸ hpos) with
    ⟨u, hread, hmoved, hquiet⟩
  rw [hlen, hs.faces.isLittleEndian, clampBits_full, decoded_full hsize] at hread
  have hu : Arrived s u m := ⟨hmoved.appended hs.faces hom, hmoved.message, hquiet.trans hs.errorOccurred⟩
  exact ⟨u, hread, hu, hs.rest hom.earlier hm hu⟩

theorem version_restores (value : InputStream.Version) :
    Restores le n (OutputStream.writeVersion value.major value.minor) InputStream.readVersion value := by
  intro o ho _ _ t s hrun herror hs
  have halign := OutputStream.aligned_appends ho
  change (OutputStream.bitAlign >>= _) o = _ at hrun
  rw [bind_ok (OutputStream.bitAlign_run o)] at hrun
  rcases bind_eq_ok.1 hrun with ⟨_, m, hmajor, hminor⟩
  rcases (OutputStream.writeBitValue_addsBits 4 value.major 32 false).writer.ok hmajor halign.clean with
    ⟨_, _, hm⟩
  rcases (OutputStream.writeBitValue_addsBits 4 value.minor 32 false).writer.ok hminor hm.clean with
    ⟨_, _, ht⟩
  have hshort := hs.short ht.clean
  have hmt := ht.bits hshort
  have hstart := hs.aligned ho ((hm.bits (ht.length.trans_lt hshort)).trans hmt)
  rcases number_ignored (show 0 < 4 by decide) value.major halign.clean hmajor (quiet_before ht herror) hmt
    hstart with ⟨u, hread, hsu, hu⟩
  rcases number_ignored (show 0 < 4 by decide) value.minor hm.clean hminor herror (List.prefix_refl _) hu with
    ⟨v, hread', huv, _⟩
  refine ⟨v, ?_, ⟨huv.faces, huv.message.trans (hsu.message.trans (faces_aligned hs.faces ho).2.1),
    huv.errorOccurred⟩⟩
  change (InputStream.bitAlign >>= _) s = _
  rw [bind_ok (InputStream.bitAlign_run s)]
  exact (bind_ok hread).trans (bind_ok hread')

theorem enumerationEmpty_restores (base : IntegerType) (value : BitVec (8 * base.size))
    (hsize : 0 < base.size) :
    Restores le n (OutputStream.writeEnumerationEmpty base value) (InputStream.readEnumeration base none)
      value :=
  integer_restores base none value ⟨hsize, nofun⟩

theorem intermediate_restores {base : IntegerType} (value : BitVec (8 * base.size)) (size : ℕ) {bits : ℕ}
    (isSigned : Bool) (invalid : Option (BitVec (8 * base.size))) (hsize : 0 < size)
    (hbits : 8 * size ≤ bits) (hvalue : value.toNat < 2 ^ (8 * size)) :
    Restores le n (OutputStream.writeBitValue size (value.setWidth (8 * size)) bits isSigned)
      (InputStream.assignBits size bits isSigned (·.setWidth _) invalid) value := by
  refine field_restores hsize rfl fun _ => ?_
  have hclamp : clampBits size bits = 8 * size := by
    rw [clampBits_eq]
    exact Nat.min_eq_right hbits
  rw [hclamp, decoded_full hsize]
  exact (truncated_eq_iff value).2 hvalue

theorem enumeration_restores (base : IntegerType) (depl : Option (EnumerationDeployment base.size))
    (value : BitVec (8 * base.size)) (hsize : 0 < base.size) (hd : Deployable base depl value)
    (hheld : Held base depl le value) :
    Restores le n (OutputStream.writeEnumeration base depl value)
      (InputStream.readEnumeration base depl) value := by
  cases depl with
  | none =>
    rcases base with ⟨size, isSigned⟩
    change size = 1 at hheld
    subst hheld
    refine field_restores Nat.one_pos rfl fun _ => ?_
    rw [show OutputStream.staticCast ⟨1, isSigned⟩ 8 value = _ from
      OutputStream.staticCast_narrow value le_rfl]
    exact (decoded_full Nat.one_pos le isSigned _).trans (BitVec.setWidth_eq value)
  | some d =>
    have hwidth := Nat.shiftRight_eq_div_pow d.bits 3
    have hmax := (hd d rfl).2.1
    unfold Held at hheld
    dsimp only at hheld
    by_cases hone : d.bits >>> 3 = 1
    · rw [if_pos hone] at hheld
      rw [writeEnumeration_byte value hone hsize, readEnumeration_byte hone]
      exact intermediate_restores value 1 d.isSigned d.invalid Nat.one_pos (by omega) hheld
    · rw [if_neg hone] at hheld
      by_cases htwo : d.bits >>> 3 = 2
      · rw [if_pos htwo] at hheld
        rw [writeEnumeration_short value htwo (by omega), readEnumeration_short htwo]
        exact intermediate_restores value 2 d.isSigned d.invalid Nat.two_pos (by omega) hheld
      · rw [if_neg htwo] at hheld
        rw [writeEnumeration_backing value hone htwo, readEnumeration_backing hone htwo]
        have hmax := (hd d rfl).2
        have hclamp : clampBits base.size d.bits = d.bits := by
          rw [clampBits_eq]
          exact Nat.min_eq_left hmax.1
        refine field_restores hsize rfl fun hpos => ?_
        rw [hclamp] at hpos ⊢
        exact (decoded_iff hmax.2 hpos hmax.1).2 hheld

end Fields

section Bytes
variable {le : Bool} {n : ℕ}

theorem string_restores (depl : Option StringDeployment) (value before : List Byte)
    (hwidth : LengthWidth (stringLengthWidth depl)) (h : Transmissible depl value) :
    Restores le n (OutputStream.writeString depl value) (InputStream.readString depl before) value := by
  intro o ho _ _ t s hrun herror hs
  rcases (WriteOp.string depl value).writer.ok hrun ho with ⟨_, _, hwrote⟩
  have hshort := hs.short hwrote.clean
  rcases writeString_ok hrun herror hshort with
    ⟨bytes, hbytes, ⟨hzero, hlong, -⟩ | ⟨padding, htakes, hfits, rfl⟩⟩
  · rcases h.takes hbytes with ⟨padding, htakes⟩
    unfold Takes at htakes
    rw [if_pos hzero] at htakes
    omega
  · have hsize : bytes.length + padding < 2 ^ 32 := by
      change List.length (_ ++ _) < _ at hshort
      rw [List.length_append, contentLength] at hshort
      omega
    rcases stringContent_read hwidth ho htakes hfits hs before with
      ⟨more, isError, taken, u, hdecode, hread, _, hu⟩
    cases hdecode.symm.trans ((decodeString_back_iff hbytes htakes hsize more).2 h)
    exact ⟨u, hread, hu rfl⟩

theorem byteBuffer_restores (depl : Option ByteBufferDeployment) (value : List Byte)
    (hvalue : value.length < 2 ^ 32) (hcut : cut (byteBufferMaxLength depl) value.length = value.length) :
    Restores le n (OutputStream.writeByteBuffer depl value) (InputStream.readByteBuffer depl) value := by
  intro o ho _ _ t s hrun herror hs
  rcases (WriteOp.byteBuffer depl value).writer.ok hrun ho with ⟨_, _, hwrote⟩
  rcases byte_buffer_round_trips depl value hvalue ho (quiet_before hwrote herror) with ⟨t', hrun', _, hback⟩
  cases hrun.symm.trans hrun'
  rcases hback herror s hs with ⟨u, hread, hu⟩
  rw [hcut, List.take_length] at hread
  exact ⟨u, hread, hu⟩

def vectorBytes (depl : Option ArrayDeployment) (value : List Byte) (o : OutputStream) : OutputStream :=
  { counted (arrayLengthWidth depl) value.length o with
    payload := (counted (arrayLengthWidth depl) value.length o).payload ++ value }

theorem byteVector_written (depl : Option ArrayDeployment) {value : List Byte} {o t : OutputStream}
    (hrun : OutputStream.writeByteVector depl value o = .ok ⟨⟩ t) (herror : t.errorOccurred = false)
    (hshort : t.payload.length < 2 ^ 32) :
    VectorAllowed depl value.length ∧ ¬ OutputStream.TooLarge value.length (arrayLengthWidth depl) ∧
      t.bits = (vectorBytes depl value o).bits ∧ t.isLittleEndian = (vectorBytes depl value o).isLittleEndian := by
  by_cases hno : Unwritable depl value.length o
  · rcases writeByteVector_refused hno with ⟨u, hrun', hu⟩
    cases hrun.symm.trans hrun'
    cases herror.symm.trans hu
  · rcases writeByteVector_accepted hno with ⟨hrun', hlarge⟩
    cases hrun.symm.trans hrun'
    have hlength : value.length % 2 ^ 32 = value.length := by
      apply Nat.mod_eq_of_lt
      change List.length (_ ++ _) < _ at hshort
      rw [List.length_append] at hshort
      omega
    rw [herror, hlength] at hlarge
    refine ⟨not_not.1 (not_or.1 hno).2, of_decide_eq_false hlarge.symm, ?_, rfl⟩
    unfold ByteVectors.bytesWritten ByteVectors.numbered
    rw [hlength]
    rfl

theorem byteVector_restores (depl : Option ArrayDeployment) (value : List Byte)
    (hwidth : LengthWidth (arrayLengthWidth depl)) :
    Restores le n (OutputStream.writeByteVector depl value) (InputStream.readByteVector depl) value := by
  intro o ho _ _ t s hrun herror hs
  rcases (WriteOp.byteVector depl value).writer.ok hrun ho with ⟨_, _, hwrote⟩
  have hshort := hs.short hwrote.clean
  rcases byteVector_written depl hrun herror hshort with ⟨hallowed, hfits, hbits, hendian⟩
  have hdata := OutputStream.writeRaw_appends (counted_appends (arrayLengthWidth depl) value.length ho).clean
    (counted_currentBit _ _ o) value
  have hs' : Receives s o (vectorBytes depl value o) := ⟨hs.faces, hs.errorOccurred, hbits ▸ hs.ahead⟩
  unfold VectorAllowed SizeAllowed at hallowed
  have hcount : ∃ m, InputStream.readByteCount (arrayLengthWidth depl) (ByteVectors.arrayMaxLength depl)
      (InputStream.aligned s) = .ok value.length m ∧
      Receives m (counted (arrayLengthWidth depl) value.length o) (vectorBytes depl value o) ∧
      m.message = s.message := by
    unfold InputStream.readByteCount
    rcases hwidth with hzero | hwidth
    · rw [if_neg (not_not_intro hzero)] at hallowed
      rw [hzero, counted_zero]
      rcases faces_aligned hs.faces ho with ⟨_, hmessage, _⟩
      have hstart := hs'.aligned ho ((counted_appends _ _ ho).earlier.trans hdata.earlier)
      exact ⟨_, congrArg (fun n => EStateM.Result.ok n _) hallowed, hstart, hmessage⟩
    · rw [if_pos hwidth.ne_zero]
      have hlt : value.length < 2 ^ (8 * arrayLengthWidth depl) := by
        have hlength := hs'.short hdata.clean
        change List.length (_ ++ _) < _ at hlength
        rw [List.length_append] at hlength
        unfold OutputStream.TooLarge at hfits
        rcases hwidth with h | h | h <;> rw [h] at hfits ⊢ <;> omega
      exact counted_receives hwidth hlt ho hdata.earlier hs' true 0
  rcases hcount with ⟨m, hcount, hm, hmessage⟩
  rcases hm.bytes (counted_appends _ _ ho).clean (counted_currentBit _ _ o) hdata with
    ⟨more, hmore, hsize, hu⟩
  refine ⟨InputStream.skipped value.length m, ?_, ⟨hu.faces.consistent, ?_, ?_⟩,
    hu.message.trans hmessage, hu.errorOccurred⟩
  · have hin := hm.faces.consistent.inside
    have hmax : ¬ ((arrayLengthWidth depl > 0 ∧ (value.length < (depl.map (·.arrayMinLength)).getD 0 ∨
        (ByteVectors.arrayMaxLength depl ≠ 0 ∧ value.length > ByteVectors.arrayMaxLength depl))) ∨
        value.length > m.remaining) := by
      change (if _ then _ ∧ ¬ (ByteVectors.arrayMaxLength depl ≠ 0 ∧
        value.length > ByteVectors.arrayMaxLength depl) else _) at hallowed
      split at hallowed <;> omega
    rw [ByteVectors.readByteVector_run hcount, if_neg hmax, if_neg (hm.errorOccurred ▸ Bool.false_ne_true),
      InputStream.readBytes_run, if_pos (Or.inl (by omega)), hmore, List.take_left]
  · rw [hbits]
    exact hu.faces.position
  · rw [hendian]
    exact hu.faces.isLittleEndian

end Bytes

end SomeIPRuntime.TypedValues
