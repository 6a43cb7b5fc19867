import SomeIPRuntime.EnumerationRoundTrip
import SomeIPRuntime.Received

set_option autoImplicit false

namespace SomeIPRuntime
open Bits ProgramRuns

namespace OutputStream

def eightByteZeroString : List Byte := [0]

/-- `_writeRaw(_data, _size)`: what is behind the end of the array must not be read. -/
def writeRawFrom (data : List Byte) (size : ℕ) : Write Unit :=
  if size ≤ data.length then writeRaw (data.take size) else throw .outOfBounds

def Accepted (boundary : ℕ) : Prop :=
  boundary > 0 ∧ boundary ≤ 8 ∧ (boundary % 2 = 0 ∨ boundary = 1)

instance (boundary : ℕ) : Decidable (Accepted boundary) := inferInstanceAs (Decidable (_ ∧ _))

def necessary (boundary size : ℕ) : ℕ :=
  let mask := boundary - 1
  ((mask - (size &&& mask)) + 1) &&& mask

def align (boundary : ℕ) : Write Unit := do
  if Accepted boundary then
    let o ← get
    writeRawFrom eightByteZeroString (necessary boundary o.payload.length)

end OutputStream

/-- `InputStream::align` -/
def InputStream.align (_boundary : ℕ) : InputStream.Read Unit := pure ()

namespace OutputStream

/-- Fewer bytes than the boundary are appended, all of them zeros of the array, and the size is then
    a multiple of the boundary. -/
def AlignsWell (boundary : ℕ) (o : OutputStream) : Prop :=
  ∃ padding : List Byte,
    align boundary o = .ok ⟨⟩ { o with payload := o.payload ++ padding } ∧
    padding.length < boundary ∧ (∀ b ∈ padding, b = 0) ∧ boundary ∣ (o.payload ++ padding).length

/-- At most one byte is missing, and the boundary 6 does not take a wrong mask. -/
def Fitting (boundary size : ℕ) : Prop :=
  (size % boundary = 0 ∨ size % boundary = boundary - 1) ∧ (boundary = 6 → 4 ≤ size % 8)

def Silent (boundary size : ℕ) : Prop :=
  ¬ Accepted boundary ∨
    if boundary = 6 then size % 8 = 4 ∨ size % 8 = 6 else size % boundary = 0

instance (boundary size : ℕ) : Decidable (Fitting boundary size) :=
  inferInstanceAs (Decidable (_ ∧ _))

instance (boundary size : ℕ) : Decidable (Silent boundary size) :=
  inferInstanceAs (Decidable (_ ∨ _))

theorem accepted_cases {boundary : ℕ} (h : Accepted boundary) :
    boundary = 1 ∨ boundary = 2 ∨ boundary = 4 ∨ boundary = 6 ∨ boundary = 8 := by
  rcases h with ⟨hpos, hle, heven⟩
  omega

theorem necessary_residue {boundary : ℕ} (h : Accepted boundary) (size : ℕ) :
    necessary boundary size = necessary boundary (size % 8) := by
  have hmask : boundary - 1 < 2 ^ 3 := by
    have hle := h.2.1
    omega
  have hand : size &&& (boundary - 1) = size % 8 &&& (boundary - 1) := by
    have hself : (boundary - 1) &&& (2 ^ 3 - 1) = boundary - 1 := by
      rw [Nat.and_two_pow_sub_one_eq_mod, Nat.mod_eq_of_lt hmask]
    rw [← hself, Nat.and_comm (boundary - 1), ← Nat.and_assoc, Nat.and_two_pow_sub_one_eq_mod,
      ← Nat.and_assoc, Nat.and_two_pow_sub_one_eq_mod, Nat.mod_mod]
  change (boundary - 1 - (size &&& (boundary - 1)) + 1) &&& (boundary - 1) = _
  rw [hand]
  rfl

theorem necessary_power {boundary : ℕ} (h : Accepted boundary) (hne : boundary ≠ 6) (size : ℕ) :
    necessary boundary size =
      if size % boundary = 0 then 0 else boundary - size % boundary := by
  have hfinite : ∀ r < 8, necessary 1 r = 0 ∧
      necessary 2 r = (if r % 2 = 0 then 0 else 2 - r % 2) ∧
      necessary 4 r = (if r % 4 = 0 then 0 else 4 - r % 4) ∧
      necessary 8 r = if r = 0 then 0 else 8 - r := by decide
  rcases hfinite (size % 8) (Nat.mod_lt _ (by decide)) with ⟨hone, htwo, hfour, height⟩
  rw [necessary_residue h]
  rcases accepted_cases h with rfl | rfl | rfl | rfl | rfl
  · rw [hone, Nat.mod_one, if_pos rfl]
  · rw [htwo, Nat.mod_mod_of_dvd size (by decide)]
  · rw [hfour, Nat.mod_mod_of_dvd size (by decide)]
  · exact absurd rfl hne
  · exact height

theorem necessary_six (size : ℕ) :
    necessary 6 size = [4, 5, 4, 5, 0, 1, 0, 1].getD (size % 8) 0 := by
  have hfinite : ∀ r < 8, necessary 6 r = [4, 5, 4, 5, 0, 1, 0, 1].getD r 0 := by decide
  rw [necessary_residue (by decide)]
  exact hfinite _ (Nat.mod_lt _ (by decide))

theorem align_rejected {boundary : ℕ} (h : ¬ Accepted boundary) (o : OutputStream) :
    align boundary o = .ok ⟨⟩ o := by
  unfold align
  rw [if_neg h]
  rfl

theorem align_run {boundary : ℕ} (h : Accepted boundary) {o : OutputStream}
    (hle : necessary boundary o.payload.length ≤ 1) :
    align boundary o = .ok ⟨⟩ { o with
      payload := o.payload ++ List.replicate (necessary boundary o.payload.length) 0 } := by
  have htake : eightByteZeroString.take (necessary boundary o.payload.length) =
      List.replicate (necessary boundary o.payload.length) 0 := by
    generalize necessary boundary o.payload.length = count at hle
    rcases Nat.le_one_iff_eq_zero_or_eq_one.1 hle with rfl | rfl <;> rfl
  unfold align
  rw [if_pos h, bind_ok (get_run o)]
  unfold writeRawFrom
  rw [if_pos (show _ ≤ eightByteZeroString.length from hle), htake]
  rfl

theorem align_outOfBounds {boundary : ℕ} (h : Accepted boundary) {o : OutputStream}
    (hlt : 1 < necessary boundary o.payload.length) : align boundary o = .error .outOfBounds o := by
  unfold align
  rw [if_pos h, bind_ok (get_run o)]
  unfold writeRawFrom
  rw [if_neg (show ¬ _ ≤ eightByteZeroString.length from Nat.not_le.2 hlt)]
  rfl

theorem six_cases (size : ℕ) :
    size % 8 < 4 ∧ 4 ≤ necessary 6 size ∧ necessary 6 size < 6 ∨
      (size % 8 = 4 ∨ size % 8 = 6) ∧ necessary 6 size = 0 ∨
      (size % 8 = 5 ∨ size % 8 = 7) ∧ necessary 6 size = 1 := by
  have hresidue : size % 8 < 8 := Nat.mod_lt _ (by decide)
  rw [necessary_six]
  generalize size % 8 = r at hresidue
  interval_cases r <;> decide

theorem fitting_iff {boundary : ℕ} (h : Accepted boundary) (size : ℕ) :
    Fitting boundary size ↔ necessary boundary size ≤ 1 ∧
      boundary ∣ size + necessary boundary size := by
  unfold Fitting
  by_cases hsix : boundary = 6
  · subst hsix
    have hcases := six_cases size
    simp only [forall_const]
    omega
  · rw [necessary_power h hsix, and_iff_left fun heq => absurd heq hsix]
    have hpos := h.1
    have hlt : size % boundary < boundary := Nat.mod_lt _ hpos
    have hsplit := Nat.div_add_mod size boundary
    have hnext : boundary ∣ size + (boundary - size % boundary) := by
      refine ⟨size / boundary + 1, ?_⟩
      rw [Nat.mul_add, Nat.mul_one]
      omega
    split_ifs with hzero
    · exact iff_of_true (Or.inl hzero) ⟨Nat.zero_le 1, Nat.dvd_of_mod_eq_zero hzero⟩
    · rw [and_iff_left hnext]
      omega

theorem silent_iff {boundary : ℕ} (h : Accepted boundary) (size : ℕ) :
    Silent boundary size ↔ necessary boundary size = 0 := by
  unfold Silent
  rw [or_iff_right (not_not.2 h)]
  by_cases hsix : boundary = 6
  · subst hsix
    have hcases := six_cases size
    rw [if_pos rfl]
    omega
  · have hlt : size % boundary < boundary := Nat.mod_lt _ h.1
    rw [if_neg hsix, necessary_power h hsix]
    split_ifs with hzero
    · exact iff_of_true hzero rfl
    · omega

theorem necessary_lt {boundary : ℕ} (h : Accepted boundary) (size : ℕ) :
    necessary boundary size < boundary := by
  by_cases hsix : boundary = 6
  · subst hsix
    have hcases := six_cases size
    omega
  · have hpos := h.1
    rw [necessary_power h hsix]
    split_ifs with hzero <;> omega

/-- A call aligns well exactly if at most one byte is missing. -/
theorem alignsWell_iff {boundary : ℕ} (h : Accepted boundary) (o : OutputStream) :
    AlignsWell boundary o ↔ Fitting boundary o.payload.length := by
  rw [fitting_iff h]
  constructor
  · rintro ⟨padding, hrun, _, _, hdvd⟩
    have hle : necessary boundary o.payload.length ≤ 1 := by
      by_contra hlt
      rw [align_outOfBounds h (Nat.not_le.1 hlt)] at hrun
      cases hrun
    rw [align_run h hle] at hrun
    injection hrun with _ hstate
    have hlength := congrArg (fun o => o.payload.length) hstate
    rw [← hlength, List.length_append, List.length_replicate] at hdvd
    exact ⟨hle, hdvd⟩
  · rintro ⟨hle, hdvd⟩
    refine ⟨_, align_run h hle, ?_, fun b hb => List.eq_of_mem_replicate hb, ?_⟩
    · rw [List.length_replicate]
      exact necessary_lt h _
    · rw [List.length_append, List.length_replicate]
      exact hdvd

end OutputStream

namespace RoundTrip
open Deployment
open InputStream (Consistent Read position)
open OutputStream (Clean Write Wrote Accepted Silent AlignsWell)

/-- A value with its writer and its reader. It is read where it is written exactly if it is in step
    there, which depends on the byte order and the bit position. -/
structure Codec where
  Value : Type
  value : Value
  write : Write Unit
  read : Read Value
  after : ℕ → ℕ
  InStep : Bool → ℕ → Prop
  written : ∀ o, Clean o → ∃ t extra new, write o = .ok ⟨⟩ t ∧ Wrote o t extra new ∧
    t.bits.length = after o.bits.length
  back : ∀ o t s, Clean o → write o = .ok ⟨⟩ t → InStep o.isLittleEndian o.bits.length →
    Faces s o → Carries s.message t → s.errorOccurred = false →
      ∃ u, read s = .ok value u ∧ Arrived s u t
  exact : ∀ o t s u, Clean o → write o = .ok ⟨⟩ t → Faces s o → Carries s.message t →
    read s = .ok value u → u.currentBit = t.currentBit → InStep o.isLittleEndian o.bits.length
  inside : ∀ s u, Consistent s → read s = .ok value u → Consistent u ∧ u.message = s.message

inductive Item
  | value (codec : Codec)
  | align (boundary : ℕ)

def Item.write : Item → Write Unit
  | value codec => codec.write
  | align boundary => OutputStream.align boundary

def Item.Reads : Item → InputStream → InputStream → Prop
  | value codec, s, u => codec.read s = .ok codec.value u ∧ u.errorOccurred = false
  | align boundary, s, u => InputStream.align boundary s = .ok ⟨⟩ u

def writeItems : List Item → Write Unit
  | [] => pure ()
  | item :: rest => do
    item.write
    writeItems rest

def InStepWith : List Item → OutputStream → InputStream → Prop
  | [], _, _ => True
  | item :: rest, o, s => ∃ t u, item.write o = .ok ⟨⟩ t ∧ item.Reads s u ∧
    (u.current, u.currentBit) = (t.payload.length, t.currentBit) ∧ InStepWith rest t u

/-- The bit position behind items that are written at bit position `n` without any padding. -/
def behindAll (n : ℕ) : List Item → ℕ
  | [] => n
  | .value codec :: rest => behindAll (codec.after n) rest
  | .align _ :: rest => behindAll n rest

def Unpadded (P : Codec → ℕ → Prop) (n : ℕ) : List Item → Prop
  | [] => True
  | .value codec :: rest => P codec n ∧ Unpadded P (codec.after n) rest
  | .align boundary :: rest => Silent boundary (n / 8) ∧ Unpadded P n rest

abbrev ItemsInStep (isLittleEndian : Bool) : ℕ → List Item → Prop :=
  Unpadded fun codec n => codec.InStep isLittleEndian n

/-- The items are written to a fresh stream, which is flushed, and read back. -/
def ItemsStayInStep (isLittleEndian : Bool) (items : List Item) : Prop :=
  ∃ t message u, writeItems items (OutputStream.create isLittleEndian) = .ok ⟨⟩ t ∧
    OutputStream.flush t = .ok message u ∧
    InStepWith items (OutputStream.create isLittleEndian)
      (InputStream.create message isLittleEndian)

def BasicValue.codec (v : BasicValue) : Codec where
  Value := v.type.Value
  value := v.value
  write := v.type.write v.value
  read := v.type.read
  after n := v.type.after n
  InStep isLittleEndian n := v.type.InStep isLittleEndian n v.value
  written o ho := by
    rcases value_stepped ho v with ⟨t, xs, ht⟩
    exact ⟨t, [], [], ht.run, ht.appends.adds.wrote, ht.length⟩
  back o t s ho hrun hstep hs hc herror := by
    rcases value_stepped ho v with ⟨t', xs, ht⟩
    cases hrun.symm.trans ht.run
    rcases ht.back hstep s hs hc with ⟨u, hread, hu, hmessage, hquiet⟩
    exact ⟨u, hread, hu, hmessage, hquiet herror⟩
  exact o t s u ho hrun hs hc hread hbit := by
    rcases value_stepped ho v with ⟨t', xs, ht⟩
    cases hrun.symm.trans ht.run
    exact out_of_step ho ht hs hc hread hbit
  inside s u hs hread := read_consistent hs v.type hread

section Fields
variable {α : Type} {size bits : ℕ} {isSigned : Bool}

def fieldCodec (write : Write Unit) (read : Read α) (value : α) (field : BitVec (8 * size))
    (cast : BitVec (8 * size) → α) (invalid : Option α)
    (hwrite : write = OutputStream.writeBitValue size field bits isSigned)
    (hread : read = InputStream.assignBits size bits isSigned cast invalid)
    (hpos : 0 < clampBits size bits) (hwritable : OutputStream.Writable (clampBits size bits) isSigned) :
    Codec where
  Value := α
  value := value
  write := write
  read := read
  after n := n + clampBits size bits
  InStep isLittleEndian _ := cast (decoded size (clampBits size bits) isLittleEndian isSigned
    (OutputStream.wire size (clampBits size bits) isLittleEndian field)) = value
  written o ho := by
    obtain ⟨t, hrun, ht⟩ := OutputStream.writeBitValue_run field ho hwritable
    refine ⟨t, [], [], hwrite ▸ hrun, ht.adds.wrote, ?_⟩
    rw [ht.bits, List.length_append, OutputStream.wire_length _ _ (InputStream.clampBits_le size bits)]
  back o t s ho hrun hstep hs hc herror := by
    subst hwrite hread
    obtain ⟨t', hrun', ht⟩ := OutputStream.writeBitValue_run field ho hwritable
    cases hrun.symm.trans hrun'
    obtain ⟨u, hback, hu, hmessage, hquiet⟩ := assignBits_carried size bits hs ht isSigned cast invalid rfl
      (OutputStream.wire_length _ _ (InputStream.clampBits_le size bits)) hpos hc
    exact ⟨u, hstep ▸ hback, hu, hmessage, hquiet⟩
  exact o t s u ho hrun hs hc hback hbit := by
    subst hwrite hread
    obtain ⟨t', hrun', ht⟩ := OutputStream.writeBitValue_run field ho hwritable
    cases hrun.symm.trans hrun'
    obtain ⟨v, hback', _⟩ := assignBits_carried size bits hs ht isSigned cast invalid rfl
      (OutputStream.wire_length _ _ (InputStream.clampBits_le size bits)) hpos hc
    cases hback'.symm.trans hback
    rfl
  inside s u hs hback := by
    subst hread
    exact ⟨(InputStream.assignBits_consistent hs hback).1,
      ((InputStream.advances_primitives.assign size bits isSigned cast invalid).ok hback).message⟩

def integerCodec (type : IntegerType) (depl : Option (IntegerDeployment type.size))
    (value : BitVec (8 * type.size))
    (hpos : 0 < clampBits type.size ((depl.map (·.bits)).getD (8 * type.size)))
    (hwritable : OutputStream.Writable (clampBits type.size ((depl.map (·.bits)).getD (8 * type.size)))
      type.isSigned) : Codec :=
  fieldCodec (OutputStream.writeInteger type depl value) (InputStream.readInteger type depl) value value id _
    rfl rfl hpos hwritable

def enumerationCodec (base : IntegerType) (d : EnumerationDeployment base.size)
    (value : BitVec (8 * base.size)) (hsize : 0 < base.size) (hmin : (if d.isSigned then 2 else 1) ≤ d.bits)
    (hmax : d.bits ≤ 8 * base.size) : Codec :=
  if hone : d.bits >>> 3 = 1 then
    have hclamp := clampBits_deployed Nat.one_pos hmin
    fieldCodec (OutputStream.writeEnumeration base (some d) value) (InputStream.readEnumeration base (some d))
      value (show BitVec (8 * 1) from value.setWidth 8) (·.setWidth _) d.invalid
      (writeEnumeration_byte value hone hsize) (readEnumeration_byte hone) hclamp.1 hclamp.2
  else if htwo : d.bits >>> 3 = 2 then
    have hclamp := clampBits_deployed Nat.two_pos hmin
    fieldCodec (OutputStream.writeEnumeration base (some d) value) (InputStream.readEnumeration base (some d))
      value (show BitVec (8 * 2) from value.setWidth 16) (·.setWidth _) d.invalid
      (writeEnumeration_short value htwo (by have := Nat.shiftRight_eq_div_pow d.bits 3; omega))
      (readEnumeration_short htwo) hclamp.1 hclamp.2
  else
    have hclamp := clampBits_deployed hsize hmin
    fieldCodec (OutputStream.writeEnumeration base (some d) value) (InputStream.readEnumeration base (some d))
      value value id d.invalid (writeEnumeration_backing value hone htwo) (readEnumeration_backing hone htwo)
      hclamp.1 hclamp.2

end Fields

theorem payload_length {o : OutputStream} (ho : Clean o) : o.payload.length = o.bits.length / 8 := by
  have hbit := ho.bit
  rw [ho.bits_length]
  omega

theorem align_silent {boundary : ℕ} {o : OutputStream} (h : Silent boundary o.payload.length) :
    OutputStream.align boundary o = .ok ⟨⟩ o := by
  by_cases haccepted : Accepted boundary
  · have hzero := (OutputStream.silent_iff haccepted _).1 h
    rw [OutputStream.align_run haccepted (hzero.trans_le (Nat.zero_le 1)), hzero]
    simp only [List.replicate_zero, List.append_nil]
  · exact OutputStream.align_rejected haccepted o

theorem silent_of_length {boundary : ℕ} {o t : OutputStream}
    (hrun : OutputStream.align boundary o = .ok ⟨⟩ t) (hlen : t.payload.length = o.payload.length) :
    Silent boundary o.payload.length ∧ t = o := by
  by_cases haccepted : Accepted boundary
  · have hle : OutputStream.necessary boundary o.payload.length ≤ 1 := by
      by_contra hlt
      rw [OutputStream.align_outOfBounds haccepted (Nat.not_le.1 hlt)] at hrun
      cases hrun
    have hwrote := hrun.symm.trans (OutputStream.align_run haccepted hle)
    injection hwrote with _ hstate
    have hzero : OutputStream.necessary boundary o.payload.length = 0 := by
      rw [hstate] at hlen
      simp only [List.length_append, List.length_replicate] at hlen
      omega
    have hsilent := (OutputStream.silent_iff haccepted _).2 hzero
    rw [align_silent hsilent] at hrun
    cases hrun
    exact ⟨hsilent, rfl⟩
  · rw [OutputStream.align_rejected haccepted] at hrun
    cases hrun
    exact ⟨Or.inl haccepted, rfl⟩

theorem Unpadded.mono {P Q : Codec → ℕ → Prop} (hPQ : ∀ codec n, P codec n → Q codec n) {n : ℕ}
    {items : List Item} (h : Unpadded P n items) : Unpadded Q n items := by
  induction items generalizing n with
  | nil => trivial
  | cons item rest ih =>
    cases item with
    | value codec => exact ⟨hPQ codec n h.1, ih h.2⟩
    | align boundary => exact ⟨h.1, ih h.2⟩

/-- A reader that keeps up has seen no padding, and is still inside its payload. -/
theorem InStepWith.room {items : List Item} {o : OutputStream} {s : InputStream}
    (h : InStepWith items o s) (ho : Clean o) (hs : Consistent s)
    (hposition : position s = o.bits.length) :
    Unpadded (fun _ _ => True) o.bits.length items ∧
      behindAll o.bits.length items ≤ 8 * s.message.body.length := by
  induction items generalizing o s with
  | nil =>
    have hle := InputStream.position_le hs
    rw [hposition] at hle
    exact ⟨trivial, hle⟩
  | cons item rest ih =>
    rcases h with ⟨t, u, hwrite, hread, hsame, hrest⟩
    have hcurrent : u.current = t.payload.length := congrArg Prod.fst hsame
    have hbit : u.currentBit = t.currentBit := congrArg Prod.snd hsame
    cases item with
    | value codec =>
      rcases codec.written o ho with ⟨t', extra, new, hrun, ht, hlen⟩
      have hwrite : codec.write o = .ok ⟨⟩ t := hwrite
      cases hwrite.symm.trans hrun
      rcases codec.inside s u hs hread.1 with ⟨hu, hmessage⟩
      have hroom := ih hrest ht.clean hu (by
        rw [ht.clean.bits_length]
        unfold InputStream.position
        omega)
      rw [hlen, hmessage] at hroom
      exact ⟨⟨trivial, hroom.1⟩, hroom.2⟩
    | align boundary =>
      have hwrite : OutputStream.align boundary o = .ok ⟨⟩ t := hwrite
      have hread : InputStream.align boundary s = .ok ⟨⟩ u := hread
      cases hread
      have hlen : t.payload.length = o.payload.length := by
        have hsbit := hs.bit
        have hobit := ho.bit
        rw [ho.bits_length] at hposition
        unfold InputStream.position at hposition
        omega
      rcases silent_of_length hwrite hlen with ⟨hsilent, rfl⟩
      have hroom := ih hrest ho hs hposition
      refine ⟨⟨?_, hroom.1⟩, hroom.2⟩
      rw [← payload_length ho]
      exact hsilent

theorem writeItems_run {items : List Item} {o : OutputStream} (ho : Clean o)
    (h : Unpadded (fun _ _ => True) o.bits.length items) :
    ∃ t extra new, writeItems items o = .ok ⟨⟩ t ∧ Wrote o t extra new ∧
      t.bits.length = behindAll o.bits.length items := by
  induction items generalizing o with
  | nil => exact ⟨o, [], [], rfl, Wrote.refl ho, rfl⟩
  | cons item rest ih =>
    cases item with
    | value codec =>
      rcases codec.written o ho with ⟨m, extra, new, hrun, hm, hlen⟩
      rcases ih hm.clean (hlen ▸ h.2) with ⟨t, extra', new', hrun', ht, hlen'⟩
      refine ⟨t, _, _, (bind_ok hrun).trans hrun', hm.trans ht, ?_⟩
      rw [hlen', hlen]
      rfl
    | align boundary =>
      have hrun := align_silent (payload_length ho ▸ h.1)
      rcases ih ho h.2 with ⟨t, extra, new, hrun', ht, hlen⟩
      exact ⟨t, extra, new, (bind_ok hrun).trans hrun', ht, hlen⟩

/-- Where no call pads, the reader keeps up exactly if each value is in step. -/
theorem inStepWith_iff {items : List Item} {o t : OutputStream} {s : InputStream} (ho : Clean o)
    (hs : Faces s o) (herror : s.errorOccurred = false)
    (hunpadded : Unpadded (fun _ _ => True) o.bits.length items)
    (hrun : writeItems items o = .ok ⟨⟩ t) (hshort : t.payload.length < 2 ^ 32)
    (hc : Carries s.message t) :
    InStepWith items o s ↔ ItemsInStep o.isLittleEndian o.bits.length items := by
  induction items generalizing o s with
  | nil => exact Iff.rfl
  | cons item rest ih =>
    cases item with
    | value codec =>
      rcases codec.written o ho with ⟨m, extra, new, hwrite, hm, hlen⟩
      have hrest := (bind_ok hwrite).symm.trans hrun
      rcases writeItems_run hm.clean (hlen ▸ hunpadded.2) with ⟨t', _, _, hrun', ht, _⟩
      cases hrest.symm.trans hrun'
      have hcm : Carries s.message m := hc.earlier (ht.bits hshort)
      have hnext : ∀ u, Arrived s u m → (InStepWith rest m u ↔
          ItemsInStep o.isLittleEndian (codec.after o.bits.length) rest) := by
        intro u hu
        have hiff := ih hm.clean hu.faces hu.errorOccurred (hlen ▸ hunpadded.2) hrest
          (hu.message ▸ hc)
        rw [hm.isLittleEndian, hlen] at hiff
        exact hiff
      constructor
      · rintro ⟨m', u, hwrite', ⟨hread, _⟩, hsame, hkept⟩
        cases hwrite.symm.trans hwrite'
        have hstep := codec.exact o m s u ho hwrite hs hcm hread (congrArg Prod.snd hsame)
        rcases codec.back o m s ho hwrite hstep hs hcm herror with ⟨u', hread', hu⟩
        cases hread.symm.trans hread'
        exact ⟨hstep, (hnext u hu).1 hkept⟩
      · rintro ⟨hstep, hkept⟩
        rcases codec.back o m s ho hwrite hstep hs hcm herror with ⟨u, hread, hu⟩
        rcases hu.faces.bit hm.clean with ⟨hbit, hcurrent⟩
        exact ⟨m, u, hwrite, ⟨hread, hu.errorOccurred⟩, by rw [hbit, hcurrent], (hnext u hu).2 hkept⟩
    | align boundary =>
      have hwrite := align_silent (payload_length ho ▸ hunpadded.1)
      have hrest := (bind_ok hwrite).symm.trans hrun
      have hnext := ih ho hs herror hunpadded.2 hrest hc
      constructor
      · rintro ⟨o', u, hwrite', hread, _, hkept⟩
        have hwrite' : OutputStream.align boundary o = .ok ⟨⟩ o' := hwrite'
        have hread : InputStream.align boundary s = .ok ⟨⟩ u := hread
        cases hwrite.symm.trans hwrite'
        cases hread
        exact ⟨hunpadded.1, hnext.1 hkept⟩
      · rintro ⟨_, hkept⟩
        rcases hs.bit ho with ⟨hbit, hcurrent⟩
        exact ⟨o, s, hwrite, rfl, by rw [hbit, hcurrent], hnext.2 hkept⟩

/-- Values and calls stay in step just if no call pads, each value is in step and the payload
    fits a message. -/
theorem itemsStayInStep_iff (isLittleEndian : Bool) (items : List Item) :
    ItemsStayInStep isLittleEndian items ↔
      ItemsInStep isLittleEndian 0 items ∧ (behindAll 0 items + 7) / 8 < 2 ^ 32 := by
  have ho := OutputStream.create_clean isLittleEndian
  have hs := fun message => create_faces message isLittleEndian
  have hrun : ∀ {t}, writeItems items (OutputStream.create isLittleEndian) = .ok ⟨⟩ t →
      Unpadded (fun _ _ => True) 0 items →
      Clean t ∧ (OutputStream.aligned t).payload.length = (behindAll 0 items + 7) / 8 := by
    intro t hrun hunpadded
    rcases writeItems_run ho hunpadded with ⟨t', _, _, hrun', ht, hlen⟩
    cases hrun.symm.trans hrun'
    rw [aligned_length ht.clean, hlen]
    exact ⟨ht.clean, rfl⟩
  have hkept : ∀ {t}, writeItems items (OutputStream.create isLittleEndian) = .ok ⟨⟩ t →
      Unpadded (fun _ _ => True) 0 items → ∀ hfits : (OutputStream.aligned t).payload.length < 2 ^ 32,
      (InStepWith items (OutputStream.create isLittleEndian)
        (InputStream.create ⟨_, hfits⟩ isLittleEndian) ↔ ItemsInStep isLittleEndian 0 items) := by
    intro t hwrite hunpadded hfits
    have hclean := (hrun hwrite hunpadded).1
    exact inStepWith_iff ho (hs _) rfl hunpadded hwrite
      ((aligned_longer hclean).trans_lt hfits) (flushed_carries hclean hfits)
  constructor
  · rintro ⟨t, message, u, hwrite, hflush, hstep⟩
    rcases hstep.room ho (hs message).consistent rfl with ⟨hunpadded, hroom⟩
    have hfits : (behindAll 0 items + 7) / 8 < 2 ^ 32 := by
      have hbody := message.fits
      change behindAll 0 items ≤ 8 * message.body.length at hroom
      omega
    have hlength : (OutputStream.aligned t).payload.length < 2 ^ 32 :=
      (hrun hwrite hunpadded).2.trans_lt hfits
    rcases flush_run hlength with ⟨u', hflush'⟩
    cases hflush.symm.trans hflush'
    exact ⟨(hkept hwrite hunpadded hlength).1 hstep, hfits⟩
  · rintro ⟨hstep, hfits⟩
    have hunpadded : Unpadded (fun _ _ => True) 0 items := hstep.mono fun _ _ _ => trivial
    rcases writeItems_run ho hunpadded with ⟨t, _, _, hwrite, _, _⟩
    have hlength : (OutputStream.aligned t).payload.length < 2 ^ 32 :=
      (hrun hwrite hunpadded).2.trans_lt hfits
    rcases flush_run hlength with ⟨u, hflush⟩
    exact ⟨t, _, u, hwrite, hflush, (hkept hwrite hunpadded hlength).2 hstep⟩

/-- An enumeration and an integer of four bits each fill a byte. -/
example : ItemsStayInStep false
    [.value (enumerationCodec uint8 ⟨4, false, none⟩ (1 : BitVec 8) (by decide) (by decide) (by decide)),
      .value (integerCodec uint8 (some ⟨4, none⟩) (2 : BitVec 8) (by decide) (by unfold OutputStream.Writable; decide)),
      .align 1] :=
  (itemsStayInStep_iff false _).2 ⟨⟨rfl, rfl, by decide, trivial⟩, by decide⟩

/-- What alignment does and does not: a call is right where at most one byte is missing, and the
    reader keeps up where nothing is. -/
theorem alignment_exact (boundary : ℕ) (o : OutputStream) (isLittleEndian : Bool) (items : List Item) :
    (Accepted boundary →
      (AlignsWell boundary o ↔ OutputStream.Fitting boundary o.payload.length)) ∧
    (ItemsStayInStep isLittleEndian items ↔
      ItemsInStep isLittleEndian 0 items ∧ (behindAll 0 items + 7) / 8 < 2 ^ 32) :=
  ⟨fun h => OutputStream.alignsWell_iff h o, itemsStayInStep_iff isLittleEndian items⟩

/-- Behind one byte, three are missing for a boundary of 4, and the array has one. For a boundary
    of 2 one is missing, and the reader stays behind. -/
theorem alignment_fails :
    (¬ ∀ (boundary : ℕ) (o : OutputStream), Accepted boundary → AlignsWell boundary o) ∧
      ¬ ItemsStayInStep false
        [.value (BasicValue.codec ⟨.integer ⟨1, false⟩, (7 : BitVec 8), List.mem_cons_self⟩), .align 2] := by
  constructor
  · intro haligns
    rcases haligns 4 { OutputStream.create false with payload := [7] } (by decide) with ⟨_, hrun, _⟩
    have hsize : 1 < OutputStream.necessary 4 1 := by decide
    have hhalt := @OutputStream.align_outOfBounds 4 (by decide)
      { OutputStream.create false with payload := [7] } hsize
    cases hhalt.symm.trans hrun
  · rw [itemsStayInStep_iff]
    rintro ⟨⟨_, hsilent, _⟩, _⟩
    have hwrong : Silent 2 1 := hsilent
    exact absurd hwrong (by decide)

end RoundTrip

end SomeIPRuntime
