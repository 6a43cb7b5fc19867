import SomeIPRuntime.BasicSequence

set_option autoImplicit false

namespace SomeIPRuntime.RoundTrip
open Bits ProgramRuns Deployment
open InputStream (Consistent Read position)
open OutputStream (Clean Appends Write wire)

section OneValue
variable {α : Type} {write : Write Unit} {read : Read α} {o t : OutputStream}

/-- The value is written where the stream `o` stands, the stream is flushed, and what is read
    at the same place of the payload is the value, and just the bits that were written. -/
def ComesBack (write : Write Unit) (read : Read α) (value : α) (o : OutputStream) : Prop :=
  ∃ t message u, write o = .ok ⟨⟩ t ∧ t.errorOccurred = o.errorOccurred ∧
    OutputStream.flush t = .ok message u ∧
    ∀ s : InputStream, s.message = message → Faces s o →
      ∃ v, read s = .ok value v ∧ v.errorOccurred = false ∧ position v = t.bits.length

theorem aligned_short {xs : List Bool} {size : ℕ} (ho : Clean o) (ht : Appends xs o t)
    (hlen : xs.length ≤ 8 * size) (hfits : o.payload.length + size + 1 < 2 ^ 32) :
    (OutputStream.aligned t).payload.length < 2 ^ 32 := by
  have hbit := ho.bit
  rw [aligned_length ht.clean, ht.bits, List.length_append, ho.bits_length]
  omega

/-- A value comes back just if it is the one that a reader gets from the message. -/
theorem comesBack_iff {value back : α} (hwrite : write o = .ok ⟨⟩ t)
    (herror : t.errorOccurred = o.errorOccurred) (ht : Clean t) (hpre : o.bits <+: t.bits)
    (hshort : (OutputStream.aligned t).payload.length < 2 ^ 32)
    (hread : ∀ s, Faces s o → Carries s.message t →
      ∃ v, read s = .ok back v ∧ Faces v t ∧ v.errorOccurred = false) :
    ComesBack write read value o ↔ back = value := by
  have hcarries := flushed_carries ht hshort
  constructor
  · rintro ⟨t', message, u, hwrite', _, hflush, hback⟩
    have hsame := hwrite.symm.trans hwrite'
    cases hsame
    obtain ⟨w, hflush'⟩ := flush_run hshort
    have hsame := hflush.symm.trans hflush'
    cases hsame
    obtain ⟨s, hmessage, hs, _⟩ := facing_exists (hcarries.earlier hpre)
    obtain ⟨v, hv, _⟩ := hback s hmessage hs
    obtain ⟨v', hv', _⟩ := hread s hs (hmessage ▸ hcarries)
    have hsame := hv'.symm.trans hv
    cases hsame
    rfl
  · rintro rfl
    obtain ⟨u, hflush⟩ := flush_run hshort
    refine ⟨t, _, u, hwrite, herror, hflush, fun s hmessage hs => ?_⟩
    obtain ⟨v, hv, hfaces, hquiet⟩ := hread s hs (hmessage ▸ hcarries)
    exact ⟨v, hv, hquiet, hfaces.position⟩

theorem field_comesBack_iff (size bits : ℕ) {count : ℕ} {isSigned isSigned' : Bool}
    {field : BitVec (8 * size)} {cast : BitVec (8 * size) → α} {invalid : Option α} {value : α}
    (hclamp : clampBits size bits = count) (hpos : 0 < count)
    (hwritable : OutputStream.Writable count isSigned) (ho : Clean o)
    (hfits : o.payload.length + size + 1 < 2 ^ 32) :
    ComesBack (OutputStream.writeBitValue size field bits isSigned)
        (InputStream.assignBits size bits isSigned' cast invalid) value o ↔
      cast (decoded size count o.isLittleEndian isSigned'
        (wire size count o.isLittleEndian field)) = value := by
  subst hclamp
  have hle := InputStream.clampBits_le size bits
  obtain ⟨t, hwrite, ht⟩ := OutputStream.writeBitValue_run field ho hwritable
  have hlen := OutputStream.wire_length o.isLittleEndian field hle
  apply comesBack_iff hwrite ht.errorOccurred ht.clean ht.earlier (aligned_short ho ht (by omega) hfits)
  intro s hs hc
  obtain ⟨v, hv, hfaces, _, hquiet⟩ :=
    assignBits_carried size bits hs ht isSigned' cast invalid rfl hlen hpos hc
  exact ⟨v, hv, hfaces, hquiet⟩

end OneValue

/-- Writing and reading an enumeration under the same deployment. -/
def EnumerationRoundTrips (base : IntegerType) (depl : Option (EnumerationDeployment base.size))
    (value : BitVec (8 * base.size)) (o : OutputStream) : Prop :=
  ComesBack (OutputStream.writeEnumeration base depl value) (InputStream.readEnumeration base depl)
    value o

/-- The bit widths of the backing type, and the values of that width. -/
def Deployable (base : IntegerType) (depl : Option (EnumerationDeployment base.size))
    (value : BitVec (8 * base.size)) : Prop :=
  ∀ d ∈ depl, (if d.isSigned then 2 else 1) ≤ d.bits ∧ d.bits ≤ 8 * base.size ∧
    Representable base.size d.bits d.isSigned value

/-- The intermediate type holds the value, or its bits are written and read as a bit field of
    the backing type. -/
def Held (base : IntegerType) (depl : Option (EnumerationDeployment base.size))
    (isLittleEndian : Bool) (value : BitVec (8 * base.size)) : Prop :=
  match depl with
  | some d =>
    if d.bits >>> 3 = 1 then value.toNat < 2 ^ 8
    else if d.bits >>> 3 = 2 then value.toNat < 2 ^ 16
    else Survives base.size d.bits isLittleEndian d.isSigned value
  | none => base.size = 1

section Enumerations
variable {base : IntegerType} {value : BitVec (8 * base.size)} {o : OutputStream}

theorem truncated_eq_iff {w n : ℕ} (value : BitVec w) :
    (value.setWidth n).setWidth w = value ↔ value.toNat < 2 ^ n := by
  rw [← BitVec.toNat_inj, BitVec.toNat_setWidth, BitVec.toNat_setWidth]
  have hlt := value.isLt
  constructor
  · intro h
    rw [← h]
    exact (Nat.mod_le _ _).trans_lt (Nat.mod_lt _ (Nat.two_pow_pos n))
  · intro h
    rw [Nat.mod_eq_of_lt h, Nat.mod_eq_of_lt hlt]

theorem intermediate_comesBack_iff (size : ℕ) {bits : ℕ} (isSigned : Bool)
    (invalid : Option (BitVec (8 * base.size))) (hsize : 0 < size) (hbits : 8 * size ≤ bits)
    (ho : Clean o) (hfits : o.payload.length + size + 1 < 2 ^ 32) :
    ComesBack (OutputStream.writeBitValue size (value.setWidth (8 * size)) bits isSigned)
        (InputStream.assignBits size bits isSigned (·.setWidth _) invalid) value o ↔
      value.toNat < 2 ^ (8 * size) := by
  have hclamp : clampBits size bits = 8 * size := by
    rw [clampBits_eq]
    exact Nat.min_eq_right hbits
  have hwritable : OutputStream.Writable (8 * size) isSigned := by
    unfold OutputStream.Writable
    omega
  rw [field_comesBack_iff size bits hclamp (by omega) hwritable ho hfits, decoded_full hsize]
  exact truncated_eq_iff value

theorem writeEnumeration_byte {d : EnumerationDeployment base.size} (value : BitVec (8 * base.size))
    (hone : d.bits >>> 3 = 1) (hsize : 0 < base.size) :
    OutputStream.writeEnumeration base (some d) value =
      OutputStream.writeBitValue 1 (value.setWidth 8) d.bits d.isSigned := by
  have hcast := OutputStream.staticCast_narrow value (show 8 ≤ _ by omega)
  unfold OutputStream.writeEnumeration
  rw [← hcast]
  dsimp only
  rw [hone]
  rfl

theorem writeEnumeration_short {d : EnumerationDeployment base.size} (value : BitVec (8 * base.size))
    (htwo : d.bits >>> 3 = 2) (hsize : 2 ≤ base.size) :
    OutputStream.writeEnumeration base (some d) value =
      OutputStream.writeBitValue 2 (value.setWidth 16) d.bits d.isSigned := by
  have hcast := OutputStream.staticCast_narrow value (show 16 ≤ _ by omega)
  unfold OutputStream.writeEnumeration
  rw [← hcast]
  dsimp only
  rw [htwo]
  rfl

theorem writeEnumeration_backing {d : EnumerationDeployment base.size}
    (value : BitVec (8 * base.size)) (hone : d.bits >>> 3 ≠ 1) (htwo : d.bits >>> 3 ≠ 2) :
    OutputStream.writeEnumeration base (some d) value =
      OutputStream.writeBitValue base.size value d.bits d.isSigned := by
  unfold OutputStream.writeEnumeration
  dsimp only
  split
  · exact absurd ‹_› hone
  · exact absurd ‹_› htwo
  · rfl

theorem readEnumeration_byte {d : EnumerationDeployment base.size} (hone : d.bits >>> 3 = 1) :
    InputStream.readEnumeration base (some d) =
      InputStream.assignBits 1 d.bits d.isSigned (·.setWidth _) d.invalid := by
  unfold InputStream.readEnumeration
  dsimp only
  rw [hone]
  rfl

theorem readEnumeration_short {d : EnumerationDeployment base.size} (htwo : d.bits >>> 3 = 2) :
    InputStream.readEnumeration base (some d) =
      InputStream.assignBits 2 d.bits d.isSigned (·.setWidth _) d.invalid := by
  unfold InputStream.readEnumeration
  dsimp only
  rw [htwo]
  rfl

theorem readEnumeration_backing {d : EnumerationDeployment base.size} (hone : d.bits >>> 3 ≠ 1)
    (htwo : d.bits >>> 3 ≠ 2) : InputStream.readEnumeration base (some d) =
      InputStream.assignBits base.size d.bits d.isSigned id d.invalid := by
  unfold InputStream.readEnumeration
  dsimp only
  split
  · exact absurd ‹_› hone
  · exact absurd ‹_› htwo
  · rfl

theorem clampBits_deployed {d : EnumerationDeployment base.size} {size : ℕ}
    (hsize : 0 < size) (hmin : (if d.isSigned then 2 else 1) ≤ d.bits) :
    0 < clampBits size d.bits ∧ OutputStream.Writable (clampBits size d.bits) d.isSigned := by
  rw [clampBits_eq]
  split at hmin
  · refine ⟨by omega, ?_⟩
    rintro (hzero | ⟨_, hone⟩) <;> omega
  next hunsigned =>
    refine ⟨by omega, ?_⟩
    rintro (hzero | ⟨hsigned, _⟩)
    · omega
    · exact hunsigned hsigned

theorem backing_comesBack_iff {d : EnumerationDeployment base.size}
    (hd : Deployable base (some d) value) (ho : Clean o)
    (hfits : o.payload.length + base.size + 1 < 2 ^ 32) :
    ComesBack (OutputStream.writeBitValue base.size value d.bits d.isSigned)
        (InputStream.assignBits base.size d.bits d.isSigned id d.invalid) value o ↔
      Survives base.size d.bits o.isLittleEndian d.isSigned value := by
  obtain ⟨hmin, hmax, hvalue⟩ := hd d rfl
  have hclamp : clampBits base.size d.bits = d.bits := by
    rw [clampBits_eq]
    exact Nat.min_eq_left hmax
  have hsize : 0 < base.size := by
    split at hmin <;> omega
  obtain ⟨hpos, hwritable⟩ := clampBits_deployed hsize hmin
  rw [hclamp] at hpos hwritable
  rw [field_comesBack_iff _ _ hclamp hpos hwritable ho hfits]
  exact decoded_iff hvalue hpos hmax

/-- A reader that takes more bits than are left in the payload ends with an error. -/
theorem past_end (size bits : ℕ) {count : ℕ} {isSigned : Bool} {α : Type} {cast : BitVec (8 * size) → α}
    {a : α} {s v : InputStream} (hs : Consistent s) (hclamp : clampBits size bits = count)
    (hend : 8 * s.message.body.length < position s + count)
    (h : InputStream.assignBits size bits isSigned cast none s = .ok a v) :
    v.errorOccurred = true := by
  subst hclamp
  rw [InputStream.assignBits_run] at h
  obtain ⟨_, hrun⟩ | ⟨_, _, hfit, _⟩ | ⟨_, _, w, hrun⟩ := InputStream.readField_cases
    (InputStream.logged_consistent hs).sound isSigned (InputStream.clampBits_le size bits)
  · rw [Option.isSome_none, hrun] at h
    cases h
    rfl
  · exact absurd hfit (Nat.not_le_of_lt hend)
  · rw [Option.isSome_none, hrun] at h
    cases h

/-- Without a deployment one byte is written, whatever the backing type is. -/
theorem default_comesBack_iff (hsize : 0 < base.size) (ho : Clean o)
    (hfits : o.payload.length + base.size + 1 < 2 ^ 32) :
    EnumerationRoundTrips base none value o ↔ base.size = 1 := by
  constructor
  · rintro ⟨t, message, u, hwrite, _, hflush, hback⟩
    obtain ⟨t', hwrite', ht, hlen, _⟩ :=
      full_stepped ho Nat.one_pos false (OutputStream.staticCast base 8 value)
    have hsame := hwrite.symm.trans hwrite'
    cases hsame
    have hbits := aligned_length ht.clean
    have hshort : (OutputStream.aligned t).payload.length < 2 ^ 32 := by
      have hbit := ho.bit
      rw [hbits, hlen, ho.bits_length]
      omega
    obtain ⟨w, hflush'⟩ := flush_run hshort
    have hsame := hflush.symm.trans hflush'
    cases hsame
    obtain ⟨s, hmessage, hs, _⟩ := facing_exists ((flushed_carries ht.clean hshort).earlier ht.earlier)
    obtain ⟨v, hread, hquiet, _⟩ := hback s hmessage hs
    by_contra hne
    have hend : 8 * s.message.body.length < position s + 8 * base.size := by
      rw [hs.position, hmessage, hbits, hlen]
      omega
    have herror := past_end base.size (8 * base.size) hs.consistent
      (by rw [clampBits_eq, Nat.min_self]) hend hread
    rw [hquiet] at herror
    cases herror
  · intro hone
    obtain ⟨size, isSigned⟩ := base
    subst hone
    have hwritable : OutputStream.Writable 8 false := by
      unfold OutputStream.Writable
      omega
    refine (field_comesBack_iff 1 8 rfl (by decide) hwritable ho hfits).2 ?_
    rw [show OutputStream.staticCast ⟨1, isSigned⟩ 8 value = _ from
      OutputStream.staticCast_narrow value le_rfl]
    exact (decoded_full Nat.one_pos _ isSigned _).trans (BitVec.setWidth_eq value)

/-- An enumeration comes back just if its intermediate type holds it and, with the width of the
    backing type, its bits survive. -/
theorem enumeration_round_trips_iff (depl : Option (EnumerationDeployment base.size))
    (hsize : base.size ∈ [1, 2, 4, 8]) (hd : Deployable base depl value) (ho : Clean o)
    (hfits : o.payload.length + base.size + 1 < 2 ^ 32) :
    EnumerationRoundTrips base depl value o ↔ Held base depl o.isLittleEndian value := by
  have hpos : 0 < base.size := by
    simp only [List.mem_cons, List.not_mem_nil, or_false] at hsize
    omega
  cases depl with
  | none => exact default_comesBack_iff hpos ho hfits
  | some d =>
    have hmax := (hd d rfl).2.1
    have hwidth := Nat.shiftRight_eq_div_pow d.bits 3
    unfold EnumerationRoundTrips Held
    dsimp only
    by_cases hone : d.bits >>> 3 = 1
    · rw [if_pos hone]
      rw [writeEnumeration_byte value hone hpos, readEnumeration_byte hone]
      exact intermediate_comesBack_iff 1 d.isSigned d.invalid Nat.one_pos (by omega) ho (by omega)
    · rw [if_neg hone]
      by_cases htwo : d.bits >>> 3 = 2
      · rw [if_pos htwo]
        rw [writeEnumeration_short value htwo (by omega), readEnumeration_short htwo]
        exact intermediate_comesBack_iff 2 d.isSigned d.invalid Nat.two_pos (by omega) ho (by omega)
      · rw [if_neg htwo, writeEnumeration_backing value hone htwo, readEnumeration_backing hone htwo]
        exact backing_comesBack_iff hd ho hfits

end Enumerations

theorem small_enumeration_round_trips :
    EnumerationRoundTrips uint16 (some ⟨9, false, none⟩) 0x00AB (OutputStream.create true) :=
  (enumeration_round_trips_iff (some ⟨9, false, none⟩) (by decide)
    (fun d hd => by cases hd; decide) (OutputStream.create_clean true) (by decide)).2
    (show (0x00AB : BitVec 16).toNat < 2 ^ 8 by decide)

/-- `0x1AB` needs nine bits, and is written with eight. -/
theorem ninth_bit_lost :
    ¬ ∀ (base : IntegerType) (depl : Option (EnumerationDeployment base.size))
      (value : BitVec (8 * base.size)) (o : OutputStream), base.size ∈ [1, 2, 4, 8] →
      Deployable base depl value → Clean o → o.payload.length + base.size + 1 < 2 ^ 32 →
      EnumerationRoundTrips base depl value o := by
  intro h
  obtain ⟨t, message, u, hwrite, _, hflush, hback⟩ :=
    h uint16 (some ⟨9, false, none⟩) 0x01AB (OutputStream.create false) (by decide)
      (fun d hd => by cases hd; decide) (OutputStream.create_clean false) (by decide)
  cases hwrite
  cases hflush
  obtain ⟨v, hread, _⟩ := hback _ rfl (create_faces ⟨[0xAB], by decide⟩ false)
  have hvalue : returned (InputStream.readEnumeration uint16 (some ⟨9, false, none⟩)
      (InputStream.create ⟨[0xAB], by decide⟩ false)) = some 0x01AB := congrArg returned hread
  exact absurd hvalue (by decide)

end SomeIPRuntime.RoundTrip
