import SomeIPRuntime.BitFieldRoundTrip
import SomeIPRuntime.Progress

set_option autoImplicit false

namespace SomeIPRuntime.RoundTrip
open Bits ProgramRuns Deployment
open InputStream (Consistent Read position)
open OutputStream (Clean Appends Write wire)

inductive BasicType
  | bool
  /-- with its full width -/
  | integer (type : IntegerType)
  /-- an 8 bit integer with a bit-width deployment -/
  | narrow (isSigned : Bool) (depl : IntegerDeployment 1)
  | float
  | double
  | version

namespace BasicType

def Value : BasicType → Type
  | bool => Bool
  | integer type => BitVec (8 * type.size)
  | narrow _ _ => BitVec 8
  | float => BitVec 32
  | double => BitVec 64
  | version => InputStream.Version

def Allowed : (type : BasicType) → type.Value → Prop
  | integer type, _ => type.size ∈ [1, 2, 4, 8]
  | narrow isSigned depl, value =>
    2 ≤ depl.bits ∧ depl.bits ≤ 8 ∧ Representable 1 depl.bits isSigned value
  | _, _ => True

def write : (type : BasicType) → type.Value → Write Unit
  | bool, value => OutputStream.writeBool value
  | integer type, value => OutputStream.writeInteger type none value
  | narrow isSigned depl, value => OutputStream.writeInteger ⟨1, isSigned⟩ (some depl) value
  | float, value => OutputStream.writeFloat value
  | double, value => OutputStream.writeDouble value
  | version, value => OutputStream.writeVersion value.major value.minor

def read : (type : BasicType) → Read type.Value
  | bool => InputStream.readBool
  | integer type => InputStream.readInteger type none
  | narrow isSigned depl => InputStream.readInteger ⟨1, isSigned⟩ (some depl)
  | float => InputStream.readFloat
  | double => InputStream.readDouble
  | version => InputStream.readVersion

/-- The bit position behind a value that is written at bit position `n`. -/
def after (n : ℕ) : BasicType → ℕ
  | bool => n + 8
  | integer type => n + 8 * type.size
  | narrow _ depl => n + depl.bits
  | float => n + 32
  | double => n + 64
  | version => (n + 7) / 8 * 8 + 64

/-- When a value that is written at bit position `n` is read from there. -/
def InStep (isLittleEndian : Bool) (n : ℕ) : (type : BasicType) → type.Value → Prop
  | bool, value => value = true → isLittleEndian = false
  | float, _ => n % 8 = 0
  | double, _ => n % 8 = 0
  | _, _ => True

end BasicType

structure BasicValue where
  type : BasicType
  value : type.Value
  allowed : type.Allowed value

theorem representable_full {size : ℕ} (isSigned : Bool)
    (value : BitVec (8 * size)) : Representable size (8 * size) isSigned value := by
  unfold Representable
  cases isSigned
  · exact value.isLt
  · exact ⟨BitVec.le_toInt value, BitVec.toInt_lt⟩

theorem decoded_full {size : ℕ} (hsize : 0 < size) (le isSigned : Bool) (value : BitVec (8 * size)) :
    decoded size (8 * size) le isSigned (wire size (8 * size) le value) = value := by
  rw [decoded_iff (representable_full isSigned value) (by omega) le_rfl]
  exact Or.inl ⟨by omega, Or.inr fun i hr hi => by omega⟩

theorem decoded_byte {count : ℕ} (le : Bool) {isSigned : Bool} {value : BitVec (8 * 1)}
    (hpos : 0 < count) (hle : count ≤ 8) (hvalue : Representable 1 count isSigned value) :
    decoded 1 count le isSigned (wire 1 count le value) = value := by
  rw [decoded_iff hvalue hpos hle]
  exact Or.inl ⟨by omega, Or.inr fun i hr hi => hvalue.high hpos hr hi⟩

/-- The four bytes of an `unsigned int` are written from its end on in a little endian stream. -/
theorem decoded_bool (le value : Bool) :
    (decoded 1 8 le false (wire 4 8 le (if value then 0x1 else 0x0)) &&& 0x1 == 0x1) =
      (value && !le) := by
  cases le <;> cases value <;> decide

structure Stepped (type : BasicType) (value : type.Value) (o t : OutputStream) (xs : List Bool) :
    Prop where
  run : type.write value o = .ok ⟨⟩ t
  appends : Appends xs o t
  length : t.bits.length = type.after o.bits.length
  back : type.InStep o.isLittleEndian o.bits.length value → ∀ s, Faces s o → Carries s.message t →
    ∃ u, type.read s = .ok value u ∧ Faces u t ∧ u.message = s.message ∧
      (s.errorOccurred = false → u.errorOccurred = false)

section Steps
variable {o : OutputStream}

theorem bool_run (ho : Clean o) (value : Bool) :
    ∃ t xs, OutputStream.writeBool value o = .ok ⟨⟩ t ∧ Appends xs o t ∧ xs.length = 8 ∧
      ∀ s, Faces s o → Carries s.message t →
        ∃ u, InputStream.readBool s = .ok (value && !o.isLittleEndian) u ∧ Faces u t ∧
          u.message = s.message ∧ u.errorOccurred = false := by
  obtain ⟨t, hrun, ht⟩ := @OutputStream.writeBitValue_fits 4 8
    (if value then 0x1 else 0x0) false o ho (by decide) (by decide)
  have hlen := @OutputStream.wire_length 4 8 o.isLittleEndian
    (if value then 0x1 else 0x0) (by decide)
  refine ⟨t, _, hrun, ht, hlen, fun s hs hc => ?_⟩
  obtain ⟨u, hread, hu⟩ := assignBits_carried 1 8 hs ht false
    (fun itsValue => itsValue &&& 0x1 == 0x1) none (by decide) hlen (by decide) hc
  rw [decoded_bool] at hread
  exact ⟨u, hread, hu⟩

theorem bool_stepped (ho : Clean o) (value : Bool) : ∃ t xs, Stepped .bool value o t xs := by
  obtain ⟨t, xs, hrun, ht, hlen, hback⟩ := bool_run ho value
  refine ⟨t, xs, hrun, ht, ?_, fun hstep s hs hc => ?_⟩
  · rw [ht.bits, List.length_append, hlen]
    rfl
  · obtain ⟨u, hread, hu, hmessage, herror⟩ := hback s hs hc
    have hvalue : (value && !o.isLittleEndian) = value := by
      cases value with
      | false => rfl
      | true =>
        rw [hstep rfl]
        rfl
    rw [hvalue] at hread
    exact ⟨u, hread, hu, hmessage, fun _ => herror⟩

/-- Integers and floating point numbers with their full width. -/
theorem full_stepped (ho : Clean o) {size : ℕ} (hsize : 0 < size) (isSigned : Bool)
    (value : BitVec (8 * size)) :
    ∃ t, OutputStream.writeBitValue size value (8 * size) isSigned o = .ok ⟨⟩ t ∧
      Appends (wire size (8 * size) o.isLittleEndian value) o t ∧
      t.bits.length = o.bits.length + 8 * size ∧
      ∀ s, Faces s o → Carries s.message t → ∀ invalid,
        ∃ u, InputStream.assignBits size (8 * size) isSigned id invalid s = .ok value u ∧
          Faces u t ∧ u.message = s.message ∧ u.errorOccurred = false := by
  obtain ⟨t, hrun, ht⟩ := OutputStream.writeBitValue_fits value isSigned ho
    (show 2 ≤ 8 * size by omega) le_rfl
  have hlen := OutputStream.wire_length o.isLittleEndian value (le_refl (8 * size))
  refine ⟨t, hrun, ht, ?_, fun s hs hc invalid => ?_⟩
  · rw [ht.bits, List.length_append, hlen]
  · obtain ⟨u, hread, hu, hmessage, herror⟩ := assignBits_carried size (8 * size)
      hs ht isSigned id invalid (by rw [clampBits_eq, Nat.min_self]) hlen (by omega) hc
    rw [decoded_full hsize] at hread
    exact ⟨u, hread, hu, hmessage, herror⟩

theorem integer_stepped (ho : Clean o) (type : IntegerType) (hsize : 0 < type.size)
    (value : BitVec (8 * type.size)) : ∃ t xs, Stepped (.integer type) value o t xs := by
  obtain ⟨t, hrun, ht, hlen, hback⟩ := full_stepped ho hsize type.isSigned value
  refine ⟨t, _, hrun, ht, hlen, fun _ s hs hc => ?_⟩
  obtain ⟨u, hread, hu, hmessage, herror⟩ := hback s hs hc none
  exact ⟨u, hread, hu, hmessage, fun _ => herror⟩

theorem narrow_stepped (ho : Clean o) (isSigned : Bool) (depl : IntegerDeployment 1)
    (value : BitVec 8) (htwo : 2 ≤ depl.bits) (hle : depl.bits ≤ 8)
    (hvalue : Representable 1 depl.bits isSigned value) :
    ∃ t xs, Stepped (.narrow isSigned depl) value o t xs := by
  obtain ⟨t, hrun, ht⟩ := @OutputStream.writeBitValue_fits 1 _ value isSigned o ho htwo hle
  have hlen := @OutputStream.wire_length 1 _ o.isLittleEndian value hle
  refine ⟨t, _, hrun, ht, ?_, fun _ s hs hc => ?_⟩
  · rw [ht.bits, List.length_append, hlen]
    rfl
  · obtain ⟨u, hread, hu, hmessage, herror⟩ := assignBits_carried 1 depl.bits hs
      ht isSigned id depl.invalid (by rw [clampBits_eq]; exact Nat.min_eq_left hle) hlen (by omega) hc
    rw [decoded_byte o.isLittleEndian (by omega) hle hvalue] at hread
    exact ⟨u, hread, hu, hmessage, fun _ => herror⟩

theorem floating_back {s : InputStream} (ho : Clean o) (hbit : o.bits.length % 8 = 0)
    (hs : Faces s o) :
    Faces (InputStream.aligned s) o ∧ (InputStream.aligned s).message = s.message := by
  have haligned : OutputStream.aligned o = o := by
    have hlen := ho.bits_length
    have hlt := ho.bit
    unfold OutputStream.aligned
    rw [if_neg (by omega)]
  obtain ⟨hfaces, hmessage, _⟩ := faces_aligned hs ho
  rw [haligned] at hfaces
  exact ⟨hfaces, hmessage⟩

theorem float_stepped (ho : Clean o) (value : BitVec 32) : ∃ t xs, Stepped .float value o t xs := by
  obtain ⟨t, hrun, ht, hlen, hback⟩ := full_stepped ho (show 0 < 4 by decide) false value
  refine ⟨t, _, hrun, ht, hlen, fun hstep s hs hc => ?_⟩
  obtain ⟨hfaces, hsame⟩ := floating_back ho hstep hs
  obtain ⟨u, hread, hu, hmessage, herror⟩ := hback _ hfaces (hsame ▸ hc) none
  refine ⟨u, ?_, hu, hmessage.trans hsame, fun _ => herror⟩
  exact (bind_ok (InputStream.bitAlign_run s)).trans hread

theorem double_stepped (ho : Clean o) (value : BitVec 64) : ∃ t xs, Stepped .double value o t xs := by
  obtain ⟨t, hrun, ht, hlen, hback⟩ := full_stepped ho (show 0 < 8 by decide) false value
  refine ⟨t, _, hrun, ht, hlen, fun hstep s hs hc => ?_⟩
  obtain ⟨hfaces, hsame⟩ := floating_back ho hstep hs
  obtain ⟨u, hread, hu, hmessage, herror⟩ := hback _ hfaces (hsame ▸ hc) none
  refine ⟨u, ?_, hu, hmessage.trans hsame, fun _ => herror⟩
  exact (bind_ok (InputStream.bitAlign_run s)).trans hread

theorem ignoreBits_full {t : OutputStream} {s : InputStream} {size : ℕ} (hsize : 0 < size)
    {value : BitVec (8 * size)} (ht : Appends (wire size (8 * size) o.isLittleEndian value) o t)
    (hs : Faces s o) (hc : Carries s.message t) :
    ∃ u, InputStream.ignoreBits size (8 * size) false s = .ok value u ∧ Faces u t ∧
      u.message = s.message ∧ u.errorOccurred = s.errorOccurred := by
  have hlen := OutputStream.wire_length o.isLittleEndian value (le_refl (8 * size))
  obtain ⟨u, hread, hu⟩ := ignoreBits_carried size (8 * size) hs ht false
    (by rw [clampBits_eq, Nat.min_self]) hlen (by omega) hc
  rw [decoded_full hsize] at hread
  exact ⟨u, hread, hu⟩

theorem version_stepped (ho : Clean o) (value : InputStream.Version) :
    ∃ t xs, Stepped .version value o t xs := by
  have halign := OutputStream.aligned_appends ho
  obtain ⟨m, hmajor, hm, hmlen, _⟩ := full_stepped halign.clean (show 0 < 4 by decide) false value.major
  obtain ⟨t, hminor, ht, htlen, _⟩ := full_stepped hm.clean (show 0 < 4 by decide) false value.minor
  refine ⟨t, _, ?_, halign.trans (hm.trans ht), ?_, fun _ s hs hc => ?_⟩
  · change (OutputStream.bitAlign >>= _) o = _
    rw [bind_ok (OutputStream.bitAlign_run o), bind_ok hmajor]
    exact hminor
  · have hlen := congrArg List.length halign.bits
    have hbit := ho.bit
    rw [List.length_append, OutputStream.padding, List.length_replicate] at hlen
    rw [htlen, hmlen, hlen, ho.bits_length]
    change _ = (8 * o.payload.length + o.currentBit + 7) / 8 * 8 + 64
    omega
  · obtain ⟨hfaces, hsame, herror⟩ := faces_aligned hs ho
    have hcm : Carries (InputStream.aligned s).message m := by
      rw [hsame]
      exact hc.earlier ht.earlier
    obtain ⟨v, hreadMajor, hv, hmessage, hverror⟩ := ignoreBits_full (by decide) hm hfaces hcm
    have hct : Carries v.message t := by
      rw [hmessage, hsame]
      exact hc
    obtain ⟨u, hreadMinor, hu, hmessage', huerror⟩ := ignoreBits_full (by decide) ht hv hct
    refine ⟨u, ?_, hu, hmessage'.trans (hmessage.trans hsame), fun h => ?_⟩
    · change (InputStream.bitAlign >>= _) s = _
      rw [bind_ok (InputStream.bitAlign_run s), bind_ok hreadMajor, bind_ok hreadMinor]
      rfl
    · rw [huerror, hverror, herror, h]

theorem value_stepped (ho : Clean o) (v : BasicValue) : ∃ t xs, Stepped v.type v.value o t xs := by
  obtain ⟨type, value, allowed⟩ := v
  cases type with
  | bool => exact bool_stepped ho value
  | integer type =>
    have hsize : type.size ∈ [1, 2, 4, 8] := allowed
    refine integer_stepped ho type ?_ value
    simp only [List.mem_cons, List.not_mem_nil, or_false] at hsize
    omega
  | narrow isSigned depl => exact narrow_stepped ho isSigned depl value allowed.1 allowed.2.1 allowed.2.2
  | float => exact float_stepped ho value
  | double => exact double_stepped ho value
  | version => exact version_stepped ho value

end Steps

/-- What is read out of step is another value, or leaves the reader in another bit. -/
theorem out_of_step {o t : OutputStream} {xs : List Bool} {s u : InputStream} (ho : Clean o)
    {v : BasicValue} (ht : Stepped v.type v.value o t xs) (hs : Faces s o)
    (hc : Carries s.message t) (hread : v.type.read s = .ok v.value u)
    (hbit : u.currentBit = t.currentBit) : v.type.InStep o.isLittleEndian o.bits.length v.value := by
  have hfloating : ∀ width, t.bits.length = o.bits.length + 8 * width → u.currentBit = 0 →
      o.bits.length % 8 = 0 := by
    intro width hlen hzero
    have htbits := ht.appends.clean.bits_length
    omega
  have haligned : (InputStream.aligned s).currentBit = 0 := by
    have hposition := (InputStream.aligned_consistent hs.consistent).2
    have hlt := (InputStream.aligned_consistent hs.consistent).1.bit
    unfold InputStream.position at hposition
    omega
  have hcons := (InputStream.aligned_consistent hs.consistent).1
  obtain ⟨type, value, allowed⟩ := v
  cases type with
  | bool =>
    intro htrue
    obtain ⟨m, ys, hrun, _, _, hback⟩ := bool_run ho value
    have hsame := hrun.symm.trans ht.run
    cases hsame
    obtain ⟨w, hback, _⟩ := hback s hs hc
    cases hle : o.isLittleEndian with
    | false => rfl
    | true =>
      obtain rfl : value = true := htrue
      rw [hle] at hback
      cases hback.symm.trans hread
  | integer type => trivial
  | narrow isSigned depl => trivial
  | float =>
    have hread : InputStream.assignBits 4 32 false id none (InputStream.aligned s) = .ok value u :=
      (bind_ok (InputStream.bitAlign_run s)).symm.trans hread
    have hzero := (InputStream.assignBits_consistent hcons hread).2 (by decide)
    exact hfloating 4 ht.length (hzero.trans haligned)
  | double =>
    have hread : InputStream.assignBits 8 64 false id none (InputStream.aligned s) = .ok value u :=
      (bind_ok (InputStream.bitAlign_run s)).symm.trans hread
    have hzero := (InputStream.assignBits_consistent hcons hread).2 (by decide)
    exact hfloating 8 ht.length (hzero.trans haligned)
  | version => trivial

theorem read_consistent {s u : InputStream} (hs : Consistent s) (type : BasicType) {value : type.Value}
    (h : type.read s = .ok value u) : Consistent u ∧ u.message = s.message := by
  have halign := (InputStream.aligned_consistent hs).1
  have hdecoder : ∀ {α : Type} {d : ℕ → Read α} {a : α}, InputStream.Decoder d → d 0 s = .ok a u →
      u.message = s.message := fun hd hrun =>
    ((InputStream.Decoder.respects InputStream.advances_primitives hd 0).ok hrun).message
  cases type with
  | bool =>
    refine ⟨?_, hdecoder .bool h⟩
    unfold BasicType.read InputStream.readBool at h
    exact (InputStream.assignBits_consistent hs h).1
  | integer type =>
    refine ⟨?_, hdecoder (.integer type none) h⟩
    unfold BasicType.read InputStream.readInteger at h
    exact (InputStream.assignBits_consistent hs h).1
  | narrow isSigned depl =>
    refine ⟨?_, hdecoder (.integer ⟨1, isSigned⟩ (some depl)) h⟩
    unfold BasicType.read InputStream.readInteger at h
    exact (InputStream.assignBits_consistent hs h).1
  | float =>
    refine ⟨?_, hdecoder .float h⟩
    have h := (bind_ok (InputStream.bitAlign_run s)).symm.trans h
    exact (InputStream.assignBits_consistent halign h).1
  | double =>
    refine ⟨?_, hdecoder .double h⟩
    have h := (bind_ok (InputStream.bitAlign_run s)).symm.trans h
    exact (InputStream.assignBits_consistent halign h).1
  | version =>
    refine ⟨?_, hdecoder .version h⟩
    have h := (bind_ok (InputStream.bitAlign_run s)).symm.trans h
    obtain ⟨major, m, hmajor, hrest⟩ := bind_eq_ok.1 h
    obtain ⟨minor, w, hminor, hpure⟩ := bind_eq_ok.1 hrest
    cases hpure
    exact InputStream.ignoreBits_consistent (InputStream.ignoreBits_consistent halign hmajor) hminor

def writeValues : List BasicValue → Write Unit
  | [] => pure ()
  | v :: rest => do
    v.type.write v.value
    writeValues rest

/-- After each value the reader has read it without an error, and stands where the writer
    stood. -/
def Together : List BasicValue → OutputStream → InputStream → Prop
  | [], _, _ => True
  | v :: rest, o, s => ∃ t u, v.type.write v.value o = .ok ⟨⟩ t ∧ v.type.read s = .ok v.value u ∧
    u.errorOccurred = false ∧ (u.current, u.currentBit) = (t.payload.length, t.currentBit) ∧
    Together rest t u

/-- The bit position behind a sequence of values that is written at bit position `n`. -/
def afterAll (n : ℕ) : List BasicValue → ℕ
  | [] => n
  | v :: rest => afterAll (v.type.after n) rest

def AllInStep (isLittleEndian : Bool) (n : ℕ) : List BasicValue → Prop
  | [] => True
  | v :: rest =>
    v.type.InStep isLittleEndian n v.value ∧ AllInStep isLittleEndian (v.type.after n) rest

theorem writeValues_run (values : List BasicValue) {o : OutputStream} (ho : Clean o) :
    ∃ t xs, writeValues values o = .ok ⟨⟩ t ∧ Appends xs o t ∧
      t.bits.length = afterAll o.bits.length values := by
  induction values generalizing o with
  | nil => exact ⟨o, [], rfl, Appends.refl ho, rfl⟩
  | cons v rest ih =>
    obtain ⟨m, xs, hm⟩ := value_stepped ho v
    obtain ⟨t, ys, hrun, ht, hlen⟩ := ih hm.appends.clean
    refine ⟨t, _, ?_, hm.appends.trans ht, ?_⟩
    · rw [writeValues, bind_ok hm.run, hrun]
    · rw [hlen, hm.length]
      rfl

theorem together_iff (values : List BasicValue) {o t : OutputStream} {s : InputStream}
    (ho : Clean o) (hs : Faces s o) (herror : s.errorOccurred = false)
    (hrun : writeValues values o = .ok ⟨⟩ t) (hc : Carries s.message t) :
    Together values o s ↔ AllInStep o.isLittleEndian o.bits.length values := by
  induction values generalizing o s with
  | nil => exact Iff.rfl
  | cons v rest ih =>
    obtain ⟨m, xs, hm⟩ := value_stepped ho v
    rw [writeValues, bind_ok hm.run] at hrun
    obtain ⟨t', ys, hrun', ht, _⟩ := writeValues_run rest hm.appends.clean
    have hsame := hrun.symm.trans hrun'
    cases hsame
    have hcm : Carries s.message m := hc.earlier ht.earlier
    have hnext : ∀ u, Faces u m → u.message = s.message → u.errorOccurred = false →
        (Together rest m u ↔ AllInStep o.isLittleEndian (v.type.after o.bits.length) rest) := by
      intro u hu hmessage huerror
      have hiff := ih hm.appends.clean hu huerror hrun (hmessage ▸ hc)
      rw [hm.appends.isLittleEndian, hm.length] at hiff
      exact hiff
    constructor
    · rintro ⟨m', u, hwrite, hread, huerror, hposition, hrest⟩
      rw [hm.run] at hwrite
      cases hwrite
      have hstep := out_of_step ho hm hs hcm hread (congrArg Prod.snd hposition)
      obtain ⟨w, hback, hw, hmessage, hwerror⟩ := hm.back hstep s hs hcm
      have hsame := hread.symm.trans hback
      cases hsame
      exact ⟨hstep, (hnext u hw hmessage huerror).1 hrest⟩
    · rintro ⟨hstep, hrest⟩
      obtain ⟨u, hback, hu, hmessage, huerror⟩ := hm.back hstep s hs hcm
      obtain ⟨hbit, hcurrent⟩ := hu.bit hm.appends.clean
      exact ⟨m, u, hm.run, hback, huerror herror, by rw [hbit, hcurrent],
        (hnext u hu hmessage (huerror herror)).2 hrest⟩

/-- Readers that have kept up are still inside their payload. -/
theorem Together.room {values : List BasicValue} {o : OutputStream} {s : InputStream}
    (h : Together values o s) (ho : Clean o) (hs : Consistent s)
    (hposition : position s = o.bits.length) :
    afterAll o.bits.length values ≤ 8 * s.message.body.length := by
  induction values generalizing o s with
  | nil =>
    have hle := InputStream.position_le hs
    change o.bits.length ≤ _
    omega
  | cons v rest ih =>
    obtain ⟨m, u, hwrite, hread, _, hsame, hrest⟩ := h
    obtain ⟨m, xs, hm⟩ := value_stepped ho v
    rw [hm.run] at hwrite
    cases hwrite
    obtain ⟨hu, hmessage⟩ := read_consistent hs v.type hread
    have hcurrent : u.current = m.payload.length := congrArg Prod.fst hsame
    have hbit : u.currentBit = m.currentBit := congrArg Prod.snd hsame
    have hroom := ih hrest hm.appends.clean hu (by
      rw [hm.appends.clean.bits_length]
      unfold InputStream.position
      omega)
    rw [hm.length, hmessage] at hroom
    exact hroom

/-- The values are written to a fresh stream, which is flushed, and read back. -/
def StaysInStep (isLittleEndian : Bool) (values : List BasicValue) : Prop :=
  ∃ t message u, writeValues values (OutputStream.create isLittleEndian) = .ok ⟨⟩ t ∧
    OutputStream.flush t = .ok message u ∧
    Together values (OutputStream.create isLittleEndian)
      (InputStream.create message isLittleEndian)

theorem create_faces (message : Message) (isLittleEndian : Bool) :
    Faces (InputStream.create message isLittleEndian) (OutputStream.create isLittleEndian) :=
  ⟨⟨Nat.zero_lt_succ 7, Nat.zero_add _, fun h => absurd h (lt_irrefl 0)⟩, rfl, rfl⟩

/-- Basic values stay in step just if there is no `true` in a little endian stream, each
    floating point number is written at a byte boundary, and the payload fits a message. -/
theorem stays_in_step_iff (isLittleEndian : Bool) (values : List BasicValue) :
    StaysInStep isLittleEndian values ↔
      AllInStep isLittleEndian 0 values ∧ (afterAll 0 values + 7) / 8 < 2 ^ 32 := by
  obtain ⟨t, xs, hrun, ht, hlen⟩ := writeValues_run values (OutputStream.create_clean isLittleEndian)
  change t.bits.length = afterAll 0 values at hlen
  rw [← hlen, ← aligned_length ht.clean]
  by_cases hfits : (OutputStream.aligned t).payload.length < 2 ^ 32
  · obtain ⟨u, hflush⟩ := flush_run hfits
    have hiff := together_iff values (OutputStream.create_clean isLittleEndian)
      (create_faces ⟨(OutputStream.aligned t).payload, hfits⟩ isLittleEndian) rfl hrun
      (flushed_carries ht.clean hfits)
    constructor
    · rintro ⟨t', message, u', hrun', hflush', htogether⟩
      rw [hrun] at hrun'
      cases hrun'
      rw [hflush] at hflush'
      cases hflush'
      exact ⟨hiff.1 htogether, hfits⟩
    · rintro ⟨hall, _⟩
      exact ⟨t, _, u, hrun, hflush, hiff.2 hall⟩
  · refine ⟨?_, fun h => absurd h.2 hfits⟩
    rintro ⟨t', message, u', hrun', hflush', htogether⟩
    rw [hrun] at hrun'
    cases hrun'
    have hroom := htogether.room (OutputStream.create_clean isLittleEndian)
      (create_faces message isLittleEndian).consistent rfl
    have hbody := message.fits
    change afterAll 0 values ≤ 8 * message.body.length at hroom
    rw [← hlen] at hroom
    rw [aligned_length ht.clean] at hfits
    omega

theorem little_endian_true_lost :
    ¬ ∀ (isLittleEndian : Bool) (values : List BasicValue), StaysInStep isLittleEndian values := by
  intro h
  obtain ⟨t, message, u, hrun, hflush, m, w, _, hread, _⟩ := h true [⟨.bool, true, trivial⟩]
  cases hrun
  cases hflush
  have hvalue : returned (InputStream.readBool (InputStream.create ⟨[0x00], by decide⟩ true)) =
      some true := congrArg returned hread
  exact absurd hvalue (by decide)

end SomeIPRuntime.RoundTrip
