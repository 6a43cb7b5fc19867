import SomeIPRuntime.InputSteps
import SomeIPRuntime.OutputBits

set_option autoImplicit false

namespace SomeIPRuntime.RoundTrip
open Bits ProgramRuns
open InputStream (Consistent position seek fieldBit fieldValue fieldValue_bit logged)
open OutputStream (Clean Appends wire)

def Carries (message : Message) (o : OutputStream) : Prop := o.bits <+: bitsOf message.body

theorem Carries.earlier {message : Message} {o t : OutputStream} (h : Carries message t)
    (hpre : o.bits <+: t.bits) : Carries message o := hpre.trans h

structure Faces (s : InputStream) (o : OutputStream) : Prop where
  consistent : Consistent s
  position : position s = o.bits.length
  isLittleEndian : s.isLittleEndian = o.isLittleEndian

theorem Faces.bit {s : InputStream} {o : OutputStream} (h : Faces s o) (ho : Clean o) :
    s.currentBit = o.currentBit ∧ s.current = o.payload.length := by
  have hposition := h.position
  have hbit := h.consistent.bit
  have hbit' := ho.bit
  rw [ho.bits_length] at hposition
  unfold InputStream.position at hposition
  omega

theorem bitAt_drop (bs : List Byte) (k i : ℕ) : bitAt (bs.drop k) i = bitAt bs (8 * k + i) := by
  rw [bitAt_eq, bitAt_eq, List.getD_eq_getElem?_getD, List.getD_eq_getElem?_getD, List.getElem?_drop]
  have hd : (8 * k + i) / 8 = k + i / 8 := by omega
  have hm : (8 * k + i) % 8 = i % 8 := by omega
  rw [hd, hm]

theorem bitAt_take (bs : List Byte) {k i : ℕ} (h : i < 8 * k) : bitAt (bs.take k) i = bitAt bs i := by
  rw [bitAt_eq, bitAt_eq, List.getD_eq_getElem?_getD, List.getD_eq_getElem?_getD, List.getElem?_take,
    if_pos (by omega)]

theorem bitAt_reverse (bs : List Byte) {i : ℕ} (h : i < 8 * bs.length) :
    bitAt bs.reverse i = bitAt bs (8 * (bs.length - 1 - i / 8) + i % 8) := by
  rw [bitAt_eq, bitAt_eq, List.getD_eq_getElem?_getD, List.getD_eq_getElem?_getD,
    List.getElem?_reverse (by omega)]
  have hd : (8 * (bs.length - 1 - i / 8) + i % 8) / 8 = bs.length - 1 - i / 8 := by omega
  have hm : (8 * (bs.length - 1 - i / 8) + i % 8) % 8 = i % 8 := by omega
  rw [hd, hm]

/-- The number of bytes of a value that are not used for a field of `count` bits. -/
def unusedBytes (size count : ℕ) : ℕ := (8 * size - count) / 8

theorem wire_bit {size count : ℕ} (isLittleEndian : Bool) (value : BitVec (8 * size)) {i : ℕ}
    (hcount : count ≤ 8 * size) (hi : i < count) :
    (wire size count isLittleEndian value).getD i false =
      value.getLsbD (if isLittleEndian then 8 * unusedBytes size count + i
        else 8 * (size - unusedBytes size count - 1 - i / 8) + i % 8) := by
  have htake : (wire size count isLittleEndian value).getD i false =
      bitAt (OutputStream.sourceBytes size count isLittleEndian value) i := by
    unfold wire bitAt
    rw [List.getD_eq_getElem?_getD, List.getD_eq_getElem?_getD, List.getElem?_take, if_pos hi]
  rw [htake]
  unfold OutputStream.sourceBytes unusedBytes
  rw [Nat.shiftLeft_eq, Nat.shiftRight_eq_div_pow, show (2 : ℕ) ^ 3 = 8 from rfl, Nat.mul_comm size]
  cases isLittleEndian
  · have hlen : ((rawBytes size value).take (size - (8 * size - count) / 8)).length =
        size - (8 * size - count) / 8 := by
      rw [List.length_take, rawBytes_length]
      omega
    simp only [Bool.false_eq_true, ↓reduceIte]
    rw [bitAt_reverse _ (by omega), hlen, bitAt_take _ (by omega), rawBytes_bit]
  · simp only [↓reduceIte]
    rw [bitAt_drop, rawBytes_bit]

theorem fieldValue_congr {size count : ℕ} {le isSigned : Bool} {x y : ℕ → Bool} (hpos : 0 < count)
    (h : ∀ i < count, x i = y i) :
    fieldValue size count le isSigned x = fieldValue size count le isSigned y := by
  apply BitVec.eq_of_getLsbD_eq
  intro i hi
  rw [fieldValue_bit _ _ _ hi, fieldValue_bit _ _ _ hi]
  unfold fieldBit
  rw [h (count - 1) (by omega)]
  dsimp only
  generalize 8 * (if le then i / 8 else size - 1 - i / 8) + i % 8 = pos
  split
  · exact h pos ‹_›
  · rfl

theorem aligned_bits {o : OutputStream} (ho : Clean o) :
    bitsOf (OutputStream.aligned o).payload = o.bits ++ OutputStream.padding o := by
  rw [← (OutputStream.aligned_appends ho).bits]
  unfold OutputStream.bits
  rw [OutputStream.aligned_currentBit, List.take_zero, List.append_nil]

theorem flush_run {o : OutputStream} (hfits : (OutputStream.aligned o).payload.length < 2 ^ 32) :
    ∃ u, OutputStream.flush o = .ok ⟨(OutputStream.aligned o).payload, hfits⟩ u := by
  unfold OutputStream.flush
  rw [bind_ok (OutputStream.bitAlign_run o), bind_ok (get_run _), bind_ok (set_run _ _)]
  refine ⟨_, congrArg (fun message => EStateM.Result.ok message _) ?_⟩
  congr 1
  rw [Nat.mod_eq_of_lt hfits, List.take_length]

theorem flushed_carries {o : OutputStream} (ho : Clean o)
    (hfits : (OutputStream.aligned o).payload.length < 2 ^ 32) :
    Carries ⟨(OutputStream.aligned o).payload, hfits⟩ o := by
  unfold Carries
  rw [aligned_bits ho]
  exact List.prefix_append _ _

theorem aligned_length {o : OutputStream} (ho : Clean o) :
    (OutputStream.aligned o).payload.length = (o.bits.length + 7) / 8 := by
  have hlen := congrArg List.length (aligned_bits ho)
  have hbit := ho.bit
  rw [bitsOf_length, List.length_append, OutputStream.padding, List.length_replicate] at hlen
  rw [ho.bits_length] at hlen ⊢
  omega

theorem aligned_longer {o : OutputStream} (ho : Clean o) :
    o.payload.length ≤ (OutputStream.aligned o).payload.length := by
  have hround := aligned_length ho
  rw [ho.bits_length] at hround
  omega

theorem facing_exists {message : Message} {o : OutputStream} (hc : Carries message o) :
    ∃ s : InputStream, s.message = message ∧ Faces s o ∧ s.errorOccurred = false := by
  have hlen := hc.length_le
  rw [bitsOf_length] at hlen
  exact ⟨seek o.bits.length (InputStream.create message o.isLittleEndian), rfl,
    ⟨InputStream.seek_consistent _ hlen, InputStream.seek_position _ _, rfl⟩, rfl⟩

def decoded (size count : ℕ) (le isSigned : Bool) (xs : List Bool) : BitVec (8 * size) :=
  fieldValue size count le isSigned fun i => xs.getD i false

def Ahead (s : InputStream) (xs : List Bool) : Prop :=
  xs <+: (bitsOf s.message.body).drop (position s)

theorem Carries.ahead {s : InputStream} {o t : OutputStream} {xs : List Bool}
    (hc : Carries s.message t) (hs : Faces s o) (ht : Appends xs o t) : Ahead s xs := by
  unfold Carries at hc
  rw [ht.bits] at hc
  obtain ⟨rest, hrest⟩ := hc
  refine ⟨rest, ?_⟩
  rw [← hrest, hs.position, List.append_assoc, List.drop_left]

structure Moved (n : ℕ) (s u : InputStream) : Prop where
  consistent : Consistent u
  position : position u = position s + n
  isLittleEndian : u.isLittleEndian = s.isLittleEndian
  message : u.message = s.message

theorem Moved.faces {n : ℕ} {s u : InputStream} {o t : OutputStream} (h : Moved n s u)
    (hs : Faces s o) (hlen : t.bits.length = o.bits.length + n)
    (hle : t.isLittleEndian = o.isLittleEndian) : Faces u t := by
  refine ⟨h.consistent, ?_, h.isLittleEndian.trans (hs.isLittleEndian.trans hle.symm)⟩
  rw [h.position, hs.position, hlen]

theorem Moved.appended {s u : InputStream} {o t : OutputStream} {xs : List Bool}
    (h : Moved xs.length s u) (hs : Faces s o) (ht : Appends xs o t) : Faces u t :=
  h.faces hs (by rw [ht.bits, List.length_append]) ht.isLittleEndian

theorem Ahead.rest {s u : InputStream} {xs ys : List Bool} (h : Ahead s (xs ++ ys))
    (hposition : position u = position s + xs.length) (hmessage : u.message = s.message) :
    Ahead u ys := by
  have hdrop := h.drop xs.length
  rw [List.drop_left, List.drop_drop] at hdrop
  unfold Ahead
  rw [hmessage, hposition]
  exact hdrop

theorem readField_ahead {s : InputStream} (hs : Consistent s) {xs : List Bool} (hx : Ahead s xs)
    {size : ℕ} (isSigned : Bool) (hpos : 0 < xs.length) (hle : xs.length ≤ 8 * size) :
    ∃ u, InputStream.readField size xs.length isSigned s =
        .ok (false, decoded size xs.length s.isLittleEndian isSigned xs) u ∧
      Moved xs.length s u ∧ u.errorOccurred = s.errorOccurred := by
  have hlen := hx.length_le
  rw [List.length_drop, bitsOf_length] at hlen
  have hin := hs.inside
  have hfit : s.currentBit + xs.length ≤ 8 * s.remaining := by
    unfold InputStream.position at hlen
    omega
  refine ⟨seek (position s + xs.length) (logged (.readBits xs.length) s),
    (InputStream.readField_run hs isSigned hpos hle hfit).trans ?_, ⟨?_, ?_, rfl, rfl⟩, rfl⟩
  · refine congrArg (fun value => EStateM.Result.ok (false, value) _) (fieldValue_congr hpos ?_)
    intro i hi
    have hwindow : window s.message.body (position s) xs.length = xs :=
      (List.prefix_iff_eq_take.1 hx).symm
    rw [← window_get _ _ _ _ hi, hwindow]
  · refine InputStream.seek_consistent _ ?_
    change position s + xs.length ≤ 8 * s.message.body.length
    omega
  · rw [InputStream.seek_position]

theorem readField_carried {s : InputStream} {o t : OutputStream} (hs : Faces s o)
    (xs : List Bool) (ht : Appends xs o t) {size : ℕ} (isSigned : Bool) (hpos : 0 < xs.length)
    (hle : xs.length ≤ 8 * size) (hc : Carries s.message t) :
    ∃ u, InputStream.readField size xs.length isSigned s =
        .ok (false, decoded size xs.length s.isLittleEndian isSigned xs) u ∧
      Faces u t ∧ u.message = s.message ∧ u.errorOccurred = s.errorOccurred := by
  obtain ⟨u, hrun, hu, herror⟩ :=
    readField_ahead hs.consistent (hc.ahead hs ht) isSigned hpos hle
  exact ⟨u, hrun, hu.appended hs ht, hu.message, herror⟩

theorem assignBits_ahead {s : InputStream} (hs : Consistent s) {xs : List Bool} (hx : Ahead s xs)
    (size bits : ℕ) {β : Type} (isSigned : Bool) (cast : BitVec (8 * size) → β) (invalid : Option β)
    {count : ℕ} (hclamp : clampBits size bits = count) (hlen : xs.length = count) (hpos : 0 < count) :
    ∃ u, InputStream.assignBits size bits isSigned cast invalid s =
        .ok (cast (decoded size count s.isLittleEndian isSigned xs)) u ∧
      Moved count s u ∧ u.errorOccurred = false := by
  subst hlen
  have hle : xs.length ≤ 8 * size := by
    rw [← hclamp]
    exact InputStream.clampBits_le size bits
  obtain ⟨u, hrun, hu, _⟩ := readField_ahead (s := logged (.assign xs.length invalid.isSome) s)
    (InputStream.logged_consistent hs) hx isSigned hpos hle
  refine ⟨{ u with
    errorOccurred := false && !invalid.isSome, failed := u.failed || (false && !invalid.isSome) },
    ?_, ⟨⟨hu.consistent.bit, hu.consistent.inside, hu.consistent.pending⟩, hu.position,
      hu.isLittleEndian, hu.message⟩, rfl⟩
  rw [InputStream.assignBits_run, hclamp, hrun]
  rfl

section Fields
variable {s : InputStream} {o t : OutputStream} {size bits count : ℕ} {xs : List Bool}

theorem assignBits_carried (size bits : ℕ) (hs : Faces s o) (ht : Appends xs o t) {β : Type} (isSigned : Bool)
    (cast : BitVec (8 * size) → β) (invalid : Option β) (hclamp : clampBits size bits = count)
    (hlen : xs.length = count) (hpos : 0 < count) (hc : Carries s.message t) :
    ∃ u, InputStream.assignBits size bits isSigned cast invalid s =
        .ok (cast (decoded size count o.isLittleEndian isSigned xs)) u ∧
      Faces u t ∧ u.message = s.message ∧ u.errorOccurred = false := by
  have happends := hc.ahead hs ht
  obtain ⟨u, hrun, hu, herror⟩ :=
    assignBits_ahead hs.consistent happends size bits isSigned cast invalid hclamp hlen hpos
  rw [hs.isLittleEndian] at hrun
  subst hlen
  exact ⟨u, hrun, hu.appended hs ht, hu.message, herror⟩

theorem ignoreBits_carried (size bits : ℕ) (hs : Faces s o) (ht : Appends xs o t) (isSigned : Bool)
    (hclamp : clampBits size bits = count) (hlen : xs.length = count) (hpos : 0 < count)
    (hc : Carries s.message t) :
    ∃ u, InputStream.ignoreBits size bits isSigned s =
        .ok (decoded size count o.isLittleEndian isSigned xs) u ∧
      Faces u t ∧ u.message = s.message ∧ u.errorOccurred = s.errorOccurred := by
  subst hlen
  have hlog : Faces (logged (.ignore xs.length) s) o :=
    ⟨InputStream.logged_consistent hs.consistent, hs.position, hs.isLittleEndian⟩
  have hle : xs.length ≤ 8 * size := by
    rw [← hclamp]
    exact InputStream.clampBits_le size bits
  obtain ⟨u, hrun, hu, hmessage, herror⟩ := readField_carried hlog xs ht isSigned hpos hle hc
  rw [hlog.isLittleEndian] at hrun
  refine ⟨{ u with failed := u.failed || false },
    ?_, ⟨⟨hu.consistent.bit, hu.consistent.inside, hu.consistent.pending⟩, hu.position,
      hu.isLittleEndian⟩, hmessage, herror⟩
  rw [InputStream.ignoreBits_run, hclamp, hrun]

end Fields

theorem faces_aligned {s : InputStream} {o : OutputStream} (hs : Faces s o) (ho : Clean o) :
    Faces (InputStream.aligned s) (OutputStream.aligned o) ∧
      (InputStream.aligned s).message = s.message ∧
      (InputStream.aligned s).errorOccurred = s.errorOccurred := by
  obtain ⟨hcons, hposition⟩ := InputStream.aligned_consistent hs.consistent
  have happends := OutputStream.aligned_appends ho
  have hlen := congrArg List.length happends.bits
  have hbit := ho.bit
  rw [List.length_append, OutputStream.padding, List.length_replicate] at hlen
  refine ⟨⟨hcons, ?_, ?_⟩, InputStream.aligned_message s, InputStream.aligned_errorOccurred s⟩
  · rw [hposition, hs.position, hlen, ho.bits_length]
    omega
  · rw [InputStream.aligned_isLittleEndian, hs.isLittleEndian, happends.isLittleEndian]

end SomeIPRuntime.RoundTrip
