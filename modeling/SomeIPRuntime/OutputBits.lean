import SomeIPRuntime.InputBits
import SomeIPRuntime.OutputValues

set_option autoImplicit false

namespace SomeIPRuntime.OutputStream
open Bits ProgramRuns

def bits (o : OutputStream) : List Bool :=
  bitsOf o.payload ++ (byteBits o.currentByte).take o.currentBit

/-- The bits of the current byte that are not used yet are clear. -/
structure Clean (o : OutputStream) : Prop where
  bit : o.currentBit < 8
  rest : ∀ i, o.currentBit ≤ i → o.currentByte.getLsbD i = false

theorem create_clean (isLittleEndian : Bool) : Clean (create isLittleEndian) :=
  ⟨Nat.zero_lt_succ 7, fun _ _ => BitVec.getLsbD_zero⟩

theorem Clean.bits_length {o : OutputStream} (h : Clean o) :
    o.bits.length = 8 * o.payload.length + o.currentBit := by
  have hbit := h.bit
  simp [bits]
  omega

structure Appends (xs : List Bool) (o t : OutputStream) : Prop where
  clean : Clean t
  bits : t.bits = o.bits ++ xs
  errorOccurred : t.errorOccurred = o.errorOccurred
  positions : t.positions = o.positions
  isLittleEndian : t.isLittleEndian = o.isLittleEndian
  history : t.history = o.history

theorem Appends.refl {o : OutputStream} (h : Clean o) : Appends [] o o :=
  ⟨h, (List.append_nil _).symm, rfl, rfl, rfl, rfl⟩

theorem Appends.trans {xs ys : List Bool} {o t u : OutputStream} (h : Appends xs o t)
    (h' : Appends ys t u) : Appends (xs ++ ys) o u := by
  refine ⟨h'.clean, ?_, h'.errorOccurred.trans h.errorOccurred, h'.positions.trans h.positions,
    h'.isLittleEndian.trans h.isLittleEndian, h'.history.trans h.history⟩
  rw [h'.bits, h.bits, List.append_assoc]

theorem Appends.earlier {xs : List Bool} {o t : OutputStream} (h : Appends xs o t) :
    o.bits <+: t.bits := ⟨xs, h.bits.symm⟩

theorem payload_extends {o t : OutputStream} (ht : t.currentBit < 8) (h : o.bits <+: t.bits) :
    o.payload <+: t.payload := by
  refine bytes_extend ((byteBits t.currentByte).take t.currentBit) ?_ ?_
  · exact (List.prefix_append _ _).trans h
  · rw [List.length_take, byteBits_length]
    omega

theorem payload_of_bits {o t : OutputStream} (ho : Clean o) (ht : Clean t) (h : o.bits = t.bits) :
    o.payload = t.payload ∧ o.currentBit = t.currentBit ∧ o.currentByte = t.currentByte := by
  have hlen := congrArg List.length h
  rw [ho.bits_length, ht.bits_length] at hlen
  have hbit := ho.bit
  have hbit' := ht.bit
  have hpayload : o.payload = t.payload :=
    (payload_extends ht.bit (h ▸ List.prefix_rfl)).eq_of_length (by omega)
  have hcurrent : o.currentBit = t.currentBit := by omega
  refine ⟨hpayload, hcurrent, ?_⟩
  unfold bits at h
  rw [hpayload, hcurrent] at h
  have htake := List.append_cancel_left h
  apply BitVec.eq_of_getLsbD_eq
  intro i hi
  by_cases hlt : i < t.currentBit
  · have hget := congrArg (fun xs => xs[i]?) htake
    simpa [List.getElem?_take, hlt, byteBits_get _ i hi] using hget
  · rw [ho.rest i (by omega), ht.rest i (by omega)]

theorem placeBits_eq (b : Byte) (numCopy readPosition currentBit : ℕ) :
    placeBits b numCopy readPosition currentBit =
      InputStream.moveBits b numCopy readPosition currentBit := by
  unfold placeBits InputStream.moveBits
  by_cases hlt : currentBit < readPosition
  · have hng : ¬ currentBit > readPosition := by omega
    simp only [hlt, hng, ↓reduceIte]
  · by_cases hgt : currentBit > readPosition
    · simp only [hlt, hgt, ↓reduceIte]
    · have heq : readPosition - currentBit = 0 := by omega
      have heq' : currentBit - readPosition = 0 := by omega
      simp only [hlt, hgt, ↓reduceIte, heq, heq', BitVec.ushiftRight_zero, BitVec.shiftLeft_zero]

/-- The current byte with bits of `b` put behind the ones it has. -/
theorem placed_byte {o : OutputStream} (ho : Clean o) (b : Byte) {n r : ℕ} (hr : r + n ≤ 8)
    (hc : o.currentBit + n ≤ 8) :
    (byteBits (o.currentByte ||| placeBits b n r o.currentBit)).take (o.currentBit + n) =
        (byteBits o.currentByte).take o.currentBit ++ ((byteBits b).drop r).take n ∧
      ∀ i, o.currentBit + n ≤ i →
        (o.currentByte ||| placeBits b n r o.currentBit).getLsbD i = false := by
  have hbit : ∀ i, (o.currentByte ||| placeBits b n r o.currentBit).getLsbD i =
      (o.currentByte.getLsbD i ||
        (decide (o.currentBit ≤ i ∧ i < o.currentBit + n) && b.getLsbD (i - o.currentBit + r))) := by
    intro i
    rw [BitVec.getLsbD_or, placeBits_eq, InputStream.moveBits_bit b hr hc]
  refine ⟨?_, fun i hi => ?_⟩
  · apply List.ext_getElem?
    intro i
    by_cases hi : i < o.currentBit + n
    · rw [List.getElem?_take, if_pos hi, byteBits_get _ i (by omega), hbit]
      by_cases hlow : i < o.currentBit
      · have hno : ¬ (o.currentBit ≤ i ∧ i < o.currentBit + n) := by omega
        rw [List.getElem?_append_left (by rw [List.length_take, byteBits_length]; omega),
          List.getElem?_take, if_pos hlow, byteBits_get _ i (by omega)]
        simp [hno]
      · have hyes : o.currentBit ≤ i ∧ i < o.currentBit + n := by omega
        have hlen : ((byteBits o.currentByte).take o.currentBit).length = o.currentBit := by
          rw [List.length_take, byteBits_length]
          omega
        rw [List.getElem?_append_right (by omega), hlen, List.getElem?_take,
          if_pos (by omega), List.getElem?_drop, byteBits_get _ _ (by omega),
          ho.rest i (by omega), Nat.add_comm r]
        simp [hyes]
    · rw [List.getElem?_eq_none (by rw [List.length_take]; omega),
        List.getElem?_eq_none (by
          rw [List.length_append, List.length_take, List.length_take]
          omega)]
  · have hno : ¬ (o.currentBit ≤ i ∧ i < o.currentBit + n) := by omega
    rw [hbit, ho.rest i (by omega)]
    simp [hno]

theorem putBits_appends {o : OutputStream} (ho : Clean o) (b : Byte) {n r : ℕ} (hr : r + n ≤ 8)
    (hc : o.currentBit + n ≤ 8) :
    Appends (((byteBits b).drop r).take n) o (putBits (placeBits b n r o.currentBit) n o) := by
  obtain ⟨hbits, hrest⟩ := placed_byte ho b hr hc
  unfold putBits
  by_cases hfull : o.currentBit + n = 8
  · rw [if_pos hfull]
    refine ⟨⟨Nat.zero_lt_succ 7, fun i _ => BitVec.getLsbD_zero⟩, ?_, rfl, rfl, rfl, rfl⟩
    rw [hfull, List.take_of_length_le (by simp)] at hbits
    simp only [bits, bitsOf_append, bitsOf_cons, bitsOf_nil, List.append_nil, List.take_zero, hbits,
      List.append_assoc]
  · rw [if_neg hfull]
    refine ⟨⟨by dsimp only; omega, hrest⟩, ?_, rfl, rfl, rfl, rfl⟩
    simp only [bits, hbits, List.append_assoc]

theorem numCopy_bounds {bits readPosition currentBit : ℕ} (hbits : 0 < bits)
    (hr : readPosition < 8) (hc : currentBit < 8) :
    0 < numCopy bits readPosition currentBit ∧
      readPosition + numCopy bits readPosition currentBit ≤ 8 ∧
      currentBit + numCopy bits readPosition currentBit ≤ 8 ∧
      numCopy bits readPosition currentBit ≤ bits := by
  unfold numCopy
  dsimp only
  split_ifs <;> omega

theorem copyLoop_run (fuel count readPosition : ℕ) (source : List Byte) {o : OutputStream}
    (ho : Clean o) (hr : readPosition < 8) (hlen : readPosition + count ≤ 8 * source.length)
    (hfuel : count ≤ fuel) :
    ∃ t, copyLoop fuel count readPosition source o = .ok ⟨⟩ t ∧
      Appends (((bitsOf source).drop readPosition).take count) o t := by
  induction fuel generalizing count readPosition source o with
  | zero =>
    have hzero : count = 0 := by omega
    subst hzero
    exact ⟨o, rfl, Appends.refl ho⟩
  | succ fuel ih =>
    unfold copyLoop
    by_cases hpos : 0 < count
    · obtain ⟨hn, hnr, hnc, hnb⟩ := numCopy_bounds hpos hr ho.bit
      cases source with
      | nil => simp at hlen; omega
      | cons b rest =>
        simp only [gt_iff_lt, hpos, ↓reduceIte]
        rw [bind_ok (get_run o)]
        generalize numCopy count readPosition o.currentBit = n at hn hnr hnc hnb
        rw [bind_ok (modify_run _ o)]
        have hput := putBits_appends ho b hnr hnc
        have hsplit : ((bitsOf (b :: rest)).drop readPosition).take count =
            ((byteBits b).drop readPosition).take n ++
              ((bitsOf (b :: rest)).drop (readPosition + n)).take (count - n) := by
          have hcount : count = n + (count - n) := by omega
          conv_lhs => rw [hcount]
          rw [List.take_add, List.drop_drop]
          congr 1
          rw [bitsOf_cons, List.drop_append_of_le_length (by rw [byteBits_length]; omega),
            List.take_append_of_le_length (by rw [List.length_drop, byteBits_length]; omega)]
        rw [List.length_cons] at hlen
        by_cases hfull : readPosition + n = 8
        · rw [if_pos hfull]
          obtain ⟨t, hrun, ht⟩ := ih (count - n) 0 rest
            hput.clean (by decide) (by omega) (by omega)
          refine ⟨t, hrun, ?_⟩
          rw [hsplit, hfull, bitsOf_cons, List.drop_left' (byteBits_length b)]
          exact hput.trans ht
        · rw [if_neg hfull]
          obtain ⟨t, hrun, ht⟩ := ih (count - n) (readPosition + n)
            (b :: rest) hput.clean (by omega)
            (by rw [List.length_cons]; omega) (by omega)
          refine ⟨t, hrun, ?_⟩
          rw [hsplit]
          exact hput.trans ht
    · have hzero : count = 0 := by omega
      subst hzero
      exact ⟨o, rfl, Appends.refl ho⟩

def wire (size count : ℕ) (isLittleEndian : Bool) (value : BitVec (8 * size)) : List Bool :=
  (bitsOf (sourceBytes size count isLittleEndian value)).take count

theorem sourceBytes_length (size count : ℕ) (isLittleEndian : Bool) (value : BitVec (8 * size)) :
    (sourceBytes size count isLittleEndian value).length = size - (8 * size - count) / 8 := by
  unfold sourceBytes
  rw [Nat.shiftLeft_eq, Nat.shiftRight_eq_div_pow, show (2 : ℕ) ^ 3 = 8 from rfl, Nat.mul_comm size]
  cases isLittleEndian
  · simp
  · simp

theorem wire_length {size count : ℕ} (isLittleEndian : Bool) (value : BitVec (8 * size))
    (h : count ≤ 8 * size) : (wire size count isLittleEndian value).length = count := by
  unfold wire
  rw [List.length_take, bitsOf_length, sourceBytes_length]
  omega

theorem wire_whole (size : ℕ) (isLittleEndian : Bool) (value : BitVec (8 * size)) :
    wire size (8 * size) isLittleEndian value =
      bitsOf (reorder isLittleEndian (rawBytes size value)) := by
  have hsource : sourceBytes size (8 * size) isLittleEndian value =
      reorder isLittleEndian (rawBytes size value) := by
    unfold sourceBytes reorder
    rw [Nat.shiftLeft_eq, show (2 : ℕ) ^ 3 = 8 from rfl, Nat.mul_comm size, Nat.sub_self,
      Nat.zero_shiftRight]
    dsimp only
    rw [List.drop_zero, Nat.sub_zero, List.take_of_length_le (by simp)]
  unfold wire
  rw [hsource, List.take_of_length_le]
  rw [bitsOf_length]
  unfold reorder
  split <;> simp

theorem writeRaw_appends {o : OutputStream} (ho : Clean o) (hbit : o.currentBit = 0)
    (data : List Byte) : Appends (bitsOf data) o { o with payload := o.payload ++ data } := by
  refine ⟨⟨ho.bit, ho.rest⟩, ?_, rfl, rfl, rfl, rfl⟩
  simp [bits, hbit]

def Writable (count : ℕ) (isSigned : Bool) : Prop := ¬ (count < 1 ∨ (isSigned = true ∧ count < 2))

theorem writeField_run {size count : ℕ} (value : BitVec (8 * size)) {isSigned : Bool}
    {o : OutputStream} (ho : Clean o) (hcount : Writable count isSigned) (hle : count ≤ 8 * size) :
    ∃ t, writeField size value count isSigned o = .ok ⟨⟩ t ∧
      Appends (wire size count o.isLittleEndian value) o t := by
  unfold writeField
  rw [bind_ok (get_run o), Nat.shiftLeft_eq, show (2 : ℕ) ^ 3 = 8 from rfl, Nat.mul_comm size]
  by_cases hfast : o.currentBit = 0 ∧ count = 8 * size
  · rw [if_pos hfast]
    refine ⟨_, rfl, ?_⟩
    rw [hfast.2, wire_whole]
    exact writeRaw_appends ho hfast.1 _
  · rw [if_neg hfast, if_neg hcount]
    have hlen := sourceBytes_length size count o.isLittleEndian value
    obtain ⟨t, hrun, ht⟩ := copyLoop_run count count 0
      (sourceBytes size count o.isLittleEndian value) ho (by decide) (by omega) le_rfl
    exact ⟨t, hrun, ht⟩

theorem writeBitValue_run {size count : ℕ} (value : BitVec (8 * size)) {isSigned : Bool}
    {o : OutputStream} (ho : Clean o) (hcount : Writable (clampBits size count) isSigned) :
    ∃ t, writeBitValue size value count isSigned o = .ok ⟨⟩ t ∧
      Appends (wire size (clampBits size count) o.isLittleEndian value) o t :=
  writeField_run value ho hcount (by rw [clampBits_eq]; exact Nat.min_le_right _ _)

/-- Fields of at least two bits are written, whether signed or not. -/
theorem writeBitValue_fits {size count : ℕ} (value : BitVec (8 * size)) (isSigned : Bool)
    {o : OutputStream} (ho : Clean o) (htwo : 2 ≤ count) (hle : count ≤ 8 * size) :
    ∃ t, writeBitValue size value count isSigned o = .ok ⟨⟩ t ∧
      Appends (wire size count o.isLittleEndian value) o t := by
  have hclamp : clampBits size count = count := by
    rw [clampBits_eq]
    exact Nat.min_eq_left hle
  have hwritable : Writable (clampBits size count) isSigned := by
    rw [hclamp]
    unfold Writable
    omega
  have hrun := writeBitValue_run value ho hwritable
  rw [hclamp] at hrun
  exact hrun

def padding (o : OutputStream) : List Bool := List.replicate ((8 - o.currentBit) % 8) false

def aligned (o : OutputStream) : OutputStream :=
  if o.currentBit ≠ 0 then
    { o with payload := o.payload ++ [o.currentByte], currentByte := 0, currentBit := 0 }
  else o

theorem bitAlign_run (o : OutputStream) : bitAlign o = .ok ⟨⟩ (aligned o) := rfl

theorem aligned_currentBit (o : OutputStream) : (aligned o).currentBit = 0 := by
  unfold aligned
  split
  · rfl
  · omega

theorem aligned_errorOccurred (o : OutputStream) :
    (aligned o).errorOccurred = o.errorOccurred := by
  unfold aligned
  split <;> rfl

theorem Clean.byte {o : OutputStream} (ho : Clean o) :
    byteBits o.currentByte =
      (byteBits o.currentByte).take o.currentBit ++ List.replicate (8 - o.currentBit) false := by
  have hlt := ho.bit
  have hlen : ((byteBits o.currentByte).take o.currentBit).length = o.currentBit := by
    rw [List.length_take, byteBits_length]
    omega
  apply List.ext_getElem?
  intro i
  by_cases hi : i < o.currentBit
  · rw [List.getElem?_append_left (by omega), List.getElem?_take, if_pos hi]
  · rw [List.getElem?_append_right (by omega), hlen, List.getElem?_replicate]
    by_cases h8 : i < 8
    · rw [if_pos (by omega), byteBits_get _ i h8, ho.rest i (by omega)]
    · rw [if_neg (by omega), List.getElem?_eq_none (by rw [byteBits_length]; omega)]

theorem aligned_appends {o : OutputStream} (ho : Clean o) : Appends (padding o) o (aligned o) := by
  unfold aligned padding
  by_cases hbit : o.currentBit = 0
  · rw [if_neg (not_not_intro hbit), hbit]
    exact Appends.refl ho
  · rw [if_pos hbit]
    refine ⟨⟨Nat.zero_lt_succ 7, fun i _ => BitVec.getLsbD_zero⟩, ?_, rfl, rfl, rfl, rfl⟩
    have hpad : (8 - o.currentBit) % 8 = 8 - o.currentBit := Nat.mod_eq_of_lt (by omega)
    rw [hpad]
    simp only [bits, bitsOf_append, bitsOf_cons, bitsOf_nil, List.append_nil, List.take_zero,
      List.append_assoc]
    rw [← ho.byte]

end SomeIPRuntime.OutputStream
