import SomeIPRuntime.Carried

set_option autoImplicit false

namespace SomeIPRuntime.RoundTrip
open Bits ProgramRuns Deployment
open InputStream (Consistent position seek fieldBit fieldValue fieldValue_bit)
open OutputStream (Clean Appends wire)

def Representable (size count : ℕ) (isSigned : Bool) (value : BitVec (8 * size)) : Prop :=
  if isSigned then -2 ^ (count - 1) ≤ value.toInt ∧ value.toInt < 2 ^ (count - 1)
  else value.toNat < 2 ^ count

instance (size count : ℕ) (isSigned : Bool) (value : BitVec (8 * size)) :
    Decidable (Representable size count isSigned value) := by
  unfold Representable
  infer_instance

theorem low_bits {w n : ℕ} {x : BitVec w} (h : x.toNat < 2 ^ n) {i : ℕ} (hi : n ≤ i) :
    x.getLsbD i = false :=
  Nat.testBit_lt_two_pow (h.trans_le (Nat.pow_le_pow_right (by decide) hi))

theorem Representable.high {size count : ℕ} {isSigned : Bool} {value : BitVec (8 * size)}
    (h : Representable size count isSigned value) (hpos : 0 < count) {i : ℕ} (hi : count ≤ i)
    (hlt : i < 8 * size) : value.getLsbD i = (isSigned && value.getLsbD (count - 1)) := by
  unfold Representable at h
  cases isSigned with
  | false =>
    simp only [Bool.false_eq_true, ↓reduceIte] at h
    rw [low_bits h hi, Bool.false_and]
  | true =>
    simp only [↓reduceIte] at h
    rw [Bool.true_and]
    have hpow : ((2 ^ (8 * size) : ℕ) : ℤ) = 2 ^ (8 * size) := by norm_num
    have hsmall : ((2 ^ (count - 1) : ℕ) : ℤ) = 2 ^ (count - 1) := by norm_num
    by_cases hneg : 2 * value.toNat < 2 ^ (8 * size)
    · have hint : value.toInt = value.toNat := by
        rw [BitVec.toInt_eq_toNat_cond, if_pos hneg]
      have hlow : value.toNat < 2 ^ (count - 1) := by omega
      rw [low_bits hlow (by omega), low_bits hlow le_rfl]
    · have hint : value.toInt = value.toNat - 2 ^ (8 * size) := by
        rw [BitVec.toInt_eq_toNat_cond, if_neg hneg, hpow]
      have hnot : (~~~value).toNat < 2 ^ (count - 1) := by
        rw [BitVec.toNat_not]
        have hvalue := value.isLt
        omega
      have hones : ∀ j, count - 1 ≤ j → j < 8 * size → value.getLsbD j = true := by
        intro j hj hjlt
        have hbit := low_bits hnot hj
        rw [BitVec.getLsbD_not] at hbit
        simpa [hjlt] using hbit
      rw [hones i (by omega) hlt, hones (count - 1) le_rfl (by omega)]

/-- The bit of the value that is written as bit `pos` of the field. -/
def sourceBit (size count : ℕ) (le : Bool) (pos : ℕ) : ℕ :=
  if le then 8 * unusedBytes size count + pos
  else 8 * (size - unusedBytes size count - 1 - pos / 8) + pos % 8

def targetBit (size : ℕ) (le : Bool) (i : ℕ) : ℕ := 8 * (if le then i / 8 else size - 1 - i / 8) + i % 8

theorem decoded_wire_bit {size count : ℕ} {le isSigned : Bool} {value : BitVec (8 * size)}
    (hpos : 0 < count) (hle : count ≤ 8 * size) {i : ℕ} (hi : i < 8 * size) :
    (decoded size count le isSigned (wire size count le value)).getLsbD i =
      if targetBit size le i < count then value.getLsbD (sourceBit size count le (targetBit size le i))
      else (isSigned && value.getLsbD (sourceBit size count le (count - 1))) &&
        (decide (8 * (size - 1) < count) || decide (8 * ((count + 7) / 8) ≤ targetBit size le i)) := by
  unfold decoded
  rw [fieldValue_bit _ _ _ hi]
  unfold fieldBit
  change (if targetBit size le i < count then _ else _) = _
  by_cases hlt : targetBit size le i < count
  · rw [if_pos hlt, if_pos hlt]
    exact wire_bit le value hle hlt
  · rw [if_neg hlt, if_neg hlt]
    refine congrArg (fun b => (isSigned && b) && _) ?_
    exact wire_bit le value hle (by omega)

theorem eq_iff_bits {w : ℕ} (x y : BitVec w) : x = y ↔ ∀ i < w, y.getLsbD i = x.getLsbD i := by
  constructor
  · rintro rfl i _
    rfl
  · intro h
    exact BitVec.eq_of_getLsbD_eq fun i hi => (h i hi).symm

/-- The lowest byte of the value is the last one of a big endian field, and only as many of
    its bits are on the wire as are left for it. -/
def LowByteFits (size count : ℕ) (isSigned : Bool) (value : BitVec (8 * size)) : Prop :=
  ∀ i, count - 8 * (size - 1) ≤ i → i < 8 →
    value.getLsbD i = (isSigned && value.getLsbD (count - 8 * (size - 1) - 1))

def Survives (size count : ℕ) (le isSigned : Bool) (value : BitVec (8 * size)) : Prop :=
  (8 * (size - 1) < count ∧ (le = true ∨ LowByteFits size count isSigned value)) ∨ value = 0 ∨
    (isSigned = true ∧ value = BitVec.allOnes _ ∧ count % 8 = 0)

section Decoding
variable {size count : ℕ} {le isSigned : Bool} {value : BitVec (8 * size)}

/-- A field that reaches into the last byte of its type uses all bytes. -/
theorem decoded_whole_little (hvalue : Representable size count isSigned value) (hpos : 0 < count)
    (hle : count ≤ 8 * size) (hwhole : 8 * (size - 1) < count) :
    decoded size count true isSigned (wire size count true value) = value := by
  apply BitVec.eq_of_getLsbD_eq
  intro i hi
  have hunused : unusedBytes size count = 0 := by unfold unusedBytes; omega
  have htarget : targetBit size true i = i := by
    unfold targetBit
    rw [if_pos rfl]
    omega
  have hsource : ∀ pos, sourceBit size count true pos = pos := by
    intro pos
    unfold sourceBit
    rw [if_pos rfl, hunused]
    omega
  rw [decoded_wire_bit hpos hle hi, htarget, hsource, hsource]
  by_cases hlt : i < count
  · rw [if_pos hlt]
  · rw [if_neg hlt, decide_eq_true hwhole, Bool.true_or, Bool.and_true,
      hvalue.high hpos (by omega) hi]

theorem decoded_whole_big (hpos : 0 < count) (hle : count ≤ 8 * size)
    (hwhole : 8 * (size - 1) < count) :
    decoded size count false isSigned (wire size count false value) = value ↔
      LowByteFits size count isSigned value := by
  have hunused : unusedBytes size count = 0 := by unfold unusedBytes; omega
  have hlast : sourceBit size count false (count - 1) = count - 8 * (size - 1) - 1 := by
    unfold sourceBit
    rw [if_neg Bool.false_ne_true, hunused]
    omega
  have hbit : ∀ i < 8 * size,
      (decoded size count false isSigned (wire size count false value)).getLsbD i =
        if i < 8 ∧ count - 8 * (size - 1) ≤ i then
          isSigned && value.getLsbD (count - 8 * (size - 1) - 1)
        else value.getLsbD i := by
    intro i hi
    rw [decoded_wire_bit hpos hle hi, hlast, decide_eq_true hwhole, Bool.true_or, Bool.and_true]
    have htarget : targetBit size false i = 8 * (size - 1 - i / 8) + i % 8 := by
      unfold targetBit
      rw [if_neg Bool.false_ne_true]
    by_cases hlow : i < 8 ∧ count - 8 * (size - 1) ≤ i
    · rw [if_pos hlow, if_neg (by omega)]
    · rw [if_neg hlow, if_pos (by omega)]
      congr 1
      unfold sourceBit
      rw [if_neg Bool.false_ne_true, hunused, htarget]
      omega
  rw [eq_iff_bits]
  constructor
  · intro h i hr hi
    rw [h i (by omega), hbit i (by omega), if_pos ⟨hi, hr⟩]
  · intro h i hi
    rw [hbit i hi]
    split
    · rename_i hlow
      exact h i hlow.2 hlow.1
    · rfl

theorem eq_zero_iff {w : ℕ} (x : BitVec w) : x = 0 ↔ ∀ i < w, x.getLsbD i = false := by
  rw [eq_comm, eq_iff_bits]
  simp

theorem eq_allOnes_iff {w : ℕ} (x : BitVec w) :
    x = BitVec.allOnes w ↔ ∀ i < w, x.getLsbD i = true := by
  rw [eq_comm, eq_iff_bits]
  refine forall₂_congr fun i hi => ?_
  rw [BitVec.getLsbD_allOnes, decide_eq_true hi]

theorem copied_down {width distance : ℕ} {bits : ℕ → Bool} {b : Bool} (hpos : 0 < distance)
    (h : ∀ i < width, bits i = b ∨ (i + distance < width ∧ bits i = bits (i + distance))) :
    ∀ i < width, bits i = b := by
  intro i hi
  induction hleft : width - i using Nat.strong_induction_on generalizing i with
  | _ left ih =>
    rcases h i hi with hdone | ⟨hlt, hcopy⟩
    · exact hdone
    · rw [hcopy]
      exact ih (width - (i + distance)) (by omega) (i + distance) hlt rfl

theorem copied_up {width distance : ℕ} {bits : ℕ → Bool} {b : Bool} (hpos : 0 < distance)
    (h : ∀ i < width, bits i = b ∨ (distance ≤ i ∧ bits i = bits (i - distance))) :
    ∀ i < width, bits i = b := by
  intro i
  induction i using Nat.strong_induction_on with
  | _ i ih =>
    intro hi
    rcases h i hi with hdone | ⟨hle, hcopy⟩
    · exact hdone
    · rw [hcopy]
      exact ih (i - distance) (by omega) (by omega)

/-- A narrow little endian field is taken from the end of the value and put at its beginning. -/
theorem narrow_little_bit (isSigned : Bool) (value : BitVec (8 * size)) (hpos : 0 < count) (hnarrow : count ≤ 8 * (size - 1)) {i : ℕ}
    (hi : i < 8 * size) :
    (decoded size count true isSigned (wire size count true value)).getLsbD i =
      if i < count then value.getLsbD (8 * unusedBytes size count + i)
      else (isSigned && value.getLsbD (8 * unusedBytes size count + (count - 1))) &&
        decide (8 * ((count + 7) / 8) ≤ i) := by
  have htarget : targetBit size true i = i := by
    unfold targetBit
    rw [if_pos rfl]
    omega
  have hno : decide (8 * (size - 1) < count) = false := decide_eq_false (by omega)
  rw [decoded_wire_bit hpos (by omega) hi, htarget, hno, Bool.false_or]
  unfold sourceBit
  rw [if_pos rfl, if_pos rfl]

/-- The bits of a value that is kept are copied from above, down from the sign extension. -/
theorem narrow_little_down {u : ℕ} {fill b : Bool} (hu : 0 < u) (hsum : u + (count + 7) / 8 = size)
    (hstep : ∀ i < 8 * size, value.getLsbD i = if i < count then value.getLsbD (8 * u + i)
      else fill && decide (8 * ((count + 7) / 8) ≤ i))
    (hhigh : ∀ i, count ≤ i → i < 8 * size → value.getLsbD i = b) :
    ∀ i < 8 * size, value.getLsbD i = b := by
  refine copied_down (Nat.mul_pos (by decide : 0 < 8) hu) fun i hi => ?_
  by_cases hlt : i < count
  · right
    rw [hstep i hi, if_pos hlt, Nat.add_comm]
    exact ⟨by omega, rfl⟩
  · exact Or.inl (hhigh i (by omega) hi)

/-- A field that ends inside a byte leaves a hole behind it. -/
theorem narrow_little_hole {u : ℕ} (hnarrow : count ≤ 8 * (size - 1)) (hpos : 0 < count)
    (hstep : ∀ i < 8 * size, value.getLsbD i = if i < count then value.getLsbD (8 * u + i)
      else true && decide (8 * ((count + 7) / 8) ≤ i))
    (htrue : ∀ i, count ≤ i → i < 8 * size → value.getLsbD i = true) : count % 8 = 0 := by
  by_contra hne
  have hfalse : value.getLsbD count = false := by
    rw [hstep count (by omega), if_neg (lt_irrefl _), decide_eq_false (by omega)]
    rfl
  rw [htrue count le_rfl (by omega)] at hfalse
  cases hfalse

theorem decoded_narrow_little (hvalue : Representable size count isSigned value) (hpos : 0 < count)
    (hnarrow : count ≤ 8 * (size - 1)) :
    decoded size count true isSigned (wire size count true value) = value ↔
      value = 0 ∨ (isSigned = true ∧ value = BitVec.allOnes _ ∧ count % 8 = 0) := by
  have hbit := fun i hi => narrow_little_bit isSigned value hpos hnarrow (i := i) hi
  have hu : 0 < unusedBytes size count ∧ unusedBytes size count + (count + 7) / 8 = size := by
    unfold unusedBytes
    omega
  generalize unusedBytes size count = u at hbit hu
  obtain ⟨hu, hsum⟩ := hu
  rw [eq_iff_bits]
  constructor
  · intro h
    have hstep := fun i hi => (h i hi).trans (hbit i hi)
    cases hsign : isSigned && value.getLsbD (8 * u + (count - 1)) with
    | false =>
      left
      rw [hsign] at hstep
      rw [eq_zero_iff]
      refine narrow_little_down hu hsum hstep fun j hj hjlt => ?_
      rw [hstep j hjlt, if_neg (by omega), Bool.false_and]
    | true =>
      right
      rw [hsign] at hstep
      obtain ⟨hsigned, hlast⟩ := Bool.and_eq_true_iff.1 hsign
      have hhigh := fun i (hc : count ≤ i) (hi : i < 8 * size) => hvalue.high hpos hc hi
      have htrue : ∀ i, count ≤ i → i < 8 * size → value.getLsbD i = true := by
        intro i hc hi
        rw [hhigh i hc hi, ← hhigh (8 * u + (count - 1)) (by omega) (by omega), hlast]
      refine ⟨hsigned, ?_, narrow_little_hole hnarrow hpos hstep htrue⟩
      rw [eq_allOnes_iff]
      exact narrow_little_down hu hsum hstep htrue
  · rintro (hzero | ⟨rfl, hones, hmod⟩) i hi
    · rw [eq_zero_iff] at hzero
      rw [hbit i hi, hzero i hi]
      split
      · rw [hzero _ (by omega)]
      · rw [hzero _ (by omega), Bool.and_false, Bool.false_and]
    · rw [eq_allOnes_iff] at hones
      rw [hbit i hi, hones i hi]
      split
      · rw [hones _ (by omega)]
      · rw [hones _ (by omega), decide_eq_true (by omega)]
        rfl

/-- A narrow big endian field is taken from the beginning of the value and put at its end. -/
theorem narrow_big_bit (isSigned : Bool) (value : BitVec (8 * size)) (hpos : 0 < count) (hnarrow : count ≤ 8 * (size - 1)) {i : ℕ}
    (hi : i < 8 * size) :
    (decoded size count false isSigned (wire size count false value)).getLsbD i =
      if i < 8 * unusedBytes size count then isSigned && value.getLsbD ((count - 1) % 8)
      else if 8 * (size - 1 - i / 8) + i % 8 < count then
        value.getLsbD (i - 8 * unusedBytes size count)
      else false := by
  have hu : unusedBytes size count + (count + 7) / 8 = size := by
    unfold unusedBytes
    omega
  have htarget : targetBit size false i = 8 * (size - 1 - i / 8) + i % 8 := by
    unfold targetBit
    rw [if_neg Bool.false_ne_true]
  have hno : decide (8 * (size - 1) < count) = false := decide_eq_false (by omega)
  have hlast : sourceBit size count false (count - 1) = (count - 1) % 8 := by
    unfold sourceBit
    rw [if_neg Bool.false_ne_true]
    omega
  rw [decoded_wire_bit hpos (by omega) hi, htarget, hno, Bool.false_or, hlast]
  unfold sourceBit
  rw [if_neg Bool.false_ne_true]
  generalize unusedBytes size count = u at hu
  by_cases hlow : i < 8 * u
  · rw [if_neg (by omega), if_pos hlow, decide_eq_true (by omega), Bool.and_true]
  · rw [if_neg hlow]
    by_cases hlt : 8 * (size - 1 - i / 8) + i % 8 < count
    · rw [if_pos hlt, if_pos hlt]
      congr 1
      omega
    · rw [if_neg hlt, if_neg hlt, decide_eq_false (by omega), Bool.and_false]

/-- A field that ends inside a byte leaves a hole there, which is copied upwards with the rest. -/
theorem narrow_big_hole {u : ℕ} (hu : 0 < u) (hsum : u + (count + 7) / 8 = size)
    (hnarrow : count ≤ 8 * (size - 1)) (hmod : count % 8 ≠ 0)
    (hvalue : ∀ i, count ≤ i → i < 8 * size → value.getLsbD i = value.getLsbD (count - 1))
    (hstep : ∀ i < 8 * size, value.getLsbD i = if i < 8 * u then true
      else if 8 * (size - 1 - i / 8) + i % 8 < count then value.getLsbD (i - 8 * u) else false) :
    False := by
  have hchain : ∀ q, u * q < size →
      value.getLsbD (8 * (u * q)) = true ∧ (0 < q → value.getLsbD (8 * (u * q) + 7) = false) := by
    intro q
    induction q with
    | zero =>
      intro hlt
      rw [Nat.mul_zero, Nat.mul_zero]
      exact ⟨by rw [hstep 0 (by omega), if_pos (by omega)], fun h => absurd h (lt_irrefl 0)⟩
    | succ q ih =>
      rw [Nat.mul_succ]
      intro hlt
      obtain ⟨hlow, hhole⟩ := ih (by omega)
      have hq : q = 0 ∨ 0 < q := by omega
      have hge : 0 < q → u ≤ u * q := fun h => Nat.le_mul_of_pos_right u h
      have hzero : q = 0 → u * q = 0 := fun h => by rw [h, Nat.mul_zero]
      generalize u * q = m at hlt hlow hhole hge hzero
      have hback : 8 * (m + u) - 8 * u = 8 * m := by omega
      have hback7 : 8 * (m + u) + 7 - 8 * u = 8 * m + 7 := by omega
      refine ⟨?_, fun _ => ?_⟩
      · rw [hstep _ (by omega), if_neg (by omega), if_pos (by omega), hback, hlow]
      · rw [hstep _ (by omega), if_neg (by omega)]
        obtain rfl | hqpos := hq
        · have hm := hzero rfl
          rw [if_neg (by omega)]
        · have hm := hge hqpos
          rw [if_pos (by omega), hback7]
          exact hhole hqpos
  have hle : u * ((size - 1) / u) ≤ size - 1 := Nat.mul_div_le _ _
  have hgt : size - 1 < u * ((size - 1) / u) + u := Nat.lt_mul_div_succ _ hu |>.trans_eq (Nat.mul_succ _ _)
  have hq : 0 < (size - 1) / u := Nat.div_pos (by omega) hu
  obtain ⟨hlow, hhole⟩ := hchain ((size - 1) / u) (by omega)
  have hhole := hhole hq
  generalize u * ((size - 1) / u) = m at hle hgt hlow hhole
  rw [hvalue _ (by omega) (by omega)] at hlow hhole
  rw [hlow] at hhole
  cases hhole

theorem decoded_narrow_big (hvalue : Representable size count isSigned value) (hpos : 0 < count)
    (hnarrow : count ≤ 8 * (size - 1)) :
    decoded size count false isSigned (wire size count false value) = value ↔
      value = 0 ∨ (isSigned = true ∧ value = BitVec.allOnes _ ∧ count % 8 = 0) := by
  have hbit := fun i hi => narrow_big_bit isSigned value hpos hnarrow (i := i) hi
  have hu : 0 < unusedBytes size count ∧ unusedBytes size count + (count + 7) / 8 = size := by
    unfold unusedBytes
    omega
  generalize unusedBytes size count = u at hbit hu
  obtain ⟨hu, hsum⟩ := hu
  rw [eq_iff_bits]
  constructor
  · intro h
    have hstep := fun i hi => (h i hi).trans (hbit i hi)
    cases hsign : isSigned && value.getLsbD ((count - 1) % 8) with
    | false =>
      left
      rw [eq_zero_iff]
      -- the bits are copied upwards, from the bytes that hold the sign extension
      refine copied_up (Nat.mul_pos (by decide : 0 < 8) hu) fun j hj => ?_
      rw [hstep j hj, hsign]
      by_cases hlow : j < 8 * u
      · exact Or.inl (if_pos hlow)
      · rw [if_neg hlow]
        split
        · exact Or.inr ⟨by omega, rfl⟩
        · exact Or.inl rfl
    | true =>
      right
      rw [hsign] at hstep
      obtain ⟨hsigned, _⟩ := Bool.and_eq_true_iff.1 hsign
      have hmod : count % 8 = 0 := by
        by_contra hne
        refine narrow_big_hole hu hsum hnarrow hne (fun i hc hi => ?_) hstep
        rw [hvalue.high hpos hc hi, hsigned, Bool.true_and]
      refine ⟨hsigned, ?_, hmod⟩
      rw [eq_allOnes_iff]
      refine copied_up (Nat.mul_pos (by decide : 0 < 8) hu) fun j hj => ?_
      rw [hstep j hj]
      by_cases hlow : j < 8 * u
      · exact Or.inl (if_pos hlow)
      · rw [if_neg hlow, if_pos (by omega)]
        exact Or.inr ⟨by omega, rfl⟩
  · rintro (hzero | ⟨rfl, hones, hmod⟩) i hi
    · rw [eq_zero_iff] at hzero
      rw [hbit i hi, hzero i hi]
      split
      · rw [hzero _ (by omega), Bool.and_false]
      · split
        · rw [hzero _ (by omega)]
        · rfl
    · rw [eq_allOnes_iff] at hones
      rw [hbit i hi, hones i hi]
      split
      · rw [hones _ (by omega)]
        rfl
      · rw [if_pos (by omega), hones _ (by omega)]

theorem decoded_iff (hvalue : Representable size count isSigned value) (hpos : 0 < count)
    (hle : count ≤ 8 * size) :
    decoded size count le isSigned (wire size count le value) = value ↔
      Survives size count le isSigned value := by
  unfold Survives
  by_cases hwhole : 8 * (size - 1) < count
  · cases le with
    | true =>
      exact ⟨fun _ => Or.inl ⟨hwhole, Or.inl rfl⟩,
        fun _ => decoded_whole_little hvalue hpos hle hwhole⟩
    | false =>
      rw [decoded_whole_big hpos hle hwhole]
      constructor
      · exact fun h => Or.inl ⟨hwhole, Or.inr h⟩
      · rintro (⟨_, hle | hfits⟩ | rfl | ⟨_, _, hmod⟩)
        · cases hle
        · exact hfits
        · intro i _ _
          simp
        · intro i hr hi
          omega
  · have hnarrow : count ≤ 8 * (size - 1) := by omega
    have hiff : decoded size count le isSigned (wire size count le value) = value ↔
        value = 0 ∨ (isSigned = true ∧ value = BitVec.allOnes _ ∧ count % 8 = 0) := by
      cases le
      · exact decoded_narrow_big hvalue hpos hnarrow
      · exact decoded_narrow_little hvalue hpos hnarrow
    rw [hiff]
    exact ⟨Or.inr, fun h => h.resolve_left fun h => hwhole h.1⟩

end Decoding

/-- The value is written where the stream `o` stands, the stream is flushed, and the same field
    is read at the same place of the payload. -/
def BitFieldRoundTrips (type : IntegerType) (count : ℕ) (value : BitVec (8 * type.size))
    (o : OutputStream) : Prop :=
  ∃ t message u,
    OutputStream.writeBitValue type.size value count type.isSigned o = .ok ⟨⟩ t ∧
    t.errorOccurred = o.errorOccurred ∧ OutputStream.flush t = .ok message u ∧
    ∀ s : InputStream, s.message = message → Faces s o →
      ∃ v, InputStream.readBitValue type.size count type.isSigned s = .ok (false, value) v

theorem bitFieldRoundTrips_iff_decoded {type : IntegerType} {count : ℕ}
    {value : BitVec (8 * type.size)} {o : OutputStream}
    (hmin : (if type.isSigned then 2 else 1) ≤ count) (hmax : count ≤ 8 * type.size)
    (ho : Clean o) (hfits : o.payload.length + type.size + 1 < 2 ^ 32) :
    BitFieldRoundTrips type count value o ↔
      decoded type.size count o.isLittleEndian type.isSigned
        (wire type.size count o.isLittleEndian value) = value := by
  have hclamp : clampBits type.size count = count := by
    rw [clampBits_eq]
    exact Nat.min_eq_left hmax
  have hpos : 0 < count := by
    split at hmin <;> omega
  have hwritable : OutputStream.Writable (clampBits type.size count) type.isSigned := by
    rw [hclamp]
    rintro (hzero | ⟨hsigned, hone⟩)
    · omega
    · rw [if_pos hsigned] at hmin
      omega
  obtain ⟨t, hwrite, ht⟩ := OutputStream.writeBitValue_run value ho hwritable
  rw [hclamp] at ht
  have hlen := OutputStream.wire_length o.isLittleEndian value hmax
  generalize wire type.size count o.isLittleEndian value = xs at ht hlen
  subst hlen
  have hshort : (OutputStream.aligned t).payload.length < 2 ^ 32 := by
    have hbit := ho.bit
    rw [aligned_length ht.clean, ht.bits, List.length_append, ho.bits_length]
    omega
  have hcarries := flushed_carries ht.clean hshort
  obtain ⟨u, hflush⟩ := flush_run hshort
  have hread : ∀ s : InputStream, s.message = ⟨(OutputStream.aligned t).payload, hshort⟩ → Faces s o →
      ∃ v, InputStream.readBitValue type.size xs.length type.isSigned s =
        .ok (false, decoded type.size xs.length o.isLittleEndian type.isSigned xs) v := by
    intro s hmessage hs
    obtain ⟨v, hrun, _⟩ := readField_carried hs xs ht type.isSigned hpos hmax (hmessage ▸ hcarries)
    rw [hs.isLittleEndian] at hrun
    refine ⟨v, ?_⟩
    unfold InputStream.readBitValue
    rw [hclamp, hrun]
  constructor
  · rintro ⟨t', message, u', hwrite', _, hflush', hback⟩
    rw [hwrite] at hwrite'
    cases hwrite'
    rw [hflush] at hflush'
    cases hflush'
    obtain ⟨s, hmessage, hs, _⟩ := facing_exists (hcarries.earlier ht.earlier)
    obtain ⟨v, hrun⟩ := hread s hmessage hs
    obtain ⟨v', hrun'⟩ := hback s hmessage hs
    rw [hrun] at hrun'
    cases hrun'
    rfl
  · intro hdecoded
    rw [hdecoded] at hread
    exact ⟨t, _, u, hwrite, ht.errorOccurred, hflush, hread⟩

/-- A representable value comes back just if it fills the bytes of its type, or has no
    bits that could be lost. -/
theorem bit_field_round_trips_iff {type : IntegerType} {count : ℕ} {value : BitVec (8 * type.size)}
    {o : OutputStream} (hmin : (if type.isSigned then 2 else 1) ≤ count)
    (hmax : count ≤ 8 * type.size) (hvalue : Representable type.size count type.isSigned value)
    (ho : Clean o) (hfits : o.payload.length + type.size + 1 < 2 ^ 32) :
    BitFieldRoundTrips type count value o ↔
      Survives type.size count o.isLittleEndian type.isSigned value := by
  rw [bitFieldRoundTrips_iff_decoded hmin hmax ho hfits]
  refine decoded_iff hvalue ?_ hmax
  split at hmin <;> omega

theorem nibble_round_trips : BitFieldRoundTrips uint8 4 0x5 (OutputStream.create true) :=
  (bit_field_round_trips_iff (show (if uint8.isSigned then 2 else 1) ≤ 4 by decide) (by decide)
    (by decide) (OutputStream.create_clean true) (by decide)).2 (Or.inl ⟨by decide, Or.inl rfl⟩)

/-- Twelve bits of a `uint16_t`: the four low bits of the low byte are all that is written of it. -/
theorem twelve_bits_lost :
    ¬ ∀ (type : IntegerType) (count : ℕ) (value : BitVec (8 * type.size)) (o : OutputStream),
      (if type.isSigned then 2 else 1) ≤ count → count ≤ 8 * type.size →
      Representable type.size count type.isSigned value → Clean o →
      o.payload.length + type.size + 1 < 2 ^ 32 → BitFieldRoundTrips type count value o := by
  intro h
  have hback := h uint16 12 0x0ABC (OutputStream.create false) (by decide) (by decide)
    (by decide) (OutputStream.create_clean false) (by decide)
  rw [bitFieldRoundTrips_iff_decoded (by decide) (by decide) (OutputStream.create_clean false) (by decide)] at hback
  exact absurd hback (by decide)

def writeWhole (type : IntegerType) (value : BitVec (8 * type.size)) : OutputStream.Write Unit :=
  OutputStream.writeBitValue type.size value (8 * type.size) type.isSigned

def readWhole (type : IntegerType) : InputStream.Read (Bool × BitVec (8 * type.size)) :=
  InputStream.readBitValue type.size (8 * type.size) type.isSigned

theorem clampBits_whole (size : ℕ) : clampBits size (8 * size) = 8 * size := by
  rw [clampBits_eq, Nat.min_self]

/-- At the start of a byte the bytes of the value are written as they are. -/
theorem writeWhole_bytes (type : IntegerType) (value : BitVec (8 * type.size)) {a : OutputStream}
    (ha : a.currentBit = 0) :
    writeWhole type value a = .ok ⟨⟩ { a with
      payload := a.payload ++ OutputStream.reorder a.isLittleEndian (rawBytes type.size value) } := by
  have hbits : 8 * type.size = type.size <<< 3 := by
    rw [Nat.shiftLeft_eq, Nat.mul_comm]
  unfold writeWhole OutputStream.writeBitValue
  rw [clampBits_whole]
  exact congrFun (if_pos ⟨ha, hbits⟩) a

theorem readWhole_run (type : IntegerType) (hsize : 0 < type.size) {bytes : List Byte}
    (hlen : bytes.length = type.size) {s : InputStream} (hs : Consistent s)
    (hahead : Ahead s (bitsOf bytes)) :
    ∃ u, readWhole type s = .ok (false, decoded type.size (8 * type.size) s.isLittleEndian
        type.isSigned (bitsOf bytes)) u ∧ Moved (8 * type.size) s u := by
  have hbits : (bitsOf bytes).length = 8 * type.size := by rw [bitsOf_length, hlen]
  rcases readField_ahead hs hahead type.isSigned (by omega) hbits.le with ⟨u, hrun, hu, _⟩
  rw [hbits] at hrun hu
  refine ⟨u, ?_, hu⟩
  unfold readWhole InputStream.readBitValue
  rw [clampBits_whole]
  exact hrun

/-- Inside a byte the writer adds the bits of the bytes that it writes at the start of one, and the
    reader makes the same value of them as at the start of one. -/
theorem whole_values_at_any_bit (type : IntegerType) (hsize : 0 < type.size) :
    (∀ (value : BitVec (8 * type.size)) (o a : OutputStream), Clean o → o.currentBit ≠ 0 →
      a.currentBit = 0 → a.isLittleEndian = o.isLittleEndian →
      ∃ (bytes : List Byte) (t : OutputStream),
        writeWhole type value a = .ok ⟨⟩ { a with payload := a.payload ++ bytes } ∧
        writeWhole type value o = .ok ⟨⟩ t ∧ Appends (bitsOf bytes) o t) ∧
    ∀ (bytes : List Byte) (s r : InputStream), bytes.length = type.size → Consistent s →
      s.currentBit ≠ 0 → Consistent r → r.currentBit = 0 → r.isLittleEndian = s.isLittleEndian →
      Ahead s (bitsOf bytes) → Ahead r (bitsOf bytes) →
      ∃ (value : BitVec (8 * type.size)) (u w : InputStream),
        readWhole type s = .ok (false, value) u ∧ readWhole type r = .ok (false, value) w ∧
        Moved (8 * type.size) s u ∧ Moved (8 * type.size) r w := by
  constructor
  · intro value o a ho _ ha hle
    rcases OutputStream.writeBitValue_fits value type.isSigned ho (by omega) le_rfl with ⟨t, hrun, ht⟩
    rw [OutputStream.wire_whole, ← hle] at ht
    exact ⟨_, t, writeWhole_bytes type value ha, hrun, ht⟩
  · intro bytes s r hlen hs _ hr _ hle hahead hahead'
    rcases readWhole_run type hsize hlen hs hahead with ⟨u, hrun, hu⟩
    rcases readWhole_run type hsize hlen hr hahead' with ⟨w, hrun', hw⟩
    rw [hle] at hrun'
    exact ⟨_, u, w, hrun, hrun', hu, hw⟩

theorem minus_two_behind_three_bits :
    ∃ (bytes : List Byte) (t : OutputStream),
      writeWhole int16 0xFFFE (OutputStream.create true) =
        .ok ⟨⟩ { OutputStream.create true with payload := [] ++ bytes } ∧
      writeWhole int16 0xFFFE { OutputStream.create true with currentBit := 3 } = .ok ⟨⟩ t ∧
      Appends (bitsOf bytes) { OutputStream.create true with currentBit := 3 } t :=
  (whole_values_at_any_bit int16 (by decide)).1 0xFFFE _ (OutputStream.create true)
    ⟨by decide, fun _ _ => BitVec.getLsbD_zero⟩ (by decide) rfl rfl

end SomeIPRuntime.RoundTrip
