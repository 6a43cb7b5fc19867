import SomeIPRuntime.InputStream

set_option autoImplicit false

namespace SomeIPRuntime.InputStream
open Bits ProgramRuns

theorem moveBits_bit (b : Byte) {numCopy source target : ℕ} (hs : source + numCopy ≤ 8)
    (ht : target + numCopy ≤ 8) (i : ℕ) :
    (moveBits b numCopy source target).getLsbD i =
      (decide (target ≤ i ∧ i < target + numCopy) && b.getLsbD (i - target + source)) := by
  have hmask : ∀ j, (0xFF#8 >>> (8 - numCopy)).getLsbD j = decide (j < numCopy) := by
    intro j
    rw [show (0xFF#8 : Byte) = BitVec.allOnes 8 from rfl, BitVec.getLsbD_ushiftRight,
      BitVec.getLsbD_allOnes]
    congr 1
    apply propext
    omega
  unfold moveBits
  by_cases h : target < source
  · simp only [h, ↓reduceIte, BitVec.getLsbD_ushiftRight, BitVec.getLsbD_and,
      BitVec.getLsbD_shiftLeft, hmask]
    by_cases hi : target ≤ i
    · have he : source - target + i = i - target + source := by omega
      have hlt : (i < target + numCopy) ↔ (i - target + source - source < numCopy) := by omega
      rw [he]
      simp only [hi, hlt, true_and]
      by_cases h8 : i - target + source < 8
      · have hns : ¬ i - target + source < source := by omega
        simp [h8, hns, Bool.and_comm]
      · have hb : b.getLsbD (i - target + source) = false := BitVec.getLsbD_of_ge _ _ (by omega)
        simp [hb]
    · have hlow : source - target + i < source := by omega
      simp [hi, hlow]
  · simp only [h, ↓reduceIte, BitVec.getLsbD_and, BitVec.getLsbD_shiftLeft, hmask]
    by_cases hi : target ≤ i
    · by_cases h8 : i < 8
      · have hge : ¬ i < target - source := by omega
        have he : i - (target - source) = i - target + source := by omega
        have hns : ¬ i - target + source < source := by omega
        have hlt : (i < target + numCopy) ↔ (i - target + source - source < numCopy) := by omega
        have hb8 : i - target + source < 8 := by omega
        simp [h8, hge, he, hns, hi, hlt, hb8, Bool.and_comm]
      · have hn : ¬ (target ≤ i ∧ i < target + numCopy) := by omega
        simp [h8, hn]
    · have hn : ¬ (target ≤ i ∧ i < target + numCopy) := by omega
      by_cases hlow : i < target - source
      · simp [hn, hlow]
      · have hlow2 : i - (target - source) < source := by omega
        simp [hn, hlow, hlow2]

def position (s : InputStream) : ℕ := 8 * s.current + s.currentBit

/-- The cursor stands inside the payload, and `remaining_` is what lies behind it. -/
structure Consistent (s : InputStream) : Prop where
  bit : s.currentBit < 8
  inside : s.current + s.remaining = s.message.body.length
  pending : s.currentBit > 0 → s.remaining ≥ 1

def seek (p : ℕ) (s : InputStream) : InputStream :=
  { s with current := p / 8, currentBit := p % 8, remaining := s.message.body.length - p / 8 }

@[simp] theorem seek_message (p : ℕ) (s : InputStream) : (seek p s).message = s.message := rfl
@[simp] theorem seek_isLittleEndian (p : ℕ) (s : InputStream) :
    (seek p s).isLittleEndian = s.isLittleEndian := rfl
@[simp] theorem seek_current (p : ℕ) (s : InputStream) : (seek p s).current = p / 8 := rfl
@[simp] theorem seek_currentBit (p : ℕ) (s : InputStream) : (seek p s).currentBit = p % 8 := rfl
@[simp] theorem seek_seek (p q : ℕ) (s : InputStream) : seek p (seek q s) = seek p s := rfl

@[simp] theorem seek_position (p : ℕ) (s : InputStream) : position (seek p s) = p := by
  simp only [position, seek_current, seek_currentBit]
  omega

theorem seek_of_consistent {s : InputStream} (h : Consistent s) : seek (position s) s = s := by
  obtain ⟨hbit, hin, _⟩ := h
  have hc : position s / 8 = s.current := by unfold position; omega
  have hb : position s % 8 = s.currentBit := by unfold position; omega
  have hr : s.message.body.length - s.current = s.remaining := by omega
  unfold seek
  rw [hc, hb, hr]

theorem seek_consistent (s : InputStream) {p : ℕ} (h : p ≤ 8 * s.message.body.length) :
    Consistent (seek p s) := by
  constructor
  · exact Nat.mod_lt _ (by decide)
  · change p / 8 + (s.message.body.length - p / 8) = s.message.body.length
    omega
  · intro hbit
    change s.message.body.length - p / 8 ≥ 1
    change p % 8 > 0 at hbit
    omega

theorem create_consistent (message : Message) (isLittleEndian : Bool) :
    Consistent (create message isLittleEndian) :=
  ⟨Nat.zero_lt_succ 7, Nat.zero_add _, fun h => absurd h (lt_irrefl 0)⟩

theorem position_le {s : InputStream} (h : Consistent s) :
    position s ≤ 8 * s.message.body.length := by
  obtain ⟨hbit, hin, hp⟩ := h
  unfold position
  omega

theorem advance_seek (s : InputStream) {p n : ℕ} (hn : p % 8 + n ≤ 8)
    (hp : p + n ≤ 8 * s.message.body.length) :
    advance n (seek p s) = seek (p + n) s := by
  have hlen := s.message.fits
  unfold advance
  by_cases hw : p % 8 + n = 8
  · have h1 : p / 8 + 1 = (p + n) / 8 := by omega
    have h2 : (p + n) % 8 = 0 := by omega
    have h3 : wrapSub 64 (s.message.body.length - p / 8) 1 =
        s.message.body.length - (p + n) / 8 := by
      rw [wrapSub_of_le (by omega) (by omega)]
      omega
    simp only [seek_currentBit, hw, ↓reduceIte]
    unfold seek
    simp only [h1, h2, h3]
  · have h1 : p / 8 = (p + n) / 8 := by omega
    have h2 : p % 8 + n = (p + n) % 8 := by omega
    simp only [seek_currentBit, hw, ↓reduceIte]
    unfold seek
    simp only [h1, h2]

theorem dereference_seek (s : InputStream) (p : ℕ) {i : ℕ} (h : i < s.message.body.length) :
    dereference i (seek p s) = .ok (s.message.body.getD i 0) (seek p s) := by
  unfold dereference
  rw [seek_message, List.getElem?_eq_getElem h, List.getD_eq_getElem?_getD,
    List.getElem?_eq_getElem h]
  rfl

/-- What the loop has established after `c` of the `bits` bits: `x` gives the bits of
    the field, `neg` whether the sign bit was set. -/
structure Copied (size bits : ℕ) (le neg : Bool) (x : ℕ → Bool) (offset c : ℕ) (t : CopyState) :
    Prop where
  length : t.raw.length = size
  written : t.written = c / 8
  writePosition : t.writePosition = c % 8
  count : t.itsCurrentCount = 1 + (offset + c) / 8
  byte : ∀ i < 8, t.itsCurrentByte.getLsbD i =
    if i < c % 8 then x (8 * (c / 8) + i)
    else neg && decide (c / 8 = size - 1) && decide ((bits - 1) % 8 ≤ i)
  raw : ∀ j < size, ∀ i < 8,
    (t.raw.getD (if le then j else size - 1 - j) 0).getLsbD i =
      if j < c / 8 then x (8 * j + i) else neg

def roundBits (offset bits c : ℕ) : ℕ :=
  min (8 - (offset + c) % 8) (min (8 - c % 8) (bits - c))

theorem roundBits_bounds (offset : ℕ) {bits c : ℕ} (h : c < bits) :
    0 < roundBits offset bits c ∧ (offset + c) % 8 + roundBits offset bits c ≤ 8 ∧
      c % 8 + roundBits offset bits c ≤ 8 ∧ c + roundBits offset bits c ≤ bits := by
  unfold roundBits
  omega

def rounded (body : List Byte) (offset p c n : ℕ) (t : CopyState) : CopyState :=
  { t with
    itsCurrentByte := t.itsCurrentByte ||| moveBits (body.getD ((p + c) / 8) 0) n ((p + c) % 8) (c % 8)
    itsCurrentCount := 1 + (offset + (c + n)) / 8
    writePosition := c % 8 + n }

theorem copyStep_seek (s : InputStream) {bits c p : ℕ} {t : CopyState}
    (hw : t.writePosition = c % 8) (hc : c < bits) (hp : p + c < 8 * s.message.body.length) :
    copyStep (bits - c) t (seek (p + c) s) =
      .ok (bits - (c + roundBits (p % 8) bits c),
        { t with
          itsCurrentByte := t.itsCurrentByte |||
            moveBits (s.message.body.getD ((p + c) / 8) 0) (roundBits (p % 8) bits c) ((p + c) % 8)
              (c % 8)
          itsCurrentCount :=
            if (p + c) % 8 + roundBits (p % 8) bits c = 8 then t.itsCurrentCount + 1
            else t.itsCurrentCount
          writePosition := c % 8 + roundBits (p % 8) bits c })
        (seek (p + (c + roundBits (p % 8) bits c)) s) := by
  obtain ⟨hpos, hsrc, htgt, hle⟩ := roundBits_bounds (p % 8) hc
  have hround : numCopy ((p + c) % 8) t.writePosition (bits - c) = roundBits (p % 8) bits c := by
    unfold roundBits numCopy
    rw [hw]
    have hmod : (p + c) % 8 = (p % 8 + c) % 8 := by omega
    rw [hmod]
    dsimp only
    split_ifs <;> omega
  have hmod : (p % 8 + c) % 8 = (p + c) % 8 := by omega
  unfold copyStep
  rw [bind_ok (get_run _)]
  simp only [seek_currentBit, seek_current, hround]
  rw [bind_ok (dereference_seek s (p + c) (by omega)), bind_ok (set_run _ _), pure_run,
    advance_seek s (by omega) (by omega), hw, Nat.add_assoc p c, Nat.sub_sub]

theorem copyStep_run (s : InputStream) {size bits c p : ℕ} {le neg : Bool} {x : ℕ → Bool}
    {t : CopyState} (ht : Copied size bits le neg x (p % 8) c t) (hc : c < bits)
    (hp : p + bits ≤ 8 * s.message.body.length) :
    copyStep (bits - c) t (seek (p + c) s) =
      .ok (bits - (c + roundBits (p % 8) bits c),
        rounded s.message.body (p % 8) p c (roundBits (p % 8) bits c) t)
        (seek (p + (c + roundBits (p % 8) bits c)) s) := by
  obtain ⟨hpos, hsrc, htgt, hle⟩ := roundBits_bounds (p % 8) hc
  have hcount : (if (p + c) % 8 + roundBits (p % 8) bits c = 8 then t.itsCurrentCount + 1
      else t.itsCurrentCount) = 1 + (p % 8 + (c + roundBits (p % 8) bits c)) / 8 := by
    rw [ht.count]
    split_ifs <;> omega
  rw [copyStep_seek s ht.writePosition hc (by omega), hcount]
  rfl

/-- The current byte after a round: the new bits join the ones collected before. -/
theorem roundByte_bit (body : List Byte) {size bits offset c p : ℕ} {le neg : Bool} {t : CopyState}
    (ht : Copied size bits le neg (fun i => bitAt body (p + i)) offset c t) (hc : c < bits)
    (hsize : bits ≤ 8 * size) (ho : offset = p % 8)
    (hneg : neg = true → bitAt body (p + (bits - 1)) = true) (i : ℕ) (hi : i < 8) :
    (rounded body offset p c (roundBits offset bits c) t).itsCurrentByte.getLsbD i =
      if i < c % 8 + roundBits offset bits c then bitAt body (p + (8 * (c / 8) + i))
      else neg && decide (c / 8 = size - 1) && decide ((bits - 1) % 8 ≤ i) := by
  obtain ⟨hpos, hsrc, htgt, hle⟩ := roundBits_bounds offset hc
  have hmod : (offset + c) % 8 = (p + c) % 8 := by omega
  simp only [rounded]
  rw [BitVec.getLsbD_or, moveBits_bit _ (by omega) htgt, ht.byte i hi]
  by_cases hlow : i < c % 8
  · have hin : i < c % 8 + roundBits offset bits c := by omega
    simp [hlow, hin]
  · by_cases hin : i < c % 8 + roundBits offset bits c
    · have hwin : c % 8 ≤ i ∧ i < c % 8 + roundBits offset bits c := by omega
      have hbit : (body.getD ((p + c) / 8) 0).getLsbD (i - c % 8 + (p + c) % 8) =
          bitAt body (p + (8 * (c / 8) + i)) := by
        rw [bitAt_eq]
        have hd : (p + (8 * (c / 8) + i)) / 8 = (p + c) / 8 := by omega
        have hm : (p + (8 * (c / 8) + i)) % 8 = i - c % 8 + (p + c) % 8 := by omega
        rw [hd, hm]
      simp only [hlow, hin, hwin, hbit, ↓reduceIte, decide_true, Bool.true_and, and_self]
      -- the initializer can only have set the sign bit itself
      by_cases hbase : (neg && decide (c / 8 = size - 1) && decide ((bits - 1) % 8 ≤ i)) = true
      · simp only [Bool.and_eq_true, decide_eq_true_eq] at hbase
        have hlast : 8 * (c / 8) + i = bits - 1 := by omega
        rw [hlast, hneg hbase.1.1]
        simp
      · simp [Bool.eq_false_iff.2 hbase]
    · simp [hlow, hin]

theorem initializer_bit {bits i : ℕ} (hi : i < 8) :
    (0xFF#8 <<< ((bits - 1) % 8) : Byte).getLsbD i = decide ((bits - 1) % 8 ≤ i) := by
  rw [show (0xFF#8 : Byte) = BitVec.allOnes 8 from rfl, BitVec.getLsbD_shiftLeft,
    BitVec.getLsbD_allOnes]
  have hlt : i - (bits - 1) % 8 < 8 := by omega
  by_cases h : (bits - 1) % 8 ≤ i
  · have hn : ¬ i < (bits - 1) % 8 := by omega
    simp [hi, h, hn, hlt]
  · have hn : i < (bits - 1) % 8 := by omega
    simp [h, hn]

theorem target_injective {size i j : ℕ} (le : Bool) (hi : i < size) (hj : j < size) :
    (if le then i else size - 1 - i) = (if le then j else size - 1 - j) ↔ i = j := by
  cases le
  · simp only [Bool.false_eq_true, ↓reduceIte]
    omega
  · simp

/-- Storing the current byte changes the byte at the target, and no other one. -/
theorem store_bit {size c : ℕ} {le neg : Bool} {t : CopyState} (hlen : t.raw.length = size)
    (hw : t.written = c / 8) (hcs : c / 8 < size) {j i : ℕ} (hj : j < size)
    (hold : (t.raw.getD (if le then c / 8 else size - 1 - c / 8) 0).getLsbD i = neg) :
    ((t.store size le neg).getD (if le then j else size - 1 - j) 0).getLsbD i =
      if j = c / 8 then t.itsCurrentByte.getLsbD i
      else (t.raw.getD (if le then j else size - 1 - j) 0).getLsbD i := by
  have hbound : ∀ k < size, (if le then k else size - 1 - k) < t.raw.length := by
    intro k hk
    split <;> omega
  unfold CopyState.store
  rw [hw]
  simp only [List.getD_eq_getElem?_getD, List.getElem?_modify]
  rw [List.getElem?_eq_getElem (hbound j hj)]
  by_cases h : j = c / 8
  · subst h
    rw [List.getD_eq_getElem?_getD, List.getElem?_eq_getElem (hbound _ hj)] at hold
    simp only [Option.getD_some] at hold
    cases neg
    · simp [hold]
    · simp [hold]
  · have hne := (target_injective le hcs hj).not.2 (Ne.symm h)
    simp [h, hne]

/-- The bytes of `raw_` when the loop ends, in the order in which `target` moved. -/
structure Assembled (size bits : ℕ) (le neg : Bool) (x : ℕ → Bool) (raw : List Byte) : Prop where
  length : raw.length = size
  bit : ∀ j < size, ∀ i < 8, (raw.getD (if le then j else size - 1 - j) 0).getLsbD i =
    if 8 * j + i < bits then x (8 * j + i)
    else neg && (decide (8 * (size - 1) < bits) || decide (8 * ((bits + 7) / 8) ≤ 8 * j + i))

theorem store_length (t : CopyState) (size : ℕ) (le neg : Bool) :
    (t.store size le neg).length = t.raw.length := by
  simp [CopyState.store]

section Rounds
variable {body : List Byte} {size bits offset c p n : ℕ} {le neg : Bool} {t : CopyState}

/-- The bytes of `raw_` if the current byte is stored after a round. -/
theorem rounded_store_bit
    (ht : Copied size bits le neg (fun i => bitAt body (p + i)) offset c t) (hcs : c / 8 < size)
    {j i : ℕ} (hj : j < size) (hi : i < 8) :
    (((rounded body offset p c n t).store size le neg).getD
      (if le then j else size - 1 - j) 0).getLsbD i =
      if j = c / 8 then (rounded body offset p c n t).itsCurrentByte.getLsbD i
      else if j < c / 8 then bitAt body (p + (8 * j + i)) else neg := by
  have hold := ht.raw (c / 8) hcs i hi
  simp only [lt_self_iff_false, ↓reduceIte] at hold
  rw [store_bit (t := rounded body offset p c n t) (c := c) ht.length ht.written hcs hj hold]
  change _ = if j = c / 8 then _ else _
  rw [← ht.raw j hj i hi]
  rfl

theorem assembled_last
    (ht : Copied size bits le neg (fun i => bitAt body (p + i)) offset c t) (hc : c < bits)
    (hsize : bits ≤ 8 * size) (hn : c % 8 + n ≤ 8) (hend : c + n = bits)
    (hbyte : ∀ i < 8, (rounded body offset p c n t).itsCurrentByte.getLsbD i =
      if i < c % 8 + n then bitAt body (p + (8 * (c / 8) + i))
      else neg && decide (c / 8 = size - 1) && decide ((bits - 1) % 8 ≤ i)) :
    Assembled size bits le neg (fun i => bitAt body (p + i))
      ((rounded body offset p c n t).store size le neg) := by
  refine ⟨by rw [store_length]; exact ht.length, ?_⟩
  intro j hj i hi
  rw [rounded_store_bit ht (by omega) hj hi]
  by_cases hjc : j = c / 8
  · subst hjc
    rw [if_pos rfl, hbyte i hi]
    have hcond : i < c % 8 + n ↔ 8 * (c / 8) + i < bits := by omega
    by_cases hlt : 8 * (c / 8) + i < bits
    · simp [hcond, hlt]
    · have h1 : decide (c / 8 = size - 1) = decide (8 * (size - 1) < bits) := by
        congr 1
        apply propext
        omega
      have h2 : decide ((bits - 1) % 8 ≤ i) = true := by
        rw [decide_eq_true_eq]
        omega
      have h3 : decide (8 * ((bits + 7) / 8) ≤ 8 * (c / 8) + i) = false := by
        rw [decide_eq_false_iff_not]
        omega
      simp only [hcond, hlt, ↓reduceIte, h1, h2, h3, Bool.and_true, Bool.or_false]
  · by_cases hjl : j < c / 8
    · have hlt : 8 * j + i < bits := by omega
      simp [hjc, hjl, hlt]
    · have hlt : ¬ 8 * j + i < bits := by omega
      have h3 : decide (8 * ((bits + 7) / 8) ≤ 8 * j + i) = true := by
        rw [decide_eq_true_eq]
        omega
      simp [hjc, hjl, hlt, h3]

/-- A round that completes a byte of the target stores it and starts the next one. -/
theorem copied_store
    (ht : Copied size bits le neg (fun i => bitAt body (p + i)) offset c t)
    (hsize : bits ≤ 8 * size) (hlt : c + n < bits) (hoff : offset < 8) (hfull : c % 8 + n = 8)
    (hbyte : ∀ i < 8, (rounded body offset p c n t).itsCurrentByte.getLsbD i =
      if i < c % 8 + n then bitAt body (p + (8 * (c / 8) + i))
      else neg && decide (c / 8 = size - 1) && decide ((bits - 1) % 8 ≤ i)) :
    Copied size bits le neg (fun i => bitAt body (p + i)) offset (c + n)
      { rounded body offset p c n t with
        raw := (rounded body offset p c n t).store size le neg
        written := (rounded body offset p c n t).written + 1
        writePosition := 0
        itsCurrentByte :=
          if neg && (rounded body offset p c n t).itsCurrentCount == size then
            0xFF#8 <<< ((bits - 1) % 8)
          else 0 } := by
  have hdiv : (c + n) / 8 = c / 8 + 1 := by omega
  have hmod : (c + n) % 8 = 0 := by omega
  refine ⟨by rw [store_length]; exact ht.length, ?_, hmod.symm, rfl, ?_, ?_⟩
  · change t.written + 1 = _
    rw [ht.written, hdiv]
  · intro i hi
    have hcount : (((rounded body offset p c n t).itsCurrentCount == size) : Bool) =
        decide ((c + n) / 8 = size - 1) := by
      rw [Bool.beq_eq_decide_eq]
      congr 1
      apply propext
      simp only [rounded]
      omega
    rw [hmod]
    simp only [hcount, Nat.not_lt_zero, ↓reduceIte]
    by_cases hb : (neg && decide ((c + n) / 8 = size - 1)) = true
    · rw [if_pos hb, initializer_bit hi, hb, Bool.true_and]
    · rw [if_neg hb, Bool.eq_false_iff.2 hb, Bool.false_and]
      exact BitVec.getLsbD_zero
  · intro j hj i hi
    dsimp only
    rw [rounded_store_bit ht (by omega) hj hi]
    by_cases hjc : j = c / 8
    · have hin : i < c % 8 + n := by omega
      have hj1 : j < (c + n) / 8 := by omega
      subst hjc
      rw [if_pos rfl, hbyte i hi, if_pos hin, if_pos hj1]
    · have hiff : j < (c + n) / 8 ↔ j < c / 8 := by omega
      simp [hjc, hiff]

theorem copied_continue
    (ht : Copied size bits le neg (fun i => bitAt body (p + i)) offset c t)
    (hn : 0 < n) (hpart : c % 8 + n < 8)
    (hbyte : ∀ i < 8, (rounded body offset p c n t).itsCurrentByte.getLsbD i =
      if i < c % 8 + n then bitAt body (p + (8 * (c / 8) + i))
      else neg && decide (c / 8 = size - 1) && decide ((bits - 1) % 8 ≤ i)) :
    Copied size bits le neg (fun i => bitAt body (p + i)) offset (c + n)
      (rounded body offset p c n t) := by
  have hdiv : (c + n) / 8 = c / 8 := by omega
  have hmod : (c + n) % 8 = c % 8 + n := by omega
  refine ⟨ht.length, ht.written.trans hdiv.symm, hmod.symm, rfl, ?_, ?_⟩
  · intro i hi
    rw [hmod, hdiv]
    exact hbyte i hi
  · intro j hj i hi
    rw [hdiv]
    exact ht.raw j hj i hi

end Rounds

/-- The loop copies the field from the cursor and leaves the cursor behind it. -/
theorem copyLoop_run (s : InputStream) {size bits p : ℕ} (neg : Bool)
    (hsize : bits ≤ 8 * size) (hp : p + bits ≤ 8 * s.message.body.length)
    (hneg : neg = true → bitAt s.message.body (p + (bits - 1)) = true) (fuel c : ℕ)
    (t : CopyState) (hc : c < bits) (hfuel : bits - c ≤ fuel)
    (ht : Copied size bits s.isLittleEndian neg (fun i => bitAt s.message.body (p + i)) (p % 8) c
      t) :
    ∃ raw, copyLoop size neg (0xFF#8 <<< ((bits - 1) % 8)) fuel (bits - c) t (seek (p + c) s) =
        .ok raw (seek (p + bits) s) ∧
      Assembled size bits s.isLittleEndian neg (fun i => bitAt s.message.body (p + i)) raw := by
  induction fuel generalizing c t with
  | zero => omega
  | succ fuel ih =>
    obtain ⟨hpos, hsrc, htgt, hle⟩ := roundBits_bounds (p % 8) hc
    have hbyte := roundByte_bit s.message.body ht hc hsize rfl hneg
    have hrun := copyStep_run s ht hc hp
    generalize roundBits (p % 8) bits c = n at hpos hsrc htgt hle hbyte hrun
    unfold copyLoop
    simp only [gt_iff_lt, Nat.sub_pos_of_lt hc, ↓reduceIte]
    rw [bind_ok hrun]
    simp only
    rw [bind_ok (get_run _)]
    by_cases hend : c + n = bits
    · have hzero : bits - (c + n) = 0 := by omega
      simp only [hzero, or_true, ↓reduceIte, seek_isLittleEndian]
      refine ⟨(rounded s.message.body (p % 8) p c n t).store size s.isLittleEndian neg, ?_,
        assembled_last ht hc hsize htgt hend hbyte⟩
      rw [hend]
      cases fuel <;> rfl
    · have hlt : c + n < bits := by omega
      by_cases hfull : c % 8 + n = 8
      · have hflush : (rounded s.message.body (p % 8) p c n t).writePosition = 8 ∨
            bits - (c + n) = 0 := Or.inl hfull
        simp only [hflush, ↓reduceIte, seek_isLittleEndian]
        exact ih (c + n) _ hlt (by omega) (copied_store ht hsize hlt (Nat.mod_lt _ (by decide)) hfull hbyte)
      · have hno : ¬ ((rounded s.message.body (p % 8) p c n t).writePosition = 8 ∨
            bits - (c + n) = 0) := by
          change ¬ (c % 8 + n = 8 ∨ _)
          omega
        simp only [hno, ↓reduceIte]
        exact ih (c + n) _ hlt (by omega) (copied_continue ht hpos (by omega) hbyte)

/-- Bit `i` of the value that is read from a field with the bits `x`. -/
def fieldBit (size bits : ℕ) (le isSigned : Bool) (x : ℕ → Bool) (i : ℕ) : Bool :=
  let pos := 8 * (if le then i / 8 else size - 1 - i / 8) + i % 8
  if pos < bits then x pos
  else (isSigned && x (bits - 1)) &&
    (decide (8 * (size - 1) < bits) || decide (8 * ((bits + 7) / 8) ≤ pos))

def fieldValue (size bits : ℕ) (le isSigned : Bool) (x : ℕ → Bool) : BitVec (8 * size) :=
  (BitVec.ofBoolListLE ((List.range (8 * size)).map (fieldBit size bits le isSigned x))).setWidth _

theorem fieldValue_bit {size bits : ℕ} (le isSigned : Bool) (x : ℕ → Bool) {i : ℕ}
    (hi : i < 8 * size) :
    (fieldValue size bits le isSigned x).getLsbD i = fieldBit size bits le isSigned x i := by
  rw [fieldValue, BitVec.getLsbD_setWidth, BitVec.getLsbD_ofBoolListLE]
  simp [hi]

theorem typed_assembled {size bits : ℕ} {le isSigned : Bool} {x : ℕ → Bool} {raw : List Byte}
    (h : Assembled size bits le (isSigned && x (bits - 1)) x raw) :
    typed size raw = fieldValue size bits le isSigned x := by
  apply BitVec.eq_of_getLsbD_eq
  intro i hi
  rw [typed_bit raw hi, fieldValue_bit _ _ _ hi, bitAt_eq]
  cases le
  · have hb := h.bit (size - 1 - i / 8) (by omega) (i % 8) (by omega)
    have he : size - 1 - (size - 1 - i / 8) = i / 8 := by omega
    simpa [fieldBit, he] using hb
  · have hb := h.bit (i / 8) (by omega) (i % 8) (by omega)
    simpa [fieldBit] using hb

theorem highestByte_eq (fuel numberOfBits : ℕ) (h : numberOfBits ≤ fuel) :
    highestByte fuel numberOfBits = (numberOfBits + 7) / 8 := by
  induction fuel generalizing numberOfBits with
  | zero =>
    have hz : numberOfBits = 0 := by omega
    subst hz
    rfl
  | succ fuel ih =>
    unfold highestByte
    split
    · rw [ih _ (by omega)]
      omega
    · omega

/-- The address of the sign byte, and the position of the sign bit in it. -/
theorem signPosition {bits bit : ℕ} (hbits : 0 < bits) (hbit : bit < 8) :
    highestByte bits (bits - (8 - bit)) = (bit + bits - 1) / 8 ∧
      signMask (bits - (8 - bit)) bit bits = 1#8 <<< ((bit + bits - 1) % 8) := by
  rw [highestByte_eq _ _ (by omega)]
  refine ⟨by omega, ?_⟩
  unfold signMask
  split
  · have he : (bits - (8 - bit) - 1) % 8 = (bit + bits - 1) % 8 := by omega
    rw [he]
  · rfl

theorem mask_bit (b : Byte) {k : ℕ} (hk : k < 8) :
    (b &&& (1#8 <<< k) != 0) = b.getLsbD k := by
  have hbit : ∀ i < 8, (b &&& (1#8 <<< k)).getLsbD i = (decide (i = k) && b.getLsbD k) := by
    intro i hi
    rw [BitVec.getLsbD_and, BitVec.getLsbD_shiftLeft, BitVec.getLsbD_one]
    by_cases he : i = k
    · subst he
      simp [hi]
    · by_cases hlt : i < k
      · simp [he, hlt]
      · have hne : ¬ i - k = 0 := by omega
        simp [he, hne]
  cases hb : b.getLsbD k with
  | false =>
    have hz : b &&& (1#8 <<< k) = 0 := by
      apply BitVec.eq_of_getLsbD_eq
      intro i hi
      rw [hbit i hi, hb, Bool.and_false]
      exact BitVec.getLsbD_zero.symm
    simp [hz]
  | true =>
    have hne : b &&& (1#8 <<< k) ≠ 0 := by
      intro hz
      have hk' := hbit k hk
      rw [hz, hb] at hk'
      simp at hk'
    exact bne_iff_ne.2 hne

theorem isNegative_run (s : InputStream) {bits p : ℕ} (isSigned : Bool) (hbits : 0 < bits)
    (hp : p + bits ≤ 8 * s.message.body.length) :
    isNegative bits isSigned (seek p s) =
      .ok (isSigned && bitAt s.message.body (p + (bits - 1))) (seek p s) := by
  unfold isNegative
  cases isSigned with
  | false => rfl
  | true =>
    obtain ⟨hbyte, hmask⟩ := signPosition hbits (Nat.mod_lt p (by decide : 8 > 0))
    simp only [↓reduceIte, Bool.true_and]
    rw [bind_ok (get_run _)]
    simp only [seek_currentBit, seek_current]
    rw [hbyte, bind_ok (dereference_seek s p (by omega)), hmask, pure_run,
      mask_bit _ (Nat.mod_lt _ (by decide)), bitAt_eq]
    have hd : (p + (bits - 1)) / 8 = p / 8 + (p % 8 + bits - 1) / 8 := by omega
    have hm : (p + (bits - 1)) % 8 = (p % 8 + bits - 1) % 8 := by omega
    rw [hd, hm]

theorem dereferenceRange_run (s : InputStream) (address size : ℕ)
    (h : address + size ≤ s.message.body.length) :
    dereferenceRange address size s = .ok ((s.message.body.drop address).take size) s := by
  induction size generalizing address with
  | zero => simp [dereferenceRange, pure_run]
  | succ size ih =>
    have hlt : address < s.message.body.length := by omega
    have hd : dereference address s = .ok s.message.body[address] s := by
      simp [dereference, hlt]
    rw [dereferenceRange, bind_ok hd, bind_ok (ih (address + 1) (by omega)), pure_run,
      List.drop_eq_getElem_cons hlt, List.take_succ_cons]

/-- The byte-wise branch gives the same value as the loop would. -/
theorem typed_bytes {size p : ℕ} (body : List Byte) (le isSigned : Bool)
    (hlen : p / 8 + size ≤ body.length) (hp : p % 8 = 0) :
    typed size (if le then (body.drop (p / 8)).take size else ((body.drop (p / 8)).take size).reverse)
      = fieldValue size (8 * size) le isSigned (fun i => bitAt body (p + i)) := by
  apply BitVec.eq_of_getLsbD_eq
  intro i hi
  rw [typed_bit _ hi, fieldValue_bit _ _ _ hi, bitAt_eq]
  have htake : ((body.drop (p / 8)).take size).length = size := by
    rw [List.length_take, List.length_drop]
    omega
  have hget : ∀ j < size, ((body.drop (p / 8)).take size)[j]? = body[p / 8 + j]? := by
    intro j hj
    rw [List.getElem?_take, if_pos hj, List.getElem?_drop]
  cases le
  · have hpos : 8 * (size - 1 - i / 8) + i % 8 < 8 * size := by omega
    have hrev : (((body.drop (p / 8)).take size).reverse)[i / 8]? =
        body[p / 8 + (size - 1 - i / 8)]? := by
      rw [List.getElem?_reverse (by omega), htake, hget _ (by omega)]
    simp only [fieldBit, Bool.false_eq_true, ↓reduceIte, hpos, List.getD_eq_getElem?_getD, hrev]
    rw [bitAt_eq, List.getD_eq_getElem?_getD]
    have hd : (p + (8 * (size - 1 - i / 8) + i % 8)) / 8 = p / 8 + (size - 1 - i / 8) := by omega
    have hm : (p + (8 * (size - 1 - i / 8) + i % 8)) % 8 = i % 8 := by omega
    rw [hd, hm]
  · have hpos : 8 * (i / 8) + i % 8 < 8 * size := by omega
    simp only [fieldBit, ↓reduceIte, hpos, List.getD_eq_getElem?_getD,
      hget _ (show i / 8 < size by omega)]
    rw [bitAt_eq, List.getD_eq_getElem?_getD]
    have hd : (p + (8 * (i / 8) + i % 8)) / 8 = p / 8 + i / 8 := by omega
    have hm : (p + (8 * (i / 8) + i % 8)) % 8 = i % 8 := by omega
    rw [hd, hm]

def logged (step : Step) (s : InputStream) : InputStream :=
  { s with history := ⟨step, s.toCursor⟩ :: s.history }

theorem record_run (step : Step) (s : InputStream) : record step s = .ok ⟨⟩ (logged step s) := rfl

/-- The check of `_readBitValue`: whole bytes, whatever the current bit is. -/
def Enough (c : Cursor) (bits : ℕ) : Prop := bits ≠ 0 ∧ ((bits - 1) >>> 3) + 1 ≤ c.remaining

instance (c : Cursor) (bits : ℕ) : Decidable (Enough c bits) := by
  unfold Enough
  infer_instance

theorem enough_iff (c : Cursor) (bits : ℕ) :
    Enough c bits ↔ bits ≠ 0 ∧ bits ≤ 8 * c.remaining := by
  unfold Enough
  rw [Nat.shiftRight_eq_div_pow]
  omega

theorem readField_short (s : InputStream) {size bits : ℕ} (isSigned : Bool)
    (h : ¬ Enough s.toCursor bits) :
    readField size bits isSigned s = .ok (true, 0) (logged (.readBits bits) s) := by
  have hcheck : bits = 0 ∨ (logged (.readBits bits) s).remaining < ((bits - 1) >>> 3) + 1 := by
    unfold Enough at h
    change _ ∨ s.remaining < _
    omega
  unfold readField
  rw [bind_ok (record_run _ _), bind_ok (get_run _), if_pos hcheck, pure_run]

theorem copyBytes_run (s : InputStream) {size p : ℕ} (hp : p % 8 = 0)
    (hlen : p / 8 + size ≤ s.message.body.length) :
    copyBytes size (seek p s) =
      .ok (if s.isLittleEndian then (s.message.body.drop (p / 8)).take size
          else ((s.message.body.drop (p / 8)).take size).reverse) (seek (p + 8 * size) s) := by
  have hfits := s.message.fits
  unfold copyBytes
  rw [bind_ok (get_run _),
    bind_ok (dereferenceRange_run (seek p s) (seek p s).current size hlen), bind_ok (set_run _ _),
    pure_run]
  have h1 : (p + 8 * size) / 8 = p / 8 + size := by omega
  have h2 : (p + 8 * size) % 8 = p % 8 := by omega
  have h3 : wrapSub 64 (s.message.body.length - p / 8) size =
      s.message.body.length - (p / 8 + size) := by
    rw [wrapSub_of_le (by omega) (by omega)]
    omega
  unfold seek
  simp only [h1, h2, h3]

theorem copied_start {size bits offset : ℕ} (le neg : Bool) (x : ℕ → Bool) (hsize : 0 < size)
    (hoff : offset < 8) :
    Copied size bits le neg x offset 0
      { raw := List.replicate size (if neg then 0xFF else 0)
        written := 0
        writePosition := 0
        itsCurrentByte := if neg && size == 1 then 0xFF#8 <<< ((bits - 1) % 8) else 0
        itsCurrentCount := 1 } := by
  refine ⟨List.length_replicate, rfl, rfl, ?_, ?_, ?_⟩
  · change 1 = 1 + (offset + 0) / 8
    omega
  · intro i hi
    have hcond : ((size == 1) : Bool) = decide (0 / 8 = size - 1) := by
      rw [Bool.beq_eq_decide_eq]
      congr 1
      apply propext
      omega
    simp only [hcond, Nat.zero_mod, Nat.not_lt_zero, ↓reduceIte]
    by_cases hb : (neg && decide (0 / 8 = size - 1)) = true
    · rw [if_pos hb, initializer_bit hi, hb, Bool.true_and]
    · rw [if_neg hb, Bool.eq_false_iff.2 hb, Bool.false_and]
      exact BitVec.getLsbD_zero
  · intro j hj i hi
    have hlt : (if le then j else size - 1 - j) < size := by split <;> omega
    rw [List.getD_eq_getElem?_getD, List.getElem?_replicate, if_pos hlt]
    simp only [Nat.zero_div, Nat.not_lt_zero, ↓reduceIte, Option.getD_some]
    cases neg
    · exact BitVec.getLsbD_zero
    · rw [if_pos rfl, show (0xFF : Byte) = BitVec.allOnes 8 from rfl, BitVec.getLsbD_allOnes]
      simp [hi]

/-- Enough bits behind the current bit: the field is read, and the cursor stands behind it. -/
theorem readField_run {s : InputStream} (hs : Consistent s) {size bits : ℕ} (isSigned : Bool)
    (hpos : 0 < bits) (hle : bits ≤ 8 * size) (hfit : s.currentBit + bits ≤ 8 * s.remaining) :
    readField size bits isSigned s =
      .ok (false, fieldValue size bits s.isLittleEndian isSigned
          fun i => bitAt s.message.body (position s + i))
        (seek (position s + bits) (logged (.readBits bits) s)) := by
  obtain ⟨hbit, hin, hpend⟩ := hs
  have hseek : seek (position s) (logged (.readBits bits) s) = logged (.readBits bits) s :=
    seek_of_consistent (s := logged (.readBits bits) s) ⟨hbit, hin, hpend⟩
  have hmod : position s % 8 = s.currentBit := by unfold position; omega
  have hend : position s + bits ≤ 8 * s.message.body.length := by unfold position; omega
  have hcheck : ¬ (bits = 0 ∨ (logged (.readBits bits) s).remaining < ((bits - 1) >>> 3) + 1) := by
    rw [Nat.shiftRight_eq_div_pow]
    change ¬ (bits = 0 ∨ s.remaining < _)
    omega
  unfold readField
  rw [bind_ok (record_run _ _), bind_ok (get_run _), if_neg hcheck]
  rw [← hseek]
  by_cases hfast : s.currentBit = 0 ∧ bits = size <<< 3
  · obtain ⟨hzero, hfull⟩ := hfast
    rw [Nat.shiftLeft_eq, show (2 : ℕ) ^ 3 = 8 from rfl, Nat.mul_comm] at hfull
    have hcond : (seek (position s) (logged (.readBits bits) s)).currentBit = 0 ∧
        bits = size <<< 3 := by
      rw [Nat.shiftLeft_eq, seek_currentBit]
      omega
    rw [if_pos hcond, bind_ok (copyBytes_run _ (by omega) ?_), pure_run]
    · have hlen : position s / 8 + size ≤ s.message.body.length := by omega
      subst hfull
      exact congrArg (fun v => EStateM.Result.ok (false, v) _)
        (typed_bytes s.message.body s.isLittleEndian isSigned hlen (by omega))
    · change position s / 8 + size ≤ s.message.body.length
      omega
  · have hcond : ¬ ((seek (position s) (logged (.readBits bits) s)).currentBit = 0 ∧
        bits = size <<< 3) := by
      rw [seek_currentBit, hmod]
      exact hfast
    rw [if_neg hcond, bind_ok (isNegative_run (logged (.readBits bits) s) isSigned hpos hend)]
    obtain ⟨raw, hrun, hraw⟩ := copyLoop_run (logged (.readBits bits) s)
      (isSigned && bitAt s.message.body (position s + (bits - 1))) hle hend
      (fun h => (Bool.and_eq_true _ _ ▸ h).2) bits 0 _ hpos (by omega)
      (copied_start _ _ _ (by omega) (Nat.mod_lt _ (by decide)))
    rw [Nat.sub_zero, Nat.add_zero] at hrun
    refine (bind_ok hrun).trans ?_
    exact congrArg (fun v => EStateM.Result.ok (false, v) _)
      (typed_assembled (x := fun i => bitAt s.message.body (position s + i)) hraw)

end SomeIPRuntime.InputStream
