import SomeIPRuntime.ByteVectorWriting
import SomeIPRuntime.ByteVectorElements
import SomeIPRuntime.VariantDecoding

set_option autoImplicit false

namespace SomeIPRuntime.ByteVectors
open Bits ProgramRuns Deployment RoundTrip
open InputStream (Consistent Read position left readElements pushElement Taken wireNumber)
open OutputStream (Clean)

/-- The overload for all other vectors, at `int8_t` and `uint8_t`. -/
def readElementwise (isSigned : Bool) (elementDepl : Option (IntegerDeployment 1)) (fuel : ℕ)
    (depl : Option ArrayDeployment) : Read (List Byte) :=
  InputStream.readVector fuel depl (readByte isSigned elementDepl)

section Reading
variable {isSigned : Bool} {elementDepl : Option (IntegerDeployment 1)} {depl : Option ArrayDeployment}
  {s m t : InputStream} {value : List Byte}

def arrayMaxLength (depl : Option ArrayDeployment) : ℕ := (depl.map (·.arrayMaxLength)).getD 0xFFFFFFFF

def announced (depl : Option ArrayDeployment) (s : InputStream) : ℕ :=
  wireNumber (InputStream.aligned s) (InputStream.aligned s).current (arrayLengthWidth depl)

def count (depl : Option ArrayDeployment) (s : InputStream) : ℕ :=
  if arrayLengthWidth depl = 0 then arrayMaxLength depl else announced depl s

def room (depl : Option ArrayDeployment) (s : InputStream) : ℕ :=
  (InputStream.aligned s).remaining - arrayLengthWidth depl

def BytesRead (depl : Option ArrayDeployment) (s : InputStream) (value : List Byte) (t : InputStream) : Prop :=
  InputStream.readByteVector depl s = .ok value t ∧ t.errorOccurred = false

def ElementsRead (isSigned : Bool) (elementDepl : Option (IntegerDeployment 1))
    (depl : Option ArrayDeployment) (s : InputStream) (value : List Byte) (t : InputStream) : Prop :=
  ∃ fuel, readElementwise isSigned elementDepl fuel depl s = .ok value t ∧ t.errorOccurred = false

def BytesAccepted (depl : Option ArrayDeployment) (size room : ℕ) : Prop :=
  VectorAllowed depl size ∧ size ≤ room

/-- The elements of this many bits that it takes to come to the end of `size` bytes. -/
def elementCount (bits size : ℕ) : ℕ := (8 * size + bits - 1) / bits

/-- What is accepted element by element: with a length field, all elements that begin in the
    announced bytes must be there. Otherwise missing ones may be made up. -/
def ElementsAccepted (elementDepl : Option (IntegerDeployment 1)) (depl : Option ArrayDeployment)
    (size room : ℕ) : Prop :=
  if arrayLengthWidth depl = 0 then
    size = 0 ∨ (0 < elementBits elementDepl ∧ size * elementBits elementDepl ≤ 8 * room) ∨
      (hasInvalid elementDepl = true ∧
        (elementBits elementDepl = 0 ∨ elementBits elementDepl ∣ 8 * room))
  else
    (size = 0 ∨ 0 < elementBits elementDepl) ∧
      elementCount (elementBits elementDepl) size * elementBits elementDepl ≤ 8 * room ∧
      VectorAllowed depl (elementCount (elementBits elementDepl) size)

theorem elementCount_bounds {bits : ℕ} (hpos : 0 < bits) (size : ℕ) :
    8 * size ≤ elementCount bits size * bits ∧ elementCount bits size * bits < 8 * size + bits := by
  have hdiv := Nat.div_add_mod (8 * size + bits - 1) bits
  have hmod := Nat.mod_lt (8 * size + bits - 1) hpos
  unfold elementCount
  rw [Nat.mul_comm] at hdiv
  omega

theorem elementCount_unique {bits size k : ℕ} (hle : 8 * size ≤ k * bits) (hlt : k * bits < 8 * size + bits) :
    k = elementCount bits size := by
  have hnext : 8 * size + bits - 1 < (k + 1) * bits := by
    rw [Nat.succ_mul k bits]
    omega
  exact (Nat.div_eq_of_lt_le (by omega) hnext).symm

theorem header_taken (hs : Consistent s)
    (hwidth : arrayLengthWidth depl = 0 ∨ IsWidth (arrayLengthWidth depl))
    (hroom : arrayLengthWidth depl ≤ (InputStream.aligned s).remaining) :
    ∃ m, InputStream.readWidth (arrayLengthWidth depl) true 0 (InputStream.aligned s) =
        .ok (announced depl s) m ∧ Taken (InputStream.aligned s) m (arrayLengthWidth depl) :=
  InputStream.readWidth_taken true 0 (InputStream.aligned_consistent hs).1 (InputStream.aligned_bit s)
    (hwidth.imp_right fun h => ⟨h, hroom⟩) fun _ => rfl

theorem header_lost (hwidth : IsWidth (arrayLengthWidth depl))
    (hlost : (InputStream.aligned s).remaining < arrayLengthWidth depl) :
    ∃ n m, InputStream.readWidth (arrayLengthWidth depl) true 0 (InputStream.aligned s) = .ok n m ∧
      m.errorOccurred = true := by
  have hfield : ∀ width, (InputStream.aligned s).remaining < width →
      ∃ n m, InputStream.assignBits width (8 * width) false BitVec.toNat none (InputStream.aligned s) = .ok n m ∧
        m.errorOccurred = true := by
    intro width hshort
    have henough : ¬ InputStream.Enough (InputStream.logged
        (.assign (clampBits width (8 * width)) (none : Option ℕ).isSome) (InputStream.aligned s)).toCursor
          (clampBits width (8 * width)) := by
      rw [InputStream.enough_iff, clampBits_eq, Nat.min_self]
      change ¬ (_ ∧ _ ≤ 8 * (InputStream.aligned s).remaining)
      omega
    exact ⟨_, _, assignBits_ok (InputStream.readField_short _ false henough), rfl⟩
  have hread := hfield _ hlost
  unfold InputStream.readWidth
  rcases hwidth with h | h | h
  · rw [h] at hread ⊢
    exact hread
  · rw [h] at hread ⊢
    exact hread
  · rw [h] at hread ⊢
    exact hread

theorem readByteVector_run {size : ℕ} (hcount : InputStream.readByteCount (arrayLengthWidth depl)
      (arrayMaxLength depl) (InputStream.aligned s) = .ok size m) :
    InputStream.readByteVector depl s =
      if (arrayLengthWidth depl > 0 ∧ (size < (depl.map (·.arrayMinLength)).getD 0 ∨
          (arrayMaxLength depl ≠ 0 ∧ size > arrayMaxLength depl))) ∨ size > m.remaining then
        .ok [] (InputStream.raised m)
      else if m.errorOccurred then .ok [] m
      else (InputStream.readRaw size >>= fun base => InputStream.dereferenceRange base size) m := by
  change (InputStream.bitAlign >>= _) s = _
  rw [bind_ok (InputStream.bitAlign_run s)]
  refine (bind_ok hcount).trans ?_
  exact InputStream.guarded_run ([] : List Byte)
    (InputStream.readRaw size >>= fun base => InputStream.dereferenceRange base size)
    (fun s => (arrayLengthWidth depl > 0 ∧ (size < (depl.map (·.arrayMinLength)).getD 0 ∨
      (arrayMaxLength depl ≠ 0 ∧ size > arrayMaxLength depl))) ∨ size > s.remaining) m

theorem readByteCount_run (hread : InputStream.readWidth (arrayLengthWidth depl) true 0
      (InputStream.aligned s) = .ok (announced depl s) m) :
    InputStream.readByteCount (arrayLengthWidth depl) (arrayMaxLength depl) (InputStream.aligned s) =
      .ok (count depl s) m := by
  unfold InputStream.readByteCount count
  by_cases hzero : arrayLengthWidth depl = 0
  · rw [hzero] at hread ⊢
    injection hread with _ hstate
    exact congrArg (EStateM.Result.ok _) hstate
  · rw [if_pos hzero, if_neg hzero]
    exact hread

theorem bytes_refused_iff :
    ((arrayLengthWidth depl > 0 ∧ (count depl s < (depl.map (·.arrayMinLength)).getD 0 ∨
      (arrayMaxLength depl ≠ 0 ∧ count depl s > arrayMaxLength depl))) ∨ count depl s > m.remaining) ↔
      ¬ BytesAccepted depl (count depl s) m.remaining := by
  unfold BytesAccepted VectorAllowed SizeAllowed
  change _ ↔ ¬ ((if _ then _ ∧ ¬ (arrayMaxLength depl ≠ 0 ∧ count depl s > arrayMaxLength depl) else
    arrayMaxLength depl = count depl s) ∧ _)
  have hfixed : arrayLengthWidth depl = 0 → count depl s = arrayMaxLength depl := fun h => if_pos h
  split <;> omega

theorem bytesRead_iff (hread : InputStream.readWidth (arrayLengthWidth depl) true 0
      (InputStream.aligned s) = .ok (announced depl s) m)
    (hm : Taken (InputStream.aligned s) m (arrayLengthWidth depl)) :
    BytesRead depl s value t ↔ m.errorOccurred = false ∧ BytesAccepted depl (count depl s) m.remaining ∧
      value = (m.message.body.drop m.current).take (count depl s) ∧
      t = InputStream.skipped (count depl s) m := by
  have hrun := readByteVector_run (readByteCount_run hread)
  unfold BytesRead
  by_cases haccepted : BytesAccepted depl (count depl s) m.remaining
  · rw [if_neg (mt bytes_refused_iff.1 (not_not_intro haccepted))] at hrun
    have hin := hm.consistent.inside
    have hsize := haccepted.2
    cases herror : m.errorOccurred with
    | true =>
      rw [if_pos herror] at hrun
      rw [hrun]
      constructor
      · rintro ⟨h, hquiet⟩
        cases h
        cases herror.symm.trans hquiet
      · rintro ⟨hfalse, _⟩
        cases hfalse
    | false =>
      rw [if_neg (herror ▸ Bool.false_ne_true), InputStream.readBytes_run, if_pos (Or.inl (by omega))] at hrun
      have hquiet := (skipped_moved hm.consistent hm.bit hsize).2.trans herror
      rw [hrun]
      constructor
      · rintro ⟨h, _⟩
        cases h
        exact ⟨rfl, haccepted, rfl, rfl⟩
      · rintro ⟨_, _, rfl, rfl⟩
        exact ⟨rfl, hquiet⟩
  · rw [if_pos (bytes_refused_iff.2 haccepted)] at hrun
    rw [hrun]
    constructor
    · rintro ⟨h, hquiet⟩
      cases h
      cases hquiet
    · exact fun h => absurd h.2.1 haccepted

theorem checkLength_quiet {lengthWidth minLength maxLength itsSize size : ℕ}
    (h : InputStream.checkLength lengthWidth minLength maxLength itsSize size s = .ok ⟨⟩ t)
    (herror : t.errorOccurred = false) : SizeAllowed lengthWidth minLength maxLength size ∧ t = s := by
  unfold InputStream.checkLength at h
  unfold SizeAllowed
  split_ifs at h ⊢ <;> cases h <;> first | cases herror | skip
  · exact ⟨⟨‹_›, ‹_›⟩, rfl⟩
  · exact ⟨by omega, rfl⟩

theorem loop_of_elementsRead {n : ℕ} (hread : InputStream.readWidth (arrayLengthWidth depl) true 0
      (InputStream.aligned s) = .ok n m)
    (h : ElementsRead isSigned elementDepl depl s value t) :
    m.errorOccurred = false ∧ VectorAllowed depl value.length ∧ t.errorOccurred = false ∧
      ∃ fuel itsSize, readElements (arrayLengthWidth depl) (arrayMaxLength depl) List.length
        (pushElement (readByte isSigned elementDepl)) fuel n [] m = .ok (itsSize, value) t := by
  rcases h with ⟨fuel, hrun, herror⟩
  change (InputStream.bitAlign >>= _) s = _ at hrun
  rw [bind_ok (InputStream.bitAlign_run s)] at hrun
  have hrest := (bind_ok hread).symm.trans hrun
  rcases InputStream.unlessError_passed hrest herror with ⟨hquiet, htail⟩
  rcases bind_eq_ok.1 htail with ⟨⟨itsSize, v⟩, u, hloop, hcheck⟩
  rcases bind_eq_ok.1 hcheck with ⟨_, w, hlength, hpure⟩
  cases hpure
  rcases checkLength_quiet hlength herror with ⟨hallowed, rfl⟩
  exact ⟨hquiet, hallowed, herror, fuel, itsSize, hloop⟩

theorem elementsRead_of_loop (hread : InputStream.readWidth (arrayLengthWidth depl) true 0
      (InputStream.aligned s) = .ok (announced depl s) m) (hquiet : m.errorOccurred = false) {fuel : ℕ}
    (hloop : readElements (arrayLengthWidth depl) (arrayMaxLength depl) List.length
      (pushElement (readByte isSigned elementDepl)) fuel (announced depl s) [] m = .ok (0, value) t)
    (herror : t.errorOccurred = false) (hallowed : VectorAllowed depl value.length) :
    ElementsRead isSigned elementDepl depl s value t := by
  rcases readVector_run hread hquiet hloop with ⟨u, hrun, hu⟩
  obtain rfl := hu hallowed
  exact ⟨fuel, hrun, herror⟩

theorem ElementsRead.unique {value' : List Byte} {t' : InputStream}
    (h : ElementsRead isSigned elementDepl depl s value t)
    (h' : ElementsRead isSigned elementDepl depl s value' t') : value = value' ∧ t = t' := by
  rcases h with ⟨fuel, hrun, _⟩
  rcases h' with ⟨fuel', hrun', _⟩
  have hmore := (InputStream.readVector_approximates depl
    (approximates_refl (readByte isSigned elementDepl)) (Nat.le_max_left fuel fuel')).ok hrun
  have hmore' := (InputStream.readVector_approximates depl
    (approximates_refl (readByte isSigned elementDepl)) (Nat.le_max_right fuel fuel')).ok hrun'
  cases hmore.symm.trans hmore'
  exact ⟨rfl, rfl⟩

theorem header_looping (hwidth : arrayLengthWidth depl = 0 ∨ IsWidth (arrayLengthWidth depl))
    (hroom : arrayLengthWidth depl ≤ (InputStream.aligned s).remaining) (hs : Consistent s)
    (hm : Taken (InputStream.aligned s) m (arrayLengthWidth depl)) :
    Looping (arrayLengthWidth depl) (announced depl s) m := by
  have hnone : arrayLengthWidth depl = 0 → announced depl s = 0 := by
    intro hzero
    unfold announced wireNumber
    rw [hzero, List.take_zero]
    cases (InputStream.aligned s).isLittleEndian <;> rfl
  refine ⟨hm.consistent, hnone, ?_⟩
  rcases hwidth with hzero | hwidth
  · rw [hnone hzero]
    decide
  · have hin := (InputStream.aligned_consistent hs).1.inside
    have hlt := (InputStream.wireNumber_ahead hwidth (InputStream.aligned_bit s) (by omega)).1
    exact hlt.trans_le (Nat.pow_le_pow_right (by decide) (Nat.mul_le_mul_left 8 hwidth.le_four))

theorem left_taken (hm : Taken (InputStream.aligned s) m (arrayLengthWidth depl)) :
    left m = 8 * m.remaining := by
  have hleft := left_of_consistent hm.consistent
  rw [hm.bit] at hleft
  exact hleft

theorem wanted_taken (bits : ℕ) (hm : Taken (InputStream.aligned s) m (arrayLengthWidth depl)) :
    wanted bits (arrayLengthWidth depl) (arrayMaxLength depl) (announced depl s) 0 m.currentBit =
      if arrayLengthWidth depl = 0 then count depl s * bits else 8 * count depl s := by
  unfold wanted count
  rw [hm.bit]
  split <;> rfl

structure Header (depl : Option ArrayDeployment) (s m : InputStream) : Prop where
  read : InputStream.readWidth (arrayLengthWidth depl) true 0 (InputStream.aligned s) =
    .ok (announced depl s) m
  taken : Taken (InputStream.aligned s) m (arrayLengthWidth depl)
  looping : Looping (arrayLengthWidth depl) (announced depl s) m

theorem header_there (hs : Consistent s)
    (hwidth : arrayLengthWidth depl = 0 ∨ IsWidth (arrayLengthWidth depl))
    (hroom : arrayLengthWidth depl ≤ (InputStream.aligned s).remaining) : ∃ m, Header depl s m := by
  rcases header_taken hs hwidth hroom with ⟨m, hread, hm⟩
  exact ⟨m, hread, hm, header_looping hwidth hroom hs hm⟩

def elements (elementDepl : Option (IntegerDeployment 1)) (depl : Option ArrayDeployment) (size : ℕ) : ℕ :=
  if arrayLengthWidth depl = 0 then size else elementCount (elementBits elementDepl) size

theorem count_allowed (hzero : arrayLengthWidth depl = 0) : VectorAllowed depl (count depl s) := by
  unfold VectorAllowed SizeAllowed count
  rw [if_neg (not_not_intro hzero), if_pos hzero]
  rfl

theorem elementsRead_there (isSigned : Bool) (h : Header depl s m) (hquiet : m.errorOccurred = false)
    (hpos : 0 < elementBits elementDepl)
    (hroom : elements elementDepl depl (count depl s) * elementBits elementDepl ≤ 8 * m.remaining)
    (hallowed : VectorAllowed depl (elements elementDepl depl (count depl s))) :
    ∃ value t, ElementsRead isSigned elementDepl depl s value t ∧
      value.length = elements elementDepl depl (count depl s) ∧
      Moved (elements elementDepl depl (count depl s) * elementBits elementDepl) m t ∧
      (elementBits elementDepl = 8 →
        value = (m.message.body.drop m.current).take (elements elementDepl depl (count depl s))) := by
  have hwanted := wanted_taken (elementBits elementDepl) h.taken
  have hbounds : (if arrayLengthWidth depl = 0 then count depl s * elementBits elementDepl
        else 8 * count depl s) ≤
        elements elementDepl depl (count depl s) * elementBits elementDepl ∧
      elements elementDepl depl (count depl s) * elementBits elementDepl <
        (if arrayLengthWidth depl = 0 then count depl s * elementBits elementDepl
          else 8 * count depl s) + elementBits elementDepl := by
    unfold elements
    split
    · omega
    · exact elementCount_bounds hpos _
  rw [← hwanted] at hbounds
  rw [← left_taken h.taken] at hroom
  rcases elements_read isSigned hpos le_rfl [] h.looping hquiet hbounds.1 hbounds.2 hroom with
    ⟨value, t, hloop, hlen, hmoved, herror, hbytes⟩
  exact ⟨value, t, elementsRead_of_loop h.read hquiet hloop herror (hlen ▸ hallowed), hlen, hmoved,
    fun hfull => hbytes hfull h.taken.bit⟩

theorem elementsRead_made_up (isSigned : Bool) (h : Header depl s m) (hquiet : m.errorOccurred = false)
    (hzero : arrayLengthWidth depl = 0) (hinvalid : hasInvalid elementDepl = true)
    (hends : elementBits elementDepl = 0 ∨ elementBits elementDepl ∣ 8 * m.remaining) :
    ∃ value t, ElementsRead isSigned elementDepl depl s value t ∧
      position t ≤ position m + count depl s * elementBits elementDepl := by
  have hcount : 0 + count depl s = arrayMaxLength depl := by
    rw [Nat.zero_add, count, if_pos hzero]
  rw [← left_taken h.taken] at hends
  rcases elements_made_up hzero hinvalid le_rfl [] h.taken.consistent hquiet hcount hends with
    ⟨value, t, hloop, hlen, herror, hposition⟩
  have hmeasured : readElements (arrayLengthWidth depl) (arrayMaxLength depl) List.length
      (pushElement (readByte isSigned elementDepl)) (count depl s) (announced depl s) [] m =
        .ok (0, value) t := by
    rw [h.looping.unmeasured hzero]
    exact hloop
  exact ⟨value, t, elementsRead_of_loop h.read hquiet hmeasured herror (hlen ▸ count_allowed hzero), hposition⟩

theorem nothing_counted (hdone : ¬ More (arrayLengthWidth depl) (arrayMaxLength depl) (announced depl s) 0) :
    count depl s = 0 := by
  unfold More at hdone
  unfold count
  split <;> omega

theorem elementCount_zero (bits : ℕ) : elementCount bits 0 = 0 := by
  unfold elementCount
  rcases Nat.eq_zero_or_pos bits with hzero | hpos
  · rw [hzero, Nat.div_zero]
  · exact Nat.div_eq_of_lt (by omega)

theorem loop_length (h : Header depl s m) (hquiet : m.errorOccurred = false)
    (hne : arrayLengthWidth depl ≠ 0) {fuel itsSize : ℕ}
    (hloop : readElements (arrayLengthWidth depl) (arrayMaxLength depl) List.length
      (pushElement (readByte isSigned elementDepl)) fuel (announced depl s) [] m = .ok (itsSize, value) t)
    (herror : t.errorOccurred = false) :
    (count depl s = 0 ∨ 0 < elementBits elementDepl) ∧
      elementCount (elementBits elementDepl) (count depl s) * elementBits elementDepl ≤ 8 * m.remaining ∧
      value.length = elementCount (elementBits elementDepl) (count depl s) := by
  have hsupplied := elements_supplied h.looping hloop herror
  rcases hsupplied with hdone | ⟨hpos, k, hle, hlt, hroom⟩ | ⟨hzero, _⟩
  · rw [InputStream.readElements_done fuel hdone] at hloop
    cases hloop
    rw [nothing_counted hdone, elementCount_zero, Nat.zero_mul]
    exact ⟨Or.inl rfl, Nat.zero_le _, rfl⟩
  · rcases elements_read isSigned hpos le_rfl [] h.looping hquiet hle hlt hroom with
      ⟨xs, u, hrun, hlen, _⟩
    have hmore := (InputStream.readElements_approximates (arrayLengthWidth depl) (arrayMaxLength depl) List.length
      (fun v => approximates_refl (pushElement (readByte isSigned elementDepl) v)) (Nat.le_max_left fuel k)
      (announced depl s) []).ok hloop
    have hmore' := (InputStream.readElements_approximates (arrayLengthWidth depl) (arrayMaxLength depl) List.length
      (fun v => approximates_refl (pushElement (readByte isSigned elementDepl) v)) (Nat.le_max_right fuel k)
      (announced depl s) []).ok hrun
    cases hmore.symm.trans hmore'
    rw [List.length_nil, wanted_taken _ h.taken, if_neg hne] at hle hlt
    rw [left_taken h.taken] at hroom
    obtain rfl := elementCount_unique hle hlt
    exact ⟨Or.inr hpos, hroom, hlen⟩
  · exact absurd hzero hne

theorem elementsAccepted_of_read (h : Header depl s m)
    (hread : ElementsRead isSigned elementDepl depl s value t) :
    ElementsAccepted elementDepl depl (count depl s) m.remaining := by
  rcases loop_of_elementsRead h.read hread with ⟨hquiet, hallowed, herror, fuel, itsSize, hloop⟩
  unfold ElementsAccepted
  by_cases hzero : arrayLengthWidth depl = 0
  · rw [if_pos hzero]
    have hsupplied := elements_supplied h.looping hloop herror
    unfold Supplied at hsupplied
    rw [List.length_nil, wanted_taken _ h.taken, left_taken h.taken, if_pos hzero] at hsupplied
    rcases hsupplied with hdone | ⟨hpos, k, hle, _, hroom⟩ | ⟨_, hinvalid, hends⟩
    · exact Or.inl (nothing_counted hdone)
    · exact Or.inr (Or.inl ⟨hpos, hle.trans hroom⟩)
    · exact Or.inr (Or.inr ⟨hinvalid, hends⟩)
  · rw [if_neg hzero]
    rcases loop_length h hquiet hzero hloop herror with ⟨hsome, hroom, hlen⟩
    exact ⟨hsome, hroom, hlen ▸ hallowed⟩

theorem elementsRead_nothing (h : Header depl s m) (hquiet : m.errorOccurred = false)
    (hcount : count depl s = 0) (hallowed : VectorAllowed depl 0) :
    ElementsRead isSigned elementDepl depl s [] m := by
  have hnone : announced depl s = 0 := by
    by_cases hzero : arrayLengthWidth depl = 0
    · exact h.looping.unmeasured hzero
    · rw [count, if_neg hzero] at hcount
      exact hcount
  have hdone : ¬ More (arrayLengthWidth depl) (arrayMaxLength depl) (announced depl s) ([] : List Byte).length := by
    rw [hnone]
    rintro (hlt | ⟨hzero, hlt⟩)
    · exact absurd hlt (lt_irrefl 0)
    · rw [count, if_pos hzero] at hcount
      exact absurd hlt (hcount ▸ lt_irrefl 0)
  refine @elementsRead_of_loop _ _ _ _ _ _ _ h.read hquiet 0 ?_ hquiet hallowed
  rw [InputStream.readElements_done 0 hdone, hnone]
  rfl

theorem elementsRead_iff (isSigned : Bool) (h : Header depl s m) (hquiet : m.errorOccurred = false) :
    (∃ value t, ElementsRead isSigned elementDepl depl s value t) ↔
      ElementsAccepted elementDepl depl (count depl s) m.remaining := by
  constructor
  · rintro ⟨value, t, hread⟩
    exact elementsAccepted_of_read h hread
  · intro haccepted
    unfold ElementsAccepted at haccepted
    by_cases hzero : arrayLengthWidth depl = 0
    · rw [if_pos hzero] at haccepted
      have hsame : elements elementDepl depl (count depl s) = count depl s := if_pos hzero
      rcases haccepted with hcount | ⟨hpos, hroom⟩ | ⟨hinvalid, hends⟩
      · exact ⟨_, _, elementsRead_nothing h hquiet hcount (hcount ▸ count_allowed hzero)⟩
      · have hallowed : VectorAllowed depl (count depl s) := count_allowed hzero
        rw [← hsame] at hroom hallowed
        rcases elementsRead_there isSigned h hquiet hpos hroom hallowed with ⟨value, t, hread, _⟩
        exact ⟨value, t, hread⟩
      · rcases elementsRead_made_up isSigned h hquiet hzero hinvalid hends with ⟨value, t, hread, _⟩
        exact ⟨value, t, hread⟩
    · rw [if_neg hzero] at haccepted
      rcases haccepted with ⟨hcount | hpos, hroom, hallowed⟩
      · rw [hcount, elementCount_zero] at hallowed
        exact ⟨_, _, elementsRead_nothing h hquiet hcount hallowed⟩
      · have hsame : elements elementDepl depl (count depl s) =
            elementCount (elementBits elementDepl) (count depl s) := if_neg hzero
        rw [← hsame] at hroom hallowed
        rcases elementsRead_there isSigned h hquiet hpos hroom hallowed with ⟨value, t, hread, _⟩
        exact ⟨value, t, hread⟩

end Reading

section Agreement
variable {isSigned : Bool} {elementDepl : Option (IntegerDeployment 1)} {depl : Option ArrayDeployment}
  {s m : InputStream}

/-- One way succeeds just if the other does, and then both give back the same bytes and stop at the
    same place. -/
def SameReading (isSigned : Bool) (elementDepl : Option (IntegerDeployment 1))
    (depl : Option ArrayDeployment) (s : InputStream) : Prop :=
  ((∃ value t, BytesRead depl s value t) ↔
    ∃ value t, ElementsRead isSigned elementDepl depl s value t) ∧
  ∀ value t value' t', BytesRead depl s value t → ElementsRead isSigned elementDepl depl s value' t' →
    value = value' ∧ InputStream.SameCursor t t'

/-- When both ways read the same. Behind a header that is there, and without an earlier error, that
    is so if nothing is announced, and with elements of eight bits unless missing ones are made up.
    With fewer bits both must refuse what is announced. -/
def ReadersAgree (elementDepl : Option (IntegerDeployment 1)) (depl : Option ArrayDeployment)
    (s : InputStream) : Prop :=
  (InputStream.aligned s).remaining < arrayLengthWidth depl ∨
  (arrayLengthWidth depl = 0 ∧ s.errorOccurred = true) ∨
  count depl s = 0 ∨
  (elementBits elementDepl = 8 ∧
    ¬ (arrayLengthWidth depl = 0 ∧ hasInvalid elementDepl = true ∧ room depl s < count depl s)) ∨
  (elementBits elementDepl ≠ 8 ∧ ¬ BytesAccepted depl (count depl s) (room depl s) ∧
    ¬ ElementsAccepted elementDepl depl (count depl s) (room depl s))

theorem same_of_error {n size : ℕ} (hread : InputStream.readWidth (arrayLengthWidth depl) true 0
      (InputStream.aligned s) = .ok n m)
    (hcount : InputStream.readByteCount (arrayLengthWidth depl) (arrayMaxLength depl)
      (InputStream.aligned s) = .ok size m) (herror : m.errorOccurred = true) :
    SameReading isSigned elementDepl depl s := by
  have hbytes : ∀ value t, ¬ BytesRead depl s value t := by
    rintro value t ⟨hrun, hquiet⟩
    rw [readByteVector_run hcount, if_pos herror] at hrun
    split at hrun
    · cases hrun
      cases hquiet
    · cases hrun
      cases herror.symm.trans hquiet
  have helements : ∀ value t, ¬ ElementsRead isSigned elementDepl depl s value t := by
    intro value t h
    cases herror.symm.trans (loop_of_elementsRead hread h).1
  refine ⟨iff_of_false ?_ ?_, fun value t _ _ h => absurd h (hbytes value t)⟩
  · rintro ⟨value, t, h⟩
    exact hbytes value t h
  · rintro ⟨value, t, h⟩
    exact helements value t h

/-- Two cursors in the same message that stand at the same bit. -/
theorem sameCursor_of_position {t t' : InputStream} (ht : Consistent t) (ht' : Consistent t')
    (hmessage : t.message = t'.message) (hposition : position t = position t') :
    InputStream.SameCursor t t' := by
  have hbit := ht.bit
  have hbit' := ht'.bit
  have hin := ht.inside
  have hin' := ht'.inside
  rw [hmessage] at hin
  unfold position at hposition
  exact ⟨by omega, by omega, by omega⟩

theorem bytesAccepted_iff (h : Header depl s m) (hquiet : m.errorOccurred = false) :
    (∃ value t, BytesRead depl s value t) ↔ BytesAccepted depl (count depl s) m.remaining := by
  constructor
  · rintro ⟨value, t, hread⟩
    exact ((bytesRead_iff h.read h.taken).1 hread).2.1
  · exact fun haccepted => ⟨_, _, (bytesRead_iff h.read h.taken).2 ⟨hquiet, haccepted, rfl, rfl⟩⟩

theorem bytesRead_moved {value : List Byte} {t : InputStream} (h : Header depl s m)
    (hread : BytesRead depl s value t) :
    value = (m.message.body.drop m.current).take (count depl s) ∧ value.length = count depl s ∧
      Moved (8 * count depl s) m t := by
  rcases (bytesRead_iff h.read h.taken).1 hread with ⟨_, haccepted, hvalue, rfl⟩
  have hin := h.taken.consistent.inside
  have hsize := haccepted.2
  refine ⟨hvalue, ?_, (skipped_moved h.taken.consistent h.taken.bit hsize).1⟩
  rw [hvalue, List.length_take, List.length_drop]
  omega

theorem same_of_nothing (h : Header depl s m) (hquiet : m.errorOccurred = false)
    (hcount : count depl s = 0) : SameReading isSigned elementDepl depl s := by
  have hiff : BytesAccepted depl (count depl s) m.remaining ↔ VectorAllowed depl 0 := by
    unfold BytesAccepted
    rw [hcount]
    exact and_iff_left (Nat.zero_le _)
  refine ⟨?_, fun value t value' t' hbytes helements => ?_⟩
  · rw [bytesAccepted_iff h hquiet, hiff]
    constructor
    · exact fun hallowed => ⟨[], m, elementsRead_nothing h hquiet hcount hallowed⟩
    · rintro ⟨value, t, hread⟩
      have haccepted := elementsAccepted_of_read h hread
      unfold ElementsAccepted at haccepted
      rw [hcount, elementCount_zero] at haccepted
      split at haccepted
      · rw [← hcount]
        exact count_allowed ‹_›
      · exact haccepted.2.2
  · have hallowed := hiff.1 ((bytesAccepted_iff h hquiet).1 ⟨value, t, hbytes⟩)
    rcases (elementsRead_nothing h hquiet hcount hallowed).unique helements with ⟨rfl, rfl⟩
    rcases bytesRead_moved h hbytes with ⟨_, hlen, hmoved⟩
    rw [hcount] at hlen hmoved
    exact ⟨List.eq_nil_of_length_eq_zero hlen, sameCursor_of_position hmoved.consistent h.taken.consistent
      hmoved.message hmoved.position⟩

theorem elements_whole (hfull : elementBits elementDepl = 8) (size : ℕ) :
    elements elementDepl depl size = size := by
  unfold elements
  split
  · rfl
  · rw [hfull]
    exact (elementCount_unique (by omega) (by omega)).symm

theorem same_bytes {value value' : List Byte} {t t' : InputStream} (h : Header depl s m)
    (hquiet : m.errorOccurred = false) (hfull : elementBits elementDepl = 8)
    (hbytes : BytesRead depl s value t) (helements : ElementsRead isSigned elementDepl depl s value' t') :
    value = value' ∧ InputStream.SameCursor t t' := by
  have haccepted := (bytesAccepted_iff h hquiet).1 ⟨value, t, hbytes⟩
  have hroom := haccepted.2
  rcases elementsRead_there isSigned h hquiet (by omega)
    (show elements elementDepl depl (count depl s) * elementBits elementDepl ≤ 8 * m.remaining by
      rw [elements_whole hfull, hfull]
      omega)
    (show VectorAllowed depl (elements elementDepl depl (count depl s)) by
      rw [elements_whole hfull]
      exact haccepted.1) with ⟨xs, u, hread, _, hmoved, hxs⟩
  rcases hread.unique helements with ⟨rfl, rfl⟩
  rcases bytesRead_moved h hbytes with ⟨hvalue, _, hskipped⟩
  rw [elements_whole hfull] at hmoved hxs
  rw [hfull] at hmoved
  refine ⟨hvalue.trans (hxs hfull).symm, sameCursor_of_position hskipped.consistent hmoved.consistent
    (hskipped.message.trans hmoved.message.symm) ?_⟩
  rw [hskipped.position, hmoved.position, Nat.mul_comm]

theorem same_of_whole_iff (h : Header depl s m) (hquiet : m.errorOccurred = false)
    (hfull : elementBits elementDepl = 8) (hcount : count depl s ≠ 0) :
    SameReading isSigned elementDepl depl s ↔
      ¬ (arrayLengthWidth depl = 0 ∧ hasInvalid elementDepl = true ∧ m.remaining < count depl s) := by
  unfold SameReading
  rw [bytesAccepted_iff h hquiet, elementsRead_iff isSigned h hquiet,
    and_iff_left fun value t value' t' => same_bytes h hquiet hfull]
  have hsame : elementCount 8 (count depl s) = count depl s :=
    (elementCount_unique (by omega) (by omega)).symm
  have hends : 8 ∣ 8 * m.remaining := Nat.dvd_mul_right 8 _
  unfold BytesAccepted ElementsAccepted
  rw [hfull, hsame]
  by_cases hzero : arrayLengthWidth depl = 0
  · have hallowed : VectorAllowed depl (count depl s) := count_allowed hzero
    rw [if_pos hzero]
    constructor
    · rintro hiff ⟨_, hinvalid, hshort⟩
      have haccepted := (hiff.2 (Or.inr (Or.inr ⟨hinvalid, Or.inr hends⟩))).2
      omega
    · intro hno
      constructor
      · exact fun haccepted => Or.inr (Or.inl ⟨by omega, by omega⟩)
      · rintro (hnone | ⟨_, hroom⟩ | ⟨hinvalid, _⟩)
        · exact absurd hnone hcount
        · exact ⟨hallowed, by omega⟩
        · exact ⟨hallowed, not_lt.1 fun hshort => hno ⟨hzero, hinvalid, hshort⟩⟩
  · rw [if_neg hzero]
    refine iff_of_true ⟨?_, ?_⟩ fun hbad => hzero hbad.1
    · exact fun haccepted => ⟨Or.inr (by omega), by omega, haccepted.1⟩
    · exact fun haccepted => ⟨haccepted.2.2, by omega⟩

/-- Without a length field the elements of fewer bits end earlier than the bytes. -/
theorem counted_position {value : List Byte} {t : InputStream} (h : Header depl s m)
    (hquiet : m.errorOccurred = false) (hzero : arrayLengthWidth depl = 0) (hcount : count depl s ≠ 0)
    (hsize : count depl s ≤ m.remaining)
    (helements : ElementsRead isSigned elementDepl depl s value t) :
    position t ≤ position m + count depl s * elementBits elementDepl := by
  have hsame : elements elementDepl depl (count depl s) = count depl s := if_pos hzero
  rcases Nat.eq_zero_or_pos (elementBits elementDepl) with hnone | hpos
  · have haccepted := elementsAccepted_of_read h helements
    unfold ElementsAccepted at haccepted
    rw [if_pos hzero] at haccepted
    rcases haccepted with hbad | ⟨hbad, _⟩ | ⟨hinvalid, hends⟩
    · exact absurd hbad hcount
    · omega
    · rcases elementsRead_made_up isSigned h hquiet hzero hinvalid hends with ⟨xs, u, hread, hposition⟩
      rcases hread.unique helements with ⟨rfl, rfl⟩
      exact hposition
  · have hle : count depl s * elementBits elementDepl ≤ count depl s * 8 :=
      Nat.mul_le_mul_left _ (elementBits_le elementDepl)
    rcases elementsRead_there isSigned h hquiet hpos (show elements elementDepl depl (count depl s) *
        elementBits elementDepl ≤ 8 * m.remaining by
        rw [hsame]
        omega)
      (show VectorAllowed depl (elements elementDepl depl (count depl s)) by
        rw [hsame]
        exact count_allowed hzero) with ⟨xs, u, hread, _, hmoved, _⟩
    rcases hread.unique helements with ⟨rfl, rfl⟩
    rw [hmoved.position, hsame]

/-- With elements of fewer bits there are more of them, or they end earlier. -/
theorem narrow_differs {value value' : List Byte} {t t' : InputStream} (h : Header depl s m)
    (hquiet : m.errorOccurred = false) (hnarrow : elementBits elementDepl < 8) (hcount : count depl s ≠ 0)
    (hbytes : BytesRead depl s value t) (helements : ElementsRead isSigned elementDepl depl s value' t') :
    ¬ (value = value' ∧ InputStream.SameCursor t t') := by
  rintro ⟨hvalue, hcursor⟩
  have haccepted := (bytesAccepted_iff h hquiet).1 ⟨value, t, hbytes⟩
  have hfewer : count depl s * elementBits elementDepl ≤ count depl s * 7 :=
    Nat.mul_le_mul_left _ (Nat.le_of_lt_succ hnarrow)
  rcases bytesRead_moved h hbytes with ⟨_, hlen, hmoved⟩
  by_cases hzero : arrayLengthWidth depl = 0
  · have hposition := counted_position h hquiet hzero hcount haccepted.2 helements
    have hend := hmoved.position
    have hsame : position t' = position t := by
      unfold position
      rw [hcursor.current, hcursor.currentBit]
    omega
  · rcases loop_of_elementsRead h.read helements with ⟨_, _, herror, fuel, itsSize, hloop⟩
    rcases loop_length h hquiet hzero hloop herror with ⟨hsome, _, hlen'⟩
    have hpos := hsome.resolve_left hcount
    have hbounds := (elementCount_bounds hpos (count depl s)).1
    rw [← hlen', ← hvalue, hlen] at hbounds
    omega

theorem same_of_narrow_iff_refused (h : Header depl s m) (hquiet : m.errorOccurred = false)
    (hnarrow : elementBits elementDepl < 8) (hcount : count depl s ≠ 0) :
    SameReading isSigned elementDepl depl s ↔ ¬ BytesAccepted depl (count depl s) m.remaining ∧
      ¬ ElementsAccepted elementDepl depl (count depl s) m.remaining := by
  rw [← bytesAccepted_iff h hquiet, ← elementsRead_iff isSigned h hquiet]
  constructor
  · rintro ⟨hiff, hsame⟩
    have hno : ¬ ∃ value t, BytesRead depl s value t := by
      rintro ⟨value, t, hbytes⟩
      rcases hiff.1 ⟨value, t, hbytes⟩ with ⟨value', t', helements⟩
      exact narrow_differs h hquiet hnarrow hcount hbytes helements (hsame _ _ _ _ hbytes helements)
    exact ⟨hno, mt hiff.2 hno⟩
  · rintro ⟨hbytes, helements⟩
    exact ⟨iff_of_false hbytes helements, fun value t _ _ hread => absurd ⟨value, t, hread⟩ hbytes⟩

theorem same_reading_iff (isSigned : Bool) (elementDepl : Option (IntegerDeployment 1))
    (hs : Consistent s) (hwidth : arrayLengthWidth depl = 0 ∨ IsWidth (arrayLengthWidth depl)) :
    SameReading isSigned elementDepl depl s ↔ ReadersAgree elementDepl depl s := by
  unfold ReadersAgree
  by_cases hlost : (InputStream.aligned s).remaining < arrayLengthWidth depl
  · have hfield := hwidth.resolve_left (by omega)
    rcases header_lost hfield hlost with ⟨n, m, hread, herror⟩
    have hcount : InputStream.readByteCount (arrayLengthWidth depl) (arrayMaxLength depl)
        (InputStream.aligned s) = .ok n m := by
      rw [InputStream.readByteCount, if_pos hfield.ne_zero]
      exact hread
    exact iff_of_true (same_of_error hread hcount herror) (Or.inl hlost)
  · rw [or_iff_right hlost]
    rcases header_there hs hwidth (not_lt.1 hlost) with ⟨m, h⟩
    have herror := h.taken.errorOccurred
    have hremaining : m.remaining = room depl s := h.taken.remaining
    rw [InputStream.aligned_errorOccurred] at herror
    by_cases hbad : arrayLengthWidth depl = 0 ∧ s.errorOccurred = true
    · rw [if_pos hbad.1, hbad.2] at herror
      exact iff_of_true (same_of_error h.read (readByteCount_run h.read) herror) (Or.inl hbad)
    · rw [or_iff_right hbad]
      have hquiet : m.errorOccurred = false := by
        rw [herror]
        split
        · exact Bool.eq_false_iff.2 fun htrue => hbad ⟨‹_›, htrue⟩
        · rfl
      by_cases hcount : count depl s = 0
      · exact iff_of_true (same_of_nothing h hquiet hcount) (Or.inl hcount)
      · rw [or_iff_right hcount, ← hremaining]
        by_cases hfull : elementBits elementDepl = 8
        · rw [same_of_whole_iff h hquiet hfull hcount, and_iff_right hfull]
          exact (or_iff_left fun hno => hno.1 hfull).symm
        · have hnarrow := lt_of_le_of_ne (elementBits_le elementDepl) hfull
          rw [same_of_narrow_iff_refused h hquiet hnarrow hcount, and_iff_right hfull]
          exact (or_iff_right fun hno => hfull hno.1).symm

/-- Exactly when the overload for bytes does what the overload for all other vectors would do. -/
theorem byte_vectors_alike_iff (isSigned : Bool) (elementDepl : Option (IntegerDeployment 1))
    (depl : Option ArrayDeployment) (value : List Byte) {o : OutputStream} (ho : Clean o) (hs : Consistent s)
    (hwidth : arrayLengthWidth depl = 0 ∨ IsWidth (arrayLengthWidth depl))
    (hshort : (OutputStream.aligned o).payload.length < 2 ^ 32) :
    (SameWriting isSigned elementDepl depl value o ↔
      WritersAgree isSigned elementDepl depl value.length o) ∧
    (SameReading isSigned elementDepl depl s ↔ ReadersAgree elementDepl depl s) :=
  ⟨same_writing_iff isSigned elementDepl value ho hwidth hshort, same_reading_iff isSigned elementDepl hs hwidth⟩

theorem two_bytes_alike :
    SameWriting false none (some ⟨0, 0, 1⟩) [1, 2] (OutputStream.create true) ∧
      SameReading false none (some ⟨0, 0, 1⟩) (InputStream.create ⟨[2, 1, 2], by decide⟩ true) := by
  have h := byte_vectors_alike_iff false none (some ⟨0, 0, 1⟩) [1, 2] (OutputStream.create_clean true)
    (InputStream.create_consistent ⟨[2, 1, 2], by decide⟩ true) (Or.inr (by decide)) (by decide)
  refine ⟨h.1.2 (Or.inr (Or.inr (Or.inl (by decide)))),
    h.2.2 (Or.inr (Or.inr (Or.inr (Or.inl ⟨by decide, fun hbad => ?_⟩))))⟩
  exact absurd hbad.1 (by decide)

/-- Elements of four bits: the overload for bytes writes and reads eight. -/
theorem nibbles_differ :
    (¬ ∀ (isSigned : Bool) (elementDepl : Option (IntegerDeployment 1)) (depl : Option ArrayDeployment)
      (value : List Byte) (o : OutputStream), Clean o →
      (arrayLengthWidth depl = 0 ∨ IsWidth (arrayLengthWidth depl)) →
      (OutputStream.aligned o).payload.length < 2 ^ 32 → SameWriting isSigned elementDepl depl value o) ∧
    ¬ ∀ (isSigned : Bool) (elementDepl : Option (IntegerDeployment 1)) (depl : Option ArrayDeployment)
      (s : InputStream), Consistent s →
      (arrayLengthWidth depl = 0 ∨ IsWidth (arrayLengthWidth depl)) → SameReading isSigned elementDepl depl s := by
  constructor
  · intro h
    rcases h false (some ⟨4, none⟩) (some ⟨0, 0, 1⟩) [5] (OutputStream.create true)
      (OutputStream.create_clean true) (Or.inr (by decide)) (by decide) with ⟨t, t', ht, ht', _, hsame⟩
    obtain rfl : _ = t := congrArg finalState ht
    obtain rfl : _ = t' := congrArg finalState ht'
    exact absurd (hsame (by decide)).1 (by decide)
  · intro h
    have hsame := h false (some ⟨4, none⟩) (some ⟨0, 0, 1⟩) (InputStream.create ⟨[1, 5], by decide⟩ true)
      (InputStream.create_consistent ⟨[1, 5], by decide⟩ true) (Or.inr (by decide))
    have hbytes : BytesRead (some ⟨0, 0, 1⟩) (InputStream.create ⟨[1, 5], by decide⟩ true) [5] _ :=
      ⟨eq_ok_of_returned (by decide), by decide⟩
    have helements : ElementsRead false (some ⟨4, none⟩) (some ⟨0, 0, 1⟩)
        (InputStream.create ⟨[1, 5], by decide⟩ true) [5, 0] _ := ⟨2, eq_ok_of_returned (by decide), by decide⟩
    exact absurd (hsame.2 _ _ _ _ hbytes helements).1 (by decide)

end Agreement

end SomeIPRuntime.ByteVectors
