import SomeIPRuntime.ProgramRuns
import SomeIPRuntime.StringEncoder
import SomeIPRuntime.Unicode

set_option autoImplicit false

namespace SomeIPRuntime.StringEncoder
open Bits ProgramRuns Unicode

def terminated (value : List Byte) : List Byte := value ++ [0]

theorem toNat_shift (b : Byte) (n : ℕ) : (b >>> n).toNat = b.toNat / 2 ^ n := by
  rw [BitVec.toNat_ushiftRight, Nat.shiftRight_eq_div_pow]

theorem isNewSequence_iff (b : Byte) : isNewSequence b = true ↔ b.toNat / 64 = 2 := by
  unfold isNewSequence
  rw [beq_iff_eq, ← BitVec.toNat_inj, toNat_shift]
  rfl

theorem getSequenceLength_eq (b : Byte) :
    getSequenceLength b =
      if b.toNat < 128 then 1
      else if b.toNat / 32 = 6 then 2
      else if b.toNat / 16 = 14 then 3
      else if b.toNat / 8 = 30 then 4
      else 0 := by
  unfold getSequenceLength
  simp only [BitVec.lt_def, ← BitVec.toNat_inj, toNat_shift]
  rfl

theorem masked (b : Byte) (shift mask bits : ℕ) (hmask : mask = 2 ^ bits - 1) :
    (b.toNat <<< shift) &&& mask = b.toNat * 2 ^ shift % 2 ^ bits := by
  rw [hmask, Nat.and_two_pow_sub_one_eq_mod, Nat.shiftLeft_eq]

def joined : List (ℕ × ℕ) → List Byte → ℕ → ℕ
  | (shift, mask) :: rest, t :: ts, codePoint =>
    joined rest ts (codePoint + ((t.toNat <<< shift) &&& mask))
  | _, _, codePoint => codePoint

theorem joined_two (b t : Byte) :
    joined [(0, 0x3f)] [t] ((b.toNat <<< 6) &&& 0x7ff) = b.toNat * 64 % 2048 + t.toNat % 64 := by
  unfold joined joined
  rw [masked b 6 0x7ff 11 rfl, masked t 0 0x3f 6 rfl, pow_zero, Nat.mul_one]
  rfl

theorem joined_three (b t u : Byte) :
    joined [(6, 0xfff), (0, 0x3f)] [t, u] ((b.toNat <<< 12) &&& 0xffff) =
      b.toNat * 4096 % 65536 + t.toNat * 64 % 4096 + u.toNat % 64 := by
  unfold joined joined joined
  rw [masked b 12 0xffff 16 rfl, masked t 6 0xfff 12 rfl, masked u 0 0x3f 6 rfl, pow_zero, Nat.mul_one]
  rfl

theorem joined_four (b t u v : Byte) :
    joined [(12, 0x3ffff), (6, 0xfff), (0, 0x3f)] [t, u, v] ((b.toNat <<< 18) &&& 0x1fffff) =
      b.toNat * 262144 % 2097152 + t.toNat * 4096 % 262144 + u.toNat * 64 % 4096 + v.toNat % 64 := by
  unfold joined joined joined joined
  rw [masked b 18 0x1fffff 21 rfl, masked t 12 0x3ffff 18 rfl, masked u 6 0xfff 12 rfl, masked v 0 0x3f 6 rfl, pow_zero,
    Nat.mul_one]
  rfl

def brokenAt (t : Byte) : EncodingStatus := if t = 0 then .notEnoughRoom else .incompleteSequence

theorem continuation_cons (shift mask : ℕ) (shifts : List (ℕ × ℕ)) (lead t : Byte) (rest : List Byte)
    (status : EncodingStatus) (codePoint : ℕ) :
    continuation ((shift, mask) :: shifts) (lead :: t :: rest) status codePoint =
      if isNewSequence t = true then
        continuation shifts (t :: rest) status (codePoint + ((t.toNat <<< shift) &&& mask))
      else .ok (t :: rest, brokenAt t, 0) := by
  have hnext : nextUtf8 (lead :: t :: rest) =
      if t = 0 then .ok (t :: rest, some .notEnoughRoom)
      else if !isNewSequence t then .ok (t :: rest, some .incompleteSequence)
      else .ok (t :: rest, none) := rfl
  rw [continuation, hnext]
  unfold brokenAt
  by_cases hzero : t = 0
  · subst hzero
    rfl
  · by_cases hnew : isNewSequence t = true
    · simp only [hzero, hnew, ↓reduceIte, Bool.not_true, Bool.false_eq_true]
      rfl
    · simp only [hzero, hnew, ↓reduceIte, Bool.not_false, Bool.false_eq_true]
      rfl

theorem continuation_complete (shifts : List (ℕ × ℕ)) (ts rest : List Byte) (lead : Byte)
    (status : EncodingStatus) (codePoint : ℕ) (hlen : ts.length = shifts.length)
    (hts : ∀ t ∈ ts, isNewSequence t = true) :
    ∃ last, continuation shifts (lead :: (ts ++ rest)) status codePoint =
      .ok (last :: rest, status, joined shifts ts codePoint) := by
  induction ts generalizing shifts lead codePoint with
  | nil =>
    obtain rfl := List.eq_nil_of_length_eq_zero hlen.symm
    exact ⟨lead, rfl⟩
  | cons t ts ih =>
    cases shifts with
    | nil => cases hlen
    | cons entry shifts =>
      obtain ⟨shift, mask⟩ := entry
      obtain ⟨last, hrun⟩ := ih shifts t (codePoint + ((t.toNat <<< shift) &&& mask))
        (Nat.succ.inj hlen) fun u hu => hts u (List.mem_cons_of_mem t hu)
      refine ⟨last, ?_⟩
      rw [List.cons_append, continuation_cons, if_pos (hts t List.mem_cons_self)]
      exact hrun

theorem brokenAt_ne (t : Byte) : brokenAt t ≠ .success := by
  unfold brokenAt
  split <;> exact fun h => by cases h

/-- What has been read where the continuation bytes have ended with a success. -/
theorem continuation_success {shifts : List (ℕ × ℕ)} {lead : Byte} {rest pointer : List Byte}
    {status : EncodingStatus} {codePoint result : ℕ}
    (h : continuation shifts (lead :: rest) status codePoint = .ok (pointer, .success, result)) :
    ∃ ts, rest = ts ++ pointer.drop 1 ∧ ts.length = shifts.length ∧
      (∀ t ∈ ts, isNewSequence t = true) ∧ status = .success ∧ result = joined shifts ts codePoint := by
  induction shifts generalizing lead rest codePoint with
  | nil =>
    cases h
    exact ⟨[], rfl, rfl, nofun, rfl, rfl⟩
  | cons entry shifts ih =>
    obtain ⟨shift, mask⟩ := entry
    cases rest with
    | nil => cases h
    | cons t rest =>
      rw [continuation_cons] at h
      split at h
      · rename_i hnew
        obtain ⟨ts, hrest, hlen, hts, hstatus, hresult⟩ := ih h
        refine ⟨t :: ts, congrArg (t :: ·) hrest, congrArg Nat.succ hlen, fun u hu => ?_, hstatus,
          hresult⟩
        cases hu with
        | head => exact hnew
        | tail _ hu => exact hts u hu
      · have hstatus : brokenAt t = .success := congrArg (fun r => r.2.1) (Except.ok.inj h)
        exact absurd hstatus (brokenAt_ne t)

def judge (sequenceLength : ℕ) (r : List Byte × EncodingStatus × ℕ) :
    List Byte × EncodingStatus × ℕ :=
  if r.2.1 = .success then
    if isSequenceTooLong r.2.2 sequenceLength then (r.1, .sequenceTooLong, 0)
    else if !isCodePointValid r.2.2 then (r.1, .invalidCodePoint, 0)
    else r
  else (r.1, r.2.1, 0)

theorem judge_eq (sequenceLength : ℕ) (r : List Byte × EncodingStatus × ℕ) :
    (if r.2.1 = .success then
      if isSequenceTooLong r.2.2 sequenceLength then pure (r.1, .sequenceTooLong, 0)
      else if !isCodePointValid r.2.2 then pure (r.1, .invalidCodePoint, 0)
      else pure (r.1, r.2.1, r.2.2)
    else
      pure (r.1, r.2.1, 0) : Except Halt (List Byte × EncodingStatus × ℕ)) =
      .ok (judge sequenceLength r) := by
  unfold judge
  split_ifs <;> rfl

theorem bind_eq_map {α β : Type} {x : Except Halt α} {f : α → Except Halt β} {g : α → β}
    (h : ∀ r, f r = .ok (g r)) : (x >>= f) = g <$> x := by
  cases x with
  | error e => rfl
  | ok r => exact h r

def sequenceOf (sequenceLength : ℕ) (b : Byte) (rest : List Byte) (status : EncodingStatus) :
    Except Halt (List Byte × EncodingStatus × ℕ) :=
  if sequenceLength = 1 then .ok (b :: rest, status, b.toNat)
  else if sequenceLength = 2 then
    continuation [(0, 0x3f)] (b :: rest) status ((b.toNat <<< 6) &&& 0x7ff)
  else if sequenceLength = 3 then
    continuation [(6, 0xfff), (0, 0x3f)] (b :: rest) status ((b.toNat <<< 12) &&& 0xffff)
  else if sequenceLength = 4 then
    continuation [(12, 0x3ffff), (6, 0xfff), (0, 0x3f)] (b :: rest) status
      ((b.toNat <<< 18) &&& 0x1fffff)
  else .ok (b :: rest, .invalidLead, 0)

theorem getNextBytes_eq {b : Byte} (hb : b ≠ 0) (rest : List Byte) (status : EncodingStatus) :
    getNextBytes (b :: rest) status =
      (judge (getSequenceLength b)) <$> sequenceOf (getSequenceLength b) b rest status := by
  have hhead : head (b :: rest) = .ok b := rfl
  have hone : getByteSequence1 (b :: rest) status = .ok (b :: rest, status, b.toNat) := by
    unfold getByteSequence1
    rw [hhead]
    change (if b = 0 then _ else _) = _
    rw [if_neg hb]
    rfl
  have hmore : ∀ shift mask shifts, getByteSequence shift mask shifts (b :: rest) status =
      continuation shifts (b :: rest) status ((b.toNat <<< shift) &&& mask) := by
    intro shift mask shifts
    unfold getByteSequence
    rw [hhead]
    change (if b = 0 then _ else _) = _
    rw [if_neg hb]
  have hbind : ∀ f : Byte → Except Halt (List Byte × EncodingStatus × ℕ),
      (Except.ok b >>= f) = f b := fun _ => rfl
  unfold getNextBytes
  rw [hhead, hbind]
  dsimp only
  generalize getSequenceLength b = sequenceLength
  rcases sequenceLength with _ | _ | _ | _ | _ | n
  · exact bind_eq_map fun r => judge_eq 0 r
  · exact (congrArg (· >>= _) hone).trans (bind_eq_map fun r => judge_eq 1 r)
  · exact (congrArg (· >>= _) (hmore _ _ _)).trans (bind_eq_map fun r => judge_eq 2 r)
  · exact (congrArg (· >>= _) (hmore _ _ _)).trans (bind_eq_map fun r => judge_eq 3 r)
  · exact (congrArg (· >>= _) (hmore _ _ _)).trans (bind_eq_map fun r => judge_eq 4 r)
  · exact bind_eq_map fun r => judge_eq (n + 5) r

theorem tooLong_iff (codePoint size : ℕ) :
    isSequenceTooLong codePoint size = false ↔
      (codePoint < 0x80 → size = 1) ∧ (0x80 ≤ codePoint → codePoint < 0x800 → size = 2) ∧
        (0x800 ≤ codePoint → codePoint < 0x10000 → size = 3) := by
  unfold isSequenceTooLong
  split_ifs <;> simp only [bne_eq_false_iff_eq, true_iff] <;> omega

theorem valid_iff (codePoint : ℕ) :
    isCodePointValid codePoint = true ↔
      codePoint ≤ 0x10ffff ∧ ¬ (0xd800 ≤ codePoint % 0x10000 ∧ codePoint % 0x10000 ≤ 0xdfff) := by
  unfold isCodePointValid isSurrogate
  rw [Bool.and_eq_true, Bool.not_eq_true', Bool.and_eq_false_iff, decide_eq_true_iff,
    decide_eq_false_iff_not, decide_eq_false_iff_not]
  change _ ∧ (¬ 0xd800 ≤ codePoint % 0x10000 ∨ ¬ codePoint % 0x10000 ≤ 0xdfff) ↔ _
  omega

theorem judge_success {sequenceLength codePoint : ℕ} {pointer : List Byte}
    (hlong : isSequenceTooLong codePoint sequenceLength = false) :
    judge sequenceLength (pointer, .success, codePoint) =
      if isCodePointValid codePoint = true then (pointer, .success, codePoint)
      else (pointer, .invalidCodePoint, 0) := by
  unfold judge
  rw [if_pos rfl]
  dsimp only
  rw [hlong]
  cases isCodePointValid codePoint <;> rfl

/-- A sequence ends with a success where it is not too long and its code point is valid. -/
theorem judge_cases {sequenceLength codePoint : ℕ} {pointer : List Byte}
    {x : Except Halt (List Byte × EncodingStatus × ℕ)}
    (h : (judge sequenceLength) <$> x = .ok (pointer, .success, codePoint)) :
    x = .ok (pointer, .success, codePoint) ∧ isSequenceTooLong codePoint sequenceLength = false ∧
      isCodePointValid codePoint = true := by
  cases x with
  | error e => cases h
  | ok r =>
    obtain ⟨p, status, n⟩ := r
    have hr : judge sequenceLength (p, status, n) = (pointer, .success, codePoint) :=
      Except.ok.inj h
    unfold judge at hr
    dsimp only at hr
    split at hr
    · split at hr
      · cases hr
      · split at hr
        · cases hr
        · cases hr
          rename_i hlong hvalid
          exact ⟨rfl, by simpa using hlong, by simpa using hvalid⟩
    · cases hr
      contradiction

/-- The next character is read, and rejected where its code point is taken for a surrogate. -/
theorem getNextBytes_char {c : Char} (hc : c.toNat ≠ 0) (rest : List Byte) :
    ∃ last, getNextBytes (utf8 c ++ rest) .success =
      .ok (if isCodePointValid c.toNat = true then (last :: rest, .success, c.toNat)
        else (last :: rest, .invalidCodePoint, 0)) := by
  have hne : ∀ b : Byte, b.toNat ≠ 0 → b ≠ 0 := fun b hb hzero => hb (by rw [hzero]; rfl)
  have hnew : ∀ t : Byte, t.toNat / 64 = 2 → isNewSequence t = true := fun t =>
    (isNewSequence_iff t).2
  obtain ⟨hsize, b, hform, hb⟩ | ⟨hlow, hhigh, b, t, hform, hb, ht⟩ |
    ⟨hlow, hhigh, b, t, u, hform, hb, ht, hu⟩ | ⟨hlow, hhigh, b, t, u, v, hform, hb, ht, hu, hv⟩ :=
    utf8_forms c
  · have hlength : getSequenceLength b = 1 := by
      rw [getSequenceLength_eq, if_pos (by omega)]
    refine ⟨b, ?_⟩
    rw [hform, List.singleton_append, getNextBytes_eq (hne b (by omega)), hlength, ← hb]
    exact congrArg Except.ok (judge_success ((tooLong_iff _ _).2 (by omega)))
  · have hlength : getSequenceLength b = 2 := by
      rw [getSequenceLength_eq, if_neg (by omega), if_pos (by omega)]
    obtain ⟨last, hrun⟩ := continuation_complete [(0, 0x3f)] [t] rest b .success
      ((b.toNat <<< 6) &&& 0x7ff) rfl (by simp [hnew t (by omega)])
    have hpoint : b.toNat * 64 % 2048 + t.toNat % 64 = c.toNat := by omega
    rw [joined_two, hpoint] at hrun
    refine ⟨last, ?_⟩
    rw [hform, List.cons_append, getNextBytes_eq (hne b (by omega)), hlength]
    exact (congrArg _ hrun).trans
      (congrArg Except.ok (judge_success ((tooLong_iff _ _).2 (by omega))))
  · have hlength : getSequenceLength b = 3 := by
      rw [getSequenceLength_eq, if_neg (by omega), if_neg (by omega), if_pos (by omega)]
    obtain ⟨last, hrun⟩ := continuation_complete [(6, 0xfff), (0, 0x3f)] [t, u] rest b .success
      ((b.toNat <<< 12) &&& 0xffff) rfl (by simp [hnew t (by omega), hnew u (by omega)])
    have hpoint : b.toNat * 4096 % 65536 + t.toNat * 64 % 4096 + u.toNat % 64 = c.toNat := by omega
    rw [joined_three, hpoint] at hrun
    refine ⟨last, ?_⟩
    rw [hform, List.cons_append, getNextBytes_eq (hne b (by omega)), hlength]
    exact (congrArg _ hrun).trans
      (congrArg Except.ok (judge_success ((tooLong_iff _ _).2 (by omega))))
  · have hlength : getSequenceLength b = 4 := by
      rw [getSequenceLength_eq, if_neg (by omega), if_neg (by omega), if_neg (by omega),
        if_pos (by omega)]
    obtain ⟨last, hrun⟩ := continuation_complete [(12, 0x3ffff), (6, 0xfff), (0, 0x3f)] [t, u, v] rest
      b .success ((b.toNat <<< 18) &&& 0x1fffff) rfl
      (by simp [hnew t (by omega), hnew u (by omega), hnew v (by omega)])
    have hpoint : b.toNat * 262144 % 2097152 + t.toNat * 4096 % 262144 + u.toNat * 64 % 4096 +
        v.toNat % 64 = c.toNat := by omega
    rw [joined_four, hpoint] at hrun
    refine ⟨last, ?_⟩
    rw [hform, List.cons_append, getNextBytes_eq (hne b (by omega)), hlength]
    exact (congrArg _ hrun).trans
      (congrArg Except.ok (judge_success ((tooLong_iff _ _).2 (by omega))))

theorem valid_char {codePoint : ℕ} (h : isCodePointValid codePoint = true) :
    ∃ c : Char, c.toNat = codePoint := by
  rw [valid_iff] at h
  exact exists_char (by omega)

theorem getNextBytes_success {b : Byte} (hb : b ≠ 0) {rest pointer : List Byte}
    {status : EncodingStatus} {codePoint : ℕ}
    (h : getNextBytes (b :: rest) status = .ok (pointer, .success, codePoint)) :
    status = .success ∧ isCodePointValid codePoint = true ∧ codePoint ≠ 0 ∧
      ∃ c : Char, c.toNat = codePoint ∧ b :: rest = utf8 c ++ pointer.drop 1 := by
  have hnew : ∀ t : Byte, isNewSequence t = true → t.toNat / 64 = 2 := fun t =>
    (isNewSequence_iff t).1
  have hpos : b.toNat ≠ 0 := fun hzero => hb (BitVec.eq_of_toNat_eq hzero)
  rw [getNextBytes_eq hb, getSequenceLength_eq] at h
  split_ifs at h with h1 h2 h3 h4
  · obtain ⟨hr, _, hvalid⟩ := judge_cases h
    cases hr
    obtain ⟨c, hc⟩ := valid_char hvalid
    refine ⟨rfl, hvalid, hpos, c, hc, ?_⟩
    rw [utf8_one (by omega) hc.symm]
    rfl
  · obtain ⟨hrun, hlong, hvalid⟩ := judge_cases h
    obtain ⟨ts, hrest, hlen, hts, hstatus, hpoint⟩ := continuation_success hrun
    obtain ⟨t, rfl⟩ := List.length_eq_one_iff.1 hlen
    have ht := hnew t (hts t (by simp))
    rw [joined_two] at hpoint
    rw [tooLong_iff] at hlong
    obtain ⟨c, hc⟩ := valid_char hvalid
    refine ⟨hstatus, hvalid, by omega, c, hc, ?_⟩
    rw [utf8_two (b := b) (t := t) (by omega) (by omega) (by omega) (by omega), hrest]
    rfl
  · obtain ⟨hrun, hlong, hvalid⟩ := judge_cases h
    obtain ⟨ts, hrest, hlen, hts, hstatus, hpoint⟩ := continuation_success hrun
    obtain ⟨t, u, rfl⟩ := List.length_eq_two.1 hlen
    have ht := hnew t (hts t (by simp))
    have hu := hnew u (hts u (by simp))
    rw [joined_three] at hpoint
    rw [tooLong_iff] at hlong
    obtain ⟨c, hc⟩ := valid_char hvalid
    refine ⟨hstatus, hvalid, by omega, c, hc, ?_⟩
    rw [utf8_three (b := b) (t := t) (u := u) (by omega) (by omega) (by omega) (by omega) (by omega),
      hrest]
    rfl
  · obtain ⟨hrun, hlong, hvalid⟩ := judge_cases h
    obtain ⟨ts, hrest, hlen, hts, hstatus, hpoint⟩ := continuation_success hrun
    obtain ⟨t, u, v, rfl⟩ := List.length_eq_three.1 hlen
    have ht := hnew t (hts t (by simp))
    have hu := hnew u (hts u (by simp))
    have hv := hnew v (hts v (by simp))
    rw [joined_four] at hpoint
    rw [tooLong_iff] at hlong
    obtain ⟨c, hc⟩ := valid_char hvalid
    refine ⟨hstatus, hvalid, by omega, c, hc, ?_⟩
    rw [utf8_four (b := b) (t := t) (u := u) (v := v) (by omega) (by omega) (by omega) (by omega)
      (by omega), hrest]
    rfl
  · cases h

/-- What is left behind the continuation bytes of a sequence, or behind the first byte that is
    none; nothing where the string ends before. -/
def skipTails : ℕ → List Byte → Option (List Byte)
  | 0, rest => some rest
  | _ + 1, [] => none
  | n + 1, t :: rest => if isNewSequence t = true then skipTails n rest else some rest

/-- No sequence that a scan comes to is cut off by the terminator. -/
inductive Contained : List Byte → Prop
  | nil : Contained []
  | sequence {b : Byte} {rest after : List Byte}
      (hskip : skipTails (getSequenceLength b - 1) rest = some after) (hafter : Contained after) :
      Contained (b :: rest)

def memoryAfter (after : Option (List Byte)) (beyond : List Byte) : List Byte :=
  match after with
  | some after => terminated after ++ beyond
  | none => beyond

theorem skipTails_length {n : ℕ} {rest after : List Byte} (h : skipTails n rest = some after) :
    after.length ≤ rest.length := by
  induction n generalizing rest with
  | zero =>
    cases h
    exact le_rfl
  | succ n ih =>
    cases rest with
    | nil => cases h
    | cons t rest =>
      unfold skipTails at h
      split at h
      · exact (ih h).trans (Nat.le_succ _)
      · cases h
        exact Nat.le_succ _

theorem skipTails_mem {n : ℕ} {rest after : List Byte} (h : skipTails n rest = some after) :
    ∀ t ∈ after, t ∈ rest := by
  induction n generalizing rest with
  | zero =>
    cases h
    exact fun _ => id
  | succ n ih =>
    cases rest with
    | nil => cases h
    | cons t rest =>
      unfold skipTails at h
      split at h
      · exact fun u hu => List.mem_cons_of_mem t (ih h u hu)
      · cases h
        exact fun u hu => List.mem_cons_of_mem t hu

theorem continuation_moves (shifts : List (ℕ × ℕ)) (lead : Byte) (rest : List Byte)
    (status : EncodingStatus) (codePoint : ℕ) :
    ∃ last result, ∀ beyond, continuation shifts (lead :: (terminated rest ++ beyond)) status codePoint =
      .ok (last :: memoryAfter (skipTails shifts.length rest) beyond, result) := by
  induction shifts generalizing lead rest codePoint with
  | nil => exact ⟨lead, (status, codePoint), fun _ => rfl⟩
  | cons entry shifts ih =>
    obtain ⟨shift, mask⟩ := entry
    cases rest with
    | nil => exact ⟨0, (brokenAt 0, 0), fun beyond => continuation_cons _ _ _ _ _ _ _ _⟩
    | cons t rest =>
      by_cases hnew : isNewSequence t = true
      · obtain ⟨last, result, hrun⟩ := ih t rest (codePoint + ((t.toNat <<< shift) &&& mask))
        refine ⟨last, result, fun beyond => ?_⟩
        have hskip : skipTails ((shift, mask) :: shifts).length (t :: rest) =
            skipTails shifts.length rest := if_pos hnew
        rw [hskip, ← hrun beyond]
        exact (continuation_cons _ _ _ _ _ _ _ _).trans (if_pos hnew)
      · refine ⟨t, (brokenAt t, 0), fun beyond => ?_⟩
        have hskip : skipTails ((shift, mask) :: shifts).length (t :: rest) = some rest := if_neg hnew
        rw [hskip]
        exact (continuation_cons _ _ _ _ _ _ _ _).trans (if_neg hnew)

/-- Whatever the next sequence is, the pointer moves on behind it. -/
theorem getNextBytes_moves {b : Byte} (hb : b ≠ 0) (rest : List Byte) (status : EncodingStatus) :
    ∃ last result, ∀ beyond, getNextBytes (b :: (terminated rest ++ beyond)) status =
      .ok (last :: memoryAfter (skipTails (getSequenceLength b - 1) rest) beyond, result) := by
  have hjudge : ∀ (pointer : List Byte) (r : EncodingStatus × ℕ) (n : ℕ),
      judge n (pointer, r) = (pointer, (judge n ([], r)).2) := by
    intro pointer r n
    unfold judge
    dsimp only
    split_ifs <;> rfl
  have hone : ∀ n r, ∃ last result, ∀ beyond, (judge n) <$>
      (Except.ok (b :: (terminated rest ++ beyond), r) : Except Halt _) =
        .ok (last :: memoryAfter (some rest) beyond, result) := fun n r =>
    ⟨b, (judge n ([], r)).2, fun beyond => congrArg Except.ok (hjudge _ r n)⟩
  have hmore : ∀ n shifts codePoint, ∃ last result, ∀ beyond, (judge n) <$>
      continuation shifts (b :: (terminated rest ++ beyond)) status codePoint =
        .ok (last :: memoryAfter (skipTails shifts.length rest) beyond, result) := by
    intro n shifts codePoint
    obtain ⟨last, result, hrun⟩ := continuation_moves shifts b rest status codePoint
    refine ⟨last, (judge n ([], result)).2, fun beyond => ?_⟩
    rw [hrun beyond]
    exact congrArg Except.ok (hjudge _ result n)
  simp only [getNextBytes_eq hb, getSequenceLength_eq]
  split_ifs
  · exact hone 1 _
  · exact hmore 2 _ _
  · exact hmore 3 _ _
  · exact hmore 4 _ _
  · exact hone 0 _

section Scans
variable {value : List Byte}

theorem utf8To16Loop_step {b : Byte} (hb : b ≠ 0) (bigEndian : Bool) (fuel : ℕ)
    (rest : List Byte) (status : EncodingStatus) (bytes : List Byte) :
    utf8To16Loop bigEndian (fuel + 1) (b :: rest) status bytes = (do
      let r ← getNextBytes (b :: rest) status
      utf8To16Loop bigEndian fuel (r.1.drop 1) r.2.1 (bytes ++ units16 bigEndian r.2.2)) := by
  have hhead : head (b :: rest) = .ok b := rfl
  rw [utf8To16Loop, hhead]
  change (if b = 0 then _ else _) = _
  rw [if_neg hb]

/-- A run that stays within the string does the same whatever is behind it. -/
theorem utf8To16Loop_contained (bigEndian : Bool) (h : Contained value) (hvalue : ∀ b ∈ value, b ≠ 0)
    (status : EncodingStatus) (bytes : List Byte) :
    ∃ r, ∀ beyond fuel, value.length < fuel →
      utf8To16Loop bigEndian fuel (terminated value ++ beyond) status bytes = .ok r := by
  induction h generalizing status bytes with
  | nil =>
    refine ⟨(status, bytes), fun beyond fuel hfuel => ?_⟩
    obtain ⟨fuel, rfl⟩ := Nat.exists_eq_succ_of_ne_zero (Nat.ne_of_gt hfuel)
    rfl
  | @sequence b rest after hskip hafter ih =>
    obtain ⟨last, result, hrun⟩ := getNextBytes_moves (hvalue b List.mem_cons_self) rest status
    obtain ⟨r, hr⟩ := ih (fun t ht => hvalue t (List.mem_cons_of_mem b (skipTails_mem hskip t ht)))
      result.1 (bytes ++ units16 bigEndian result.2)
    refine ⟨r, fun beyond fuel hfuel => ?_⟩
    have hlen := skipTails_length hskip
    rw [List.length_cons] at hfuel
    obtain ⟨fuel, rfl⟩ := Nat.exists_eq_succ_of_ne_zero (Nat.ne_of_gt (Nat.zero_lt_of_lt hfuel))
    have hstep := utf8To16Loop_step (hvalue b List.mem_cons_self) bigEndian fuel
      (terminated rest ++ beyond) status bytes
    rw [hrun beyond, hskip] at hstep
    exact hstep.trans (hr beyond fuel (by omega))

/-- A run that has no memory behind the terminator returns only if it needs none. -/
theorem contained_of_returns {bigEndian : Bool} {fuel : ℕ} {status : EncodingStatus}
    {bytes : List Byte} {r : EncodingStatus × List Byte} (hvalue : ∀ b ∈ value, b ≠ 0)
    (h : utf8To16Loop bigEndian fuel (terminated value) status bytes = .ok r) : Contained value := by
  induction fuel generalizing value status bytes with
  | zero => cases h
  | succ fuel ih =>
    cases value with
    | nil => exact .nil
    | cons b rest =>
      obtain ⟨last, result, hrun⟩ := getNextBytes_moves (hvalue b List.mem_cons_self) rest status
      have hstep := (utf8To16Loop_step (hvalue b List.mem_cons_self) bigEndian fuel
        (terminated rest) status bytes).symm.trans h
      have hrun := hrun []
      rw [List.append_nil] at hrun
      rw [hrun] at hstep
      cases hskip : skipTails (getSequenceLength b - 1) rest with
      | none =>
        rw [hskip] at hstep
        cases fuel <;> cases hstep
      | some after =>
        rw [hskip] at hstep
        have hafter := hstep
        rw [memoryAfter, List.append_nil] at hafter
        refine .sequence hskip (ih (fun t ht => ?_) hafter)
        exact hvalue t (List.mem_cons_of_mem b (skipTails_mem hskip t ht))

end Scans

end SomeIPRuntime.StringEncoder
