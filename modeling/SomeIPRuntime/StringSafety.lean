import SomeIPRuntime.InputValues
import SomeIPRuntime.InputSteps

set_option autoImplicit false

namespace SomeIPRuntime.StringEncoder
open Bits ProgramRuns Deployment

theorem byteAt_returns {data : List Byte} {i : ℕ} (h : i < data.length) :
    Returns (byteAt data i) fun b => b = data[i] := by
  unfold byteAt
  rw [List.getElem?_eq_getElem h]
  exact ⟨_, rfl, rfl⟩

theorem startsWith_returns (data expected : List Byte) (i : ℕ)
    (h : i + expected.length ≤ data.length) : Returns (startsWith data expected i) fun _ => True := by
  induction expected generalizing i with
  | nil => exact returns_pure trivial
  | cons e rest ih =>
    rw [List.length_cons] at h
    refine returns_bind (byteAt_returns (by omega)) fun b _ => ?_
    split
    · exact ih (i + 1) (by omega)
    · exact returns_pure trivial

theorem bom_length (encoding : StringEncoding) :
    2 ≤ (bom encoding).length ∧ (bom encoding).length ≤ 3 := by
  cases encoding <;> decide

/-- A string that is accepted has something behind its byte order mark. -/
theorem checkBom_returns {data : List Byte} {size : ℕ} (encoding : StringEncoding)
    (h : size ≤ data.length) :
    Returns (checkBom data size encoding) fun r =>
      r.2.2 ≤ r.2.1.length ∧ r.2.2 ≤ size ∧ (r.1 = true → 0 < r.2.2) := by
  have hbom := bom_length encoding
  unfold checkBom
  split
  · refine returns_bind (startsWith_returns data (bom encoding) 0 (by omega)) fun b _ => ?_
    split
    · refine returns_pure ⟨?_, Nat.sub_le _ _, fun _ => Nat.sub_pos_of_lt (by omega)⟩
      change size - (bom encoding).length ≤ (data.drop (bom encoding).length).length
      rw [List.length_drop]
      omega
    · exact returns_pure ⟨h, le_rfl, by simp⟩
  · exact returns_pure ⟨h, le_rfl, by simp⟩

theorem toInt_le (size : ℕ) : toInt size ≤ size := by
  unfold toInt
  rw [BitVec.toInt_eq_toNat_cond, BitVec.toNat_ofNat]
  have hmod := Nat.mod_le size (2 ^ 32)
  split <;> omega

theorem nextUtf16_le {index size : ℕ} (h : ¬ (!nextUtf16 index size) = true) : index ≤ size := by
  have hint := toInt_le size
  simp only [nextUtf16, Bool.not_eq_true', decide_eq_false_iff_not, not_not] at h
  omega

theorem codePointAt_returns (utf16Str : List Byte) (bigEndian : Bool) {size i : ℕ}
    (hsize : size < utf16Str.length) (hi : i < size) :
    Returns (codePointAt utf16Str bigEndian size i) fun r => ∀ p ∈ r, i < p.2 := by
  refine returns_bind (byteAt_returns (by omega)) fun firstByte _ => ?_
  split
  · exact returns_pure (by simp)
  · have h1 := nextUtf16_le ‹_›
    refine returns_bind (byteAt_returns (by omega)) fun secondByte _ => ?_
    generalize codeUnit bigEndian firstByte secondByte = codePoint
    dsimp only
    split
    · exact returns_pure (by simp)
    · split
      · exact returns_pure (by simp)
      · have h2 := nextUtf16_le ‹_›
        refine returns_bind (byteAt_returns (by omega)) fun thirdByte _ => ?_
        split
        · exact returns_pure (by simp)
        · have h3 := nextUtf16_le ‹_›
          refine returns_bind (byteAt_returns (by omega)) fun fourthByte _ => ?_
          generalize codeUnit bigEndian thirdByte fourthByte = secondSurrogate
          split
          · exact returns_pure (by simp)
          · exact returns_pure (by simp)

theorem utf16To8Loop_returns (utf16Str : List Byte) (bigEndian : Bool) {size : ℕ}
    (hsize : size < utf16Str.length) (fuel i : ℕ) (status : EncodingStatus) (bytes : List Byte)
    (hpos : 0 < fuel) (hfuel : size < i + fuel) :
    Returns (utf16To8Loop utf16Str bigEndian size fuel i status bytes) fun _ => True := by
  have hint := toInt_le size
  induction fuel generalizing i status bytes with
  | zero => omega
  | succ fuel ih =>
    unfold utf16To8Loop
    split
    · refine returns_bind (codePointAt_returns utf16Str bigEndian hsize (by omega)) fun r hr => ?_
      cases r with
      | none => exact returns_pure trivial
      | some p =>
        have hnext := hr p rfl
        obtain ⟨codePoint, next⟩ := p
        dsimp only at hnext ⊢
        generalize push codePoint status = pushed
        exact ih next _ _ (by omega) (by omega)
    · exact returns_pure trivial

theorem utf16To8_returns (utf16Str : List Byte) (bigEndian : Bool) {size : ℕ}
    (hsize : size < utf16Str.length) :
    Returns (utf16To8 utf16Str bigEndian size) fun _ => True := by
  refine returns_bind
    (utf16To8Loop_returns utf16Str bigEndian hsize _ 0 _ _ (by omega) (by omega)) fun r _ => ?_
  dsimp only
  split <;> exact returns_pure trivial

end StringEncoder

namespace InputStream
open Bits ProgramRuns Deployment StringEncoder

theorem scanTermination_returns {data : List Byte} {n : ℕ} (h : n ≤ data.length) (hpos : 0 < n) :
    Returns (scanTermination data n) fun m => 0 < m ∧ m ≤ n := by
  induction n with
  | zero => omega
  | succ n ih =>
    unfold scanTermination
    split
    · have hrec : Returns (scanTermination data n) fun m => 0 < m ∧ m ≤ n + 1 :=
        (ih (by omega) (by omega)).imp fun m hm => ⟨hm.1, by omega⟩
      refine returns_bind (byteAt_returns (by omega)) fun last _ => ?_
      split
      · exact hrec
      · refine returns_bind (byteAt_returns (by omega)) fun previous _ => ?_
        split
        · exact hrec
        · exact returns_pure ⟨by omega, le_rfl⟩
    · exact returns_pure ⟨by omega, le_rfl⟩

theorem decodeUtf16_returns {data : List Byte} {itsSize : ℕ} (bigEndian : Bool)
    (h : itsSize ≤ data.length) (hpos : 0 < itsSize) :
    Returns (decodeUtf16 data itsSize bigEndian) fun _ => True := by
  refine returns_bind (scanTermination_returns h hpos) fun m hm => ?_
  split
  · exact returns_pure trivial
  · refine returns_bind (utf16To8_returns data bigEndian (by omega)) fun r _ => ?_
    dsimp only
    split <;> exact returns_pure trivial

theorem decodeString_returns {data : List Byte} {itsSize : ℕ} (encoding : StringEncoding)
    (h : itsSize ≤ data.length) : Returns (decodeString data itsSize encoding) fun _ => True := by
  refine returns_bind (checkBom_returns encoding h) fun r hr => ?_
  obtain ⟨valid, data, itsSize⟩ := r
  obtain ⟨hlen, _, hpos⟩ := hr
  dsimp only at hlen hpos ⊢
  split
  · have hpos := hpos ‹_›
    cases encoding with
    | utf8 =>
      refine returns_bind (byteAt_returns (by omega)) fun last _ => ?_
      exact returns_pure trivial
    | utf16le => exact decodeUtf16_returns false hlen hpos
    | utf16be => exact decodeUtf16_returns true hlen hpos
  · exact returns_pure trivial

theorem readStringData_run {itsSize : ℕ} {encoding : StringEncoding} {s : InputStream}
    {isError : Bool} {value : List Byte}
    (h : decodeString (s.message.body.drop s.current) itsSize encoding = .ok (isError, value)) :
    readStringData itsSize encoding s =
      .ok value (if isError then raised (skipped itsSize s) else skipped itsSize s) := by
  have hmessage : (skipped itsSize s).message = s.message := by
    unfold skipped
    split <;> rfl
  unfold readStringData
  rw [bind_ok (readRaw_run _ _), bind_ok (get_run _), hmessage, h]
  cases isError <;> rfl

theorem readStringData_halt {itsSize : ℕ} {encoding : StringEncoding} {s : InputStream} {e : Halt}
    (h : decodeString (s.message.body.drop s.current) itsSize encoding = .error e) :
    readStringData itsSize encoding s = .error e (skipped itsSize s) := by
  have hmessage : (skipped itsSize s).message = s.message := by
    unfold skipped
    split <;> rfl
  unfold readStringData
  rw [bind_ok (readRaw_run _ _), bind_ok (get_run _), hmessage, h]
  rfl

theorem readStringData_returns {itsSize : ℕ} (encoding : StringEncoding) {s : InputStream}
    (h : s.current + itsSize ≤ s.message.body.length ∨ itsSize = 0) :
    ∃ (isError : Bool) (value : List Byte), readStringData itsSize encoding s =
      .ok value (if isError then raised (skipped itsSize s) else skipped itsSize s) := by
  have hlen : itsSize ≤ (s.message.body.drop s.current).length := by
    rw [List.length_drop]
    omega
  obtain ⟨⟨isError, value⟩, hdecode, _⟩ := decodeString_returns encoding hlen
  exact ⟨isError, value, readStringData_run hdecode⟩

/-- `size` bytes of the raw data are either inside the payload, or reading them leaves it. -/
theorem readBytes_run (itsSize size : ℕ) (s : InputStream) :
    (readRaw itsSize >>= fun base => dereferenceRange base size) s =
      if s.current + size ≤ s.message.body.length ∨ size = 0 then
        .ok ((s.message.body.drop s.current).take size) (skipped itsSize s)
      else .error .outOfBounds (skipped itsSize s) := by
  have hmessage : (skipped itsSize s).message = s.message := by
    unfold skipped
    split <;> rfl
  rw [bind_ok (readRaw_run _ _)]
  split
  · obtain hin | rfl := ‹_ ∨ _›
    · rw [dereferenceRange_run _ _ _ (by rw [hmessage]; omega), hmessage]
    · rfl
  · exact dereferenceRange_past (by omega) (by rw [hmessage]; omega)

end InputStream

end SomeIPRuntime
