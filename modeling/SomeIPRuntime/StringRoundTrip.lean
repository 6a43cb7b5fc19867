import SomeIPRuntime.Transcoding
import SomeIPRuntime.StringSafety
import SomeIPRuntime.Received

set_option autoImplicit false

namespace SomeIPRuntime.StringEncoder
open Bits ProgramRuns Unicode

def nul : Char := Char.ofNat 0

def nuls (count : ℕ) : List Char := List.replicate count nul

theorem encode8_nuls (count : ℕ) : encode8 (nuls count) = List.replicate count 0 := by
  induction count with
  | zero => rfl
  | succ count ih => exact congrArg (0 :: ·) ih

theorem encode16_nuls (count : ℕ) : encode16 (nuls count) = List.replicate count 0 := by
  induction count with
  | zero => rfl
  | succ count ih => exact congrArg (0 :: ·) ih

theorem encode16_padded (cs : List Char) (count : ℕ) :
    (encode16 (cs ++ nuls count)).length = (encode16 cs).length + count := by
  have hnuls := congrArg List.length (encode16_nuls count)
  rw [List.length_replicate] at hnuls
  rw [encode16, List.flatMap_append, List.length_append]
  exact congrArg _ hnuls

theorem serialize16_nuls (bigEndian : Bool) (count : ℕ) :
    serialize16 bigEndian (encode16 (nuls count)) = List.replicate (2 * count) 0 := by
  have hnul : bytes16 bigEndian 0 = [0, 0] := by cases bigEndian <;> rfl
  induction count with
  | zero => rfl
  | succ count ih =>
    change bytes16 bigEndian 0 ++ serialize16 bigEndian (encode16 (nuls count)) = _
    rw [hnul, ih]
    rfl

theorem serialize16_padded (bigEndian : Bool) (cs : List Char) (count : ℕ) :
    serialize16 bigEndian (encode16 (cs ++ nuls count)) =
      serialize16 bigEndian (encode16 cs) ++ List.replicate (2 * count) 0 := by
  rw [← serialize16_nuls bigEndian, encode16, List.flatMap_append, serialize16, List.flatMap_append]
  rfl

theorem encode8_padded (cs : List Char) (count : ℕ) :
    encode8 (cs ++ nuls count) = encode8 cs ++ List.replicate count 0 := by
  rw [← encode8_nuls]
  exact List.flatMap_append

theorem not_shadowed_padded {cs : List Char} (h : ∀ c ∈ cs, ¬ Shadowed c) (count : ℕ) :
    ∀ c ∈ cs ++ nuls count, ¬ Shadowed c := by
  intro c hc
  cases List.mem_append.1 hc with
  | inl hc => exact h c hc
  | inr hc =>
    rw [List.eq_of_mem_replicate hc]
    decide

theorem serialize16_cons (bigEndian : Bool) (bytes : List Byte) (c : Char) (cs : List Char) :
    bytes ++ units16 bigEndian c.toNat ++ serialize16 bigEndian (encode16 cs) =
      bytes ++ serialize16 bigEndian (encode16 (c :: cs)) := by
  rw [units16_char, List.append_assoc]
  exact congrArg (bytes ++ ·) List.flatMap_append.symm

theorem getNextBytes_failed {b : Byte} (hb : b ≠ 0) {rest pointer : List Byte}
    {status result : EncodingStatus} {codePoint : ℕ}
    (h : getNextBytes (b :: rest) status = .ok (pointer, result, codePoint))
    (hfailed : result ≠ .success) : codePoint = 0 := by
  rw [getNextBytes_eq hb] at h
  cases hsequence : sequenceOf (getSequenceLength b) b rest status with
  | error e =>
    rw [hsequence] at h
    cases h
  | ok r =>
    rw [hsequence] at h
    have hr : judge (getSequenceLength b) r = (pointer, result, codePoint) := Except.ok.inj h
    unfold judge at hr
    split_ifs at hr with hsuccess hlong hvalid
    · cases hr
      rfl
    · cases hr
      rfl
    · cases hr
      exact absurd hsuccess hfailed
    · cases hr
      rfl

theorem utf8To16Loop_failed {bigEndian : Bool} {fuel : ℕ} {pointer bytes out : List Byte}
    {status result : EncodingStatus} (hfailed : status ≠ .success)
    (h : utf8To16Loop bigEndian fuel pointer status bytes = .ok (result, out)) :
    ∃ count, out = bytes ++ serialize16 bigEndian (encode16 (nuls count)) := by
  induction fuel generalizing pointer status bytes with
  | zero => cases h
  | succ fuel ih =>
    cases pointer with
    | nil => cases h
    | cons b rest =>
      by_cases hb : b = 0
      · subst hb
        cases h
        exact ⟨0, (List.append_nil _).symm⟩
      · rw [utf8To16Loop_step hb] at h
        cases hnext : getNextBytes (b :: rest) status with
        | error e =>
          rw [hnext] at h
          cases h
        | ok r =>
          obtain ⟨pointer, status', codePoint⟩ := r
          rw [hnext] at h
          have hstill : status' ≠ .success := by
            rintro rfl
            exact hfailed (getNextBytes_success hb hnext).1
          obtain rfl := getNextBytes_failed hb hnext hstill
          obtain ⟨count, hout⟩ := ih hstill h
          exact ⟨count + 1, hout.trans (serialize16_cons bigEndian bytes nul (nuls count))⟩

/-- A string as the writer takes it: the characters in front, a number of NULs for the steps
    behind them, and what is not taken. -/
structure Scanned (value : List Byte) (cs : List Char) (count : ℕ) (rest : List Byte) : Prop where
  value : value = encode8 cs ++ rest
  characters : ∀ c ∈ cs, c.toNat ≠ 0 ∧ ¬ Shadowed c
  ended : count = 0 ↔ rest.headD 0 = 0

theorem Scanned.cons {c : Char} (hc : c.toNat ≠ 0 ∧ ¬ Shadowed c) {value rest : List Byte}
    {cs : List Char} {count : ℕ} (h : Scanned value cs count rest) :
    Scanned (utf8 c ++ value) (c :: cs) count rest where
  value := by
    rw [h.value, ← List.append_assoc]
    rfl
  characters := List.forall_mem_cons.2 ⟨hc, h.characters⟩
  ended := h.ended

/-- What has been taken comes back only if the rest is the NULs that are appended. -/
theorem Scanned.back {value : List Byte} {cs : List Char} {count appended : ℕ} {rest : List Byte}
    (h : Scanned value cs count rest) (hback : encode8 (cs ++ nuls (count + appended)) = value) :
    count = 0 ∧ rest = List.replicate appended 0 := by
  rw [encode8_padded, h.value] at hback
  have hrest := List.append_cancel_left hback
  have hcount : count = 0 := by
    rw [h.ended, ← hrest]
    cases count + appended <;> rfl
  rw [hcount, Nat.zero_add] at hrest
  exact ⟨hcount, hrest.symm⟩

theorem Scanned.of_nil {cs : List Char} {count : ℕ} {rest : List Byte} (h : Scanned [] cs count rest) :
    cs = [] ∧ count = 0 := by
  have hvalue := congrArg List.length h.value
  have hlen := encode8_length cs
  rw [List.length_nil, List.length_append] at hvalue
  have hrest : rest = [] := List.eq_nil_of_length_eq_zero (by omega)
  exact ⟨List.eq_nil_of_length_eq_zero (by omega), h.ended.2 (hrest ▸ rfl)⟩

theorem utf8To16Loop_scanned {bigEndian : Bool} {fuel : ℕ} {value bytes out : List Byte}
    {result : EncodingStatus}
    (h : utf8To16Loop bigEndian fuel (terminated value) .success bytes = .ok (result, out)) :
    ∃ cs count rest, Scanned value cs count rest ∧
      out = bytes ++ serialize16 bigEndian (encode16 (cs ++ nuls count)) := by
  induction fuel generalizing value bytes with
  | zero => cases h
  | succ fuel ih =>
    have hend : value.headD 0 = 0 → utf8To16Loop bigEndian (fuel + 1) (terminated value) .success bytes =
        .ok (.success, bytes) := by
      intro hhead
      cases value with
      | nil => rfl
      | cons b rest =>
        obtain rfl : b = 0 := hhead
        rfl
    by_cases hhead : value.headD 0 = 0
    · cases (hend hhead).symm.trans h
      exact ⟨[], 0, value, ⟨rfl, nofun, iff_of_true rfl hhead⟩, (List.append_nil _).symm⟩
    · cases value with
      | nil => exact absurd rfl hhead
      | cons b rest =>
        have hb : b ≠ 0 := hhead
        have hstep := (utf8To16Loop_step hb bigEndian fuel (terminated rest) .success bytes).symm.trans h
        cases hnext : getNextBytes (b :: terminated rest) .success with
        | error e =>
          rw [hnext] at hstep
          cases hstep
        | ok r =>
          obtain ⟨pointer, status, codePoint⟩ := r
          rw [hnext] at hstep
          by_cases hstatus : status = .success
          · subst hstatus
            obtain ⟨_, hvalid, hpos, c, rfl, hform⟩ := getNextBytes_success hb hnext
            have hmemory : terminated (b :: rest) ++ [] = utf8 c ++ pointer.drop 1 := by
              rw [List.append_nil]
              exact hform
            obtain ⟨after, hsplit, hpointer⟩ := terminated_split (utf8_ne_zero hpos) hmemory
            have hloop : utf8To16Loop bigEndian fuel (terminated after) .success
                (bytes ++ units16 bigEndian c.toNat) = .ok (result, out) := by
              rw [List.append_nil] at hpointer
              rw [← hpointer]
              exact hstep
            obtain ⟨cs, count, rest', hscanned, hout⟩ := ih hloop
            refine ⟨c :: cs, count, rest', ?_, hout.trans (serialize16_cons bigEndian bytes c _)⟩
            rw [hsplit]
            exact hscanned.cons ⟨hpos, (valid_iff_not_shadowed c).1 hvalid⟩
          · obtain rfl := getNextBytes_failed hb hnext hstatus
            obtain ⟨count, hout⟩ := utf8To16Loop_failed hstatus hstep
            exact ⟨[], count + 1, b :: rest, ⟨rfl, nofun, iff_of_false (Nat.succ_ne_zero _) hb⟩,
              hout.trans (serialize16_cons bigEndian bytes nul (nuls count))⟩

theorem utf16To8_front (bigEndian : Bool) {cs : List Char} (hcs : ∀ c ∈ cs, ¬ Shadowed c) {size : ℕ}
    (hsize : 2 * (encode16 cs).length = size) (hshort : size < 2 ^ 31) (beyond : List Byte) :
    utf16To8 (serialize16 bigEndian (encode16 cs) ++ beyond) bigEndian size =
      .ok (.success, encode8 cs ++ [0]) := by
  have hlen := serialize16_length bigEndian (encode16 cs)
  have hloop := utf16To8Loop_complete (toInt_small hshort) (pairing_encode16 bigEndian cs)
    (List.drop_zero (l := serialize16 bigEndian (encode16 cs) ++ beyond)) (by omega)
    (show _ < size + 1 by omega) .success []
  rw [(judged_success_iff _).2 (accepted_itemOf hcs), pushed_encode8 hcs] at hloop
  unfold utf16To8
  rw [hloop]
  rfl

/-- A size that is negative as an `int` gives the empty string. -/
theorem utf16To8_overflown {size : ℕ} (hlong : 2 ^ 31 ≤ size) (hsize : size < 2 ^ 32)
    (utf16Str : List Byte) (bigEndian : Bool) :
    utf16To8 utf16Str bigEndian size = .ok (.success, [0]) := by
  have hneg : toInt size ≤ 0 := by
    unfold toInt
    rw [BitVec.toInt_eq_toNat_cond, BitVec.toNat_ofNat]
    split <;> omega
  unfold utf16To8
  rw [utf16To8Loop_end .success [] hneg]
  rfl

end SomeIPRuntime.StringEncoder

namespace SomeIPRuntime.RoundTrip
open Bits ProgramRuns Deployment Unicode StringEncoder
open InputStream (Consistent Read decodeString decodeUtf8 decodeUtf16 scanTermination)
open OutputStream (Clean lengthField)

def terminationSize (encoding : StringEncoding) : ℕ := if encoding = .utf8 then 1 else 2

def stringContent (encoding : StringEncoding) (bytes : List Byte) (padding : ℕ) : List Byte :=
  bom encoding ++ (bytes ++ List.replicate (terminationSize encoding + padding) 0)

theorem stringContent_length (encoding : StringEncoding) (bytes : List Byte) (padding : ℕ) :
    (stringContent encoding bytes padding).length =
      (bom encoding).length + (bytes.length + (terminationSize encoding + padding)) := by
  rw [stringContent, List.length_append, List.length_append, List.length_replicate]

section Decoding
variable {bytes : List Byte} {padding : ℕ}

theorem checkBom_content (encoding : StringEncoding) (bytes : List Byte) (padding : ℕ)
    (more : List Byte) :
    checkBom (stringContent encoding bytes padding ++ more) (stringContent encoding bytes padding).length
        encoding =
      .ok (true, bytes ++ List.replicate (terminationSize encoding + padding) 0 ++ more,
        bytes.length + (terminationSize encoding + padding)) := by
  have hstarts : ∀ behind, startsWith (bom encoding ++ behind) (bom encoding) 0 = .ok true := by
    intro behind
    cases encoding <;> rfl
  have hsize : 3 < (bom encoding).length + (bytes.length + (terminationSize encoding + padding)) := by
    have hfour : (bom encoding).length + terminationSize encoding = 4 := by cases encoding <;> rfl
    omega
  rw [stringContent_length, stringContent, List.append_assoc (bom _)]
  unfold checkBom
  rw [if_pos hsize, hstarts]
  refine congrArg Except.ok (congrArg (Prod.mk true) ?_)
  rw [List.drop_left, Nat.add_sub_cancel_left]

theorem byteAt_length (front back : List Byte) (b : Byte) :
    byteAt (front ++ b :: back) front.length = .ok b := by
  rw [byteAt, List.getElem?_append_right le_rfl, Nat.sub_self]
  rfl

theorem decodeUtf8_zeros (bytes : List Byte) (padding : ℕ) (more : List Byte) :
    decodeUtf8 (bytes ++ List.replicate (1 + padding) 0 ++ more) (bytes.length + (1 + padding)) =
      .ok (false, bytes ++ List.replicate padding 0) := by
  have hsize : bytes.length + (1 + padding) - 1 = (bytes ++ List.replicate padding (0 : Byte)).length := by
    rw [List.length_append, List.length_replicate]
    omega
  have hsplit : bytes ++ List.replicate (1 + padding) 0 ++ more =
      bytes ++ List.replicate padding 0 ++ 0 :: more := by
    rw [Nat.add_comm, List.replicate_succ', ← List.append_assoc, List.append_assoc _ [0]]
    rfl
  unfold decodeUtf8
  rw [hsize, hsplit, byteAt_length, List.take_left]
  rfl

theorem scanTermination_zeros (bytes more : List Byte) :
    scanTermination (bytes ++ [0, 0] ++ more) (bytes.length + 2) = .ok (bytes.length + 2) := by
  have hprevious : byteAt (bytes ++ [0, 0] ++ more) (bytes.length + 1 - 1) = .ok 0 := by
    rw [List.append_assoc]
    exact byteAt_length bytes (0 :: more) 0
  have hlast : byteAt (bytes ++ [0, 0] ++ more) (bytes.length + 1) = .ok 0 := by
    have hlength := byteAt_length (bytes ++ [0]) more 0
    rw [List.length_append, List.append_assoc] at hlength
    rw [List.append_assoc]
    exact hlength
  rw [scanTermination, if_pos (by omega), hlast]
  change (byteAt _ (bytes.length + 1 - 1) >>= _) = _
  rw [hprevious]
  rfl

theorem decodeUtf16_odd (more : List Byte) (bigEndian : Bool) (hodd : bytes.length % 2 = 1) :
    decodeUtf16 (bytes ++ [0, 0] ++ more) (bytes.length + 2) bigEndian = .ok (true, []) := by
  unfold decodeUtf16
  rw [scanTermination_zeros]
  exact if_pos (by omega)

theorem decodeUtf16_even {more out : List Byte} {bigEndian : Bool} {status : EncodingStatus}
    (heven : bytes.length % 2 = 0)
    (h : utf16To8 (bytes ++ [0, 0] ++ more) bigEndian bytes.length = .ok (status, out ++ [0])) :
    decodeUtf16 (bytes ++ [0, 0] ++ more) (bytes.length + 2) bigEndian = .ok (false, out) := by
  have hlen : (out ++ [0]).length = out.length + 1 := List.length_append
  unfold decodeUtf16
  rw [scanTermination_zeros]
  change (if (bytes.length + 2) % 2 ≠ 0 then _ else _) = _
  rw [if_neg (by omega), Nat.add_sub_cancel, h]
  change (if (out ++ [0]).length ≠ 0 then _ else _) = _
  rw [if_pos (by omega), hlen, Nat.add_sub_cancel, List.take_left]
  rfl

theorem decodeString_utf8 (bytes : List Byte) (padding : ℕ) (more : List Byte) :
    decodeString (stringContent .utf8 bytes padding ++ more)
      (stringContent .utf8 bytes padding).length .utf8 =
        .ok (false, bytes ++ List.replicate padding 0) := by
  unfold decodeString
  rw [checkBom_content]
  exact decodeUtf8_zeros bytes padding more

def isBigEndian (encoding : StringEncoding) : Bool := encoding = .utf16be

theorem decodeString_utf16 {encoding : StringEncoding} (hencoding : encoding ≠ .utf8)
    (bytes : List Byte) (padding : ℕ) (more : List Byte) :
    decodeString (stringContent encoding bytes padding ++ more)
      (stringContent encoding bytes padding).length encoding =
        decodeUtf16 (bytes ++ List.replicate padding 0 ++ [0, 0] ++ more)
          ((bytes ++ List.replicate padding (0 : Byte)).length + 2) (isBigEndian encoding) := by
  have htermination : terminationSize encoding = 2 := if_neg hencoding
  have hzeros : List.replicate (2 + padding) (0 : Byte) = List.replicate padding 0 ++ [0, 0] := by
    rw [Nat.add_comm, List.replicate_add]
    rfl
  have hsize : bytes.length + (2 + padding) =
      (bytes ++ List.replicate padding (0 : Byte)).length + 2 := by
    rw [List.length_append, List.length_replicate]
    omega
  unfold decodeString
  rw [checkBom_content, htermination, hsize, hzeros, ← List.append_assoc bytes]
  cases encoding with
  | utf8 => exact absurd rfl hencoding
  | utf16le => rfl
  | utf16be => rfl

/-- Padded characters come back with a NUL for every two bytes of the padding. -/
theorem decodeString_padded {encoding : StringEncoding} (hencoding : encoding ≠ .utf8)
    {cs : List Char} (hcs : ∀ c ∈ cs, ¬ Shadowed c) {padding size : ℕ}
    (hsize : 2 * (encode16 cs).length + padding = size) (hfits : size < 2 ^ 32) (more : List Byte) :
    decodeString
        (stringContent encoding (serialize16 (isBigEndian encoding) (encode16 cs)) padding ++ more)
        (stringContent encoding (serialize16 (isBigEndian encoding) (encode16 cs)) padding).length
        encoding =
      if padding % 2 = 1 then .ok (true, [])
      else if size < 2 ^ 31 then .ok (false, encode8 (cs ++ nuls (padding / 2)))
      else .ok (false, []) := by
  have hunits := serialize16_length (isBigEndian encoding) (encode16 cs)
  have hlen : (serialize16 (isBigEndian encoding) (encode16 cs) ++
      List.replicate padding (0 : Byte)).length = size := by
    rw [List.length_append, List.length_replicate, hunits, hsize]
  rw [decodeString_utf16 hencoding]
  split_ifs with hodd hshort
  · exact decodeUtf16_odd more _ (by omega)
  · have hbytes := serialize16_padded (isBigEndian encoding) cs (padding / 2)
    rw [show 2 * (padding / 2) = padding by omega] at hbytes
    have hcount : 2 * (encode16 (cs ++ nuls (padding / 2))).length = size := by
      rw [encode16_padded]
      omega
    have hback := utf16To8_front (isBigEndian encoding) (not_shadowed_padded hcs (padding / 2))
      hcount hshort ([0, 0] ++ more)
    rw [hbytes, ← List.append_assoc, ← hlen] at hback
    exact decodeUtf16_even (by omega) hback
  · have hback := utf16To8_overflown (Nat.le_of_not_lt hshort) hfits
      (serialize16 (isBigEndian encoding) (encode16 cs) ++ List.replicate padding 0 ++ [0, 0] ++ more)
      (isBigEndian encoding)
    rw [← hlen] at hback
    exact decodeUtf16_even (by omega) hback

end Decoding

section Strings
variable {depl : Option StringDeployment} {value bytes : List Byte} {padding : ℕ}

def stringEncoding (depl : Option StringDeployment) : StringEncoding :=
  (depl.map (·.stringEncoding)).getD .utf8

def stringLengthWidth (depl : Option StringDeployment) : ℕ :=
  (depl.map (·.stringLengthWidth)).getD 4

def stringLength (depl : Option StringDeployment) : ℕ := (depl.map (·.stringLength)).getD 0

def Takes (depl : Option StringDeployment) (size padding : ℕ) : Prop :=
  if stringLengthWidth depl = 0 then stringLength depl = size + padding else padding = 0

instance (depl : Option StringDeployment) (size padding : ℕ) : Decidable (Takes depl size padding) :=
  inferInstanceAs (Decidable
    (if stringLengthWidth depl = 0 then stringLength depl = size + padding else padding = 0))

/-- UTF-16 has no padding, or it is NULs that the string ends with. The last case is the empty
    string with a length that is negative as an `int`. -/
def Transmissible (depl : Option StringDeployment) (value : List Byte) : Prop :=
  if stringEncoding depl = .utf8 then Takes depl (value.length + 4) 0
  else
    (∃ cs count, value = encode8 cs ++ List.replicate count 0 ∧
      (∀ c ∈ cs, c.toNat ≠ 0 ∧ ¬ Shadowed c) ∧ 2 * ((encode16 cs).length + count) < 2 ^ 31 ∧
      Takes depl (2 * (encode16 cs).length + 4) (2 * count)) ∨
    (value = [] ∧ ∃ padding, Takes depl 4 padding ∧ padding % 2 = 0 ∧ 2 ^ 31 ≤ padding)

theorem Takes.unique {size padding' : ℕ} (h : Takes depl size padding) (h' : Takes depl size padding') :
    padding' = padding := by
  unfold Takes at h h'
  split_ifs at h h' <;> omega

theorem encodeString_utf16 {encoding : StringEncoding} (hencoding : encoding ≠ .utf8)
    (value : List Byte) :
    OutputStream.encodeString encoding value =
      Prod.snd <$> utf8To16 (terminated value) (isBigEndian encoding) := by
  cases encoding with
  | utf8 => exact absurd rfl hencoding
  | utf16le => rfl
  | utf16be => rfl

theorem encodeString_scanned {encoding : StringEncoding} (hencoding : encoding ≠ .utf8)
    (h : OutputStream.encodeString encoding value = .ok bytes) :
    ∃ cs count rest, Scanned value cs count rest ∧
      bytes = serialize16 (isBigEndian encoding) (encode16 (cs ++ nuls count)) := by
  rw [encodeString_utf16 hencoding] at h
  cases hrun : utf8To16 (terminated value) (isBigEndian encoding) with
  | error e =>
    rw [hrun] at h
    cases h
  | ok r =>
    rw [hrun] at h
    cases h
    exact utf8To16Loop_scanned hrun

theorem encodeString_characters {encoding : StringEncoding} (hencoding : encoding ≠ .utf8)
    {cs : List Char} (hcs : ∀ c ∈ cs, c.toNat ≠ 0 ∧ ¬ Shadowed c) (count : ℕ) :
    OutputStream.encodeString encoding (encode8 cs ++ List.replicate count 0) =
      .ok (serialize16 (isBigEndian encoding) (encode16 cs)) := by
  have hmemory : terminated (encode8 cs ++ List.replicate count 0) =
      terminated (encode8 cs) ++ List.replicate count 0 := by
    unfold terminated
    rw [List.append_assoc, List.append_assoc, ← List.replicate_succ', List.replicate_succ]
    rfl
  rw [encodeString_utf16 hencoding, hmemory, encode8_transcoded (fun c hc => (hcs c hc).1)
    (fun c hc => (hcs c hc).2)]
  rfl

theorem decodeString_back_utf8 (hencoding : stringEncoding depl = .utf8)
    (htakes : Takes depl (value.length + 4) padding) (more : List Byte) :
    decodeString (stringContent .utf8 value padding ++ more)
        (stringContent .utf8 value padding).length .utf8 = .ok (false, value) ↔
      Transmissible depl value := by
  unfold Transmissible
  rw [if_pos hencoding, decodeString_utf8]
  constructor
  · intro h
    have hnil := List.append_right_eq_self.1 (Prod.mk.inj (Except.ok.inj h)).2
    obtain rfl : padding = 0 := by
      cases padding with
      | zero => rfl
      | succ padding => cases hnil
    exact htakes
  · intro h
    obtain rfl := h.unique htakes
    rw [List.replicate_zero, List.append_nil]

/-- What comes back in UTF-16 has padding that is NULs of the string, or is empty. -/
theorem transmissible_of_back (hencoding : stringEncoding depl ≠ .utf8)
    (hbytes : OutputStream.encodeString (stringEncoding depl) value = .ok bytes)
    (htakes : Takes depl (bytes.length + 4) padding) (hfits : bytes.length + padding < 2 ^ 32)
    (more : List Byte)
    (h : decodeString (stringContent (stringEncoding depl) bytes padding ++ more)
        (stringContent (stringEncoding depl) bytes padding).length (stringEncoding depl) =
      .ok (false, value)) : Transmissible depl value := by
  unfold Transmissible
  rw [if_neg hencoding]
  obtain ⟨cs, count, rest, hscanned, rfl⟩ := encodeString_scanned hencoding hbytes
  have hunits := serialize16_length (isBigEndian (stringEncoding depl)) (encode16 (cs ++ nuls count))
  rw [hunits] at htakes hfits
  have hvalid := not_shadowed_padded (fun c hc => (hscanned.characters c hc).2) count
  rw [decodeString_padded hencoding hvalid rfl hfits] at h
  split_ifs at h with hodd hshort
  · cases h
  · refine Or.inl ?_
    have hback := (Prod.mk.inj (Except.ok.inj h)).2
    have happend : cs ++ nuls count ++ nuls (padding / 2) = cs ++ nuls (count + padding / 2) := by
      rw [List.append_assoc, nuls, nuls, nuls, List.replicate_add]
    rw [happend] at hback
    obtain ⟨rfl, hrest⟩ := hscanned.back hback
    rw [encode16_padded] at htakes hshort
    refine ⟨cs, padding / 2, hrest ▸ hscanned.value, hscanned.characters, by omega, ?_⟩
    rw [show 2 * (padding / 2) = padding by omega]
    exact htakes
  · obtain rfl : [] = value := (Prod.mk.inj (Except.ok.inj h)).2
    obtain ⟨rfl, rfl⟩ := hscanned.of_nil
    exact Or.inr ⟨rfl, padding, htakes, by omega, by
      change ¬ 0 + padding < 2 ^ 31 at hshort
      omega⟩

theorem Transmissible.back (h : Transmissible depl value) (hencoding : stringEncoding depl ≠ .utf8)
    (hbytes : OutputStream.encodeString (stringEncoding depl) value = .ok bytes)
    (htakes : Takes depl (bytes.length + 4) padding) (hfits : bytes.length + padding < 2 ^ 32)
    (more : List Byte) :
    decodeString (stringContent (stringEncoding depl) bytes padding ++ more)
        (stringContent (stringEncoding depl) bytes padding).length (stringEncoding depl) =
      .ok (false, value) := by
  unfold Transmissible at h
  rw [if_neg hencoding] at h
  rcases h with ⟨cs, count, rfl, hcs, hshort, hpadding⟩ | ⟨rfl, padding', hpadding, heven, hlong⟩
  · rw [encodeString_characters hencoding hcs] at hbytes
    obtain rfl := Except.ok.inj hbytes
    rw [serialize16_length] at htakes hfits
    obtain rfl := htakes.unique hpadding
    rw [decodeString_padded hencoding (fun c hc => (hcs c hc).2) rfl hfits, if_neg (by omega),
      if_pos (by omega), Nat.mul_div_cancel_left _ Nat.two_pos, encode8_padded]
  · have hempty := encodeString_characters hencoding (List.forall_mem_nil _) 0
    obtain rfl := Except.ok.inj (hbytes.symm.trans hempty)
    obtain rfl := htakes.unique hpadding
    have hsize : 2 * (encode16 []).length + padding' = padding' := Nat.zero_add _
    rw [decodeString_padded hencoding (List.forall_mem_nil _) hsize (by omega), if_neg (by omega),
      if_neg (by omega)]

/-- The reader gives back the string that the writer has encoded. -/
theorem decodeString_back_iff
    (hbytes : OutputStream.encodeString (stringEncoding depl) value = .ok bytes)
    (htakes : Takes depl (bytes.length + 4) padding) (hfits : bytes.length + padding < 2 ^ 32)
    (more : List Byte) :
    decodeString (stringContent (stringEncoding depl) bytes padding ++ more)
        (stringContent (stringEncoding depl) bytes padding).length (stringEncoding depl) =
      .ok (false, value) ↔ Transmissible depl value := by
  by_cases hencoding : stringEncoding depl = .utf8
  · rw [hencoding] at hbytes ⊢
    obtain rfl : value = bytes := Except.ok.inj hbytes
    exact decodeString_back_utf8 hencoding htakes more
  · exact ⟨transmissible_of_back hencoding hbytes htakes hfits more,
      fun h => h.back hencoding hbytes htakes hfits more⟩

theorem Transmissible.takes (h : Transmissible depl value)
    (hbytes : OutputStream.encodeString (stringEncoding depl) value = .ok bytes) :
    ∃ padding, Takes depl (bytes.length + 4) padding := by
  unfold Transmissible at h
  by_cases hencoding : stringEncoding depl = .utf8
  · rw [if_pos hencoding] at h
    rw [hencoding] at hbytes
    obtain rfl : value = bytes := Except.ok.inj hbytes
    exact ⟨0, h⟩
  · rw [if_neg hencoding] at h
    rcases h with ⟨cs, count, rfl, hcs, _, htakes⟩ | ⟨rfl, padding, htakes, _⟩
    · rw [encodeString_characters hencoding hcs] at hbytes
      obtain rfl := Except.ok.inj hbytes
      rw [serialize16_length]
      exact ⟨_, htakes⟩
    · have hempty := encodeString_characters hencoding (List.forall_mem_nil _) 0
      obtain rfl := Except.ok.inj (hbytes.symm.trans hempty)
      exact ⟨padding, htakes⟩

end Strings

section Streams
variable {depl : Option StringDeployment} {value bytes : List Byte} {padding : ℕ}
  {o t : OutputStream} {s v : InputStream}

def behindLength (depl : Option StringDeployment) (size : ℕ) (o : OutputStream) : OutputStream :=
  { OutputStream.aligned o with
    payload := (OutputStream.aligned o).payload ++
      lengthField (OutputStream.aligned o).isLittleEndian size (stringLengthWidth depl) }

def stringWritten (depl : Option StringDeployment) (bytes : List Byte) (padding : ℕ)
    (o : OutputStream) : OutputStream :=
  { behindLength depl (bytes.length + 4) o with
    payload := (behindLength depl (bytes.length + 4) o).payload ++
      stringContent (stringEncoding depl) bytes padding }

theorem sizes_eq (encoding : StringEncoding) (size : ℕ) :
    size + (if encoding = .utf8 then 1 else 2) + (if encoding = .utf8 then 3 else 2) = size + 4 := by
  cases encoding <;> rfl

theorem contentLength (encoding : StringEncoding) (bytes : List Byte) (padding : ℕ) :
    (stringContent encoding bytes padding).length = bytes.length + 4 + padding := by
  have hfour : (bom encoding).length + terminationSize encoding = 4 := by cases encoding <;> rfl
  rw [stringContent_length]
  omega

theorem writeStringData_run (encoding : StringEncoding) (bytes : List Byte) (padding : ℕ)
    (o : OutputStream) :
    OutputStream.writeStringData encoding bytes (terminationSize encoding + padding) o =
      .ok ⟨⟩ { o with payload := o.payload ++ stringContent encoding bytes padding } := by
  rw [stringContent, ← List.append_assoc, ← List.append_assoc]
  rfl

theorem writeString_ok (hrun : OutputStream.writeString depl value o = .ok ⟨⟩ t)
    (herror : t.errorOccurred = false) (hshort : t.payload.length < 2 ^ 32) :
    ∃ bytes, OutputStream.encodeString (stringEncoding depl) value = .ok bytes ∧
      (stringLengthWidth depl = 0 ∧ stringLength depl < bytes.length + 4 ∧ t = OutputStream.aligned o ∨
      ∃ padding, Takes depl (bytes.length + 4) padding ∧
        ¬ OutputStream.TooLarge (bytes.length + 4) (stringLengthWidth depl) ∧
        t = stringWritten depl bytes padding o) := by
  change (OutputStream.bitAlign >>= _) o = _ at hrun
  rw [bind_ok (OutputStream.bitAlign_run o)] at hrun
  change (fromExcept (OutputStream.encodeString (stringEncoding depl) value) >>= fun bytes =>
    OutputStream.writeStringBytes (stringLengthWidth depl) (stringLength depl) (stringEncoding depl)
      bytes) (OutputStream.aligned o) = _ at hrun
  cases hbytes : OutputStream.encodeString (stringEncoding depl) value with
  | error e =>
    rw [hbytes] at hrun
    cases hrun
  | ok bytes =>
    rw [hbytes] at hrun
    refine ⟨bytes, rfl, ?_⟩
    change OutputStream.writeStringBytes _ _ _ bytes (OutputStream.aligned o) = _ at hrun
    unfold OutputStream.writeStringBytes at hrun
    rw [sizes_eq] at hrun
    by_cases hwidth : stringLengthWidth depl = 0
    · rw [if_pos hwidth] at hrun
      by_cases hlong : stringLength depl < bytes.length + 4
      · rw [if_pos hlong] at hrun
        cases hrun
        exact Or.inl ⟨hwidth, hlong, rfl⟩
      · rw [if_neg hlong] at hrun
        refine Or.inr ⟨stringLength depl - (bytes.length + 4), ?_, ?_, ?_⟩
        · unfold Takes
          rw [if_pos hwidth]
          omega
        · rw [hwidth]
          unfold OutputStream.TooLarge
          omega
        · cases hrun.symm.trans (writeStringData_run (stringEncoding depl) bytes _ _)
          unfold stringWritten behindLength lengthField
          rw [hwidth, if_neg (by decide), List.append_nil]
    · rw [if_neg hwidth,
        bind_ok (OutputStream.writeWidth_run _ _ (OutputStream.aligned_currentBit o))] at hrun
      cases hrun.symm.trans (writeStringData_run (stringEncoding depl) bytes 0 _)
      have hlen := contentLength (stringEncoding depl) bytes 0
      change List.length (_ ++ _) < _ at hshort
      rw [List.length_append] at hshort
      have hsize : (bytes.length + 4) % 2 ^ 32 = bytes.length + 4 := Nat.mod_eq_of_lt (by omega)
      change ((OutputStream.aligned o).errorOccurred || decide (OutputStream.TooLarge
        ((bytes.length + 4) % 2 ^ 32) (stringLengthWidth depl))) = false at herror
      rw [Bool.or_eq_false_iff, hsize] at herror
      refine Or.inr ⟨0, ?_, of_decide_eq_false herror.2, ?_⟩
      · unfold Takes
        rw [if_neg hwidth]
      · unfold stringWritten behindLength OutputStream.widthWritten
        rw [hsize, herror.2, Bool.or_false]

theorem behindLength_appends (depl : Option StringDeployment) (ho : Clean o) (size : ℕ) :
    OutputStream.Appends (bitsOf (lengthField (OutputStream.aligned o).isLittleEndian size
      (stringLengthWidth depl))) (OutputStream.aligned o) (behindLength depl size o) :=
  counted_appends (stringLengthWidth depl) size ho

theorem stringWritten_appends (depl : Option StringDeployment) (ho : Clean o) (bytes : List Byte)
    (padding : ℕ) :
    OutputStream.Appends (bitsOf (stringContent (stringEncoding depl) bytes padding))
      (behindLength depl (bytes.length + 4) o) (stringWritten depl bytes padding o) :=
  OutputStream.writeRaw_appends (behindLength_appends depl ho _).clean (OutputStream.aligned_currentBit o) _

theorem readStringSize_eq (depl : Option StringDeployment) :
    InputStream.readStringSize depl =
      if stringLengthWidth depl = 0 then pure (stringLength depl)
      else InputStream.readWidth (stringLengthWidth depl) false 0 := by
  cases depl <;> rfl

theorem stringContent_receives (hwidth : stringLengthWidth depl = 0 ∨ IsWidth (stringLengthWidth depl))
    (ho : Clean o) (htakes : Takes depl (bytes.length + 4) padding)
    (hfits : ¬ OutputStream.TooLarge (bytes.length + 4) (stringLengthWidth depl))
    (hs : Receives s o (stringWritten depl bytes padding o)) :
    ∃ v, InputStream.readStringSize depl (InputStream.aligned s) =
        .ok (stringContent (stringEncoding depl) bytes padding).length v ∧
      Receives v (behindLength depl (bytes.length + 4) o) (stringWritten depl bytes padding o) ∧
      v.message = s.message := by
  have hheader := behindLength_appends depl ho (bytes.length + 4)
  have hcontent := stringWritten_appends depl ho bytes padding
  have hstart := hs.aligned ho (hheader.earlier.trans hcontent.earlier)
  obtain ⟨_, hmessage, _⟩ := faces_aligned hs.faces ho
  rw [contentLength, readStringSize_eq]
  unfold Takes at htakes
  rcases hwidth with hzero | hwidth
  · rw [if_pos hzero] at htakes ⊢
    refine ⟨InputStream.aligned s, congrArg (fun n => EStateM.Result.ok n _) htakes, ?_, hmessage⟩
    have hnothing : behindLength depl (bytes.length + 4) o = OutputStream.aligned o :=
      (congrArg (counted · (bytes.length + 4) o) hzero).trans (counted_zero _ o)
    rw [hnothing]
    exact hstart
  · rw [if_neg hwidth.ne_zero] at htakes ⊢
    subst htakes
    have hlt : bytes.length + 4 < 2 ^ (8 * stringLengthWidth depl) := by
      have hshort := hs.short hcontent.clean
      change List.length (_ ++ _) < _ at hshort
      rw [List.length_append, contentLength] at hshort
      unfold OutputStream.TooLarge at hfits
      rcases hwidth with hone | htwo | hfour
      · rw [hone] at hfits ⊢
        omega
      · rw [htwo] at hfits ⊢
        omega
      · rw [hfour]
        omega
    exact counted_receives hwidth hlt ho hcontent.earlier hs false 0

theorem readString_run (before : List Byte) {itsSize : ℕ}
    (hsize : InputStream.readStringSize depl (InputStream.aligned s) = .ok itsSize v)
    (hquiet : v.errorOccurred = false) :
    InputStream.readString depl before s =
      if itsSize > v.remaining then .ok before (InputStream.raised v)
      else InputStream.readStringData itsSize (stringEncoding depl) v := by
  change (InputStream.bitAlign >>= _) s = _
  rw [bind_ok (InputStream.bitAlign_run s)]
  rw [bind_ok hsize]
  split_ifs with hmore
  · change (if itsSize > v.remaining then _ else _ : Read (List Byte)) v = _
    rw [if_pos hmore]
    rfl
  · change (if itsSize > v.remaining then _ else _ : Read (List Byte)) v = _
    rw [if_neg hmore]
    change (if v.errorOccurred = true then _ else _ : Read (List Byte)) v = _
    rw [if_neg (hquiet ▸ Bool.false_ne_true)]
    rfl

/-- What the reader makes of the content, whatever is behind it. -/
theorem stringContent_read (hwidth : stringLengthWidth depl = 0 ∨ IsWidth (stringLengthWidth depl))
    (ho : Clean o) (htakes : Takes depl (bytes.length + 4) padding)
    (hfits : ¬ OutputStream.TooLarge (bytes.length + 4) (stringLengthWidth depl))
    (hs : Receives s o (stringWritten depl bytes padding o)) (before : List Byte) :
    ∃ more isError taken u,
      decodeString (stringContent (stringEncoding depl) bytes padding ++ more)
          (stringContent (stringEncoding depl) bytes padding).length (stringEncoding depl) =
        .ok (isError, taken) ∧
      InputStream.readString depl before s = .ok taken u ∧
      (isError = true → u.errorOccurred = true) ∧
      (isError = false → Arrived s u (stringWritten depl bytes padding o)) := by
  obtain ⟨v, hsize, hv, hmessage⟩ := stringContent_receives hwidth ho htakes hfits hs
  obtain ⟨more, hmore, hremaining, harrived⟩ := hv.bytes (behindLength_appends depl ho _).clean
    (OutputStream.aligned_currentBit o) (stringWritten_appends depl ho bytes padding)
  generalize stringContent (stringEncoding depl) bytes padding = data at *
  have hwhole : data.length ≤ (data ++ more).length := by
    rw [List.length_append]
    exact Nat.le_add_right _ _
  obtain ⟨⟨isError, taken⟩, hdecode, _⟩ :=
    InputStream.decodeString_returns (stringEncoding depl) hwhole
  have hrun := InputStream.readStringData_run (hmore ▸ hdecode)
  refine ⟨more, isError, taken, _, hdecode,
    (readString_run before hsize hv.errorOccurred).trans ((if_neg (by omega)).trans hrun), ?_, ?_⟩
  · rintro rfl
    rfl
  · rintro rfl
    exact ⟨harrived.faces, harrived.message.trans hmessage, harrived.errorOccurred⟩

end Streams

end SomeIPRuntime.RoundTrip
