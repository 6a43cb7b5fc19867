import SomeIPRuntime.StringRoundTrip

set_option autoImplicit false

namespace SomeIPRuntime.StringEncoder
open Bits ProgramRuns Deployment

def minus (a b : ℕ) : Except Halt ℕ := if b ≤ a then .ok (a - b) else .error .outOfBounds

theorem minus_of_le {a b : ℕ} (h : b ≤ a) : minus a b = .ok (a - b) := if_pos h

def checkedCheckBom (data : List Byte) (size : ℕ) (encoding : StringEncoding) :
    Except Halt (Bool × List Byte × ℕ) := do
  if size > 3 then
    if ← startsWith data (bom encoding) 0 then
      let rest ← minus size (bom encoding).length
      pure (true, data.drop (bom encoding).length, rest)
    else
      pure (false, data, size)
  else
    pure (false, data, size)

theorem checkedCheckBom_eq (data : List Byte) (size : ℕ) (encoding : StringEncoding) :
    checkedCheckBom data size encoding = checkBom data size encoding := by
  have hbom := bom_length encoding
  unfold checkedCheckBom checkBom
  split
  · apply bind_congr
    intro b
    rw [minus_of_le (by omega)]
    rfl
  · rfl

/-- What checkBom accepts has four bytes at least, begins with the mark and loses it. -/
theorem checkBom_ensures (data : List Byte) (size : ℕ) (encoding : StringEncoding) :
    Ensures (checkBom data size encoding) fun r => r.1 = true →
      4 ≤ size ∧ bom encoding <+: data ∧
        r.2 = (data.drop (bom encoding).length, size - (bom encoding).length) := by
  have hstart : ∀ (expected : List Byte) (i : ℕ), Ensures (startsWith data expected i) fun b =>
      b = true → expected <+: data.drop i := by
    intro expected
    induction expected with
    | nil => exact fun i => ensures_ok fun _ => List.nil_prefix
    | cons e rest ih =>
      intro i
      unfold startsWith byteAt
      cases hget : data[i]? with
      | none => exact ensures_error _
      | some b =>
        rcases List.getElem?_eq_some_iff.1 hget with ⟨hlt, hb⟩
        refine ensures_ite (fun heq r hr htrue => ?_) fun _ => ensures_ok nofun
        rw [List.drop_eq_getElem_cons hlt, hb, heq]
        exact List.cons_prefix_cons.2 ⟨rfl, ih (i + 1) r hr htrue⟩
  unfold checkBom
  refine ensures_ite (fun hsize => ensures_bind fun b hb => ?_) fun _ => ensures_ok nofun
  exact ensures_ite (fun htrue => ensures_ok fun _ => ⟨hsize, hstart _ 0 b hb htrue, rfl⟩)
    fun _ => ensures_ok nofun

theorem push_length (codePoint : ℕ) (status : EncodingStatus) :
    (push codePoint status).1.length ≤ 4 ∧
      (codePoint < 2 ^ 16 → (push codePoint status).1.length ≤ 3) := by
  unfold push
  split_ifs with hvalid h1 h2 h3
  · simp
  · simp
  · simp
  · simp
  · exact ⟨le_rfl, fun hlt => absurd hlt h3⟩

/-- One code unit moves on by two bytes, a pair of surrogates by four. -/
theorem codePointAt_ensures (utf16Str : List Byte) (bigEndian : Bool) (size i : ℕ) :
    Ensures (codePointAt utf16Str bigEndian size i) fun r => ∀ p ∈ r,
      (p.2 = i + 2 ∧ p.1 < 2 ^ 16 ∨ p.2 = i + 4) ∧ (p.2 : ℤ) ≤ toInt size + 1 := by
  unfold codePointAt
  refine ensures_bind fun firstByte _ => ensures_ite (fun _ => ensures_ok nofun) fun h1 => ?_
  refine ensures_bind fun secondByte _ => ?_
  simp only [nextUtf16, Bool.not_eq_true', decide_eq_false_iff_not, not_not] at h1 ⊢
  refine ensures_ite (fun _ => ensures_ok fun p hp => ?_) fun _ =>
    ensures_ite (fun _ => ensures_ok nofun) fun h2 => ensures_bind fun thirdByte _ =>
      ensures_ite (fun _ => ensures_ok nofun) fun h3 => ensures_bind fun fourthByte _ =>
        ensures_ite (fun _ => ensures_ok nofun) fun _ => ensures_ok fun p hp => ?_
  · cases hp
    exact ⟨Or.inl ⟨rfl, codeUnit_lt _ _ _⟩, by push_cast at h1 ⊢; omega⟩
  · cases hp
    exact ⟨Or.inr rfl, by push_cast at h3 ⊢; omega⟩

theorem toInt_lt (size : ℕ) : toInt size < 2 ^ 31 := by
  unfold toInt
  exact BitVec.toInt_lt

theorem utf16To8Loop_length (utf16Str : List Byte) (bigEndian : Bool) (size : ℕ) (fuel i : ℕ)
    (status : EncodingStatus) (bytes : List Byte) (hbytes : 2 * bytes.length ≤ 3 * i)
    (hi : (i : ℤ) ≤ max 0 (toInt size + 1)) :
    Ensures (utf16To8Loop utf16Str bigEndian size fuel i status bytes) fun r =>
      ∀ out ∈ r.2, out.length + 1 < 2 ^ 32 := by
  have hlt := toInt_lt size
  induction fuel generalizing i status bytes with
  | zero => exact ensures_error _
  | succ fuel ih =>
    unfold utf16To8Loop
    refine ensures_ite (fun hmore => ensures_bind fun r hr => ?_) fun _ => ensures_ok fun out hout => ?_
    · have hnext := codePointAt_ensures utf16Str bigEndian size i r hr
      cases r with
      | none => exact ensures_ok fun _ hout => absurd hout (Option.not_mem_none _)
      | some p =>
        rcases hnext p rfl with ⟨hmoved, hin⟩
        rcases p with ⟨codePoint, next⟩
        have hpush := push_length codePoint status
        dsimp only at hmoved hin ⊢
        apply ih
        · rw [List.length_append]
          rcases hmoved with ⟨hunit, hshort⟩ | hpair
          · have hthree := hpush.2 hshort
            omega
          · omega
        · omega
    · cases hout
      omega

theorem utf16To8_length (utf16Str : List Byte) (bigEndian : Bool) (size : ℕ) :
    Ensures (utf16To8 utf16Str bigEndian size) fun r => r.2.length < 2 ^ 32 := by
  unfold utf16To8
  refine ensures_bind fun r hr => ?_
  have hlength := utf16To8Loop_length utf16Str bigEndian size _ 0 _ _ (by decide) (by omega) r hr
  rcases r with ⟨status, bytes⟩
  cases bytes with
  | none => exact ensures_ok (Nat.two_pow_pos 32)
  | some bytes =>
    refine ensures_ok ?_
    rw [List.length_append]
    exact hlength bytes rfl

end StringEncoder

namespace InputStream
open Bits ProgramRuns Deployment StringEncoder

def checkedScanTermination (data : List Byte) : ℕ → Except Halt ℕ
  | 0 => .ok 0
  | n + 1 => do
    if n + 1 > 1 then
      let lastIndex ← minus (n + 1) 1
      let last ← byteAt data lastIndex
      if last ≠ 0 then
        checkedScanTermination data n
      else
        let previousIndex ← minus (n + 1) 2
        let previous ← byteAt data previousIndex
        if previous ≠ 0 then checkedScanTermination data n else pure (n + 1)
    else
      pure (n + 1)

def checkedDecodeUtf8 (data : List Byte) (itsSize : ℕ) : Except Halt (Bool × List Byte) := do
  let lastIndex ← minus itsSize 1
  let last ← byteAt data lastIndex
  let assigned ← minus itsSize 1
  pure (last ≠ 0, data.take assigned)

/-- `itsSize` is the low half of the length where the string has been transcoded. -/
def checkedDecodeUtf16 (data : List Byte) (itsSize : ℕ) (bigEndian : Bool) :
    Except Halt (Bool × List Byte) := do
  let itsSize ← checkedScanTermination data itsSize
  if itsSize % 2 ≠ 0 then
    pure (true, [])
  else
    let content ← minus itsSize 2
    let (_, bytes) ← utf16To8 data bigEndian content
    if bytes.length ≠ 0 then
      let assigned ← minus (bytes.length % 2 ^ 32) 1
      pure (false, bytes.take assigned)
    else
      pure (true, [])

def checkedDecodeString (data : List Byte) (itsSize : ℕ) (encoding : StringEncoding) :
    Except Halt (Bool × List Byte) := do
  let (valid, data, itsSize) ← checkedCheckBom data itsSize encoding
  if valid then
    match encoding with
    | .utf8 => checkedDecodeUtf8 data itsSize
    | .utf16be => checkedDecodeUtf16 data itsSize true
    | .utf16le => checkedDecodeUtf16 data itsSize false
  else
    pure (true, [])

theorem checkedScanTermination_eq (data : List Byte) (n : ℕ) :
    checkedScanTermination data n = scanTermination data n := by
  induction n with
  | zero => rfl
  | succ n ih =>
    unfold checkedScanTermination scanTermination
    rw [ih]
    split
    · rw [minus_of_le (by omega), minus_of_le (by omega)]
      rfl
    · rfl

theorem scanTermination_pos (data : List Byte) {n : ℕ} (hpos : 0 < n) :
    Ensures (scanTermination data n) fun m => 0 < m := by
  induction n with
  | zero => exact absurd hpos (lt_irrefl 0)
  | succ n ih =>
    unfold scanTermination
    refine ensures_ite (fun hmore => ensures_bind fun last _ => ?_) fun _ => ensures_ok (Nat.succ_pos n)
    have hrec := ih (by omega)
    refine ensures_ite (fun _ => hrec) fun _ => ensures_bind fun previous _ => ?_
    exact ensures_ite (fun _ => hrec) fun _ => ensures_ok (Nat.succ_pos n)

theorem checkedDecodeUtf8_eq (data : List Byte) {itsSize : ℕ} (hpos : 0 < itsSize) :
    checkedDecodeUtf8 data itsSize = decodeUtf8 data itsSize := by
  unfold checkedDecodeUtf8 decodeUtf8
  rw [minus_of_le hpos]
  rfl

theorem bind_agree {α β : Type} {x : Except Halt α} {f g : α → Except Halt β} {P : α → Prop}
    (hx : Ensures x P) (h : ∀ a, P a → f a = g a) : x >>= f = x >>= g := by
  cases x with
  | ok a => exact h a (hx a rfl)
  | error e => rfl

theorem checkedDecodeUtf16_eq (data : List Byte) {itsSize : ℕ} (bigEndian : Bool) (hpos : 0 < itsSize) :
    checkedDecodeUtf16 data itsSize bigEndian = decodeUtf16 data itsSize bigEndian := by
  unfold checkedDecodeUtf16 decodeUtf16
  rw [checkedScanTermination_eq]
  refine bind_agree (scanTermination_pos data hpos) fun m hm => ?_
  split
  · rfl
  · rw [minus_of_le (by omega)]
    refine bind_agree (utf16To8_length data bigEndian _) fun r hr => ?_
    dsimp only
    split
    · rw [Nat.mod_eq_of_lt hr, minus_of_le (by omega)]
      rfl
    · rfl

theorem checkedDecodeString_eq (data : List Byte) (itsSize : ℕ) (encoding : StringEncoding) :
    checkedDecodeString data itsSize encoding = decodeString data itsSize encoding := by
  unfold checkedDecodeString decodeString
  rw [checkedCheckBom_eq]
  refine bind_agree (checkBom_ensures data itsSize encoding) fun r hr => ?_
  rcases r with ⟨valid, rest, size⟩
  dsimp only at hr ⊢
  cases valid with
  | false => rfl
  | true =>
    rcases hr rfl with ⟨hfour, _, hrest⟩
    have hbom := bom_length encoding
    have hsize : size = itsSize - (bom encoding).length := congrArg Prod.snd hrest
    have hpos : 0 < size := by omega
    cases encoding with
    | utf8 => exact checkedDecodeUtf8_eq rest hpos
    | utf16le => exact checkedDecodeUtf16_eq rest false hpos
    | utf16be => exact checkedDecodeUtf16_eq rest true hpos

def Agrees {α : Type} (x y : Except Halt α) : Prop := Ensures x fun a => y = .ok a

section Behind
variable (region more : List Byte)

theorem agrees_refl {α : Type} (x : Except Halt α) : Agrees x x := fun _ h => h

theorem agrees_bind {α β : Type} {x y : Except Halt α} {f g : α → Except Halt β} (hx : Agrees x y)
    (hf : ∀ a, Agrees (f a) (g a)) : Agrees (x >>= f) (y >>= g) := by
  refine ensures_bind fun a ha => ?_
  rw [hx a ha]
  exact hf a

theorem agrees_ite {α : Type} {c : Prop} [Decidable c] {x y x' y' : Except Halt α}
    (hx : Agrees x x') (hy : Agrees y y') : Agrees (if c then x else y) (if c then x' else y') := by
  split
  · exact hx
  · exact hy

theorem byteAt_agrees (i : ℕ) : Agrees (byteAt region i) (byteAt (region ++ more) i) := by
  unfold byteAt
  cases hget : region[i]? with
  | none => exact ensures_error _
  | some b =>
    have hlt := (List.getElem?_eq_some_iff.1 hget).1
    rw [List.getElem?_append_left hlt, hget]
    exact ensures_ok rfl

theorem startsWith_agrees (expected : List Byte) (i : ℕ) :
    Agrees (startsWith region expected i) (startsWith (region ++ more) expected i) := by
  induction expected generalizing i with
  | nil => exact agrees_refl _
  | cons e rest ih =>
    exact agrees_bind (byteAt_agrees region more i) fun b => agrees_ite (ih (i + 1)) (agrees_refl _)

theorem scanTermination_agrees (n : ℕ) :
    Agrees (scanTermination region n) (scanTermination (region ++ more) n) := by
  induction n with
  | zero => exact agrees_refl _
  | succ n ih =>
    unfold scanTermination
    refine agrees_ite (agrees_bind (byteAt_agrees region more _) fun last => ?_) (agrees_refl _)
    refine agrees_ite ih (agrees_bind (byteAt_agrees region more _) fun previous => ?_)
    exact agrees_ite ih (agrees_refl _)

theorem codePointAt_agrees (bigEndian : Bool) (size i : ℕ) :
    Agrees (codePointAt region bigEndian size i) (codePointAt (region ++ more) bigEndian size i) := by
  unfold codePointAt
  refine agrees_bind (byteAt_agrees region more _) fun firstByte => agrees_ite (agrees_refl _) ?_
  refine agrees_bind (byteAt_agrees region more _) fun secondByte => agrees_ite (agrees_refl _) ?_
  refine agrees_ite (agrees_refl _) (agrees_bind (byteAt_agrees region more _) fun thirdByte => ?_)
  refine agrees_ite (agrees_refl _) (agrees_bind (byteAt_agrees region more _) fun fourthByte => ?_)
  exact agrees_refl _

theorem utf16To8Loop_agrees (bigEndian : Bool) (size fuel i : ℕ) (status : EncodingStatus)
    (bytes : List Byte) :
    Agrees (utf16To8Loop region bigEndian size fuel i status bytes)
      (utf16To8Loop (region ++ more) bigEndian size fuel i status bytes) := by
  induction fuel generalizing i status bytes with
  | zero => exact agrees_refl _
  | succ fuel ih =>
    unfold utf16To8Loop
    refine agrees_ite (agrees_bind (codePointAt_agrees region more bigEndian size i) fun r => ?_)
      (agrees_refl _)
    cases r with
    | none => exact agrees_refl _
    | some p => exact ih _ _ _

theorem utf16To8_agrees (bigEndian : Bool) (size : ℕ) :
    Agrees (utf16To8 region bigEndian size) (utf16To8 (region ++ more) bigEndian size) :=
  agrees_bind (utf16To8Loop_agrees region more bigEndian size _ _ _ _) fun _ => agrees_refl _

theorem decodeUtf16_agrees (itsSize : ℕ) (bigEndian : Bool) :
    Agrees (decodeUtf16 region itsSize bigEndian) (decodeUtf16 (region ++ more) itsSize bigEndian) := by
  unfold decodeUtf16
  refine agrees_bind (scanTermination_agrees region more itsSize) fun m => ?_
  exact agrees_ite (agrees_refl _) (agrees_bind (utf16To8_agrees region more bigEndian _) fun _ =>
    agrees_refl _)

theorem decodeUtf8_agrees (itsSize : ℕ) (h : itsSize ≤ region.length) :
    Agrees (decodeUtf8 region itsSize) (decodeUtf8 (region ++ more) itsSize) := by
  unfold decodeUtf8
  rw [List.take_append_of_le_length (by omega)]
  exact agrees_bind (byteAt_agrees region more _) fun _ => agrees_refl _

theorem checkBom_behind (size : ℕ) (encoding : StringEncoding) (h : size ≤ region.length) :
    Ensures (checkBom region size encoding) fun r =>
      checkBom (region ++ more) size encoding = .ok (r.1, r.2.1 ++ more, r.2.2) ∧
        r.2.2 ≤ r.2.1.length := by
  have hbom := bom_length encoding
  unfold checkBom
  by_cases hsize : size > 3
  · rw [if_pos hsize, if_pos hsize]
    refine ensures_bind fun b hb => ?_
    rw [startsWith_agrees region more _ _ b hb]
    cases b with
    | false => exact ensures_ok ⟨rfl, h⟩
    | true =>
      refine ensures_ok ⟨?_, ?_⟩
      · change Except.ok _ = _
        rw [List.drop_append_of_le_length (by omega)]
      · change size - _ ≤ (region.drop _).length
        rw [List.length_drop]
        omega
  · rw [if_neg hsize, if_neg hsize]
    exact ensures_ok ⟨rfl, h⟩

theorem decodeString_agrees (itsSize : ℕ) (encoding : StringEncoding) (h : itsSize ≤ region.length) :
    Agrees (decodeString region itsSize encoding) (decodeString (region ++ more) itsSize encoding) := by
  unfold decodeString
  refine ensures_bind fun r hr => ?_
  rcases checkBom_behind region more itsSize encoding h r hr with ⟨hbehind, hsize⟩
  rw [hbehind]
  rcases r with ⟨valid, rest, size⟩
  cases valid with
  | false => exact agrees_refl _
  | true =>
    cases encoding with
    | utf8 => exact decodeUtf8_agrees rest more size hsize
    | utf16le => exact decodeUtf16_agrees rest more size false
    | utf16be => exact decodeUtf16_agrees rest more size true

end Behind

/-- A string that raises no error is its mark, its value and, in UTF-8, one NUL. -/
structure Accepted (encoding : StringEncoding) (region value : List Byte) : Prop where
  four : 4 ≤ region.length
  mark : bom encoding <+: region
  utf8 : encoding = .utf8 → region = bom .utf8 ++ value ++ [0] ∧ value.length = region.length - 4

theorem decodeUtf8_accepts (rest : List Byte) (hpos : 0 < rest.length) :
    Ensures (decodeUtf8 rest rest.length) fun r => r.1 = false → rest = r.2 ++ [0] := by
  unfold decodeUtf8
  refine ensures_bind fun last hlast => ensures_ok fun hzero => ?_
  have hnul : last = 0 := not_not.1 (of_decide_eq_false hzero)
  unfold byteAt at hlast
  rw [List.getElem?_eq_getElem (by omega)] at hlast
  cases hlast
  rw [← hnul, List.take_append_getElem, Nat.sub_add_cancel hpos, List.take_length]

theorem decodeString_accepts (region : List Byte) (encoding : StringEncoding) :
    Ensures (decodeString region region.length encoding) fun r =>
      r.1 = false → Accepted encoding region r.2 := by
  have hbom := bom_length encoding
  unfold decodeString
  refine ensures_bind fun b hb => ?_
  have hmark := checkBom_ensures region region.length encoding b hb
  rcases b with ⟨valid, rest, size⟩
  dsimp only at hmark ⊢
  cases valid with
  | false => exact ensures_ok nofun
  | true =>
    rcases hmark rfl with ⟨hfour, hprefix, hrest⟩
    cases hrest
    cases encoding with
    | utf8 =>
      intro r hr hzero
      rcases hprefix with ⟨rest, hregion⟩
      rw [← hregion, List.drop_left, List.length_append, Nat.add_sub_cancel_left] at hr
      have hlength := congrArg List.length hregion
      rw [List.length_append] at hlength
      have hvalue : rest = r.2 ++ [0] := decodeUtf8_accepts rest (by omega) r hr hzero
      have hlast := congrArg List.length hvalue
      have hthree : (bom .utf8).length = 3 := rfl
      rw [List.length_append, List.length_singleton] at hlast
      refine ⟨hfour, ⟨rest, hregion⟩, fun _ => ⟨?_, by omega⟩⟩
      rw [← hregion, List.append_assoc, ← hvalue]
    | utf16le => exact fun _ _ _ => ⟨hfour, hprefix, nofun⟩
    | utf16be => exact fun _ _ _ => ⟨hfour, hprefix, nofun⟩

def announced (size : ℕ) (v : InputStream) : List Byte := (v.message.body.drop v.current).take size

theorem readWidth_consistent {width value n : ℕ} {permitZeroWidth : Bool} {s v : InputStream}
    (hs : Consistent s) (h : readWidth width permitZeroWidth value s = .ok n v) : Consistent v := by
  have hraised : ∀ {s : InputStream}, Consistent s → Consistent (raised s) :=
    fun hs => ⟨hs.bit, hs.inside, hs.pending⟩
  match width, permitZeroWidth with
  | 0, true =>
    cases h
    exact hs
  | 0, false =>
    cases h
    exact hraised hs
  | 1, _ => exact (assignBits_consistent hs h).1
  | 2, _ => exact (assignBits_consistent hs h).1
  | 3, _ =>
    cases h
    exact hraised hs
  | 4, _ => exact (assignBits_consistent hs h).1
  | _ + 5, _ =>
    cases h
    exact hraised hs

theorem readStringSize_consistent {depl : Option StringDeployment} {n : ℕ} {s v : InputStream}
    (hs : Consistent s) (h : readStringSize depl s = .ok n v) : Consistent v := by
  rw [RoundTrip.readStringSize_eq] at h
  split_ifs at h
  · cases h
    exact hs
  · exact readWidth_consistent hs h

/-- Whatever the announced bytes are, the checked decoder gets along with them alone, the string
    read is what it returns, and only a terminated string behind its mark raises no error. -/
theorem string_stays_inside (depl : Option StringDeployment) (before : List Byte)
    {s v : InputStream} (hs : Consistent s) {n : ℕ}
    (hsize : readStringSize depl (aligned s) = .ok n v) (hn : n ≤ v.remaining) :
    ∃ (value : List Byte) (t : InputStream), readString depl before s = .ok value t ∧
      (v.errorOccurred = true → t = v ∧ value = before) ∧
      (v.errorOccurred = false → ∃ isError : Bool,
        checkedDecodeString (announced n v) n (RoundTrip.stringEncoding depl) = .ok (isError, value) ∧
        t = (if isError then raised (skipped n v) else skipped n v) ∧ t.errorOccurred = isError) ∧
      (t.errorOccurred = false →
        Accepted (RoundTrip.stringEncoding depl) (announced n v) value) := by
  have hv := readStringSize_consistent (aligned_consistent hs).1 hsize
  have hin := hv.inside
  have hlength : (announced n v).length = n := by
    unfold announced
    rw [List.length_take, List.length_drop]
    omega
  cases herror : v.errorOccurred with
  | true =>
    refine ⟨before, v, ?_, fun _ => ⟨rfl, rfl⟩, nofun, fun h => ?_⟩
    · change (bitAlign >>= _) s = _
      rw [bind_ok (bitAlign_run s), bind_ok hsize]
      change (if n > v.remaining then _ else _ : Read (List Byte)) v = _
      rw [if_neg (by omega)]
      change (if v.errorOccurred = true then _ else _ : Read (List Byte)) v = _
      rw [if_pos herror]
      rfl
    · cases h.symm.trans herror
  | false =>
    rcases decodeString_returns (RoundTrip.stringEncoding depl) hlength.ge with ⟨⟨isError, value⟩, hrun, _⟩
    have hbehind := decodeString_agrees (announced n v) ((v.message.body.drop v.current).drop n) n
      (RoundTrip.stringEncoding depl) hlength.ge _ hrun
    unfold announced at hbehind
    rw [List.take_append_drop] at hbehind
    have hskipped : (skipped n v).errorOccurred = false := by
      unfold skipped
      rw [if_neg (by omega)]
      exact herror
    have hread : readString depl before s =
        .ok value (if isError then raised (skipped n v) else skipped n v) := by
      rw [RoundTrip.readString_run before hsize herror, if_neg (by omega)]
      exact readStringData_run hbehind
    have hflag : (if isError then raised (skipped n v) else skipped n v).errorOccurred = isError := by
      cases isError with
      | false => exact hskipped
      | true => rfl
    refine ⟨value, _, hread, nofun, fun _ => ⟨isError, ?_, rfl, hflag⟩, fun hquiet => ?_⟩
    · rw [checkedDecodeString_eq]
      exact hrun
    · have haccepts := decodeString_accepts (announced n v) (RoundTrip.stringEncoding depl)
      rw [hlength] at haccepts
      exact haccepts _ hrun (hflag.symm.trans hquiet)

/-- A terminated letter behind its mark, in a payload that goes on. -/
theorem letter_stays_inside :
    ∃ (value : List Byte) (t : InputStream),
      readString (some ⟨5, 0, .utf8⟩) []
        (create ⟨[0xEF, 0xBB, 0xBF, 0x61, 0, 7], by decide⟩ true) = .ok value t ∧
      (t.errorOccurred = false → Accepted .utf8 [0xEF, 0xBB, 0xBF, 0x61, 0] value) := by
  have hsize : readStringSize (some ⟨5, 0, .utf8⟩)
      (aligned (create ⟨[0xEF, 0xBB, 0xBF, 0x61, 0, 7], by decide⟩ true)) =
        .ok 5 (aligned (create ⟨[0xEF, 0xBB, 0xBF, 0x61, 0, 7], by decide⟩ true)) := rfl
  rcases string_stays_inside (some ⟨5, 0, .utf8⟩) [] (create_consistent _ true) hsize (by decide) with
    ⟨value, t, hread, _, _, haccepted⟩
  exact ⟨value, t, hread, haccepted⟩

end InputStream
end SomeIPRuntime
