import SomeIPRuntime.ByteVectorWriting
import SomeIPRuntime.VariantRoundTrip
import SomeIPRuntime.Termination

set_option autoImplicit false

namespace SomeIPRuntime.ByteVectors
open Bits ProgramRuns Deployment RoundTrip
open InputStream (Consistent Read position left readElements pushElement)

def readByte (isSigned : Bool) (elementDepl : Option (IntegerDeployment 1)) : Read Byte :=
  InputStream.readInteger ⟨1, isSigned⟩ elementDepl

def hasInvalid (elementDepl : Option (IntegerDeployment 1)) : Bool := (elementDepl.bind (·.invalid)).isSome

section Element
variable {isSigned : Bool} {elementDepl : Option (IntegerDeployment 1)} {s : InputStream}

theorem left_of_consistent (hs : Consistent s) : left s + s.currentBit = 8 * s.remaining := by
  have hin := hs.inside
  have hbit := hs.bit
  have hpending := hs.pending
  unfold left position
  omega

def begun (elementDepl : Option (IntegerDeployment 1)) (s : InputStream) : InputStream :=
  InputStream.logged (.assign (elementBits elementDepl) (hasInvalid elementDepl)) s

theorem assignBits_ok {β : Type} {size bits : ℕ} {cast : BitVec (8 * size) → β} {invalid : Option β}
    {isError : Bool} {value : BitVec (8 * size)} {t : InputStream}
    (h : InputStream.readField size (clampBits size bits) isSigned
      (InputStream.logged (.assign (clampBits size bits) invalid.isSome) s) = .ok (isError, value) t) :
    InputStream.assignBits size bits isSigned cast invalid s =
      .ok (InputStream.chosen cast invalid isError value)
        { t with
          errorOccurred := isError && !invalid.isSome
          failed := t.failed || (isError && !invalid.isSome) } := by
  rw [InputStream.assignBits_run, h]

theorem readByte_ok {isError : Bool} {value : BitVec (8 * 1)} {t : InputStream}
    (h : InputStream.readField 1 (elementBits elementDepl) isSigned (begun elementDepl s) =
      .ok (isError, value) t) :
    readByte isSigned elementDepl s =
      .ok (InputStream.chosen id (elementDepl.bind (·.invalid)) isError value)
        { t with
          errorOccurred := isError && !hasInvalid elementDepl
          failed := t.failed || (isError && !hasInvalid elementDepl) } :=
  assignBits_ok h

theorem readByte_error {e : Halt} {t : InputStream}
    (h : InputStream.readField 1 (elementBits elementDepl) isSigned (begun elementDepl s) = .error e t) :
    readByte isSigned elementDepl s = .error e t := by
  have hassign : ∀ {size bits : ℕ} {invalid : Option (BitVec (8 * size))},
      InputStream.readField size (clampBits size bits) isSigned
        (InputStream.logged (.assign (clampBits size bits) invalid.isSome) s) = .error e t →
      InputStream.assignBits size bits isSigned id invalid s = .error e t := by
    intro size bits invalid hfield
    rw [InputStream.assignBits_run, hfield]
  exact hassign h

/-- Without bits to read, the element is missing: an error, or the declared value. -/
theorem readByte_missing (isSigned : Bool) (hs : Consistent s) (h : elementBits elementDepl = 0 ∨ left s = 0) :
    ∃ a u, readByte isSigned elementDepl s = .ok a u ∧ Moved 0 s u ∧
      u.errorOccurred = !hasInvalid elementDepl := by
  have hleft := left_of_consistent hs
  have hbit := hs.bit
  have hshort : ¬ InputStream.Enough (begun elementDepl s).toCursor (elementBits elementDepl) := by
    rw [InputStream.enough_iff]
    change ¬ (_ ∧ _ ≤ 8 * s.remaining)
    omega
  exact ⟨_, _, readByte_ok (InputStream.readField_short _ isSigned hshort),
    ⟨⟨hs.bit, hs.inside, hs.pending⟩, rfl, rfl, rfl⟩, Bool.true_and _⟩

theorem byte_at {a : Byte} {body : List Byte} {current count : ℕ} (h : body[current]? = some a)
    (le isSigned : Bool) (hcount : count = 8) :
    InputStream.fieldValue 1 count le isSigned (fun i => bitAt body (8 * current + i)) = a := by
  rcases List.getElem?_eq_some_iff.1 h with ⟨hlt, hget⟩
  have hdiv : 8 * current / 8 = current := Nat.mul_div_cancel_left current (by decide)
  have htake : (body.drop current).take 1 = [a] := by
    rw [List.drop_eq_getElem_cons hlt, hget]
    rfl
  have hbytes := @InputStream.typed_bytes 1 (8 * current) body le isSigned (by omega) (by omega)
  rw [hdiv, htake] at hbytes
  have htyped : typed 1 [a] = a := by
    apply BitVec.eq_of_toNat_eq
    change (BitVec.ofNat 8 (a.toNat + 256 * 0)).toNat = a.toNat
    rw [BitVec.toNat_ofNat]
    exact Nat.mod_eq_of_lt a.isLt
  rw [hcount]
  refine hbytes.symm.trans ?_
  cases le <;> exact htyped

theorem readByte_there (isSigned : Bool) (hs : Consistent s) (hpos : 0 < elementBits elementDepl)
    (hfits : elementBits elementDepl ≤ left s) :
    ∃ a u, readByte isSigned elementDepl s = .ok a u ∧ Moved (elementBits elementDepl) s u ∧
      u.errorOccurred = false ∧
      (elementBits elementDepl = 8 → s.currentBit = 0 → s.message.body[s.current]? = some a) := by
  have hleft := left_of_consistent hs
  have hinside := InputStream.position_le hs
  have hrun := @InputStream.readField_run (begun elementDepl s) ⟨hs.bit, hs.inside, hs.pending⟩ 1 _
    isSigned hpos (elementBits_le elementDepl)
    (show s.currentBit + elementBits elementDepl ≤ 8 * s.remaining by omega)
  have hend : position s + elementBits elementDepl ≤ 8 * s.message.body.length := by
    unfold left at hfits
    omega
  refine ⟨_, _, readByte_ok hrun,
    ⟨?_, InputStream.seek_position (position s + elementBits elementDepl) s, rfl, rfl⟩, rfl,
    fun hfull hbit => ?_⟩
  · have hseek := InputStream.seek_consistent s hend
    exact ⟨hseek.bit, hseek.inside, hseek.pending⟩
  · have hin := hs.inside
    have hlt : s.current < s.message.body.length := by omega
    have hposition : position s = 8 * s.current := by
      unfold position
      omega
    have hbyte := byte_at (List.getElem?_eq_getElem hlt) s.isLittleEndian isSigned hfull
    rw [← hposition] at hbyte
    exact (List.getElem?_eq_getElem hlt).trans (congrArg some hbyte.symm)

/-- An element that reaches past the payload is read from there. -/
theorem readByte_past (isSigned : Bool) (hs : Consistent s) (hleft : 0 < left s)
    (hpast : left s < elementBits elementDepl) :
    ∃ u, readByte isSigned elementDepl s = .error .outOfBounds u := by
  have hbits := left_of_consistent hs
  have hle := elementBits_le elementDepl
  have henough : InputStream.Enough (begun elementDepl s).toCursor (elementBits elementDepl) := by
    rw [InputStream.enough_iff]
    change _ ∧ _ ≤ 8 * s.remaining
    omega
  have hbehind : 8 * s.message.body.length < position s + elementBits elementDepl := by
    unfold left at hpast
    omega
  rcases @InputStream.readField_past (begun elementDepl s) (Consistent.sound ⟨hs.bit, hs.inside, hs.pending⟩) 1 _ isSigned
    henough hbehind with ⟨u, hrun⟩
  exact ⟨u, readByte_error hrun⟩

end Element

section Loop
variable {isSigned : Bool} {elementDepl : Option (IntegerDeployment 1)} {lengthWidth maxLength itsSize : ℕ}
  {s t u : InputStream}

def More (lengthWidth maxLength itsSize size : ℕ) : Prop :=
  itsSize > 0 ∨ (lengthWidth = 0 ∧ size < maxLength)

def wanted (bits lengthWidth maxLength itsSize size currentBit : ℕ) : ℕ :=
  if lengthWidth = 0 then (maxLength - size) * bits else 8 * itsSize - currentBit

def nextSize (lengthWidth itsSize : ℕ) (s u : InputStream) : ℕ :=
  if lengthWidth ≠ 0 then wrapSub 32 itsSize (wrapSub 64 s.remaining u.remaining) else itsSize

structure Looping (lengthWidth itsSize : ℕ) (s : InputStream) : Prop where
  consistent : Consistent s
  unmeasured : lengthWidth = 0 → itsSize = 0
  size : itsSize < 2 ^ 32

theorem more_iff {bits size : ℕ} (hpos : 0 < bits) (hs : Looping lengthWidth itsSize s) :
    More lengthWidth maxLength itsSize size ↔
      0 < wanted bits lengthWidth maxLength itsSize size s.currentBit := by
  have hbit := hs.consistent.bit
  unfold More wanted
  by_cases hzero : lengthWidth = 0
  · have hsize := hs.unmeasured hzero
    rw [if_pos hzero, Nat.mul_pos_iff_of_pos_right hpos]
    omega
  · rw [if_neg hzero]
    omega

theorem completed {bits : ℕ} (hle : bits ≤ 8) (hs : Consistent s) (hu : Moved bits s u) :
    wrapSub 64 s.remaining u.remaining = u.current - s.current ∧ s.current ≤ u.current ∧
      8 * u.current + u.currentBit = 8 * s.current + s.currentBit + bits := by
  have hposition := hu.position
  have hbit := hs.bit
  have hubit := hu.consistent.bit
  have hin := hs.inside
  have huin := hu.consistent.inside
  have hfits := s.message.fits
  rw [hu.message] at huin
  unfold position at hposition
  rw [wrapSub_of_le (by omega) (by omega)]
  omega

theorem next_looping {bits size : ℕ} (hle : bits ≤ 8) (hs : Looping lengthWidth itsSize s)
    (hmore : More lengthWidth maxLength itsSize size) (hu : Moved bits s u) :
    Looping lengthWidth (nextSize lengthWidth itsSize s u) u ∧
      wanted bits lengthWidth maxLength (nextSize lengthWidth itsSize s u) (size + 1) u.currentBit =
        wanted bits lengthWidth maxLength itsSize size s.currentBit - bits := by
  rcases completed hle hs.consistent hu with ⟨hconsumed, hforward, hposition⟩
  have hsize := hs.size
  have hbit := hs.consistent.bit
  have hubit := hu.consistent.bit
  unfold nextSize wanted
  by_cases hzero : lengthWidth = 0
  · rw [if_neg (not_not_intro hzero), if_pos hzero, if_pos hzero, ← Nat.sub_sub, Nat.sub_mul _ 1 bits,
      Nat.one_mul]
    exact ⟨⟨hu.consistent, hs.unmeasured, hsize⟩, rfl⟩
  · have hpositive : 0 < itsSize := hmore.resolve_right fun h => hzero h.1
    rw [if_pos hzero, if_neg hzero, if_neg hzero, hconsumed, wrapSub_of_le (by omega) hsize]
    exact ⟨⟨hu.consistent, fun h => absurd h hzero, by omega⟩, by omega⟩

theorem readElements_more {fuel : ℕ} {acc : List Byte} {a : Byte}
    (hmore : More lengthWidth maxLength itsSize acc.length)
    (hread : readByte isSigned elementDepl s = .ok a u) (hquiet : u.errorOccurred = false) :
    readElements lengthWidth maxLength List.length (pushElement (readByte isSigned elementDepl)) (fuel + 1)
        itsSize acc s =
      readElements lengthWidth maxLength List.length (pushElement (readByte isSigned elementDepl)) fuel
        (nextSize lengthWidth itsSize s u) (acc ++ [a]) u :=
  readElements_next hmore (pushElement_run acc hread hquiet)

theorem readElements_failed {fuel : ℕ} {acc : List Byte} {a : Byte}
    (hmore : More lengthWidth maxLength itsSize acc.length)
    (hread : readByte isSigned elementDepl s = .ok a u) (herror : u.errorOccurred = true) :
    readElements lengthWidth maxLength List.length (pushElement (readByte isSigned elementDepl)) (fuel + 1)
      itsSize acc s = .ok (itsSize, acc) u := by
  have hpush : pushElement (readByte isSigned elementDepl) acc s = .ok none u := by
    unfold pushElement
    rw [bind_ok hread]
    change (if u.errorOccurred = true then pure none else _ : Read (Option (List Byte))) u = _
    rw [if_pos herror]
    rfl
  unfold More at hmore
  rw [readElements, if_pos hmore, bind_ok (get_run s)]
  exact bind_ok hpush

theorem readElements_halted {fuel : ℕ} {acc : List Byte} {e : Halt}
    (hmore : More lengthWidth maxLength itsSize acc.length)
    (hread : readByte isSigned elementDepl s = .error e u) :
    readElements lengthWidth maxLength List.length (pushElement (readByte isSigned elementDepl)) (fuel + 1)
      itsSize acc s = .error e u := by
  unfold More at hmore
  rw [readElements, if_pos hmore, bind_ok (get_run s)]
  exact bind_error (bind_error hread)

theorem elements_read (isSigned : Bool) (hpos : 0 < elementBits elementDepl) {k fuel : ℕ} (hfuel : k ≤ fuel) (acc : List Byte)
    (hs : Looping lengthWidth itsSize s) (hquiet : s.errorOccurred = false)
    (hle : wanted (elementBits elementDepl) lengthWidth maxLength itsSize acc.length s.currentBit ≤
      k * elementBits elementDepl)
    (hlt : k * elementBits elementDepl <
      wanted (elementBits elementDepl) lengthWidth maxLength itsSize acc.length s.currentBit +
        elementBits elementDepl)
    (hroom : k * elementBits elementDepl ≤ left s) :
    ∃ xs u, readElements lengthWidth maxLength List.length (pushElement (readByte isSigned elementDepl)) fuel
        itsSize acc s = .ok (0, acc ++ xs) u ∧
      xs.length = k ∧ Moved (k * elementBits elementDepl) s u ∧ u.errorOccurred = false ∧
      (elementBits elementDepl = 8 → s.currentBit = 0 → xs = (s.message.body.drop s.current).take k) := by
  induction k generalizing fuel acc s itsSize with
  | zero =>
    have hdone : ¬ More lengthWidth maxLength itsSize acc.length := by
      rw [more_iff hpos hs]
      omega
    have hzero : itsSize = 0 := Nat.eq_zero_of_not_pos fun h => hdone (Or.inl h)
    refine ⟨[], s, ?_, rfl, ?_, hquiet, fun _ _ => rfl⟩
    · rw [InputStream.readElements_done fuel hdone, List.append_nil, hzero]
      rfl
    · rw [Nat.zero_mul]
      exact ⟨hs.consistent, rfl, rfl, rfl⟩
  | succ k ih =>
    rw [Nat.succ_mul] at hle hlt hroom
    have hmore : More lengthWidth maxLength itsSize acc.length := by
      rw [more_iff hpos hs]
      omega
    rcases fuel with _ | fuel
    · omega
    rcases readByte_there isSigned hs.consistent hpos (by omega) with ⟨a, v, hread, hv, hvquiet, hbyte⟩
    rcases next_looping (elementBits_le elementDepl) hs hmore hv with ⟨hlooping, hwanted⟩
    have hleft : left v = left s - elementBits elementDepl := by
      unfold left
      rw [hv.message, hv.position, Nat.sub_sub]
    have hlength : (acc ++ [a]).length = acc.length + 1 := List.length_append
    rw [← hlength] at hwanted
    rcases ih (Nat.le_of_succ_le_succ hfuel) (acc ++ [a]) hlooping hvquiet (by omega) (by omega) (by omega) with
      ⟨xs, w, hloop, hlen, hw, hwquiet, hbytes⟩
    refine ⟨a :: xs, w, ?_, congrArg Nat.succ hlen, ?_, hwquiet, fun hfull hzero => ?_⟩
    · rw [readElements_more hmore hread hvquiet, hloop, List.append_assoc]
      rfl
    · rw [Nat.succ_mul, Nat.add_comm]
      exact hv.trans hw
    · rcases completed (elementBits_le elementDepl) hs.consistent hv with ⟨_, _, hposition⟩
      have hvbit := hv.consistent.bit
      rcases List.getElem?_eq_some_iff.1 (hbyte hfull hzero) with ⟨hin, hget⟩
      rw [hbytes hfull (by omega), hv.message, show v.current = s.current + 1 by omega,
        List.drop_eq_getElem_cons hin, hget, List.take_succ_cons]

def Supplied (elementDepl : Option (IntegerDeployment 1)) (lengthWidth maxLength itsSize size : ℕ)
    (s : InputStream) : Prop :=
  ¬ More lengthWidth maxLength itsSize size ∨
  (0 < elementBits elementDepl ∧ ∃ k,
    wanted (elementBits elementDepl) lengthWidth maxLength itsSize size s.currentBit ≤
      k * elementBits elementDepl ∧
    k * elementBits elementDepl <
      wanted (elementBits elementDepl) lengthWidth maxLength itsSize size s.currentBit +
        elementBits elementDepl ∧
    k * elementBits elementDepl ≤ left s) ∨
  (lengthWidth = 0 ∧ hasInvalid elementDepl = true ∧
    (elementBits elementDepl = 0 ∨ elementBits elementDepl ∣ left s))

theorem Supplied.of_next {size : ℕ} (hpos : 0 < elementBits elementDepl)
    (hfits : elementBits elementDepl ≤ left s) (hs : Looping lengthWidth itsSize s)
    (hmore : More lengthWidth maxLength itsSize size) (hu : Moved (elementBits elementDepl) s u)
    (h : Supplied elementDepl lengthWidth maxLength (nextSize lengthWidth itsSize s u) (size + 1) u) :
    Supplied elementDepl lengthWidth maxLength itsSize size s := by
  rcases next_looping (elementBits_le elementDepl) hs hmore hu with ⟨hlooping, hwanted⟩
  have hneeded := (more_iff hpos hs).1 hmore
  have hleft : left u = left s - elementBits elementDepl := by
    unfold left
    rw [hu.message, hu.position, Nat.sub_sub]
  right
  rcases h with hdone | ⟨_, k, hle, hlt, hroom⟩ | ⟨hzero, hinvalid, hends⟩
  · rw [more_iff hpos hlooping] at hdone
    exact Or.inl ⟨hpos, 1, by omega, by omega, by omega⟩
  · by_cases hlast : wanted (elementBits elementDepl) lengthWidth maxLength itsSize size s.currentBit ≤
        elementBits elementDepl
    · exact Or.inl ⟨hpos, 1, by omega, by omega, by omega⟩
    · refine Or.inl ⟨hpos, k + 1, ?_⟩
      rw [Nat.succ_mul]
      omega
  · refine Or.inr ⟨hzero, hinvalid, hends.imp_right fun hdvd => ?_⟩
    rw [hleft] at hdvd
    exact (Nat.dvd_sub_iff_left hfits (dvd_refl _)).1 hdvd

/-- A declared value does not bring a loop with a length field any further. -/
theorem Supplied.of_missing {size : ℕ} (hs : Looping lengthWidth itsSize s)
    (hmissing : elementBits elementDepl = 0 ∨ left s = 0) (hinvalid : hasInvalid elementDepl = true)
    (hmore : More lengthWidth maxLength itsSize size) (hu : Moved 0 s u)
    (h : Supplied elementDepl lengthWidth maxLength (nextSize lengthWidth itsSize s u) (size + 1) u) :
    Supplied elementDepl lengthWidth maxLength itsSize size s := by
  by_cases hzero : lengthWidth = 0
  · refine Or.inr (Or.inr ⟨hzero, hinvalid, hmissing.imp_right fun hleft => ?_⟩)
    rw [hleft]
    exact dvd_zero _
  · rcases completed (Nat.zero_le 8) hs.consistent hu with ⟨hconsumed, _, hposition⟩
    have hbit := hs.consistent.bit
    have hubit := hu.consistent.bit
    have hsame : nextSize lengthWidth itsSize s u = itsSize := by
      rw [nextSize, if_pos hzero, hconsumed, show u.current - s.current = 0 by omega,
        wrapSub_of_le (Nat.zero_le _) hs.size, Nat.sub_zero]
    have hleft : left u = left s := by
      unfold left
      rw [hu.message, hu.position, Nat.add_zero]
    have hmore' : More lengthWidth maxLength itsSize (size + 1) :=
      Or.inl (hmore.resolve_right fun h => hzero h.1)
    rw [hsame] at h
    rcases h with hdone | ⟨hpos, k, hbits⟩ | ⟨hbad, _⟩
    · exact absurd hmore' hdone
    · refine Or.inr (Or.inl ⟨hpos, k, ?_⟩)
      unfold wanted at hbits ⊢
      rw [if_neg hzero, hleft, show u.currentBit = s.currentBit by omega] at hbits
      rw [if_neg hzero]
      exact hbits
    · exact absurd hbad hzero

theorem elements_supplied {fuel : ℕ} {acc : List Byte} {result : ℕ × List Byte}
    (hs : Looping lengthWidth itsSize s)
    (hrun : readElements lengthWidth maxLength List.length (pushElement (readByte isSigned elementDepl)) fuel
      itsSize acc s = .ok result t) (hquiet : t.errorOccurred = false) :
    Supplied elementDepl lengthWidth maxLength itsSize acc.length s := by
  induction fuel generalizing itsSize acc s with
  | zero =>
    by_cases hmore : More lengthWidth maxLength itsSize acc.length
    · unfold More at hmore
      rw [readElements, if_pos hmore] at hrun
      cases hrun
    · exact Or.inl hmore
  | succ fuel ih =>
    by_cases hmore : More lengthWidth maxLength itsSize acc.length
    · have hlength : ∀ a : Byte, (acc ++ [a]).length = acc.length + 1 := fun _ => List.length_append
      by_cases hmissing : elementBits elementDepl = 0 ∨ left s = 0
      · rcases readByte_missing isSigned hs.consistent hmissing with ⟨a, u, hread, hu, herror⟩
        cases hinvalid : hasInvalid elementDepl with
        | false =>
          rw [hinvalid] at herror
          rw [readElements_failed hmore hread herror] at hrun
          cases hrun
          cases herror.symm.trans hquiet
        | true =>
          rw [hinvalid] at herror
          rw [readElements_more hmore hread herror] at hrun
          have hnext := ih (next_looping (Nat.zero_le 8) hs hmore hu).1 hrun
          rw [hlength] at hnext
          exact hnext.of_missing hs hmissing hinvalid hmore hu
      · have hno := not_or.1 hmissing
        have hpos := Nat.pos_of_ne_zero hno.1
        by_cases hfits : elementBits elementDepl ≤ left s
        · rcases readByte_there isSigned hs.consistent hpos hfits with ⟨a, u, hread, hu, herror, _⟩
          rw [readElements_more hmore hread herror] at hrun
          have hnext := ih (next_looping (elementBits_le elementDepl) hs hmore hu).1 hrun
          rw [hlength] at hnext
          exact hnext.of_next hpos hfits hs hmore hu
        · rcases readByte_past isSigned hs.consistent (Nat.pos_of_ne_zero hno.2) (Nat.lt_of_not_le hfits) with
            ⟨u, herror⟩
          rw [readElements_halted hmore herror] at hrun
          cases hrun
    · exact Or.inl hmore

/-- Without a length field the loop also ends with elements that are not there. -/
theorem elements_made_up (hzero : lengthWidth = 0) (hinvalid : hasInvalid elementDepl = true) {k fuel : ℕ}
    (hfuel : k ≤ fuel) (acc : List Byte) (hs : Consistent s) (hquiet : s.errorOccurred = false)
    (hcount : acc.length + k = maxLength)
    (hends : elementBits elementDepl = 0 ∨ elementBits elementDepl ∣ left s) :
    ∃ xs u, readElements lengthWidth maxLength List.length (pushElement (readByte isSigned elementDepl)) fuel
        0 acc s = .ok (0, acc ++ xs) u ∧
      xs.length = k ∧ u.errorOccurred = false ∧ position u ≤ position s + k * elementBits elementDepl := by
  induction k generalizing fuel acc s with
  | zero =>
    have hdone : ¬ More lengthWidth maxLength 0 acc.length := by
      unfold More
      omega
    refine ⟨[], s, ?_, rfl, hquiet, Nat.le_add_right _ _⟩
    rw [InputStream.readElements_done fuel hdone, List.append_nil]
    rfl
  | succ k ih =>
    rcases fuel with _ | fuel
    · omega
    have hmore : More lengthWidth maxLength 0 acc.length := Or.inr ⟨hzero, by omega⟩
    have hnext : ∀ u, nextSize lengthWidth 0 s u = 0 := fun _ => if_neg (not_not_intro hzero)
    have hstep : ∃ a u n, readByte isSigned elementDepl s = .ok a u ∧ Moved n s u ∧
        u.errorOccurred = false ∧ n ≤ elementBits elementDepl ∧
        (elementBits elementDepl = 0 ∨ elementBits elementDepl ∣ left u) := by
      by_cases hmissing : elementBits elementDepl = 0 ∨ left s = 0
      · rcases readByte_missing isSigned hs hmissing with ⟨a, u, hread, hu, herror⟩
        rw [hinvalid] at herror
        refine ⟨a, u, 0, hread, hu, herror, Nat.zero_le _, hends.imp_right fun hdvd => ?_⟩
        unfold left at hdvd ⊢
        rw [hu.message, hu.position]
        exact hdvd
      · have hno := not_or.1 hmissing
        have hdvd := hends.resolve_left hno.1
        have hfits := Nat.le_of_dvd (Nat.pos_of_ne_zero hno.2) hdvd
        rcases readByte_there isSigned hs (Nat.pos_of_ne_zero hno.1) hfits with ⟨a, u, hread, hu, herror, _⟩
        refine ⟨a, u, _, hread, hu, herror, le_rfl, Or.inr ?_⟩
        unfold left at hdvd ⊢
        rw [hu.message, hu.position, ← Nat.sub_sub]
        exact Nat.dvd_sub hdvd (dvd_refl _)
    rcases hstep with ⟨a, u, n, hread, hu, herror, hle, hends'⟩
    have hlength : (acc ++ [a]).length = acc.length + 1 := List.length_append
    rcases ih (Nat.le_of_succ_le_succ hfuel) (acc ++ [a]) hu.consistent herror (by omega) hends' with
      ⟨xs, w, hloop, hlen, hwquiet, hposition⟩
    refine ⟨a :: xs, w, ?_, congrArg Nat.succ hlen, hwquiet, ?_⟩
    · rw [readElements_more hmore hread herror, hnext, hloop, List.append_assoc]
      rfl
    · rw [hu.position] at hposition
      rw [Nat.succ_mul]
      omega

end Loop

end SomeIPRuntime.ByteVectors
