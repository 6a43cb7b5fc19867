import SomeIPRuntime.Received
import SomeIPRuntime.StringSafety

set_option autoImplicit false

namespace SomeIPRuntime.RoundTrip
open Bits ProgramRuns Deployment
open InputStream (Read)
open OutputStream (Clean Write)

section ByteBuffers
variable {depl : Option ByteBufferDeployment} {value : List Byte} {o t : OutputStream}
  {s : InputStream}

def byteBufferMinLength (depl : Option ByteBufferDeployment) : ℕ :=
  (depl.map (·.byteBufferMinLength)).getD 0

def byteBufferMaxLength (depl : Option ByteBufferDeployment) : ℕ :=
  (depl.map (·.byteBufferMaxLength)).getD 0xFFFFFFFF

def byteBufferLengthWidth (depl : Option ByteBufferDeployment) : ℕ :=
  (depl.map (·.byteBufferLengthWidth)).getD 4

def cut (maxLength size : ℕ) : ℕ := if maxLength = 0 then size else min maxLength size

/-- What the writer refuses: the wrong fixed size, less than the minimum, more than the length
    field takes, and a width that there is not. -/
def Refused (depl : Option ByteBufferDeployment) (size : ℕ) : Prop :=
  (byteBufferLengthWidth depl = 0 ∧ size ≠ byteBufferMaxLength depl) ∨
  (byteBufferLengthWidth depl ≠ 0 ∧ cut (byteBufferMaxLength depl) size < byteBufferMinLength depl) ∨
  (byteBufferLengthWidth depl ≠ 0 ∧
    2 ^ (8 * byteBufferLengthWidth depl) ≤ cut (byteBufferMaxLength depl) size) ∨
  ¬ (byteBufferLengthWidth depl = 0 ∨ IsWidth (byteBufferLengthWidth depl))

theorem cut_le (maxLength size : ℕ) : cut maxLength size ≤ size := by
  unfold cut
  split
  · exact le_rfl
  · exact Nat.min_le_right _ _

theorem maxSize_eq (lengthWidth maxLength : ℕ) {size : ℕ} (hsize : size < 2 ^ 32) :
    (if lengthWidth ≠ 0 ∧ maxLength > 0 ∧ maxLength < size then maxLength else size % 2 ^ 32) =
      if lengthWidth ≠ 0 then cut maxLength size else size := by
  have hmod := Nat.mod_eq_of_lt hsize
  unfold cut
  split_ifs <;> omega

theorem writeByteCount_run (lengthWidth : ℕ) {maxSize : ℕ} (hsize : maxSize < 2 ^ 32)
    (hbit : o.currentBit = 0) :
    OutputStream.writeByteCount lengthWidth maxSize o =
      .ok ⟨⟩ (if lengthWidth = 0 ∨ IsWidth lengthWidth ∧ maxSize < 2 ^ (8 * lengthWidth) then
        { o with
          payload := o.payload ++ OutputStream.lengthField o.isLittleEndian maxSize lengthWidth }
      else { o with errorOccurred := true }) := by
  have hfits : ∀ width, IsWidth width → maxSize < 2 ^ (8 * width) →
      OutputStream.writeWidth maxSize width o = .ok ⟨⟩ { o with
        payload := o.payload ++ OutputStream.lengthField o.isLittleEndian maxSize width } := by
    intro width hwidth hlt
    have hsmall : ¬ OutputStream.TooLarge maxSize width := by
      unfold OutputStream.TooLarge
      obtain rfl | rfl | rfl := hwidth <;> omega
    rw [OutputStream.writeWidth_run _ _ hbit, OutputStream.widthWritten, decide_eq_false hsmall,
      Bool.or_false]
  match lengthWidth with
  | 0 =>
    rw [if_pos (Or.inl rfl), OutputStream.lengthField, if_neg (by decide), List.append_nil]
    rfl
  | 1 =>
    by_cases hlt : maxSize > 255
    · rw [if_neg (by unfold IsWidth; omega)]
      exact congrFun (if_pos hlt) o
    · rw [if_pos (Or.inr ⟨by decide, by omega⟩)]
      exact (congrFun (if_neg hlt) o).trans (hfits 1 (by decide) (by omega))
  | 2 =>
    by_cases hlt : maxSize > 65535
    · rw [if_neg (by unfold IsWidth; omega)]
      exact congrFun (if_pos hlt) o
    · rw [if_pos (Or.inr ⟨by decide, by omega⟩)]
      exact (congrFun (if_neg hlt) o).trans (hfits 2 (by decide) (by omega))
  | 3 =>
    rw [if_neg (by unfold IsWidth; omega)]
    rfl
  | 4 =>
    rw [if_pos (Or.inr ⟨by decide, by omega⟩)]
    exact hfits 4 (by decide) (by omega)
  | n + 5 =>
    rw [if_neg (by unfold IsWidth; omega)]
    rfl

def maxSize (depl : Option ByteBufferDeployment) (size : ℕ) : ℕ :=
  if byteBufferLengthWidth depl ≠ 0 then cut (byteBufferMaxLength depl) size else size

theorem maxSize_le (depl : Option ByteBufferDeployment) (size : ℕ) : maxSize depl size ≤ size := by
  have hle := cut_le (byteBufferMaxLength depl) size
  unfold maxSize
  split_ifs <;> omega

def byteBufferWritten (depl : Option ByteBufferDeployment) (value : List Byte) (o : OutputStream) :
    OutputStream :=
  { counted (byteBufferLengthWidth depl) (maxSize depl value.length) o with
    payload := (counted (byteBufferLengthWidth depl) (maxSize depl value.length) o).payload ++
      value.take (maxSize depl value.length) }

def CheckFails (depl : Option ByteBufferDeployment) (size : ℕ) : Prop :=
  (byteBufferLengthWidth depl = 0 ∧ byteBufferMaxLength depl ≠ maxSize depl size) ∨
  (byteBufferLengthWidth depl ≠ 0 ∧ maxSize depl size < byteBufferMinLength depl)

theorem refused_iff (depl : Option ByteBufferDeployment) (size : ℕ) :
    Refused depl size ↔ CheckFails depl size ∨
      ¬ (byteBufferLengthWidth depl = 0 ∨ IsWidth (byteBufferLengthWidth depl) ∧
        maxSize depl size < 2 ^ (8 * byteBufferLengthWidth depl)) := by
  unfold Refused CheckFails maxSize
  by_cases hzero : byteBufferLengthWidth depl = 0
  · have hne : size ≠ byteBufferMaxLength depl ↔ byteBufferMaxLength depl ≠ size := ne_comm
    simp only [hzero, hne, true_and, ne_eq, not_true_eq_false, false_and, or_false, true_or,
      ↓reduceIte]
  · simp only [hzero, false_and, ne_eq, not_false_eq_true, true_and, false_or, if_true]
    rw [not_and_or, not_lt, or_comm (a := ¬ IsWidth _)]

theorem writeByteBuffer_eq (depl : Option ByteBufferDeployment) (hvalue : value.length < 2 ^ 32)
    (o : OutputStream) :
    OutputStream.writeByteBuffer depl value o =
      (do
        if (byteBufferLengthWidth depl = 0 ∧ byteBufferMaxLength depl ≠ maxSize depl value.length) ∨
            (byteBufferLengthWidth depl ≠ 0 ∧
              maxSize depl value.length < byteBufferMinLength depl) then
          OutputStream.raise
        OutputStream.unlessError
          (OutputStream.writeByteCount (byteBufferLengthWidth depl) (maxSize depl value.length))
        OutputStream.unlessError (OutputStream.writeRaw (value.take (maxSize depl value.length))))
        (OutputStream.aligned o) := by
  rw [maxSize, ← maxSize_eq (byteBufferLengthWidth depl) (byteBufferMaxLength depl) hvalue]
  rfl

theorem writeByteBuffer_checked (depl : Option ByteBufferDeployment) (hvalue : value.length < 2 ^ 32)
    (ho : Clean o) (hquiet : o.errorOccurred = false) (hcheck : ¬ CheckFails depl value.length) :
    OutputStream.writeByteBuffer depl value o =
      .ok ⟨⟩ (if byteBufferLengthWidth depl = 0 ∨ IsWidth (byteBufferLengthWidth depl) ∧
          maxSize depl value.length < 2 ^ (8 * byteBufferLengthWidth depl) then
        byteBufferWritten depl value o
      else { OutputStream.aligned o with errorOccurred := true }) := by
  have hquiet' : (OutputStream.aligned o).errorOccurred = false :=
    (OutputStream.aligned_appends ho).errorOccurred.trans hquiet
  have hsize : maxSize depl value.length < 2 ^ 32 := (maxSize_le depl _).trans_lt hvalue
  have hcount := writeByteCount_run (byteBufferLengthWidth depl) hsize (OutputStream.aligned_currentBit o)
  rw [writeByteBuffer_eq depl hvalue]
  unfold CheckFails at hcheck
  rw [if_neg hcheck]
  change (OutputStream.unlessError _ >>= _) _ = _
  have hrun : ¬ (OutputStream.aligned o).errorOccurred = true := hquiet' ▸ Bool.false_ne_true
  have hfirst := (OutputStream.unlessError_run (OutputStream.writeByteCount
    (byteBufferLengthWidth depl) (maxSize depl value.length)) (OutputStream.aligned o)).trans
      ((if_neg hrun).trans hcount)
  by_cases hfits : byteBufferLengthWidth depl = 0 ∨ IsWidth (byteBufferLengthWidth depl) ∧
      maxSize depl value.length < 2 ^ (8 * byteBufferLengthWidth depl)
  · rw [if_pos hfits] at hfirst ⊢
    rw [bind_ok hfirst, OutputStream.unlessError_run]
    exact if_neg hrun
  · rw [if_neg hfits] at hfirst ⊢
    rw [bind_ok hfirst, OutputStream.unlessError_run]
    exact if_pos rfl

theorem byteBuffer_refused (depl : Option ByteBufferDeployment) (hvalue : value.length < 2 ^ 32)
    (ho : Clean o) (hquiet : o.errorOccurred = false) (h : Refused depl value.length) :
    ∃ t, OutputStream.writeByteBuffer depl value o = .ok ⟨⟩ t ∧ t.errorOccurred = true := by
  by_cases hcheck : CheckFails depl value.length
  · unfold CheckFails at hcheck
    refine ⟨{ OutputStream.aligned o with errorOccurred := true }, ?_, rfl⟩
    rw [writeByteBuffer_eq depl hvalue, if_pos hcheck]
    rfl
  · have hfits := ((refused_iff depl value.length).1 h).resolve_left hcheck
    have hrun := writeByteBuffer_checked depl hvalue ho hquiet hcheck
    rw [if_neg hfits] at hrun
    exact ⟨_, hrun, rfl⟩

theorem readByteCount_receives (hwidth : byteBufferLengthWidth depl = 0 ∨
      IsWidth (byteBufferLengthWidth depl)) {size : ℕ}
    (hfixed : byteBufferLengthWidth depl = 0 → size = byteBufferMaxLength depl)
    (hlt : byteBufferLengthWidth depl ≠ 0 → size < 2 ^ (8 * byteBufferLengthWidth depl)) (ho : Clean o)
    (ht : (counted (byteBufferLengthWidth depl) size o).bits <+: t.bits) (hs : Receives s o t) :
    ∃ v, InputStream.readByteCount (byteBufferLengthWidth depl) (byteBufferMaxLength depl)
        (InputStream.aligned s) = .ok size v ∧
      Receives v (counted (byteBufferLengthWidth depl) size o) t ∧ v.message = s.message := by
  unfold InputStream.readByteCount
  obtain hzero | hwidth := hwidth
  · rw [hzero, counted_zero] at ht ⊢
    obtain ⟨_, hmessage, _⟩ := faces_aligned hs.faces ho
    exact ⟨_, congrArg (fun n => EStateM.Result.ok n _) (hfixed hzero).symm, hs.aligned ho ht, hmessage⟩
  · rw [if_pos hwidth.ne_zero]
    exact counted_receives hwidth (hlt hwidth.ne_zero) ho ht hs true 0

theorem readByteBuffer_run {size : ℕ} {v : InputStream}
    (hcount : InputStream.readByteCount (byteBufferLengthWidth depl) (byteBufferMaxLength depl)
      (InputStream.aligned s) = .ok size v) (hquiet : v.errorOccurred = false)
    (hmin : byteBufferLengthWidth depl = 0 ∨ byteBufferMinLength depl ≤ size)
    (hmax : byteBufferMaxLength depl = 0 ∨ size ≤ byteBufferMaxLength depl)
    (hsize : size ≤ v.remaining) :
    InputStream.readByteBuffer depl s =
      (InputStream.readRaw size >>= fun base => InputStream.dereferenceRange base size) v := by
  have hcut : (if 0 ≠ byteBufferMaxLength depl ∧ size > byteBufferMaxLength depl then
      byteBufferMaxLength depl else size) = size := if_neg (by omega)
  change (InputStream.bitAlign >>= _) s = _
  rw [bind_ok (InputStream.bitAlign_run s)]
  change (InputStream.readByteCount (byteBufferLengthWidth depl) (byteBufferMaxLength depl) >>= _)
    (InputStream.aligned s) = _
  rw [bind_ok hcount]
  change (if (byteBufferLengthWidth depl ≠ 0 ∧ size < byteBufferMinLength depl) ∨ size > v.remaining
    then _ else _ : Read (List Byte)) v = _
  rw [if_neg (by omega)]
  change (if v.errorOccurred = true then _ else _ : Read (List Byte)) v = _
  rw [if_neg (hquiet ▸ Bool.false_ne_true)]
  change (InputStream.readRaw size >>= fun base => InputStream.dereferenceRange base
    (if 0 ≠ byteBufferMaxLength depl ∧ size > byteBufferMaxLength depl then
      byteBufferMaxLength depl else size)) v = _
  rw [hcut]

/-- An accepted buffer comes back as far as it has been written. -/
theorem byteBuffer_read (depl : Option ByteBufferDeployment) (ho : Clean o)
    (h : ¬ Refused depl value.length) (hs : Receives s o (byteBufferWritten depl value o)) :
    ∃ u, InputStream.readByteBuffer depl s =
        .ok (value.take (cut (byteBufferMaxLength depl) value.length)) u ∧
      Arrived s u (byteBufferWritten depl value o) := by
  have hchecked := not_or.1 (mt (refused_iff depl value.length).2 h)
  have hcheck := hchecked.1
  have hfits := not_not.1 hchecked.2
  unfold CheckFails at hcheck
  have hle := maxSize_le depl value.length
  have hstored : maxSize depl value.length = cut (byteBufferMaxLength depl) value.length := by
    unfold maxSize cut at *
    split_ifs at * <;> omega
  have hmax : byteBufferMaxLength depl = 0 ∨ maxSize depl value.length ≤ byteBufferMaxLength depl := by
    rw [hstored]
    unfold cut
    split_ifs <;> omega
  have hlen : (value.take (maxSize depl value.length)).length = maxSize depl value.length := by
    rw [List.length_take, Nat.min_eq_left hle]
  have hcounted := (counted_appends (byteBufferLengthWidth depl) (maxSize depl value.length) ho).clean
  have hbit := counted_currentBit (byteBufferLengthWidth depl) (maxSize depl value.length) o
  have hdata := OutputStream.writeRaw_appends hcounted hbit (value.take (maxSize depl value.length))
  obtain ⟨v, hcount, hv, hmessage⟩ := readByteCount_receives (hfits.imp_right And.left)
    (by omega) (fun hne => (hfits.resolve_left hne).2) ho hdata.earlier hs
  obtain ⟨more, hmore, hsize, harrived⟩ := hv.bytes hcounted hbit hdata
  rw [hlen] at hsize harrived
  refine ⟨_, ?_, harrived.faces, harrived.message.trans hmessage, harrived.errorOccurred⟩
  have htaken : (v.message.body.drop v.current).take (maxSize depl value.length) =
      value.take (cut (byteBufferMaxLength depl) value.length) := by
    rw [hmore, List.take_left' hlen, hstored]
  have hin := hv.faces.consistent.inside
  rw [readByteBuffer_run hcount hv.errorOccurred (by omega) hmax hsize, InputStream.readBytes_run,
    if_pos (Or.inl (by omega))]
  exact congrArg (fun bytes => EStateM.Result.ok bytes _) htaken

/-- The writer refuses exactly the sizes that it should, and whatever it accepts comes back. -/
theorem byte_buffer_round_trips (depl : Option ByteBufferDeployment) (value : List Byte)
    (hvalue : value.length < 2 ^ 32) (ho : Clean o) (hquiet : o.errorOccurred = false) :
    ∃ t, OutputStream.writeByteBuffer depl value o = .ok ⟨⟩ t ∧
      (t.errorOccurred = true ↔ Refused depl value.length) ∧
      (t.errorOccurred = false → ∀ s, Receives s o t →
        ∃ u, InputStream.readByteBuffer depl s =
            .ok (value.take (cut (byteBufferMaxLength depl) value.length)) u ∧ Arrived s u t) := by
  by_cases h : Refused depl value.length
  · obtain ⟨t, hrun, herror⟩ := byteBuffer_refused depl hvalue ho hquiet h
    exact ⟨t, hrun, iff_of_true herror h, fun hfalse => by cases hfalse.symm.trans herror⟩
  · have hchecked := not_or.1 (mt (refused_iff depl value.length).2 h)
    have hrun := writeByteBuffer_checked depl hvalue ho hquiet hchecked.1
    rw [if_pos (not_not.1 hchecked.2)] at hrun
    have herror : (byteBufferWritten depl value o).errorOccurred = false :=
      (OutputStream.aligned_appends ho).errorOccurred.trans hquiet
    exact ⟨_, hrun, iff_of_false (herror ▸ Bool.false_ne_true) h, fun _ s hs =>
      byteBuffer_read depl ho h hs⟩

theorem three_bytes_cut :
    ∃ t, OutputStream.writeByteBuffer (some ⟨0, 2, 1⟩) [1, 2, 3] (OutputStream.create true) = .ok ⟨⟩ t ∧
      (t.errorOccurred = true ↔ Refused (some ⟨0, 2, 1⟩) 3) ∧
      (t.errorOccurred = false → ∀ s, Receives s (OutputStream.create true) t →
        ∃ u, InputStream.readByteBuffer (some ⟨0, 2, 1⟩) s = .ok [1, 2] u ∧ Arrived s u t) :=
  byte_buffer_round_trips (some ⟨0, 2, 1⟩) [1, 2, 3] (by decide) (OutputStream.create_clean true) rfl

end ByteBuffers

end SomeIPRuntime.RoundTrip
