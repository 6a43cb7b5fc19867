import SomeIPRuntime.VariantDecoding
import SomeIPRuntime.VectorRoundTrip

set_option autoImplicit false

namespace SomeIPRuntime.RoundTrip
open Bits ProgramRuns Deployment
open InputStream (Consistent Read position lengthWidth typeWidth sizeFirst readHeader)
open OutputStream (Clean Write WriteOp Wrote Writer lengthField widthWritten pushed fieldWidth
  Opened Closed)

section Headers
variable {o m n t : OutputStream} {s : InputStream}

def unionEntered (order : Bool) (lengthWidth typeWidth itsType : ℕ) (o : OutputStream) :
    OutputStream :=
  if order then pushed (widthWritten itsType typeWidth (widthWritten 0 lengthWidth (pushed o)))
  else entered lengthWidth (widthWritten itsType typeWidth o)

def unionPosition (order : Bool) (typeWidth : ℕ) (o : OutputStream) : ℕ :=
  if order then o.payload.length else o.payload.length + fieldWidth typeWidth

def unionHeader (le order : Bool) (itsSize lengthWidth itsType typeWidth : ℕ) : List Byte :=
  if order then lengthField le itsSize lengthWidth ++ lengthField le itsType typeWidth
  else lengthField le itsType typeWidth ++ lengthField le itsSize lengthWidth

theorem writeUnionHeader_run (hbit : o.currentBit = 0) (order : Bool)
    (lengthWidth typeWidth itsType : ℕ) :
    OutputStream.writeUnionHeader order lengthWidth typeWidth itsType o =
      .ok ⟨⟩ (unionEntered order lengthWidth typeWidth itsType o) := by
  unfold OutputStream.writeUnionHeader unionEntered
  cases order with
  | true =>
    change (OutputStream.writeWidth 0 lengthWidth >>= _) (pushed o) = _
    rw [bind_ok (OutputStream.writeWidth_run 0 lengthWidth (o := pushed o) hbit),
      bind_ok (OutputStream.writeWidth_run itsType typeWidth (o := widthWritten 0 lengthWidth (pushed o)) hbit)]
    rfl
  | false =>
    change (OutputStream.writeWidth itsType typeWidth >>= _) o = _
    rw [bind_ok (OutputStream.writeWidth_run itsType typeWidth hbit)]
    exact openContent_run (o := widthWritten itsType typeWidth o) hbit lengthWidth

theorem unionEntered_opened (ho : Clean o) (hbit : o.currentBit = 0) (order : Bool)
    (lengthWidth typeWidth itsType : ℕ) :
    Opened o (unionEntered order lengthWidth typeWidth itsType o) lengthWidth
      (unionPosition order typeWidth o)
      (unionEntered order lengthWidth typeWidth itsType o).payload.length := by
  obtain ⟨m, place, start, hrun, hm⟩ :=
    OutputStream.writeUnionHeader_opened ho hbit order lengthWidth typeWidth itsType
  cases hrun.symm.trans (writeUnionHeader_run hbit order lengthWidth typeWidth itsType)
  have hpositions := hm.positions
  have hexact : (unionEntered order lengthWidth typeWidth itsType o).positions =
      (unionEntered order lengthWidth typeWidth itsType o).payload.length ::
        unionPosition order typeWidth o :: o.positions := by
    unfold unionEntered unionPosition
    cases order with
    | true => rfl
    | false =>
      change _ = (entered lengthWidth (widthWritten itsType typeWidth o)).payload.length ::
        (o.payload.length + fieldWidth typeWidth) :: o.positions
      rw [← OutputStream.widthWritten_length itsType typeWidth o]
      rfl
  rw [hexact] at hpositions
  cases hpositions
  exact hm

theorem unionEntered_payload (order : Bool) (lengthWidth typeWidth itsType : ℕ) (o : OutputStream) :
    (unionEntered order lengthWidth typeWidth itsType o).payload =
      o.payload ++ unionHeader o.isLittleEndian order 0 lengthWidth itsType typeWidth := by
  unfold unionEntered unionHeader
  cases order with
  | true => exact List.append_assoc _ _ _
  | false => exact List.append_assoc _ _ _

theorem unionHeader_length (le order : Bool) (itsSize itsType : ℕ) {lengthWidth typeWidth : ℕ}
    (hlength : lengthWidth = 0 ∨ IsWidth lengthWidth) (htype : IsWidth typeWidth) :
    (unionHeader le order itsSize lengthWidth itsType typeWidth).length = lengthWidth + typeWidth := by
  have hfield : (lengthField le itsSize lengthWidth).length = lengthWidth := by
    rw [OutputStream.lengthField_length]
    obtain rfl | hwidth := hlength
    · rfl
    · rw [if_pos hwidth]
  have htypeField : (lengthField le itsType typeWidth).length = typeWidth := by
    rw [OutputStream.lengthField_length, if_pos htype]
  unfold unionHeader
  cases order with
  | true => rw [if_pos rfl, List.length_append, hfield, htypeField]
  | false => rw [if_neg Bool.false_ne_true, List.length_append, hfield, htypeField, Nat.add_comm]

theorem replaced (before behind : List Byte) {old new : List Byte} (h : old.length = new.length) :
    (before ++ old ++ behind).take before.length ++ new ++
      (before ++ old ++ behind).drop (before.length + new.length) = before ++ new ++ behind := by
  rw [List.append_assoc before old, List.take_left, ← List.append_assoc before old,
    List.drop_left' (by rw [List.length_append, h])]

theorem unionEntered_bit (hbit : o.currentBit = 0) (order : Bool) (lengthWidth typeWidth itsType : ℕ) :
    (unionEntered order lengthWidth typeWidth itsType o).currentBit = 0 := by
  unfold unionEntered
  cases order <;> exact hbit

theorem unionEntered_bits (hbit : o.currentBit = 0) (order : Bool) (lengthWidth typeWidth itsType : ℕ) :
    (unionEntered order lengthWidth typeWidth itsType o).bits =
      o.bits ++ bitsOf (unionHeader o.isLittleEndian order 0 lengthWidth itsType typeWidth) := by
  rw [OutputStream.bits_of_aligned (unionEntered_bit hbit order lengthWidth typeWidth itsType),
    OutputStream.bits_of_aligned hbit, unionEntered_payload, bitsOf_append]

theorem unionEntered_replaced {lengthWidth : ℕ} (hwidth : IsWidth lengthWidth) (order : Bool)
    (typeWidth itsType size : ℕ) (o : OutputStream) :
    (unionEntered order lengthWidth typeWidth itsType o).payload.take (unionPosition order typeWidth o) ++
        lengthField o.isLittleEndian size lengthWidth ++
        (unionEntered order lengthWidth typeWidth itsType o).payload.drop
          (unionPosition order typeWidth o + lengthWidth) =
      o.payload ++ unionHeader o.isLittleEndian order size lengthWidth itsType typeWidth := by
  have hold : (lengthField o.isLittleEndian 0 lengthWidth).length =
      (lengthField o.isLittleEndian size lengthWidth).length := by
    rw [OutputStream.lengthField_length, OutputStream.lengthField_length]
  have hnew : (lengthField o.isLittleEndian size lengthWidth).length = lengthWidth := by
    rw [OutputStream.lengthField_length, if_pos hwidth]
  rw [unionEntered_payload]
  unfold unionPosition unionHeader
  cases order with
  | true =>
    have hreplaced := replaced o.payload (lengthField o.isLittleEndian itsType typeWidth) hold
    rw [hnew] at hreplaced
    simp only [List.append_assoc, ↓reduceIte] at hreplaced ⊢
    exact hreplaced
  | false =>
    have hreplaced :=
      replaced (o.payload ++ lengthField o.isLittleEndian itsType typeWidth) [] hold
    rw [hnew, List.length_append, OutputStream.lengthField_length] at hreplaced
    simp only [List.append_assoc, List.append_nil, Bool.false_eq_true, ↓reduceIte] at hreplaced ⊢
    exact hreplaced

/-- Closing a variant writes back its length, or leaves the payload as it is. -/
theorem closed_union_payload {order : Bool} {lengthWidth typeWidth itsType : ℕ}
    {new : List OutputStream.Event} (ho : Clean o) (hbit : o.currentBit = 0)
    (hwidth : lengthWidth = 0 ∨ IsWidth lengthWidth)
    (hn : Wrote (unionEntered order lengthWidth typeWidth itsType o) n [] new)
    (ht : Closed n t lengthWidth (unionPosition order typeWidth o)
      (unionEntered order lengthWidth typeWidth itsType o).payload.length o.positions)
    (herror : t.errorOccurred = false) (hshort : t.payload.length < 2 ^ 32) :
    (IsWidth lengthWidth → n.payload.length -
        (unionEntered order lengthWidth typeWidth itsType o).payload.length < 2 ^ (8 * lengthWidth)) ∧
      t.bits = o.bits ++ bitsOf (unionHeader o.isLittleEndian order (n.payload.length -
          (unionEntered order lengthWidth typeWidth itsType o).payload.length) lengthWidth itsType
          typeWidth) ++ n.bits.drop (unionEntered order lengthWidth typeWidth itsType o).bits.length := by
  obtain rfl | hwidth := hwidth
  · refine ⟨fun h => absurd h (by decide), ?_⟩
    obtain ⟨place, _, hover⟩ := ht.kept
    have hlen : t.payload.length = n.payload.length := hover.length
    have hsame : t.bits = n.bits := hover.bits
    obtain ⟨content, hcontent⟩ := hn.bits (hlen ▸ hshort)
    have hstart := unionEntered_bits hbit order 0 typeWidth itsType
    rw [hsame, ← hcontent, List.drop_left, hstart]
    rfl
  · have hopened := unionEntered_opened ho hbit order lengthWidth typeWidth itsType
    have hbit' := unionEntered_bit hbit order lengthWidth typeWidth itsType
    obtain ⟨hlt, hbits⟩ := closed_bits hopened hbit' hn ht hwidth herror hshort
    refine ⟨fun _ => hlt, ?_⟩
    rw [hbits, OutputStream.bits_of_aligned hbit, ← bitsOf_append, unionEntered_replaced hwidth]

end Headers

section Reading
variable {a u v : InputStream}

theorem Moved.trans {k l : ℕ} (h : Moved k a u) (h' : Moved l u v) : Moved (k + l) a v where
  consistent := h'.consistent
  position := by rw [h'.position, h.position, Nat.add_assoc]
  isLittleEndian := h'.isLittleEndian.trans h.isLittleEndian
  message := h'.message.trans h.message

theorem optionalField_ahead (ha : Consistent a) (hquiet : a.errorOccurred = false) {width value : ℕ}
    (hwidth : width = 0 ∨ IsWidth width) (hvalue : IsWidth width → value < 2 ^ (8 * width))
    (permitZeroWidth : Bool) (hpermit : width = 0 → permitZeroWidth = true) (before : ℕ)
    {rest : List Bool} (hx : Ahead a (bitsOf (lengthField a.isLittleEndian value width) ++ rest)) :
    ∃ u, InputStream.readWidth width permitZeroWidth before a =
        .ok (if width = 0 then 0 else value) u ∧
      Moved (8 * width) a u ∧ u.errorOccurred = false ∧ Ahead u rest := by
  obtain hzero | hwidth := hwidth
  · subst hzero
    rw [hpermit rfl]
    exact ⟨a, rfl, ⟨ha, rfl, rfl, rfl⟩, hquiet, hx⟩
  · obtain ⟨u, hread, hmoved, hu⟩ := readWidth_ahead ha hwidth (hvalue hwidth) permitZeroWidth before
      ((List.prefix_append _ _).trans hx)
    rw [if_neg hwidth.ne_zero]
    refine ⟨u, hread, hmoved, hu, hx.rest ?_ hmoved.message⟩
    rw [hmoved.position, bitsOf_length, OutputStream.lengthField_length, if_pos hwidth]

theorem readUnionHeader_ahead (ha : Consistent a) (hquiet : a.errorOccurred = false)
    {lengthWidth typeWidth itsSize itsType : ℕ} (order : Bool)
    (hlength : lengthWidth = 0 ∨ IsWidth lengthWidth)
    (hsize : IsWidth lengthWidth → itsSize < 2 ^ (8 * lengthWidth)) (htype : IsWidth typeWidth)
    (htypeLt : itsType < 2 ^ (8 * typeWidth)) (uninitialised : ℕ × ℕ) {rest : List Bool}
    (hx : Ahead a (bitsOf (unionHeader a.isLittleEndian order itsSize lengthWidth itsType typeWidth) ++
      rest)) :
    ∃ u, InputStream.readUnionHeader order lengthWidth typeWidth uninitialised a =
        .ok (if lengthWidth = 0 then 0 else itsSize, itsType) u ∧
      Moved (8 * (lengthWidth + typeWidth)) a u ∧ u.errorOccurred = false ∧ Ahead u rest := by
  unfold unionHeader at hx
  unfold InputStream.readUnionHeader
  cases order with
  | true =>
    rw [if_pos rfl, bitsOf_append, List.append_assoc] at hx
    obtain ⟨u, hread, hu, huquiet, hux⟩ :=
      optionalField_ahead ha hquiet hlength hsize true (fun _ => rfl) uninitialised.1 hx
    rw [← hu.isLittleEndian] at hux
    obtain ⟨v, hread', hv, hvquiet, hvx⟩ := optionalField_ahead hu.consistent huquiet (Or.inr htype)
      (fun _ => htypeLt) false (fun h => absurd h htype.ne_zero)
      uninitialised.2 hux
    rw [if_neg htype.ne_zero] at hread'
    refine ⟨v, ?_, Nat.mul_add 8 lengthWidth typeWidth ▸ hu.trans hv, hvquiet, hvx⟩
    rw [if_pos rfl, bind_ok hread, bind_ok hread']
    rfl
  | false =>
    rw [if_neg Bool.false_ne_true, bitsOf_append, List.append_assoc] at hx
    obtain ⟨u, hread, hu, huquiet, hux⟩ := optionalField_ahead ha hquiet (Or.inr htype)
      (fun _ => htypeLt) false (fun h => absurd h htype.ne_zero)
      uninitialised.2 hx
    rw [← hu.isLittleEndian] at hux
    obtain ⟨v, hread', hv, hvquiet, hvx⟩ :=
      optionalField_ahead hu.consistent huquiet hlength hsize true (fun _ => rfl) uninitialised.1 hux
    rw [if_neg htype.ne_zero] at hread
    refine ⟨v, ?_, ?_, hvquiet, hvx⟩
    · rw [if_neg Bool.false_ne_true, bind_ok hread, bind_ok hread']
      rfl
    · rw [Nat.add_comm lengthWidth, Nat.mul_add]
      exact hu.trans hv

end Reading

section Variants
variable {α : Type} {content : Write Unit} {alternative : Read α} {value : α}
  {alternatives : List (Read α)} {depl : Option VariantDeployment} {maxValueType valueType : ℕ}
  {o n t : OutputStream} {s : InputStream}

def unionMaxLength (depl : Option VariantDeployment) : ℕ := (depl.map (·.unionMaxLength)).getD 0

def unionStart (depl : Option VariantDeployment) (maxValueType valueType : ℕ) (o : OutputStream) :
    OutputStream :=
  unionEntered (sizeFirst depl) (lengthWidth depl) (typeWidth depl)
    (OutputStream.typeOf maxValueType valueType) (OutputStream.aligned o)

theorem closeUnion_within {maxLength p q : ℕ} {rest : List ℕ} (h : n.positions = q :: p :: rest)
    (hclose : OutputStream.closeUnion 0 maxLength n = .ok ⟨⟩ t) (herror : t.errorOccurred = false) :
    wrapSub 64 n.payload.length q ≤ maxLength := by
  unfold OutputStream.closeUnion at hclose
  rw [bind_ok (OutputStream.takePositions_run h)] at hclose
  dsimp only at hclose
  rw [if_neg (not_not_intro rfl)] at hclose
  split at hclose
  · cases hclose
    cases herror
  · omega

structure UnionWritten (depl : Option VariantDeployment) (start : OutputStream) (content : Write Unit)
    (o n t : OutputStream) : Prop where
  run : content start = .ok ⟨⟩ n
  quiet : n.errorOccurred = false
  wrote : ∃ new, Wrote start n [] new
  closed : Closed n t (lengthWidth depl) (unionPosition (sizeFirst depl) (typeWidth depl) o)
    start.payload.length o.positions
  within : lengthWidth depl = 0 →
    wrapSub 64 n.payload.length start.payload.length ≤ unionMaxLength depl

theorem writeVariant_ok (hcontent : WriteOp content) (ho : Clean o)
    (hrun : OutputStream.writeVariant depl maxValueType valueType content o = .ok ⟨⟩ t)
    (herror : t.errorOccurred = false) :
    ∃ n, UnionWritten depl (unionStart depl maxValueType valueType o) content
      (OutputStream.aligned o) n t := by
  have halign := (OutputStream.aligned_appends ho).clean
  have hbit := OutputStream.aligned_currentBit o
  have hopened := unionEntered_opened halign hbit (sizeFirst depl) (lengthWidth depl) (typeWidth depl)
    (OutputStream.typeOf maxValueType valueType)
  change (OutputStream.bitAlign >>= _) o = _ at hrun
  rw [bind_ok (OutputStream.bitAlign_run o)] at hrun
  change (OutputStream.writeUnionHeader (sizeFirst depl) (lengthWidth depl) (typeWidth depl)
    (OutputStream.typeOf maxValueType valueType) >>= _) (OutputStream.aligned o) = _ at hrun
  rw [bind_ok (writeUnionHeader_run hbit _ _ _ _)] at hrun
  obtain ⟨_, n, hinner, hclose⟩ := bind_eq_ok.1 hrun
  obtain ⟨extra, new, hn⟩ := (OutputStream.respects_unlessError OutputStream.writes_composes
    hcontent.writer).ok hinner hopened.clean
  obtain ⟨q, p, rest, hpop⟩ := OutputStream.opened_pops hopened hn
  obtain ⟨t', hrun', ht⟩ :=
    @OutputStream.closeUnion_run n (lengthWidth depl) (unionMaxLength depl) p q rest hpop
  cases hclose.symm.trans hrun'
  have hquiet : n.errorOccurred = false := by
    obtain ⟨_, _, hover⟩ := ht.kept
    by_contra hbad
    rw [hover.sticky (show n.errorOccurred = true by simpa using hbad)] at herror
    cases herror
  obtain rfl := balanced hn hquiet
  have hpositions := hn.positions.trans hopened.positions
  cases hpop.symm.trans hpositions
  refine ⟨n, ?_, hquiet, ⟨new, hn⟩, ht, fun hzero => ?_⟩
  · rw [OutputStream.unlessError_run] at hinner
    split at hinner
    · rename_i hbad
      cases hinner
      rw [hquiet] at hbad
      cases hbad
    · exact hinner
  · refine closeUnion_within hpositions ?_ herror
    change OutputStream.closeUnion (lengthWidth depl) (unionMaxLength depl) n = _ at hclose
    rw [hzero] at hclose
    exact hclose

theorem typeOf_eq (hcount : maxValueType ≤ 255) (hnumber : InputStream.IsNumber maxValueType valueType) :
    OutputStream.typeOf maxValueType valueType = maxValueType - valueType + 1 := by
  unfold InputStream.IsNumber at hnumber
  unfold OutputStream.typeOf
  rw [wrapSub_of_le (by omega) (by omega)]
  omega

theorem valueTypeOf_typeOf (hcount : maxValueType ≤ 255)
    (hnumber : InputStream.IsNumber maxValueType valueType) :
    InputStream.valueTypeOf maxValueType (OutputStream.typeOf maxValueType valueType) = valueType := by
  rw [typeOf_eq hcount hnumber]
  unfold InputStream.IsNumber at hnumber
  unfold InputStream.valueTypeOf
  rw [if_neg (by omega), wrapSub_of_le (by omega) (by omega)]
  omega

/-- A reader in front of an accepted variant comes to the alternative and behind it. -/
theorem variant_reached
    (hback : ReadBack content alternative value (unionStart depl maxValueType valueType o)) (ho : Clean o)
    (hlength : lengthWidth depl = 0 ∨ IsWidth (lengthWidth depl)) (htype : IsWidth (typeWidth depl))
    (htypeLt : OutputStream.typeOf maxValueType valueType < 2 ^ (8 * typeWidth depl))
    (hw : UnionWritten depl (unionStart depl maxValueType valueType o) content
      (OutputStream.aligned o) n t)
    (herror : t.errorOccurred = false) (uninitialised : ℕ × ℕ) (hs : Receives s o t) :
    ∃ u v, readHeader uninitialised depl (InputStream.aligned s) =
        .ok (if lengthWidth depl = 0 then 0 else
            n.payload.length - (unionStart depl maxValueType valueType o).payload.length,
          OutputStream.typeOf maxValueType valueType) u ∧
      u.errorOccurred = false ∧ alternative u = .ok value v ∧ Arrived s v t ∧
      (unionStart depl maxValueType valueType o).payload.length ≤ n.payload.length ∧
      n.payload.length < 2 ^ 32 ∧
      wrapSub 64 u.remaining v.remaining =
        n.payload.length - (unionStart depl maxValueType valueType o).payload.length := by
  have halign := OutputStream.aligned_appends ho
  have hbit := OutputStream.aligned_currentBit o
  have hopened := unionEntered_opened halign.clean hbit (sizeFirst depl) (lengthWidth depl)
    (typeWidth depl) (OutputStream.typeOf maxValueType valueType)
  obtain ⟨new, hn⟩ := hw.wrote
  have hwrote := OutputStream.closed_balanced hopened hn hw.closed
  have hshort := hs.short hwrote.clean
  have hstart := hs.aligned ho (hwrote.bits hshort)
  obtain ⟨hsize, hbits⟩ :=
    closed_union_payload halign.clean hbit hlength hn hw.closed herror hshort
  have hahead := hstart.ahead
  rw [hbits, List.append_assoc, List.drop_left, ← hstart.faces.isLittleEndian] at hahead
  obtain ⟨u, hread, hu, hquiet, hux⟩ := readUnionHeader_ahead hstart.faces.consistent
    hstart.errorOccurred (sizeFirst depl) hlength hsize htype htypeLt uninitialised hahead
  have hm : (unionStart depl maxValueType valueType o).currentBit = 0 := by
    unfold unionStart unionEntered
    cases sizeFirst depl <;> exact hbit
  have hplace : (unionStart depl maxValueType valueType o).bits.length =
      (OutputStream.aligned o).bits.length + 8 * (lengthWidth depl + typeWidth depl) := by
    rw [OutputStream.bits_of_aligned hm, OutputStream.bits_of_aligned hbit]
    unfold unionStart
    rw [unionEntered_payload, bitsOf_length, bitsOf_length, List.length_append,
      unionHeader_length _ _ _ _ hlength htype, Nat.mul_add]
  have hreceives : Receives u (unionStart depl maxValueType valueType o) n :=
    ⟨hu.faces hstart.faces hplace hopened.isLittleEndian, hquiet, hux⟩
  obtain ⟨v, hv, harrived⟩ := hback n u hw.run hw.quiet hreceives
  obtain ⟨_, hmessage, _⟩ := faces_aligned hs.faces ho
  have hlen : t.payload.length = n.payload.length := by
    obtain ⟨_, _, hover⟩ := hw.closed.kept
    exact hover.length
  exact ⟨u, v, hread, hquiet, hv,
    closed_arrived hw.closed hwrote.clean hn.clean (hu.message.trans hmessage) harrived, hn.length,
    hlen ▸ hshort, harrived.consumed hreceives.faces hopened.clean hn.clean hn.length⟩

theorem skipped_zero_arrived {v : InputStream} (h : Arrived s v t) :
    Arrived s (InputStream.skipped 0 v) t := by
  unfold InputStream.skipped
  rw [if_neg (Nat.not_lt_zero _)]
  exact ⟨⟨⟨h.faces.consistent.bit, h.faces.consistent.inside, h.faces.consistent.pending⟩,
    h.faces.position, h.faces.isLittleEndian⟩, h.message, h.errorOccurred⟩

theorem typeOf_fits (hcount : alternatives.length ≤ 255)
    (hnumber : InputStream.IsNumber alternatives.length valueType) (htype : IsWidth (typeWidth depl)) :
    OutputStream.typeOf alternatives.length valueType ≠ 0 ∧
      OutputStream.typeOf alternatives.length valueType < 2 ^ (8 * typeWidth depl) := by
  have hindex := typeOf_eq hcount hnumber
  have hne := htype.ne_zero
  have hpow : 2 ^ 8 ≤ 2 ^ (8 * typeWidth depl) := Nat.pow_le_pow_right (by decide) (by omega)
  unfold InputStream.IsNumber at hnumber
  omega

theorem visitAlternative_reached {u v : InputStream} (hcount : alternatives.length ≤ 255)
    (hnumber : InputStream.IsNumber alternatives.length valueType)
    (hget : alternatives[alternatives.length - valueType]? = some alternative)
    (hread : alternative u = .ok value v) :
    InputStream.visitAlternative alternatives (InputStream.valueTypeOf alternatives.length
      (OutputStream.typeOf alternatives.length valueType)) u = .ok (some value) v := by
  rw [valueTypeOf_typeOf hcount hnumber]
  rcases InputStream.visitAlternative_number hnumber with ⟨alternative', hget', hvisit⟩
  cases hget.symm.trans hget'
  rw [hvisit]
  exact map_eq_ok.2 ⟨value, hread, rfl⟩

/-- Only a variant without a length field may leave something to be skipped. -/
theorem padding_reached {u v : InputStream} {size : ℕ} (hconsumed : wrapSub 64 u.remaining v.remaining = size) :
    InputStream.padding depl (if lengthWidth depl = 0 then 0 else size) u v =
      if lengthWidth depl = 0 then unionMaxLength depl - size else 0 := by
  unfold InputStream.padding InputStream.announcedBy
  rw [hconsumed]
  by_cases hzero : lengthWidth depl = 0
  · rw [if_neg (not_not_intro hzero), if_pos hzero]
    rfl
  · rw [if_pos hzero, if_neg hzero, if_neg hzero, Nat.sub_self]

/-- A reader comes back to the writer just if there is nothing left to be skipped. -/
theorem variant_arrives_iff (hcount : alternatives.length ≤ 255)
    (hnumber : InputStream.IsNumber alternatives.length valueType)
    (hget : alternatives[alternatives.length - valueType]? = some alternative)
    (hcontent : ReadBack content alternative value (unionStart depl alternatives.length valueType o))
    (ho : Clean o)
    (hlength : lengthWidth depl = 0 ∨ IsWidth (lengthWidth depl)) (htype : IsWidth (typeWidth depl))
    (hw : UnionWritten depl (unionStart depl alternatives.length valueType o) content
      (OutputStream.aligned o) n t)
    (herror : t.errorOccurred = false) (uninitialised : ℕ × ℕ) (hs : Receives s o t) :
    (∃ x, InputStream.readVariant uninitialised depl alternatives s = .ok (valueType, some value) x ∧
        Arrived s x t) ↔
      lengthWidth depl ≠ 0 ∨ n.payload.length =
        (unionStart depl alternatives.length valueType o).payload.length + unionMaxLength depl := by
  obtain ⟨htypePos, htypeLt⟩ := typeOf_fits hcount hnumber htype
  obtain ⟨u, v, hheader, hquiet, halternative, hv, hle, hshort, hconsumed⟩ :=
    variant_reached hcontent ho hlength htype htypeLt hw herror uninitialised hs
  have hvisit := visitAlternative_reached hcount hnumber hget halternative
  have hwithin : lengthWidth depl = 0 → n.payload.length -
      (unionStart depl alternatives.length valueType o).payload.length ≤ unionMaxLength depl := by
    intro hzero
    have hle' := hw.within hzero
    rw [wrapSub_of_le hle (by omega)] at hle'
    exact hle'
  generalize (unionStart depl alternatives.length valueType o).payload.length = start at *
  have hpadding : InputStream.padding depl _ u v = _ := padding_reached hconsumed
  constructor
  · rintro ⟨x, hrun, hx⟩
    obtain ⟨header, u', v', stop, hread, _, _, hpasses, _, rfl⟩ :=
      InputStream.readVariant_quiet_iff.1 ⟨hrun, hx.errorOccurred⟩
    cases hheader.symm.trans hread
    cases hvisit.symm.trans hpasses.visited
    have hposition := (InputStream.skipped_position v _ hx.errorOccurred).2
    rw [hx.faces.position, hv.faces.position, hpadding] at hposition
    by_cases hzero : lengthWidth depl = 0
    · rw [if_pos hzero] at hposition
      have hle' := hwithin hzero
      exact Or.inr (by omega)
    · exact Or.inl hzero
  · intro h
    have hnone : InputStream.padding depl (if lengthWidth depl = 0 then 0 else
        n.payload.length - start) u v = 0 := by
      rw [hpadding]
      split
      · omega
      · rfl
    have hinside : n.payload.length - start ≤ InputStream.announcedBy depl
        (if lengthWidth depl = 0 then 0 else n.payload.length - start) := by
      unfold InputStream.announcedBy
      split
      · exact le_rfl
      · rename_i hzero
        exact hwithin (not_not.1 hzero)
    have hpasses : InputStream.Passes depl alternatives (if lengthWidth depl = 0 then 0 else
        n.payload.length - start, OutputStream.typeOf alternatives.length valueType) u (some value) v :=
      ⟨hvisit, hv.errorOccurred, hconsumed ▸ hinside, by rw [hnone]; exact Nat.zero_le _⟩
    obtain ⟨hrun, _⟩ := InputStream.readVariant_quiet_iff.2
      ⟨_, u, some value, v, hheader, hquiet, htypePos, hpasses, rfl, rfl⟩
    rw [hnone, valueTypeOf_typeOf hcount hnumber] at hrun
    exact ⟨_, hrun, skipped_zero_arrived hv⟩

theorem unionStart_clean (depl : Option VariantDeployment) (maxValueType valueType : ℕ) (ho : Clean o) :
    Clean (unionStart depl maxValueType valueType o) ∧
      (unionStart depl maxValueType valueType o).currentBit = 0 :=
  ⟨(unionEntered_opened (OutputStream.aligned_appends ho).clean (OutputStream.aligned_currentBit o)
      _ _ _ _).clean,
    unionEntered_bit (OutputStream.aligned_currentBit o) _ _ _ _⟩

theorem variant_back_iff (hcount : alternatives.length ≤ 255)
    (hnumber : InputStream.IsNumber alternatives.length valueType)
    (hget : alternatives[alternatives.length - valueType]? = some alternative)
    (hcontent : WholeBytes content alternative value) (ho : Clean o)
    (hlength : lengthWidth depl = 0 ∨ IsWidth (lengthWidth depl)) (htype : IsWidth (typeWidth depl))
    (hw : UnionWritten depl (unionStart depl alternatives.length valueType o) content
      (OutputStream.aligned o) n t)
    (herror : t.errorOccurred = false) (uninitialised : ℕ × ℕ) (hs : Receives s o t) :
    (∃ x, InputStream.readVariant uninitialised depl alternatives s = .ok (valueType, some value) x ∧
        Arrived s x t) ↔
      lengthWidth depl ≠ 0 ∨ n.payload.length =
        (unionStart depl alternatives.length valueType o).payload.length + unionMaxLength depl :=
  have hstart := unionStart_clean depl alternatives.length valueType ho
  variant_arrives_iff hcount hnumber hget (hcontent.reads _ hstart.1 hstart.2) ho hlength htype hw herror
    uninitialised hs

/-- The variant is read back in front of any data, and takes the fixed number of bytes if it has
    no length field. -/
def VariantReadBack (uninitialised : ℕ × ℕ) (depl : Option VariantDeployment)
    (alternatives : List (Read α)) (valueType : ℕ) (value : α) (o t : OutputStream) : Prop :=
  ReadInFront (InputStream.readVariant uninitialised depl alternatives) (valueType, some value) o t ∧
    (lengthWidth depl = 0 → t.payload.length =
      (OutputStream.aligned o).payload.length + typeWidth depl + unionMaxLength depl)

/-- An accepted variant is read back just if it has a length field, or its alternative takes all
    of the fixed length. -/
theorem variant_round_trips_iff (hcount : alternatives.length ≤ 255)
    (hnumber : InputStream.IsNumber alternatives.length valueType)
    (hget : alternatives[alternatives.length - valueType]? = some alternative)
    (hcontent : WholeBytes content alternative value) (ho : Clean o)
    (hlength : lengthWidth depl = 0 ∨ IsWidth (lengthWidth depl)) (htype : IsWidth (typeWidth depl))
    (hrun : OutputStream.writeVariant depl alternatives.length valueType content o = .ok ⟨⟩ t)
    (herror : t.errorOccurred = false)
    (hshort : (OutputStream.aligned t).payload.length < 2 ^ 32) (uninitialised : ℕ × ℕ) :
    VariantReadBack uninitialised depl alternatives valueType value o t ↔
      lengthWidth depl ≠ 0 ∨
        ∃ n, content (unionStart depl alternatives.length valueType o) = .ok ⟨⟩ n ∧ n.payload.length =
          (unionStart depl alternatives.length valueType o).payload.length + unionMaxLength depl := by
  obtain ⟨n, hw⟩ := writeVariant_ok hcontent.writes ho hrun herror
  obtain ⟨_, _, hwrote⟩ := (OutputStream.writeVariant_writer depl alternatives.length valueType
    hcontent.writes.writer).ok hrun ho
  have hlen : t.payload.length = n.payload.length := by
    obtain ⟨_, _, hover⟩ := hw.closed.kept
    exact hover.length
  have hback := fun s => variant_back_iff (s := s) hcount hnumber hget hcontent ho hlength htype hw
    herror uninitialised
  unfold VariantReadBack
  rw [readInFront_iff hwrote.clean hwrote.bits herror]
  constructor
  · rintro ⟨h, _⟩
    have hbits := hwrote.bits ((aligned_longer hwrote.clean).trans_lt hshort)
    obtain ⟨s, hs⟩ := receives_exists hwrote.clean hbits hshort
    exact ((hback s hs).1 (h s hs)).imp id fun hexact => ⟨n, hw.run, hexact⟩
  · intro h
    have hexact : lengthWidth depl ≠ 0 ∨ n.payload.length =
        (unionStart depl alternatives.length valueType o).payload.length + unionMaxLength depl := by
      refine h.imp id ?_
      rintro ⟨n', hrun', hexact⟩
      cases hw.run.symm.trans hrun'
      exact hexact
    refine ⟨fun s hs => (hback s hs).2 hexact, fun hzero => ?_⟩
    have hfixed := hexact.resolve_left (not_not_intro hzero)
    unfold unionStart at hfixed
    rw [unionEntered_payload, List.length_append, unionHeader_length _ _ _ _ hlength htype, hzero] at hfixed
    omega

end Variants

theorem integer_roundTrips (type : IntegerType) (hsize : 0 < type.size)
    (value : BitVec (8 * type.size)) :
    RoundTrips (OutputStream.writeInteger type none value) (InputStream.readInteger type none) value := by
  have hclamp : clampBits type.size (8 * type.size) = 8 * type.size := by
    rw [clampBits_eq, Nat.min_self]
  have hwritable : OutputStream.Writable (8 * type.size) type.isSigned := by
    unfold OutputStream.Writable
    omega
  exact @field_roundTrips _ type.size (8 * type.size) _ type.isSigned value id none value
    (.integer type none value) hclamp hwritable fun le => decoded_full hsize le _ value

theorem integer_wholeBytes (type : IntegerType) (hsize : 0 < type.size)
    (value : BitVec (8 * type.size)) :
    WholeBytes (OutputStream.writeInteger type none value) (InputStream.readInteger type none) value where
  writes := .integer type none value
  reads o ho _ := (integer_roundTrips type hsize value).reads o ho
  whole o t ho hbit hrun _ := by
    obtain ⟨t', hrun', ht, hlen, _⟩ := full_stepped ho hsize type.isSigned value
    cases hrun.symm.trans hrun'
    have hbits := ht.clean.bits_length
    have hlt := ht.clean.bit
    rw [hlen, ho.bits_length, hbit] at hbits
    omega

theorem byte_variant_round_trips :
    VariantReadBack (0, 0) (some ⟨1, 1, true, 0⟩) [InputStream.readUInt8 none] 1 7
      (OutputStream.create true) (finalState (OutputStream.writeVariant (some ⟨1, 1, true, 0⟩) 1 1
        (OutputStream.writeUInt8 none 7) (OutputStream.create true))) :=
  (variant_round_trips_iff (by decide) (by decide) rfl (integer_wholeBytes uint8 (by decide) 7)
    (OutputStream.create_clean true) (Or.inr (by decide)) (by decide) (eq_ok_of_returned (by decide))
    (by decide) (by decide) (0, 0)).2 (Or.inl (by decide))

theorem unpadded_variant_short :
    ¬ ∀ (α : Type) (content : Write Unit) (alternative : Read α) (value : α)
      (alternatives : List (Read α)) (depl : Option VariantDeployment) (valueType : ℕ)
      (o t : OutputStream) (uninitialised : ℕ × ℕ), alternatives.length ≤ 255 →
      InputStream.IsNumber alternatives.length valueType →
      alternatives[alternatives.length - valueType]? = some alternative →
      WholeBytes content alternative value → Clean o →
      (lengthWidth depl = 0 ∨ IsWidth (lengthWidth depl)) → IsWidth (typeWidth depl) →
      OutputStream.writeVariant depl alternatives.length valueType content o = .ok ⟨⟩ t →
      t.errorOccurred = false → (OutputStream.aligned t).payload.length < 2 ^ 32 →
      VariantReadBack uninitialised depl alternatives valueType value o t := by
  intro h
  have hback := h (BitVec 8) (OutputStream.writeUInt8 none 7) (InputStream.readUInt8 none) 7
    [InputStream.readUInt8 none] (some ⟨0, 1, true, 2⟩) 1 (OutputStream.create true) _ (0, 0)
    (by decide) (by decide) rfl (integer_wholeBytes uint8 (by decide) 7)
    (OutputStream.create_clean true) (Or.inl (by decide)) (by decide) (eq_ok_of_returned (by decide))
    (by decide) (by decide)
  exact absurd (hback.2 (by decide)) (by decide)

end SomeIPRuntime.RoundTrip
