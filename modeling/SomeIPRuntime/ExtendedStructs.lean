import SomeIPRuntime.VariantRoundTrip

set_option autoImplicit false

namespace SomeIPRuntime.RoundTrip
open Bits ProgramRuns Deployment
open InputStream (Consistent Read Taken readElements pushElement readFields)
open OutputStream (lengthField wire)

structure Before (le : Bool) (bytes : List Byte) (s : InputStream) : Prop where
  consistent : Consistent s
  bit : s.currentBit = 0
  errorOccurred : s.errorOccurred = false
  isLittleEndian : s.isLittleEndian = le
  ahead : Ahead s (bitsOf bytes)

/-- Wherever the bytes come next, the value is read and the reader stands behind them. -/
def Reads {α : Type} (le : Bool) (read : Read α) (value : α) (bytes : List Byte) : Prop :=
  ∀ s, Before le bytes s → ∃ u, read s = .ok value u ∧ Taken s u bytes.length

section Standing
variable {le : Bool} {xs ys : List Byte} {s u v : InputStream}

theorem Before.first (h : Before le (xs ++ ys) s) : Before le xs s := by
  have hahead := h.ahead
  rw [bitsOf_append] at hahead
  exact ⟨h.consistent, h.bit, h.errorOccurred, h.isLittleEndian, (List.prefix_append _ _).trans hahead⟩

theorem taken_quiet (h : Taken s u xs.length) (hs : s.errorOccurred = false) : u.errorOccurred = false := by
  rw [h.errorOccurred, hs, ite_self]

theorem Before.rest (h : Before le (xs ++ ys) s) (hu : Taken s u xs.length) : Before le ys u := by
  have hahead := h.ahead
  have hposition := InputStream.Taken.position hu h.bit
  rw [bitsOf_append] at hahead
  refine ⟨hu.consistent, hu.bit, taken_quiet hu h.errorOccurred, hu.isLittleEndian.trans h.isLittleEndian,
    hahead.rest ?_ hu.message⟩
  rw [hposition, bitsOf_length]

theorem Before.length_le (h : Before le xs s) : xs.length ≤ s.remaining := by
  have hlength := h.ahead.length_le
  have hin := h.consistent.inside
  have hbit := h.bit
  rw [List.length_drop, bitsOf_length, bitsOf_length] at hlength
  unfold InputStream.position at hlength
  omega

theorem taken_of_moved (h : Before le xs s) {n : ℕ} (hu : Moved (8 * n) s u)
    (hquiet : u.errorOccurred = false) : Taken s u n := by
  have hposition := hu.position
  have hbit := h.bit
  have hubit := hu.consistent.bit
  have hin := h.consistent.inside
  have huin := hu.consistent.inside
  rw [hu.message] at huin
  unfold InputStream.position at hposition
  refine ⟨hu.consistent, by omega, by omega, by omega, hu.message, hu.isLittleEndian, ?_⟩
  rw [hquiet, h.errorOccurred, ite_self]

theorem taken_consumed (h : Before le xs s) (hu : Taken s u xs.length) :
    wrapSub 64 s.remaining u.remaining = xs.length := by
  have hle := h.length_le
  have hin := h.consistent.inside
  have hfits := s.message.fits
  rw [hu.remaining, wrapSub_of_le (by omega) (by omega)]
  omega

theorem Before.aligned (h : Before le xs s) :
    Before le xs (InputStream.aligned s) ∧ Taken s (InputStream.aligned s) 0 := by
  have haligned : InputStream.aligned s = InputStream.logged .bitAlign s := by
    unfold InputStream.aligned
    rw [if_neg (by rw [h.bit]; exact lt_irrefl 0)]
  have hlogged : Consistent (InputStream.logged .bitAlign s) := InputStream.logged_consistent h.consistent
  rw [haligned]
  exact ⟨⟨hlogged, h.bit, h.errorOccurred, h.isLittleEndian, h.ahead⟩,
    ⟨hlogged, h.bit, rfl, rfl, rfl, rfl, rfl⟩⟩

theorem reads_aligned {α : Type} {value : α} {read : Read α}
    (h : ∀ s, Before le xs s → ∃ u, read s = .ok value u ∧ Taken s u xs.length) :
    Reads le (InputStream.bitAlign >>= fun _ => read) value xs := by
  intro s hs
  rcases hs.aligned with ⟨hstart, halign⟩
  rcases h _ hstart with ⟨u, hread, hu⟩
  refine ⟨u, ?_, ?_⟩
  · rw [bind_ok (InputStream.bitAlign_run s)]
    exact hread
  · have htaken := halign.trans hu
    rw [Nat.zero_add] at htaken
    exact htaken

def Fits (width size : ℕ) : Prop := width = 0 ∨ (IsWidth width ∧ size < 2 ^ (8 * width))

instance (width size : ℕ) : Decidable (Fits width size) := inferInstanceAs (Decidable (_ ∨ _))

theorem Before.lengthField {width size : ℕ} (hfits : Fits width size)
    (h : Before le (lengthField le size width ++ xs) s) :
    ∃ u, InputStream.readWidth width true 0 s = .ok (if width = 0 then 0 else size) u ∧
      Taken s u (lengthField le size width).length ∧ Before le xs u := by
  have hwidth : width = 0 ∨ IsWidth width := hfits.imp_right And.left
  have hsize : IsWidth width → size < 2 ^ (8 * width) := fun h =>
    hfits.elim (fun hzero => absurd hzero h.ne_zero) And.right
  have hahead := h.ahead
  rw [bitsOf_append, ← h.isLittleEndian] at hahead
  rcases optionalField_ahead h.consistent h.errorOccurred hwidth hsize true (fun _ => rfl) 0 hahead with
    ⟨u, hread, hmoved, hquiet, _⟩
  have hlength : (OutputStream.lengthField le size width).length = width := by
    rw [OutputStream.lengthField_length]
    rcases hwidth with rfl | hwidth
    · rfl
    · exact if_pos hwidth
  have hu := taken_of_moved h hmoved hquiet
  rw [← hlength] at hu
  exact ⟨u, hread, hu, h.rest hu⟩

end Standing

section Containers
variable {α β : Type} {le : Bool}

def framed (le : Bool) (width : ℕ) (content : List Byte) : List Byte :=
  lengthField le content.length width ++ content

theorem reads_fields {first : Read α} {rest : Read β} {a : α} {b : β} {xs ys : List Byte}
    (hfirst : Reads le first a xs) (hrest : Reads le rest b ys) :
    Reads le (readFields first rest) (a, b) (xs ++ ys) := by
  intro s hs
  rcases hfirst s hs.first with ⟨u, hread, hu⟩
  rcases hrest u (hs.rest hu) with ⟨v, hread', hv⟩
  refine ⟨v, ?_, ?_⟩
  · unfold readFields
    rw [bind_ok hread, bind_ok hread']
    rfl
  · rw [List.length_append]
    exact hu.trans hv

theorem reads_structEmpty {fields : Read α} {value : α} {content : List Byte}
    (hfields : Reads le fields value content) :
    Reads le (InputStream.readStructEmpty fields) (some value) content := by
  apply reads_aligned
  intro s hs
  rcases hfields s hs with ⟨u, hread, hu⟩
  refine ⟨u, ?_, hu⟩
  change (if s.errorOccurred = true then pure none else some <$> fields : Read (Option α)) s = _
  rw [if_neg (hs.errorOccurred ▸ Bool.false_ne_true), map_run, hread]

theorem Before.skip {xs : List Byte} {s : InputStream} (h : Before le xs s) :
    InputStream.readRaw xs.length s = .ok s.current (InputStream.skipped xs.length s) ∧
      Taken s (InputStream.skipped xs.length s) xs.length := by
  rcases skipped_moved h.consistent h.bit h.length_le with ⟨hmoved, hquiet⟩
  exact ⟨InputStream.readRaw_run _ _, taken_of_moved h hmoved (hquiet.trans h.errorOccurred)⟩

def structLengthWidth (depl : Option StructDeployment) : ℕ := (depl.map (·.structLengthWidth)).getD 0

/-- The fields are read, and what has been appended to them is skipped. -/
theorem readStructFields_extended {width : ℕ} {fields : Read α} {value : α} {content extra : List Byte}
    (hfields : Reads le fields value content) (hextra : width = 0 → extra = []) {u : InputStream}
    (hu : Before le (content ++ extra) u) :
    ∃ w, InputStream.readStructFields width (if width = 0 then 0 else (content ++ extra).length) fields u =
      .ok (some value) w ∧ Taken u w (content ++ extra).length := by
  rcases hfields u hu.first with ⟨v, hread, hv⟩
  have hconsumed := taken_consumed hu.first hv
  have hbehind := hu.rest hv
  unfold InputStream.readStructFields
  rw [bind_ok (get_run u), bind_ok hread]
  by_cases hskip : width ≠ 0 ∧ (content ++ extra).length > content.length
  · rcases hskip with ⟨hwidth, hlonger⟩
    rcases hbehind.skip with ⟨hrun, hw⟩
    have hcount : (content ++ extra).length - content.length = extra.length := by
      rw [List.length_append]
      omega
    refine ⟨_, ?_, List.length_append ▸ hv.trans hw⟩
    rw [if_pos hwidth, bind_ok (get_run v), hconsumed, if_neg hwidth, if_pos hlonger, hcount,
      bind_ok hrun]
    rfl
  · have hnone : extra = [] := by
      by_cases hwidth : width = 0
      · exact hextra hwidth
      · rw [List.length_append] at hskip
        exact List.eq_nil_of_length_eq_zero (by omega)
    subst hnone
    rw [List.append_nil] at hskip ⊢
    refine ⟨v, ?_, hv⟩
    by_cases hwidth : width = 0
    · rw [if_neg (not_not_intro hwidth)]
      rfl
    · rw [if_pos hwidth, bind_ok (get_run v), hconsumed, if_neg hwidth, if_neg (lt_irrefl _)]
      rfl

theorem reads_struct {depl : Option StructDeployment} {fields : Read α} {value : α}
    {content extra : List Byte} (hfields : Reads le fields value content)
    (hfits : Fits (structLengthWidth depl) (content ++ extra).length)
    (hextra : structLengthWidth depl = 0 → extra = []) :
    Reads le (InputStream.readStruct depl fields) (some value)
      (framed le (structLengthWidth depl) (content ++ extra)) := by
  apply reads_aligned
  intro s hs
  rcases hs.lengthField hfits with ⟨u, hsize, hu, hcontent⟩
  rcases readStructFields_extended hfields hextra hcontent with ⟨w, hread, hw⟩
  refine ⟨w, ?_, ?_⟩
  · change (InputStream.readWidth (structLengthWidth depl) true 0 >>= _) s = _
    rw [bind_ok hsize]
    change (if u.errorOccurred = true then pure none else _ : Read (Option α)) u = _
    rw [if_neg (hcontent.errorOccurred ▸ Bool.false_ne_true)]
    exact hread
  · unfold framed
    rw [List.length_append]
    exact hu.trans hw

/-- The loop over the elements, which counts their bytes or themselves. -/
theorem elements_read {element : Read α} (width maxLength : ℕ) {items : List (α × List Byte)}
    (helement : ∀ item ∈ items, Reads le element item.1 item.2)
    (hne : ∀ item ∈ items, item.2 ≠ []) (acc : List α)
    (hmax : width = 0 → maxLength = acc.length + items.length) {fuel : ℕ} (hfuel : items.length ≤ fuel)
    {s : InputStream} (hs : Before le (items.flatMap Prod.snd) s) :
    ∃ u, readElements width maxLength List.length (pushElement element) fuel
        (if width = 0 then 0 else (items.flatMap Prod.snd).length) acc s =
        .ok (0, acc ++ items.map Prod.fst) u ∧ Taken s u (items.flatMap Prod.snd).length := by
  induction items generalizing s acc fuel with
  | nil =>
    rw [List.length_nil] at hmax
    refine ⟨s, ?_, hs.consistent, hs.bit, rfl, rfl, rfl, rfl, rfl⟩
    rw [InputStream.readElements_done _ (by
      rw [List.flatMap_nil, List.length_nil, ite_self]
      omega)]
    rw [List.map_nil, List.append_nil, List.flatMap_nil, List.length_nil, ite_self]
    rfl
  | cons item rest ih =>
    rw [List.flatMap_cons] at hs ⊢
    rcases helement item List.mem_cons_self s hs.first with ⟨u, hread, hu⟩
    have hbehind := hs.rest hu
    have hitem := List.length_pos_of_ne_nil (hne item List.mem_cons_self)
    have hle := hs.length_le
    have hin := hs.consistent.inside
    have hfits := s.message.fits
    have hconsumed := taken_consumed hs.first hu
    rw [List.length_cons] at hfuel hmax
    rcases Nat.exists_eq_succ_of_ne_zero (show fuel ≠ 0 by omega) with ⟨fuel, rfl⟩
    rcases ih (fun i hi => helement i (List.mem_cons_of_mem item hi))
      (fun i hi => hne i (List.mem_cons_of_mem item hi)) (acc ++ [item.1])
      (by rw [List.length_append, List.length_singleton]; omega) (Nat.le_of_succ_le_succ hfuel)
      hbehind with ⟨v, hloop, hv⟩
    have hpush := pushElement_run acc hread (taken_quiet hu hs.errorOccurred)
    rw [List.append_assoc] at hloop
    rw [List.length_append] at hle ⊢
    refine ⟨v, ?_, hu.trans hv⟩
    by_cases hzero : width = 0
    · rw [if_pos hzero] at hloop ⊢
      rw [readElements_next (Or.inr ⟨hzero, by have hsize := hmax hzero; omega⟩) hpush,
        if_neg (not_not_intro hzero), hloop]
      rfl
    · rw [if_neg hzero] at hloop ⊢
      rw [readElements_next (Or.inl (by omega)) hpush, if_pos hzero, hconsumed,
        wrapSub_of_le (by omega) (by omega), Nat.add_sub_cancel_left, hloop]
      rfl

theorem reads_vector {depl : Option ArrayDeployment} {element : Read α} {items : List (α × List Byte)}
    (helement : ∀ item ∈ items, Reads le element item.1 item.2) (hne : ∀ item ∈ items, item.2 ≠ [])
    (hallowed : VectorAllowed depl items.length)
    (hfits : Fits (arrayLengthWidth depl) (items.flatMap Prod.snd).length) {fuel : ℕ}
    (hfuel : items.length ≤ fuel) :
    Reads le (InputStream.readVector fuel depl element) (items.map Prod.fst)
      (framed le (arrayLengthWidth depl) (items.flatMap Prod.snd)) := by
  intro s hs
  rcases hs.aligned with ⟨hstart, halign⟩
  rcases hstart.lengthField hfits with ⟨u, hsize, hu, hcontent⟩
  have hmax : arrayLengthWidth depl = 0 →
      (depl.map (·.arrayMaxLength)).getD 0xFFFFFFFF = ([] : List α).length + items.length := by
    intro hzero
    unfold VectorAllowed SizeAllowed at hallowed
    rw [if_neg (not_not_intro hzero)] at hallowed
    rw [List.length_nil, Nat.zero_add]
    exact hallowed
  rcases elements_read (arrayLengthWidth depl) _ helement hne [] hmax hfuel hcontent with ⟨w, hloop, hw⟩
  rcases readVector_run hsize hcontent.errorOccurred hloop with ⟨v, hread, hv⟩
  rw [List.nil_append] at hread hv
  cases hv (by rw [List.length_map]; exact hallowed)
  refine ⟨w, hread, ?_⟩
  have htaken := halign.trans (hu.trans hw)
  rw [Nat.zero_add] at htaken
  unfold framed
  rw [List.length_append]
  exact htaken

def headed (le : Bool) (depl : Option VariantDeployment) (maxValueType valueType : ℕ)
    (content : List Byte) : List Byte :=
  unionHeader le (InputStream.sizeFirst depl) content.length (InputStream.lengthWidth depl)
    (OutputStream.typeOf maxValueType valueType) (InputStream.typeWidth depl) ++ content

theorem readAlternative_padded {alternatives : List (Read α)} {alternative : Read α} {value : α}
    {valueType : ℕ} {content padding : List Byte} (hcount : alternatives.length ≤ 255)
    (hnumber : InputStream.IsNumber alternatives.length valueType)
    (hget : alternatives[alternatives.length - valueType]? = some alternative)
    (hcontent : Reads le alternative value content) {u : InputStream}
    (hu : Before le (content ++ padding) u) :
    ∃ w, InputStream.readAlternative (content ++ padding).length
        (OutputStream.typeOf alternatives.length valueType) alternatives u =
      .ok (valueType, some value) w ∧ Taken u w (content ++ padding).length := by
  rcases hcontent u hu.first with ⟨v, hread, hv⟩
  have hconsumed := taken_consumed hu.first hv
  have hbehind := hu.rest hv
  rcases hbehind.skip with ⟨hskip, hw⟩
  have hvisit : InputStream.visitAlternative alternatives valueType u = .ok (some value) v := by
    unfold InputStream.visitAlternative
    rw [if_pos hnumber.2, hget]
    change (some <$> alternative) u = _
    rw [map_run, hread]
  have hpadding : InputStream.paddingCount (content ++ padding).length content.length =
      some padding.length := by
    unfold InputStream.paddingCount
    rw [List.length_append, if_neg (by omega), Nat.add_sub_cancel_left]
  have hpadded : InputStream.skipPadding (some padding.length) v =
      .ok ⟨⟩ (InputStream.skipped padding.length v) := by
    change (if (!v.errorOccurred) = true then _ else _ : Read Unit) v = _
    rw [if_pos (by rw [hbehind.errorOccurred]; rfl), bind_ok hskip]
    rfl
  refine ⟨_, ?_, List.length_append ▸ hv.trans hw⟩
  unfold InputStream.readAlternative
  rw [valueTypeOf_typeOf hcount hnumber, bind_ok (get_run u), bind_ok hvisit, bind_ok (get_run v),
    hconsumed, hpadding, bind_ok hpadded]
  rfl

theorem reads_variant {depl : Option VariantDeployment} {alternatives : List (Read α)}
    {alternative : Read α} {value : α} {valueType : ℕ} {content padding : List Byte}
    (hcount : alternatives.length ≤ 255)
    (hnumber : InputStream.IsNumber alternatives.length valueType)
    (hget : alternatives[alternatives.length - valueType]? = some alternative)
    (hcontent : Reads le alternative value content)
    (hfits : Fits (InputStream.lengthWidth depl) (content ++ padding).length)
    (hfixed : InputStream.lengthWidth depl = 0 → (content ++ padding).length = unionMaxLength depl)
    (htype : IsWidth (InputStream.typeWidth depl)) (uninitialised : ℕ × ℕ) :
    Reads le (InputStream.readVariant uninitialised depl alternatives) (valueType, some value)
      (headed le depl alternatives.length valueType (content ++ padding)) := by
  intro s hs
  rcases hs.aligned with ⟨hstart, halign⟩
  rcases typeOf_fits hcount hnumber htype with ⟨htypePos, htypeLt⟩
  have hwidth : InputStream.lengthWidth depl = 0 ∨ IsWidth (InputStream.lengthWidth depl) :=
    hfits.imp_right And.left
  have hsize : IsWidth (InputStream.lengthWidth depl) →
      (content ++ padding).length < 2 ^ (8 * InputStream.lengthWidth depl) := fun h =>
    hfits.elim (fun hzero => absurd hzero h.ne_zero) And.right
  have hahead := hstart.ahead
  unfold headed at hs hstart hahead ⊢
  rw [bitsOf_append, ← hstart.isLittleEndian] at hahead
  rcases readUnionHeader_ahead hstart.consistent hstart.errorOccurred (InputStream.sizeFirst depl) hwidth
    hsize htype htypeLt uninitialised hahead with ⟨u, hheader, hmoved, hquiet, _⟩
  have hlength := unionHeader_length le (InputStream.sizeFirst depl) (content ++ padding).length
    (OutputStream.typeOf alternatives.length valueType) hwidth htype
  have hu := taken_of_moved hstart hmoved hquiet
  rw [← hlength] at hu
  have hrest := hstart.rest hu
  rcases readAlternative_padded hcount hnumber hget hcontent hrest with ⟨w, hread, hw⟩
  refine ⟨w, ?_, ?_⟩
  · change (InputStream.bitAlign >>= _) s = _
    rw [bind_ok (InputStream.bitAlign_run s)]
    change (InputStream.readUnionHeader (InputStream.sizeFirst depl) (InputStream.lengthWidth depl)
      (InputStream.typeWidth depl) uninitialised >>= _) (InputStream.aligned s) = _
    rw [bind_ok hheader]
    dsimp only
    rw [if_neg htypePos]
    change (if u.errorOccurred = true then pure (0, none) else _ : Read (ℕ × Option α)) u = _
    rw [if_neg (hrest.errorOccurred ▸ Bool.false_ne_true)]
    have hannounced : (if InputStream.lengthWidth depl ≠ 0 then
        (if InputStream.lengthWidth depl = 0 then 0 else (content ++ padding).length)
        else unionMaxLength depl) = (content ++ padding).length := by
      by_cases hzero : InputStream.lengthWidth depl = 0
      · rw [if_neg (not_not_intro hzero), hfixed hzero]
      · rw [if_pos hzero, if_neg hzero]
    change InputStream.readAlternative (if InputStream.lengthWidth depl ≠ 0 then
      (if InputStream.lengthWidth depl = 0 then 0 else (content ++ padding).length)
      else unionMaxLength depl) _ alternatives u = _
    rw [hannounced]
    exact hread
  · have htaken := halign.trans (hu.trans hw)
    rw [Nat.zero_add] at htaken
    rw [List.length_append]
    exact htaken

end Containers

/-- The bytes of a value as its reader knows them, and the same with bytes appended to the contents
    of structs, at any depth, and counted in the length fields around them. -/
inductive Extended (le : Bool) : {α : Type} → Read α → α → List Byte → List Byte → Prop
  | whole {α : Type} {read : Read α} {value : α} {bytes : List Byte} (h : Reads le read value bytes) :
      Extended le read value bytes bytes
  | fields {α β : Type} {first : Read α} {rest : Read β} {a : α} {b : β} {xs xs' ys ys' : List Byte}
      (hfirst : Extended le first a xs xs') (hrest : Extended le rest b ys ys') :
      Extended le (readFields first rest) (a, b) (xs ++ ys) (xs' ++ ys')
  | structEmpty {α : Type} {fields : Read α} {value : α} {xs xs' : List Byte}
      (hfields : Extended le fields value xs xs') :
      Extended le (InputStream.readStructEmpty fields) (some value) xs xs'
  | struct {α : Type} (depl : Option StructDeployment) {fields : Read α} {value : α}
      {xs xs' : List Byte} (extra : List Byte) (hfields : Extended le fields value xs xs')
      (hfits : Fits (structLengthWidth depl) xs.length)
      (hfits' : Fits (structLengthWidth depl) (xs' ++ extra).length)
      (hextra : structLengthWidth depl = 0 → extra = []) :
      Extended le (InputStream.readStruct depl fields) (some value)
        (framed le (structLengthWidth depl) xs) (framed le (structLengthWidth depl) (xs' ++ extra))
  | vector {α : Type} (depl : Option ArrayDeployment) {element : Read α}
      (items : List (α × List Byte × List Byte))
      (helement : ∀ item ∈ items, Extended le element item.1 item.2.1 item.2.2)
      (hne : ∀ item ∈ items, item.2.1 ≠ [] ∧ item.2.2 ≠ []) (hallowed : VectorAllowed depl items.length)
      (hfits : Fits (arrayLengthWidth depl) (items.flatMap (·.2.1)).length)
      (hfits' : Fits (arrayLengthWidth depl) (items.flatMap (·.2.2)).length) {fuel : ℕ}
      (hfuel : items.length ≤ fuel) :
      Extended le (InputStream.readVector fuel depl element) (items.map Prod.fst)
        (framed le (arrayLengthWidth depl) (items.flatMap (·.2.1)))
        (framed le (arrayLengthWidth depl) (items.flatMap (·.2.2)))
  | variant {α : Type} (uninitialised : ℕ × ℕ) (depl : Option VariantDeployment)
      {alternatives : List (Read α)} {alternative : Read α} {value : α} {valueType : ℕ}
      {xs xs' padding padding' : List Byte} (hcount : alternatives.length ≤ 255)
      (hnumber : InputStream.IsNumber alternatives.length valueType)
      (hget : alternatives[alternatives.length - valueType]? = some alternative)
      (halternative : Extended le alternative value xs xs')
      (hfits : Fits (InputStream.lengthWidth depl) (xs ++ padding).length)
      (hfits' : Fits (InputStream.lengthWidth depl) (xs' ++ padding').length)
      (hfixed : InputStream.lengthWidth depl = 0 →
        (xs ++ padding).length = unionMaxLength depl ∧ (xs' ++ padding').length = unionMaxLength depl)
      (htype : IsWidth (InputStream.typeWidth depl)) :
      Extended le (InputStream.readVariant uninitialised depl alternatives) (valueType, some value)
        (headed le depl alternatives.length valueType (xs ++ padding))
        (headed le depl alternatives.length valueType (xs' ++ padding'))

section Extensions
variable {α : Type} {le : Bool} {read : Read α} {value : α} {xs xs' : List Byte}

theorem reads_items {depl : Option ArrayDeployment} {items : List (α × List Byte × List Byte)}
    (form : List Byte × List Byte → List Byte)
    (hitem : ∀ item ∈ items, Reads le read item.1 (form item.2) ∧ form item.2 ≠ [])
    (hallowed : VectorAllowed depl items.length)
    (hfits : Fits (arrayLengthWidth depl) (items.flatMap fun item => form item.2).length) {fuel : ℕ}
    (hfuel : items.length ≤ fuel) :
    Reads le (InputStream.readVector fuel depl read) (items.map Prod.fst)
      (framed le (arrayLengthWidth depl) (items.flatMap fun item => form item.2)) := by
  have hbytes : (items.map fun item => (item.1, form item.2)).flatMap Prod.snd =
      items.flatMap fun item => form item.2 := List.flatMap_map ..
  have hlength : (items.map fun item => (item.1, form item.2)).length = items.length :=
    List.length_map ..
  have hvector : Reads le (InputStream.readVector fuel depl read)
      ((items.map fun item => (item.1, form item.2)).map Prod.fst)
      (framed le (arrayLengthWidth depl)
        ((items.map fun item => (item.1, form item.2)).flatMap Prod.snd)) := reads_vector
    (List.forall_mem_map.2 fun item hi => (hitem item hi).1)
    (List.forall_mem_map.2 fun item hi => (hitem item hi).2) (hlength.symm ▸ hallowed)
    (hbytes.symm ▸ hfits) (hlength.symm ▸ hfuel)
  rw [hbytes, List.map_map] at hvector
  exact hvector

theorem Extended.reads (h : Extended le read value xs xs') :
    Reads le read value xs ∧ Reads le read value xs' := by
  induction h with
  | whole h => exact ⟨h, h⟩
  | fields _ _ ihfirst ihrest =>
    exact ⟨reads_fields ihfirst.1 ihrest.1, reads_fields ihfirst.2 ihrest.2⟩
  | structEmpty _ ih => exact ⟨reads_structEmpty ih.1, reads_structEmpty ih.2⟩
  | @struct _ depl _ _ xs _ extra _ hfits hfits' hextra ih =>
    rw [← List.append_nil xs] at hfits
    have hplain := reads_struct ih.1 hfits fun _ => rfl
    rw [List.append_nil] at hplain
    exact ⟨hplain, reads_struct ih.2 hfits' hextra⟩
  | vector depl items _ hne hallowed hfits hfits' hfuel ih =>
    exact ⟨reads_items Prod.fst (fun item hi => ⟨(ih item hi).1, (hne item hi).1⟩) hallowed hfits hfuel,
      reads_items Prod.snd (fun item hi => ⟨(ih item hi).2, (hne item hi).2⟩) hallowed hfits' hfuel⟩
  | variant uninitialised depl hcount hnumber hget halternative hfits hfits' hfixed htype ih =>
    exact ⟨reads_variant hcount hnumber hget ih.1 hfits (fun h => (hfixed h).1) htype uninitialised,
      reads_variant hcount hnumber hget ih.2 hfits' (fun h => (hfixed h).2) htype uninitialised⟩

/-- Behind an extended payload the reader goes on as behind the one that it knows. -/
theorem extended_structs_readable (h : Extended le read value xs xs') :
    Reads le read value xs ∧ Reads le read value xs' ∧
      ∀ (β : Type) (next : Read β) (b : β) (rest : List Byte), Reads le next b rest →
        Reads le (readFields read next) (value, b) (xs ++ rest) ∧
        Reads le (readFields read next) (value, b) (xs' ++ rest) := by
  rcases h.reads with ⟨hplain, hextended⟩
  exact ⟨hplain, hextended, fun _ _ _ _ hnext =>
    ⟨reads_fields hplain hnext, reads_fields hextended hnext⟩⟩

end Extensions

theorem integer_reads (type : IntegerType) (hsize : 0 < type.size) (le : Bool)
    (value : BitVec (8 * type.size)) :
    Reads le (InputStream.readInteger type none) value
      (OutputStream.reorder le (rawBytes type.size value)) := by
  intro s hs
  have hahead := hs.ahead
  have hclamp : clampBits type.size (8 * type.size) = 8 * type.size := by
    rw [clampBits_eq, Nat.min_self]
  have hlength : (wire type.size (8 * type.size) le value).length = 8 * type.size :=
    OutputStream.wire_length le value le_rfl
  rw [← OutputStream.wire_whole] at hahead
  rcases assignBits_ahead hs.consistent hahead type.size (8 * type.size) type.isSigned id none hclamp hlength
    (by omega) with ⟨u, hread, hmoved, hquiet⟩
  rw [hs.isLittleEndian] at hread
  have hvalue := decoded_full hsize le type.isSigned value
  rw [hvalue] at hread
  have hbytes : (OutputStream.reorder le (rawBytes type.size value)).length = type.size := by
    unfold OutputStream.reorder rawBytes
    cases le <;> simp
  refine ⟨u, hread, ?_⟩
  rw [hbytes]
  exact taken_of_moved hs hmoved hquiet

/-- A struct of one byte in a struct, both with a byte more than their reader knows. -/
theorem nested_struct_readable :
    Reads true (InputStream.readStruct (some ⟨1⟩) (InputStream.readStruct (some ⟨1⟩)
      (InputStream.readUInt8 none))) (some (some 7)) [4, 2, 7, 8, 9] :=
  (extended_structs_readable (.struct (some ⟨1⟩) [9]
    (.struct (some ⟨1⟩) [8] (.whole (integer_reads uint8 (by decide) true 7)) (by decide) (by decide)
      nofun) (by decide) (by decide) nofun)).2.1

end SomeIPRuntime.RoundTrip
