import SomeIPRuntime.CursorSafety
import SomeIPRuntime.Progress
import SomeIPRuntime.Termination

set_option autoImplicit false

namespace SomeIPRuntime.InputStream
open Bits ProgramRuns Deployment

structure SameCursor (s t : InputStream) : Prop where
  current : t.current = s.current
  currentBit : t.currentBit = s.currentBit
  remaining : t.remaining = s.remaining

structure FieldRead (a m : InputStream) (width : ℕ) : Prop where
  enough : width ≤ a.remaining
  noError : m.errorOccurred = false
  consistent : Consistent m
  position : position m = position a + 8 * width
  remaining : m.remaining = a.remaining - width

/-- A length or type field is read, or the cursor stays and the error flag is set. -/
theorem assignBits_field {width : ℕ} (hwidth : 0 < width) {a m : InputStream} {n : ℕ}
    (ha : Sound a) (h : assignBits width (8 * width) false BitVec.toNat none a = .ok n m) :
    (FieldRead a m width ∧ n < 2 ^ (8 * width)) ∨
      (¬ width ≤ a.remaining ∧ m.errorOccurred = true ∧ SameCursor a m) := by
  have hclamp : clampBits width (8 * width) = 8 * width := by
    rw [clampBits_eq, Nat.min_self]
  rw [assignBits_run, hclamp] at h
  have hlog : Sound (logged (.assign (8 * width) (none : Option ℕ).isSome) a) := ⟨ha.bit, ha.inside⟩
  obtain ⟨hno, hrun⟩ | ⟨henough, hcons, hfit, hrun⟩ | ⟨_, _, u, hrun⟩ :=
    readField_cases hlog false (le_refl (8 * width))
  · rw [hrun] at h
    cases h
    rw [enough_iff] at hno
    refine Or.inr ⟨fun hle => hno ⟨by omega, ?_⟩, rfl, rfl, rfl, rfl⟩
    change 8 * width ≤ 8 * a.remaining
    omega
  · rw [hrun] at h
    cases h
    obtain ⟨_, hle⟩ := (enough_iff _ _).1 henough
    have hend := seek_consistent
      (logged (.readBits (8 * width)) (logged (.assign (8 * width) (none : Option ℕ).isSome) a)) hfit
    have hposition := seek_position (position a + 8 * width)
      (logged (.readBits (8 * width)) (logged (.assign (8 * width) (none : Option ℕ).isSome) a))
    refine Or.inl ⟨⟨?_, rfl, ⟨hend.bit, hend.inside, hend.pending⟩, hposition, ?_⟩, BitVec.isLt _⟩
    · change 8 * width ≤ 8 * a.remaining at hle
      omega
    · have hin : a.current + a.remaining = a.message.body.length := hcons.inside
      have hbit := ha.bit
      change a.message.body.length - (8 * a.current + a.currentBit + 8 * width) / 8 = _
      omega
  · rw [hrun] at h
    cases h

theorem readWidth_field {width value n : ℕ} {permitZeroWidth : Bool} {a m : InputStream}
    (ha : Sound a) (hwidth : width ≠ 0) (h : readWidth width permitZeroWidth value a = .ok n m) :
    (IsWidth width ∧ FieldRead a m width ∧ n < 2 ^ 32) ∨
      (¬ (IsWidth width ∧ width ≤ a.remaining) ∧ m.errorOccurred = true ∧ SameCursor a m) := by
  have hfield : ∀ width, IsWidth width →
      assignBits width (8 * width) false BitVec.toNat none a = .ok n m →
      (IsWidth width ∧ FieldRead a m width ∧ n < 2 ^ 32) ∨
        (¬ (IsWidth width ∧ width ≤ a.remaining) ∧ m.errorOccurred = true ∧ SameCursor a m) := by
    intro width hw hrun
    obtain ⟨hread, hlt⟩ | ⟨hno, herr, hsame⟩ :=
      assignBits_field (Nat.pos_of_ne_zero hw.ne_zero) ha hrun
    · have hpow : 2 ^ (8 * width) ≤ 2 ^ 32 :=
        Nat.pow_le_pow_right (by decide) (Nat.mul_le_mul_left 8 hw.le_four)
      exact Or.inl ⟨hw, hread, hlt.trans_le hpow⟩
    · exact Or.inr ⟨fun hboth => hno hboth.2, herr, hsame⟩
  unfold readWidth at h
  split at h
  · exact absurd rfl hwidth
  · exact hfield 1 (Or.inl rfl) h
  · exact hfield 2 (Or.inr (Or.inl rfl)) h
  · exact hfield 4 (Or.inr (Or.inr rfl)) h
  · rename_i h0 h1 h2 h4
    cases h
    refine Or.inr ⟨?_, rfl, rfl, rfl, rfl⟩
    rintro ⟨rfl | rfl | rfl, _⟩
    · exact h1 rfl
    · exact h2 rfl
    · exact h4 rfl

/-- The cursor has moved past the header fields, and then by the announced number of bytes. -/
structure Exact (s start t : InputStream) (header announced : ℕ) : Prop where
  header : position start = position (aligned s) + 8 * header
  content : position t = position start + 8 * announced

/-- The content ends at a byte boundary, and not behind what was announced. -/
def Within (start stop : InputStream) (announced : ℕ) : Prop :=
  stop.currentBit = 0 ∧ stop.current ≤ start.current + announced

/-- The header fields are whole bytes behind an aligned cursor. -/
theorem header_bit {s start : InputStream} {width : ℕ} (hstart : Consistent start)
    (h : position start = position (aligned s) + 8 * width) : start.currentBit = 0 := by
  have hbit := hstart.bit
  have hzero := aligned_bit s
  unfold position at h
  omega

/-- What `remaining_` says about a content that has been read. -/
theorem consumed_cases {start stop : InputStream} (hstart : Consistent start) (hstop : Good stop)
    (hmessage : stop.message = start.message) (hposition : position start ≤ position stop) :
    stop.remaining ≤ start.remaining ∧
      wrapSub 64 start.remaining stop.remaining = start.remaining - stop.remaining ∧
      ((start.current ≤ stop.current ∧
        start.remaining - stop.remaining = stop.current - start.current) ∨
      (stop.remaining = 0 ∧ stop.currentBit = 0 ∧
        start.current + start.remaining ≤ stop.current)) := by
  have hfits := start.message.fits
  have hin := hstart.inside
  have hbit := hstart.bit
  obtain ⟨hbit', hpay | ⟨hzero, hbit0, hcur, _⟩⟩ := hstop.last
  · have hsum := hpay.1
    rw [hmessage] at hsum
    unfold position at hposition
    have hcurrent : start.current ≤ stop.current := by omega
    refine ⟨by omega, wrapSub_of_le (by omega) (by omega), Or.inl ⟨hcurrent, by omega⟩⟩
  · rw [hmessage] at hcur
    exact ⟨by omega, wrapSub_of_le (by omega) (by omega), Or.inr ⟨hzero, hbit0, by omega⟩⟩

structure Run (s t : InputStream) : Prop where
  keeps : Keeps s t
  advances : Advances s t

theorem Decoder.run {α : Type} {d : ℕ → Read α} (hd : Decoder d) {fuel : ℕ} {s t : InputStream}
    {a : α} (h : d fuel s = .ok a t) : Run s t :=
  ⟨(Decoder.respects keeps_primitives hd fuel).ok h, (hd.forward fuel).ok h⟩

theorem Run.good {s t : InputStream} (h : Run s t) (hs : Good s) (hc : AllCovered t.history) :
    Good t := h.keeps.good hc hs

theorem Run.covered {s t : InputStream} (h : Run s t) (hc : AllCovered t.history) :
    AllCovered s.history := hc.suffix h.keeps.extends_history

theorem aligned_run (s : InputStream) : Run s (aligned s) := by
  have h := bitAlign_keeps s
  rw [bitAlign_run] at h
  exact ⟨h, aligned_advances s⟩

theorem skipped_run (size : ℕ) (s : InputStream) : Run s (skipped size s) :=
  ⟨skipped_keeps size s, skipped_advances size s⟩

theorem readWidth_run {width value n : ℕ} {permitZeroWidth : Bool} {s t : InputStream}
    (h : readWidth width permitZeroWidth value s = .ok n t) : Run s t :=
  ⟨(respects_readWidth keeps_primitives.headers _ _ _).ok h,
    (respects_readWidth advances_primitives.headers _ _ _).ok h⟩

theorem skipped_position (s : InputStream) (size : ℕ)
    (herror : (skipped size s).errorOccurred = false) :
    size ≤ s.remaining ∧ position (skipped size s) = position s + 8 * size := by
  by_cases hmore : size > s.remaining
  · unfold skipped at herror
    rw [if_pos hmore] at herror
    cases herror
  · refine ⟨by omega, ?_⟩
    unfold skipped
    rw [if_neg hmore]
    change 8 * (s.current + size) + s.currentBit = 8 * s.current + s.currentBit + 8 * size
    omega

/-- What is skipped brings the cursor to the announced end, if the content has not passed it. -/
theorem skip_exact_iff {start stop t : InputStream} {announced : ℕ} (hstart : Consistent start)
    (hbit : start.currentBit = 0) (hstop : Good stop) (hmessage : stop.message = start.message)
    (hposition : position start ≤ position stop)
    (hroom : announced - (start.remaining - stop.remaining) ≤ stop.remaining)
    (ht : position t = position stop + 8 * (announced - (start.remaining - stop.remaining))) :
    position t = position start + 8 * announced ↔ Within start stop announced := by
  obtain ⟨hle, _, hcases⟩ := consumed_cases hstart hstop hmessage hposition
  have hbit' := hstop.last.1
  unfold Within
  rw [ht]
  unfold position
  obtain ⟨hcur, hsum⟩ | ⟨hzero, hbit0, hcur⟩ := hcases
  · omega
  · omega

/-- A read that has ended without an error has got past the look at the error flag. -/
theorem unlessError_passed {α : Type} {tail : Read α} {value a : α} {s t : InputStream}
    (h : (do if ← hasError then pure value else tail : Read α) s = .ok a t)
    (herror : t.errorOccurred = false) : s.errorOccurred = false ∧ tail s = .ok a t := by
  change (if s.errorOccurred = true then pure value else tail : Read α) s = _ at h
  split at h
  · cases h
    rename_i hbad
    rw [herror] at hbad
    cases hbad
  · exact ⟨by simpa using ‹¬ s.errorOccurred = true›, h⟩

section Structs
variable {α : Type} {s t : InputStream}

theorem readStructFields_ok {width itsSize : ℕ} {fields : Read α} {value : Option α}
    (hwidth : width ≠ 0) (h : readStructFields width itsSize fields s = .ok value t) :
    ∃ v stop, fields s = .ok v stop ∧
      t = if itsSize > wrapSub 64 s.remaining stop.remaining then
        skipped (itsSize - wrapSub 64 s.remaining stop.remaining) stop else stop := by
  unfold readStructFields at h
  rw [bind_ok (get_run s)] at h
  obtain ⟨v, stop, hfields, hrest⟩ := bind_eq_ok.1 h
  refine ⟨v, stop, hfields, ?_⟩
  rw [if_pos hwidth, bind_ok (get_run stop)] at hrest
  dsimp only at hrest
  split at hrest
  · rw [bind_ok (readRaw_run _ _)] at hrest
    cases hrest
    rw [if_pos ‹_›]
  · cases hrest
    rw [if_neg ‹_›]

theorem readStruct_exact_iff {fields : ℕ → Read α} (hfields : Decoder fields) {fuel : ℕ}
    {depl : Option StructDeployment} {value : Option α} (hs : Good s)
    (h : readStruct depl (fields fuel) s = .ok value t) (hc : AllCovered t.history)
    (herror : t.errorOccurred = false) (hwidth : (depl.map (·.structLengthWidth)).getD 0 ≠ 0) :
    ∃ announced start v stop,
      readWidth ((depl.map (·.structLengthWidth)).getD 0) true 0 (aligned s) =
        .ok announced start ∧
      fields fuel start = .ok v stop ∧
      (Exact s start t ((depl.map (·.structLengthWidth)).getD 0) announced ↔
        Within start stop announced) := by
  change (bitAlign >>= _) s = _ at h
  rw [bind_ok (bitAlign_run s)] at h
  obtain ⟨announced, start, hread, hrest⟩ := bind_eq_ok.1 h
  obtain ⟨hserr, htail⟩ := unlessError_passed hrest herror
  obtain ⟨v, stop, hrun, ht⟩ := readStructFields_ok hwidth htail
  have halign := aligned_run s
  have hcontent := hfields.run hrun
  have hskip : Run stop t := by
    rw [ht]
    split
    · exact skipped_run _ _
    · exact ⟨keeps_composes.refl _, advances_composes.refl _⟩
  have hcstop := hskip.covered hc
  have hcstart := hcontent.covered hcstop
  have hgstart := (readWidth_run hread).good
    (halign.good hs ((readWidth_run hread).covered hcstart)) hcstart
  have hgstop := hcontent.good hgstart hcstop
  have hsound := halign.advances.sound hs.sound
  obtain ⟨_, ⟨_, _, hstart, hheader, _⟩, _⟩ | ⟨_, hbad, _⟩ := readWidth_field hsound hwidth hread
  · refine ⟨announced, start, v, stop, hread, hrun, ?_⟩
    have hposition := hcontent.advances.position hgstart.sound
    have hmessage := hcontent.advances.message
    obtain ⟨_, hconsumed, _⟩ := consumed_cases hstart hgstop hmessage hposition
    rw [hconsumed] at ht
    have hend : announced - (start.remaining - stop.remaining) ≤ stop.remaining ∧
        position t = position stop + 8 * (announced - (start.remaining - stop.remaining)) := by
      split at ht
      · subst ht
        exact skipped_position _ _ herror
      · subst ht
        omega
    rw [← skip_exact_iff hstart (header_bit hstart hheader) hgstop hmessage hposition hend.1 hend.2]
    exact ⟨fun h => h.content, fun h => ⟨hheader, h⟩⟩
  · rw [hserr] at hbad
    cases hbad

end Structs

def FieldFits (width remaining : ℕ) : Prop := width = 0 ∨ (IsWidth width ∧ width ≤ remaining)

structure FieldCursor (a m : InputStream) (width : ℕ) : Prop where
  bit : m.currentBit = 0
  moved : (FieldFits width a.remaining ∧ position m = position a + 8 * width ∧
      m.remaining = a.remaining - width) ∨
    (¬ FieldFits width a.remaining ∧ position m = position a ∧ m.remaining = a.remaining)
  consistent : Consistent a ∨ (width ≠ 0 ∧ FieldFits width a.remaining) → Consistent m

theorem readWidth_cursor {width value n : ℕ} {permitZeroWidth : Bool} {a m : InputStream}
    (ha : Sound a) (hbit : a.currentBit = 0) (h : readWidth width permitZeroWidth value a = .ok n m) :
    FieldCursor a m width := by
  have hmessage := (readWidth_run h).advances.message
  have hsame : SameCursor a m → m.currentBit = 0 ∧ position m = position a ∧
      (Consistent a → Consistent m) := by
    rintro ⟨hcurrent, hbit', hremaining⟩
    refine ⟨hbit'.trans hbit, by unfold position; rw [hcurrent, hbit'], fun hc => ⟨?_, ?_, ?_⟩⟩
    · rw [hbit']
      exact hc.bit
    · rw [hcurrent, hremaining, hmessage]
      exact hc.inside
    · rw [hbit', hremaining]
      exact hc.pending
  by_cases hzero : width = 0
  · subst hzero
    have hm : SameCursor a m := by
      unfold readWidth at h
      cases permitZeroWidth <;> (cases h; exact ⟨rfl, rfl, rfl⟩)
    obtain ⟨hmbit, hposition, hcons⟩ := hsame hm
    exact ⟨hmbit, Or.inl ⟨Or.inl rfl, hposition, hm.remaining⟩,
      fun h => hcons (h.resolve_right fun hw => hw.1 rfl)⟩
  · obtain ⟨hw, hread, _⟩ | ⟨hno, _, hm⟩ := readWidth_field ha hzero h
    · have hmbit := hread.consistent.bit
      have hposition := hread.position
      refine ⟨?_, Or.inl ⟨Or.inr ⟨hw, hread.enough⟩, hposition, hread.remaining⟩,
        fun _ => hread.consistent⟩
      unfold position at hposition
      omega
    · obtain ⟨hmbit, hposition, hcons⟩ := hsame hm
      have hnofit : ¬ FieldFits width a.remaining := fun h => hno (h.resolve_left hzero)
      exact ⟨hmbit, Or.inr ⟨hnofit, hposition, hm.remaining⟩,
        fun h => hcons (h.resolve_right fun hfit => hnofit hfit.2)⟩

def HeaderFits (first second remaining : ℕ) : Prop :=
  (first = 0 ∨ IsWidth first) ∧ (second = 0 ∨ IsWidth second) ∧ first + second ≤ remaining

theorem headerFits_comm (first second remaining : ℕ) :
    HeaderFits first second remaining ↔ HeaderFits second first remaining := by
  unfold HeaderFits IsWidth
  omega

theorem header_position_iff {a m start : InputStream} {first second : ℕ}
    (h1 : FieldCursor a m first) (h2 : FieldCursor m start second) :
    (position start = position a + 8 * (first + second) ↔ HeaderFits first second a.remaining) ∧
      (first ≠ 0 ∨ second ≠ 0 → HeaderFits first second a.remaining → Consistent start) := by
  have hfits : HeaderFits first second a.remaining ↔
      FieldFits first a.remaining ∧ FieldFits second (a.remaining - first) := by
    unfold HeaderFits FieldFits IsWidth
    omega
  rw [hfits]
  have hzero : ∀ width remaining, ¬ FieldFits width remaining → width ≠ 0 :=
    fun _ _ h hw => h (Or.inl hw)
  obtain ⟨hfit1, hpos1, hrem1⟩ | ⟨hno1, hpos1, hrem1⟩ := h1.moved
  · rw [← hrem1]
    refine ⟨?_, fun hne hboth => h2.consistent ?_⟩
    · obtain ⟨hfit2, hpos2, _⟩ | ⟨hno2, hpos2, _⟩ := h2.moved
      · exact ⟨fun _ => ⟨hfit1, hfit2⟩, fun _ => by omega⟩
      · have hne := hzero _ _ hno2
        exact ⟨fun h => by omega, fun h => absurd h.2 hno2⟩
    · by_cases hfirst : first = 0
      · exact Or.inr ⟨hne.resolve_left (not_not_intro hfirst), hboth.2⟩
      · exact Or.inl (h1.consistent (Or.inr ⟨hfirst, hfit1⟩))
  · have hne := hzero _ _ hno1
    refine ⟨⟨fun h => ?_, fun h => absurd h.1 hno1⟩, fun _ h => absurd h.1 hno1⟩
    obtain ⟨_, hpos2, _⟩ | ⟨_, hpos2, _⟩ := h2.moved <;> omega

theorem readUnionHeader_run {unionDefaultOrder : Bool} {unionLengthWidth unionTypeWidth : ℕ}
    {uninitialised header : ℕ × ℕ} {a start : InputStream}
    (h : readUnionHeader unionDefaultOrder unionLengthWidth unionTypeWidth uninitialised a =
      .ok header start) : Run a start :=
  ⟨(respects_readUnionHeader keeps_primitives.headers _ _ _ _).ok h,
    (respects_readUnionHeader advances_primitives.headers _ _ _ _).ok h⟩

theorem readUnionHeader_position {unionDefaultOrder : Bool} {unionLengthWidth unionTypeWidth : ℕ}
    {uninitialised header : ℕ × ℕ} {a start : InputStream} (ha : Sound a) (hbit : a.currentBit = 0)
    (hwidth : unionLengthWidth ≠ 0)
    (h : readUnionHeader unionDefaultOrder unionLengthWidth unionTypeWidth uninitialised a =
      .ok header start) :
    start.currentBit = 0 ∧
      (position start = position a + 8 * (unionLengthWidth + unionTypeWidth) ↔
        HeaderFits unionLengthWidth unionTypeWidth a.remaining) ∧
      (HeaderFits unionLengthWidth unionTypeWidth a.remaining → Consistent start) := by
  unfold readUnionHeader at h
  split at h
  · obtain ⟨itsSize, m, hsize, hrest⟩ := bind_eq_ok.1 h
    obtain ⟨itsType, n, htype, hpure⟩ := bind_eq_ok.1 hrest
    cases hpure
    have h1 := readWidth_cursor ha hbit hsize
    have h2 := readWidth_cursor ((readWidth_run hsize).advances.sound ha) h1.bit htype
    obtain ⟨hiff, hcons⟩ := header_position_iff h1 h2
    exact ⟨h2.bit, hiff, hcons (Or.inl hwidth)⟩
  · obtain ⟨itsType, m, htype, hrest⟩ := bind_eq_ok.1 h
    obtain ⟨itsSize, n, hsize, hpure⟩ := bind_eq_ok.1 hrest
    cases hpure
    have h1 := readWidth_cursor ha hbit htype
    have h2 := readWidth_cursor ((readWidth_run htype).advances.sound ha) h1.bit hsize
    obtain ⟨hiff, hcons⟩ := header_position_iff h1 h2
    rw [headerFits_comm, Nat.add_comm unionLengthWidth]
    exact ⟨h2.bit, hiff, hcons (Or.inr hwidth)⟩

section Variants
variable {α : Type} {s t : InputStream}

theorem visitAlternative_run {alternatives : List (ℕ → Read α)}
    (halternatives : ∀ d ∈ alternatives, Decoder d) {fuel valueType : ℕ} {value : Option α}
    (h : visitAlternative (alternatives.map fun d => d fuel) valueType s = .ok value t) :
    Run s t := by
  have hrespects : ∀ {R F}, Primitives R F →
      ∀ d ∈ alternatives.map (fun d => d fuel), Respects R F d := by
    intro R F hp d hd
    obtain ⟨e, he, rfl⟩ := List.mem_map.1 hd
    exact Decoder.respects hp (halternatives e he) fuel
  exact ⟨(respects_visitAlternative keeps_primitives.headers (hrespects keeps_primitives) _).ok h,
    (respects_visitAlternative advances_primitives.headers (hrespects advances_primitives) _).ok h⟩

theorem readAlternative_run {announced itsType : ℕ} {alternatives : List (Read α)} {v : Option α}
    {stop : InputStream}
    (hvisit : visitAlternative alternatives (valueTypeOf alternatives.length itsType) s = .ok v stop) :
    readAlternative announced itsType alternatives s =
      .ok (valueTypeOf alternatives.length itsType, v)
        (if announced < wrapSub 64 s.remaining stop.remaining then raised stop
        else if stop.errorOccurred = true then stop
        else skipped (announced - wrapSub 64 s.remaining stop.remaining) stop) := by
  unfold readAlternative
  rw [bind_ok (get_run s)]
  dsimp only
  rw [bind_ok hvisit, bind_ok (get_run stop)]
  by_cases hover : announced < wrapSub 64 s.remaining stop.remaining
  · have hpadding : paddingCount announced (wrapSub 64 s.remaining stop.remaining) = none :=
      if_pos hover
    rw [hpadding, if_pos hover]
    exact bind_ok (raise_run stop)
  · have hpadding : paddingCount announced (wrapSub 64 s.remaining stop.remaining) =
        some (announced - wrapSub 64 s.remaining stop.remaining) := if_neg hover
    rw [hpadding, if_neg hover]
    refine @bind_ok _ _ _ _ _ _ _ _ ⟨⟩ ?_
    change (if (!stop.errorOccurred) = true then readRaw _ >>= fun _ => pure ⟨⟩ else pure ⟨⟩ :
      Read Unit) stop = _
    cases stop.errorOccurred with
    | true => rfl
    | false => exact bind_ok (readRaw_run _ _)

theorem readAlternative_ok {announced itsType : ℕ} {alternatives : List (Read α)}
    {value : ℕ × Option α} (h : readAlternative announced itsType alternatives s = .ok value t)
    (herror : t.errorOccurred = false) :
    ∃ v stop, visitAlternative alternatives (valueTypeOf alternatives.length itsType) s = .ok v stop ∧
      wrapSub 64 s.remaining stop.remaining ≤ announced ∧
      t = skipped (announced - wrapSub 64 s.remaining stop.remaining) stop := by
  have hbind := h
  unfold readAlternative at hbind
  rw [bind_ok (get_run s)] at hbind
  obtain ⟨v, stop, hvisit, _⟩ := bind_eq_ok.1 hbind
  refine ⟨v, stop, hvisit, ?_⟩
  rw [readAlternative_run hvisit] at h
  cases h
  split at herror
  · cases herror
  · rename_i hover
    split at herror
    · rename_i hbad
      rw [herror] at hbad
      cases hbad
    · rename_i hquiet
      rw [if_neg hover, if_neg hquiet]
      exact ⟨by omega, rfl⟩

theorem readVariant_exact_iff {alternatives : List (ℕ → Read α)}
    (halternatives : ∀ d ∈ alternatives, Decoder d) {fuel : ℕ} {uninitialised : ℕ × ℕ}
    {depl : Option VariantDeployment} {value : ℕ × Option α} (hs : Good s)
    (h : readVariant uninitialised depl (alternatives.map fun d => d fuel) s = .ok value t)
    (hc : AllCovered t.history) (herror : t.errorOccurred = false)
    (hwidth : (depl.map (·.unionLengthWidth)).getD 4 ≠ 0) :
    ∃ header start v stop,
      readUnionHeader ((depl.map (·.unionDefaultOrder)).getD true)
        ((depl.map (·.unionLengthWidth)).getD 4) ((depl.map (·.unionTypeWidth)).getD 4)
        uninitialised (aligned s) = .ok header start ∧
      visitAlternative (alternatives.map fun d => d fuel)
        (valueTypeOf alternatives.length header.2) start = .ok v stop ∧
      (Exact s start t ((depl.map (·.unionLengthWidth)).getD 4 +
          (depl.map (·.unionTypeWidth)).getD 4) header.1 ↔
        HeaderFits ((depl.map (·.unionLengthWidth)).getD 4)
          ((depl.map (·.unionTypeWidth)).getD 4) (aligned s).remaining ∧
        Within start stop header.1) := by
  change (bitAlign >>= _) s = _ at h
  rw [bind_ok (bitAlign_run s)] at h
  obtain ⟨header, start, hread, hrest⟩ := bind_eq_ok.1 h
  obtain ⟨itsSize, itsType⟩ := header
  have htail : readAlternative itsSize itsType (alternatives.map fun d => d fuel) start =
      .ok value t := by
    by_cases htype : itsType = 0
    · dsimp only at hrest
      rw [if_pos htype, bind_ok (raise_run start)] at hrest
      have hbad := (unlessError_passed hrest herror).1
      cases hbad
    · dsimp only at hrest
      rw [if_neg htype, if_pos hwidth] at hrest
      exact (unlessError_passed hrest herror).2
  obtain ⟨v, stop, hvisit, hle, ht⟩ := readAlternative_ok htail herror
  rw [List.length_map] at hvisit
  refine ⟨(itsSize, itsType), start, v, stop, hread, hvisit, ?_⟩
  have halign := aligned_run s
  have hsound := halign.advances.sound hs.sound
  obtain ⟨hbit, hheader, hcons⟩ := readUnionHeader_position hsound (aligned_bit s) hwidth hread
  have hcontent := visitAlternative_run halternatives hvisit
  have hskip : Run stop t := by
    rw [ht]
    exact skipped_run _ _
  have hcstop := hskip.covered hc
  have hcstart := hcontent.covered hcstop
  have hhead := readUnionHeader_run hread
  have hgstart := hhead.good (halign.good hs (hhead.covered hcstart)) hcstart
  have hgstop := hcontent.good hgstart hcstop
  have hposition := hcontent.advances.position hgstart.sound
  have hmessage := hcontent.advances.message
  by_cases hfits : HeaderFits ((depl.map (·.unionLengthWidth)).getD 4)
      ((depl.map (·.unionTypeWidth)).getD 4) (aligned s).remaining
  · have hstart := hcons hfits
    obtain ⟨_, hconsumed, _⟩ := consumed_cases hstart hgstop hmessage hposition
    rw [hconsumed] at ht
    have hend := skipped_position stop
      (itsSize - (start.remaining - stop.remaining)) (ht ▸ herror)
    rw [← ht] at hend
    rw [← skip_exact_iff hstart hbit hgstop hmessage hposition hend.1 hend.2]
    exact ⟨fun h => ⟨hfits, h.content⟩, fun h => ⟨hheader.2 hfits, h.2⟩⟩
  · exact ⟨fun h => absurd (hheader.1 h.header) hfits, fun h => absurd h.1 hfits⟩

end Variants

theorem Good.remaining_le {s t : InputStream} (hs : Good s) (ht : Good t) (h : Advances s t) :
    t.remaining ≤ s.remaining := by
  have hposition := h.position hs.sound
  have hbit := ht.last.1
  unfold position at hposition
  obtain ⟨_, hpay | ⟨hzero, _, _, _⟩⟩ := ht.last
  · have hsum := hpay.1
    rw [h.message] at hsum
    obtain ⟨_, hpay' | ⟨hzero', hbit', hcur', _⟩⟩ := hs.last
    · have hsum' := hpay'.1
      omega
    · omega
  · omega

section Loops
variable {γ : Type} {lengthWidth maxLength : ℕ} {size : γ → ℕ} {read : γ → Read (Option γ)}

theorem readElements_run (hkeeps : ∀ value, Respects Keeps KeepsHalt (read value))
    (hforward : ∀ value, Forward (read value)) {fuel itsSize : ℕ} {value : γ} {s t : InputStream}
    {result : ℕ × γ}
    (h : readElements lengthWidth maxLength size read fuel itsSize value s = .ok result t) :
    Run s t :=
  ⟨(respects_readElements keeps_primitives.headers keeps_primitives.fuel _ _ _ hkeeps fuel _ _).ok h,
    (readElements_forward _ _ _ hforward fuel _ _).ok h⟩

/-- The count that is left is what was announced less what was consumed, modulo 2 ^ 32. -/
theorem readElements_consumed (hwidth : lengthWidth ≠ 0)
    (hkeeps : ∀ value, Respects Keeps KeepsHalt (read value))
    (hforward : ∀ value, Forward (read value))
    (hnone : ∀ value s t, read value s = .ok none t → t.errorOccurred = true)
    {fuel itsSize rest : ℕ} {value value' : γ} {s t : InputStream} (hs : Good s)
    (hsize : itsSize < 2 ^ 32)
    (h : readElements lengthWidth maxLength size read fuel itsSize value s = .ok (rest, value') t)
    (hc : AllCovered t.history) (herror : t.errorOccurred = false) :
    t.remaining ≤ s.remaining ∧ (rest + (s.remaining - t.remaining)) % 2 ^ 32 = itsSize := by
  induction fuel generalizing itsSize value s with
  | zero =>
    rw [readElements] at h
    split at h
    · cases h
    · cases h
      refine ⟨le_rfl, ?_⟩
      rw [Nat.sub_self, Nat.add_zero, Nat.mod_eq_of_lt hsize]
  | succ fuel ih =>
    rw [readElements] at h
    split at h
    · rw [bind_ok (get_run s)] at h
      obtain ⟨result, m, hread, hrest⟩ := bind_eq_ok.1 h
      cases result with
      | none =>
        cases hrest
        rw [hnone _ _ _ hread] at herror
        cases herror
      | some next =>
        have hrest : readElements lengthWidth maxLength size read fuel
            (wrapSub 32 itsSize (wrapSub 64 s.remaining m.remaining)) next m =
              .ok (rest, value') t := hrest
        have hm : Run s m := ⟨(hkeeps value).ok hread, (hforward value).ok hread⟩
        have hgm := hm.good hs ((readElements_run hkeeps hforward hrest).covered hc)
        have hle := hs.remaining_le hgm hm.advances
        have hfits := s.message.fits
        have hbound : s.remaining ≤ s.message.body.length := hs.last.safe.remaining
        rw [wrapSub_of_le hle (by omega)] at hrest
        obtain ⟨hle', hmod⟩ := ih hgm (Nat.mod_lt _ (by decide)) hrest
        have hdef : wrapSub 32 itsSize (s.remaining - m.remaining) =
          (itsSize + (2 ^ 32 - (s.remaining - m.remaining) % 2 ^ 32)) % 2 ^ 32 := rfl
        omega
    · cases h
      refine ⟨le_rfl, ?_⟩
      rw [Nat.sub_self, Nat.add_zero, Nat.mod_eq_of_lt hsize]

def readRow (read : γ → Read (Option γ)) : ℕ → γ → Read (Option γ)
  | 0, value => pure (some value)
  | n + 1, value => do
    match ← read value with
    | none => pure none
    | some value => readRow read n value

/-- The shortest row of elements that takes as many bytes as are announced ends in `stop`. -/
structure RowTakes (read : γ → Read (Option γ)) (value : γ) (start : InputStream) (announced : ℕ)
    (stop : InputStream) : Prop where
  row : ∃ n values, readRow read n value start = .ok (some values) stop ∧
    ∀ m < n, ∃ values mid, readRow read m value start = .ok (some values) mid ∧
      start.remaining < mid.remaining + announced
  taken : stop.remaining + announced = start.remaining

theorem RowTakes.unique {value : γ} {start stop stop' : InputStream} {announced : ℕ}
    (h : RowTakes read value start announced stop) (h' : RowTakes read value start announced stop') :
    stop = stop' := by
  obtain ⟨⟨n, values, hrow, hshort⟩, htaken⟩ := h
  obtain ⟨⟨n', values', hrow', hshort'⟩, htaken'⟩ := h'
  obtain hlt | rfl | hgt := lt_trichotomy n n'
  · obtain ⟨_, mid, hmid, hless⟩ := hshort' n hlt
    cases hrow.symm.trans hmid
    omega
  · cases hrow.symm.trans hrow'
    rfl
  · obtain ⟨_, mid, hmid, hless⟩ := hshort n' hgt
    cases hrow'.symm.trans hmid
    omega

/-- A loop that has used up its count has read the shortest row that takes what was announced:
    it has not gone past the announced end, and its count has not wrapped. -/
theorem readElements_row (hwidth : lengthWidth ≠ 0)
    (hkeeps : ∀ value, Respects Keeps KeepsHalt (read value))
    (hforward : ∀ value, Forward (read value))
    (hnone : ∀ value s t, read value s = .ok none t → t.errorOccurred = true)
    {fuel itsSize : ℕ} {value value' : γ} {s t : InputStream} (hs : Good s) (hsize : itsSize < 2 ^ 32)
    (h : readElements lengthWidth maxLength size read fuel itsSize value s = .ok (0, value') t)
    (hc : AllCovered t.history) (herror : t.errorOccurred = false) :
    RowTakes read value s itsSize t := by
  have hfits := s.message.fits
  have hbound : s.remaining ≤ s.message.body.length := hs.last.safe.remaining
  obtain ⟨hle, hmod⟩ := readElements_consumed hwidth hkeeps hforward hnone hs hsize h hc herror
  have htaken : t.remaining + itsSize = s.remaining := by
    rw [Nat.zero_add, Nat.mod_eq_of_lt (by omega)] at hmod
    omega
  refine ⟨?_, htaken⟩
  clear hmod
  induction fuel generalizing itsSize value s with
  | zero =>
    rw [readElements] at h
    split at h
    · cases h
    · cases h
      exact ⟨0, _, rfl, fun m hm => absurd hm (Nat.not_lt_zero m)⟩
  | succ fuel ih =>
    rw [readElements] at h
    split at h
    · rename_i hmore
      rw [bind_ok (get_run s)] at h
      obtain ⟨result, m, hread, hrest⟩ := bind_eq_ok.1 h
      cases result with
      | none =>
        cases hrest
        rw [hnone _ _ _ hread] at herror
        cases herror
      | some next =>
        have hrest : readElements lengthWidth maxLength size read fuel
            (wrapSub 32 itsSize (wrapSub 64 s.remaining m.remaining)) next m = .ok (0, value') t := hrest
        have hm : Run s m := ⟨(hkeeps value).ok hread, (hforward value).ok hread⟩
        have hloop := readElements_run hkeeps hforward hrest
        have hgm := hm.good hs (hloop.covered hc)
        have hsm := hs.remaining_le hgm hm.advances
        have hmt := hgm.remaining_le (hloop.good hgm hc) hloop.advances
        have hpos : 0 < itsSize := by omega
        rw [wrapSub_of_le hsm (by omega), wrapSub_of_le (by omega) hsize] at hrest
        obtain ⟨n, values, hrow, hshort⟩ := ih hgm (by omega) hrest (hm.advances.message ▸ hfits)
          hgm.last.safe.remaining hmt (by omega)
        refine ⟨n + 1, values, (bind_ok hread).trans hrow, fun k hk => ?_⟩
        cases k with
        | zero => exact ⟨value, s, rfl, by omega⟩
        | succ k =>
          obtain ⟨values', mid, hmid, hless⟩ := hshort k (by omega)
          exact ⟨values', mid, (bind_ok hread).trans hmid, by omega⟩
    · cases h
      exact ⟨0, _, rfl, fun m hm => absurd hm (Nat.not_lt_zero m)⟩

/-- The cursor is at a byte boundary and not behind the payload. -/
def AtByte (s : InputStream) : Prop := s.currentBit = 0 ∧ s.current ≤ s.message.body.length

/-- A row that takes the announced bytes ends where they end, if it ends with a byte of the payload. -/
theorem row_exact_iff (hwidth : lengthWidth ≠ 0)
    (hkeeps : ∀ value, Respects Keeps KeepsHalt (read value))
    (hforward : ∀ value, Forward (read value))
    (hnone : ∀ value s t, read value s = .ok none t → t.errorOccurred = true)
    {fuel announced : ℕ} {value value' : γ} {start stop : InputStream} (hstart : Consistent start)
    (hbit : start.currentBit = 0) (hgood : Good start) (hsize : announced < 2 ^ 32)
    (h : readElements lengthWidth maxLength size read fuel announced value start =
      .ok (0, value') stop)
    (hc : AllCovered stop.history) (herror : stop.errorOccurred = false) :
    RowTakes read value start announced stop ∧
      (position stop = position start + 8 * announced ↔ AtByte stop) := by
  have hrow := readElements_row hwidth hkeeps hforward hnone hgood hsize h hc herror
  have hrun := readElements_run hkeeps hforward h
  refine ⟨hrow, ?_⟩
  have htaken := hrow.taken
  have hin := hstart.inside
  have hmessage := hrun.advances.message
  have hbit' := (hrun.good hgood hc).last.1
  unfold AtByte position
  rw [hmessage]
  obtain ⟨_, hpay | ⟨hzero, hbit0, hcur, _⟩⟩ := (hrun.good hgood hc).last
  · have hsum := hpay.1
    rw [hmessage] at hsum
    omega
  · rw [hmessage] at hcur
    omega

end Loops

theorem checkLength_ok {lengthWidth minLength maxLength itsSize size : ℕ} {s t : InputStream}
    (hwidth : lengthWidth ≠ 0)
    (h : checkLength lengthWidth minLength maxLength itsSize size s = .ok ⟨⟩ t)
    (herror : t.errorOccurred = false) : itsSize = 0 ∧ t = s := by
  unfold checkLength at h
  rw [if_pos hwidth] at h
  split_ifs at h <;> cases h <;> first | cases herror | skip
  refine ⟨?_, rfl⟩
  omega

/-- What is given back without a value leaves the error flag set. -/
theorem unlessError_none {α : Type} {tail : Read (Option α)} {s t : InputStream}
    (htail : ∀ t, tail s = .ok none t → t.errorOccurred = true)
    (h : (do if ← hasError then pure none else tail : Read (Option α)) s = .ok none t) :
    t.errorOccurred = true := by
  change (if s.errorOccurred = true then pure none else tail : Read (Option α)) s = _ at h
  split at h
  · cases h
    assumption
  · exact htail t h

theorem pushElement_none {α : Type} {element : Read α} (value : List α) (s t : InputStream)
    (h : pushElement element value s = .ok none t) : t.errorOccurred = true := by
  obtain ⟨a, m, _, hrest⟩ := bind_eq_ok.1 h
  exact unlessError_none (fun _ hpure => by cases hpure) hrest

theorem readEntry_none {κ ν : Type} [DecidableEq κ] {key : Read κ} {mapped : Read ν}
    (value : List (κ × ν)) (s t : InputStream) (h : readEntry key mapped value s = .ok none t) :
    t.errorOccurred = true := by
  obtain ⟨k, m, _, hrest⟩ := bind_eq_ok.1 h
  refine unlessError_none (fun u hu => ?_) hrest
  obtain ⟨a, w, _, hlast⟩ := bind_eq_ok.1 hu
  exact unlessError_none (fun _ hpure => by cases hpure) hlast

section Containers
variable {α κ ν : Type} [DecidableEq κ] {s t : InputStream} {fuel : ℕ}

/-- The header of a container that has ended without an error, and the invariant behind it. -/
theorem header_read {width announced : ℕ} {start : InputStream} (hs : Good s) (hwidth : width ≠ 0)
    (hread : readWidth width true 0 (aligned s) = .ok announced start)
    (herror : start.errorOccurred = false) (hc : AllCovered start.history) :
    Good start ∧ Consistent start ∧ start.currentBit = 0 ∧ announced < 2 ^ 32 ∧
      position start = position (aligned s) + 8 * width := by
  have halign := aligned_run s
  have hgood := (readWidth_run hread).good
    (halign.good hs ((readWidth_run hread).covered hc)) hc
  obtain ⟨_, hfield, hlt⟩ | ⟨_, hbad, _⟩ :=
    readWidth_field (halign.advances.sound hs.sound) hwidth hread
  · exact ⟨hgood, hfield.consistent, header_bit hfield.consistent hfield.position, hlt,
      hfield.position⟩
  · rw [herror] at hbad
    cases hbad

theorem readVector_exact_iff {element : ℕ → Read α} (helement : Decoder element)
    {depl : Option ArrayDeployment} {value : List α} (hs : Good s)
    (h : readVector fuel depl (element fuel) s = .ok value t) (hc : AllCovered t.history)
    (herror : t.errorOccurred = false) (hwidth : (depl.map (·.arrayLengthWidth)).getD 4 ≠ 0) :
    ∃ announced start stop,
      readWidth ((depl.map (·.arrayLengthWidth)).getD 4) true 0 (aligned s) =
        .ok announced start ∧
      RowTakes (pushElement (element fuel)) [] start announced stop ∧
      (Exact s start t ((depl.map (·.arrayLengthWidth)).getD 4) announced ↔ AtByte stop) := by
  change (bitAlign >>= _) s = _ at h
  rw [bind_ok (bitAlign_run s)] at h
  obtain ⟨announced, start, hread, hrest⟩ := bind_eq_ok.1 h
  obtain ⟨hserr, htail⟩ := unlessError_passed hrest herror
  obtain ⟨⟨rest, v⟩, stop, hloop, hcheck⟩ := bind_eq_ok.1 htail
  obtain ⟨_, u, hcheck, hpure⟩ := bind_eq_ok.1 hcheck
  cases hpure
  obtain ⟨rfl, rfl⟩ := checkLength_ok hwidth hcheck herror
  have hkeeps := respects_pushElement keeps_primitives.headers
    (Decoder.respects keeps_primitives helement fuel)
  have hforward := respects_pushElement advances_primitives.headers (helement.forward fuel)
  obtain ⟨hgood, hcons, hbit, hlt, hheader⟩ := header_read hs hwidth hread hserr
    ((readElements_run hkeeps hforward hloop).covered hc)
  obtain ⟨hrow, hiff⟩ := row_exact_iff hwidth hkeeps hforward pushElement_none hcons hbit hgood hlt hloop hc herror
  exact ⟨announced, start, _, hread, hrow, fun h => hiff.1 h.content, fun h => ⟨hheader, hiff.2 h⟩⟩

theorem readMap_exact_iff {key : ℕ → Read κ} {mapped : ℕ → Read ν} (hkey : Decoder key)
    (hmapped : Decoder mapped) {depl : Option MapDeployment} {value : List (κ × ν)} (hs : Good s)
    (h : readMap fuel depl (key fuel) (mapped fuel) s = .ok value t) (hc : AllCovered t.history)
    (herror : t.errorOccurred = false) (hwidth : (depl.map (·.mapLengthWidth)).getD 4 ≠ 0) :
    ∃ announced start stop,
      readWidth ((depl.map (·.mapLengthWidth)).getD 4) true 0 (aligned s) =
        .ok announced start ∧
      RowTakes (readEntry (key fuel) (mapped fuel)) [] start announced stop ∧
      (Exact s start t ((depl.map (·.mapLengthWidth)).getD 4) announced ↔ AtByte stop) := by
  change (bitAlign >>= _) s = _ at h
  rw [bind_ok (bitAlign_run s)] at h
  obtain ⟨announced, start, hread, hrest⟩ := bind_eq_ok.1 h
  obtain ⟨⟨rest, v⟩, stop, hentries, hcheck⟩ := bind_eq_ok.1 hrest
  obtain ⟨_, u, hcheck, hpure⟩ := bind_eq_ok.1 hcheck
  cases hpure
  obtain ⟨rfl, rfl⟩ := checkLength_ok hwidth hcheck herror
  obtain ⟨hserr, hloop⟩ := unlessError_passed hentries herror
  have hkeeps := respects_readEntry keeps_primitives.headers
    (Decoder.respects keeps_primitives hkey fuel) (Decoder.respects keeps_primitives hmapped fuel)
  have hforward := respects_readEntry advances_primitives.headers (hkey.forward fuel) (hmapped.forward fuel)
  obtain ⟨hgood, hcons, hbit, hlt, hheader⟩ := header_read hs hwidth hread hserr
    ((readElements_run hkeeps hforward hloop).covered hc)
  obtain ⟨hrow, hiff⟩ := row_exact_iff hwidth hkeeps hforward readEntry_none hcons hbit hgood hlt hloop hc herror
  exact ⟨announced, start, _, hread, hrow, fun h => hiff.1 h.content, fun h => ⟨hheader, hiff.2 h⟩⟩

theorem readMapEmpty_exact_iff {key : ℕ → Read κ} {mapped : ℕ → Read ν} (hkey : Decoder key)
    (hmapped : Decoder mapped) {value : List (κ × ν)} (hs : Good s)
    (h : readMapEmpty fuel (key fuel) (mapped fuel) s = .ok value t) (hc : AllCovered t.history)
    (herror : t.errorOccurred = false) :
    ∃ announced start stop, readWidth 4 true 0 (aligned s) = .ok announced start ∧
      RowTakes (readEntry (key fuel) (mapped fuel)) [] start announced stop ∧
      (Exact s start t 4 announced ↔ AtByte stop) := by
  change (bitAlign >>= _) s = _ at h
  rw [bind_ok (bitAlign_run s)] at h
  obtain ⟨announced, start, hread, hrest⟩ := bind_eq_ok.1 h
  obtain ⟨⟨rest, v⟩, stop, hloop, hend⟩ := bind_eq_ok.1 hrest
  have hstop : rest = 0 ∧ t = stop := by
    by_cases hrest : rest = 0
    · subst hrest
      cases hend
      exact ⟨rfl, rfl⟩
    · dsimp only at hend
      rw [if_pos hrest, bind_ok (raise_run stop)] at hend
      cases hend
      cases herror
  obtain ⟨rfl, rfl⟩ := hstop
  have hserr : start.errorOccurred = false := by
    cases hbad : start.errorOccurred with
    | false => rfl
    | true =>
      rw [assignBits_error hread hbad, readElements_done fuel (by simp)] at hloop
      cases hloop
      rw [herror] at hbad
      cases hbad
  have hkeeps := respects_readEntry keeps_primitives.headers
    (Decoder.respects keeps_primitives hkey fuel) (Decoder.respects keeps_primitives hmapped fuel)
  have hforward := respects_readEntry advances_primitives.headers (hkey.forward fuel) (hmapped.forward fuel)
  have hread : readWidth 4 true 0 (aligned s) = .ok announced start := hread
  obtain ⟨hgood, hcons, hbit, hlt, hheader⟩ := header_read hs (by decide) hread hserr
    ((readElements_run hkeeps hforward hloop).covered hc)
  obtain ⟨hrow, hiff⟩ := row_exact_iff (by decide) hkeeps hforward readEntry_none hcons hbit hgood hlt hloop hc herror
  exact ⟨announced, start, _, hread, hrow, fun h => hiff.1 h.content, fun h => ⟨hheader, hiff.2 h⟩⟩

theorem readByteVector_exact {depl : Option ArrayDeployment} {value : List Byte} (hs : Good s)
    (h : readByteVector depl s = .ok value t) (hc : AllCovered t.history)
    (herror : t.errorOccurred = false) (hwidth : (depl.map (·.arrayLengthWidth)).getD 4 ≠ 0) :
    ∃ announced start,
      readWidth ((depl.map (·.arrayLengthWidth)).getD 4) true 0 (aligned s) =
        .ok announced start ∧
      Exact s start t ((depl.map (·.arrayLengthWidth)).getD 4) announced := by
  change (bitAlign >>= _) s = _ at h
  rw [bind_ok (bitAlign_run s)] at h
  obtain ⟨announced, start, hread, hrest⟩ := bind_eq_ok.1 h
  unfold readByteCount at hread
  rw [if_pos hwidth] at hread
  refine ⟨announced, start, hread, ?_⟩
  have hguard := guarded_run ([] : List Byte)
    (readRaw announced >>= fun base => dereferenceRange base announced)
    (fun s => ((depl.map (·.arrayLengthWidth)).getD 4 > 0 ∧
      (announced < (depl.map (·.arrayMinLength)).getD 0 ∨
        ((depl.map (·.arrayMaxLength)).getD 0xFFFFFFFF ≠ 0 ∧
          announced > (depl.map (·.arrayMaxLength)).getD 0xFFFFFFFF))) ∨
      announced > s.remaining) start
  have hrun := hguard.symm.trans hrest
  split at hrun
  · cases hrun
    cases herror
  · split at hrun
    · cases hrun
      rename_i hbad
      rw [herror] at hbad
      cases hbad
    · rename_i hserr
      rw [readBytes_run] at hrun
      split at hrun
      · cases hrun
        obtain ⟨_, hposition⟩ := skipped_position _ _ herror
        have hcstart := (skipped_run announced start).covered hc
        obtain ⟨_, _, _, _, hheader⟩ := header_read hs hwidth hread (by simpa using hserr) hcstart
        exact ⟨hheader, hposition⟩
      · cases hrun

end Containers

/-- A stream that some program of reads has reached. -/
def Reached (s : InputStream) : Prop :=
  ∃ (message : Message) (isLittleEndian : Bool) (α : Type) (r : Read α) (a : α),
    ReadOp r ∧ r (create message isLittleEndian) = .ok a s

theorem Reached.good {s : InputStream} (hs : Reached s) (hc : AllCovered s.history) : Good s := by
  obtain ⟨message, isLittleEndian, α, r, a, hr, hrun⟩ := hs
  exact ((hr.respects keeps_primitives).ok hrun).good hc (create_good message isLittleEndian)

theorem Decoder.extends_history {α : Type} {d : ℕ → Read α} (hd : Decoder d) {fuel : ℕ}
    {s t : InputStream} {a : α} (h : d fuel s = .ok a t) : s.history <:+ t.history :=
  (hd.run h).keeps.extends_history

/-- A read with a length field that ends without an error has consumed just what was
    announced: a struct or a union if and only if its content ends at a byte boundary and not
    behind the announced end, and for a union both header fields have been there; a vector or a
    map if and only if the row of elements that takes the announced bytes ends with a byte. -/
theorem declared_length_exact_iff {α κ ν : Type} [DecidableEq κ] {content : ℕ → Read α}
    {key : ℕ → Read κ} {mapped : ℕ → Read ν} {alternatives : List (ℕ → Read α)}
    (hcontent : Decoder content) (hkey : Decoder key) (hmapped : Decoder mapped)
    (halternatives : ∀ d ∈ alternatives, Decoder d) (fuel : ℕ) {s t : InputStream}
    (hs : Reached s) (hc : AllCovered t.history) (herror : t.errorOccurred = false) :
    (∀ (depl : Option StructDeployment) value,
      (depl.map (·.structLengthWidth)).getD 0 ≠ 0 →
      readStruct depl (content fuel) s = .ok value t →
      ∃ announced start v stop,
        readWidth ((depl.map (·.structLengthWidth)).getD 0) true 0 (aligned s) =
          .ok announced start ∧
        content fuel start = .ok v stop ∧
        (Exact s start t ((depl.map (·.structLengthWidth)).getD 0) announced ↔
          Within start stop announced)) ∧
    (∀ uninitialised (depl : Option VariantDeployment) value,
      (depl.map (·.unionLengthWidth)).getD 4 ≠ 0 →
      readVariant uninitialised depl (alternatives.map fun d => d fuel) s = .ok value t →
      ∃ header start v stop,
        readUnionHeader ((depl.map (·.unionDefaultOrder)).getD true)
          ((depl.map (·.unionLengthWidth)).getD 4) ((depl.map (·.unionTypeWidth)).getD 4)
          uninitialised (aligned s) = .ok header start ∧
        visitAlternative (alternatives.map fun d => d fuel)
          (valueTypeOf alternatives.length header.2) start = .ok v stop ∧
        (Exact s start t ((depl.map (·.unionLengthWidth)).getD 4 +
            (depl.map (·.unionTypeWidth)).getD 4) header.1 ↔
          HeaderFits ((depl.map (·.unionLengthWidth)).getD 4)
            ((depl.map (·.unionTypeWidth)).getD 4) (aligned s).remaining ∧
          Within start stop header.1)) ∧
    (∀ (depl : Option ArrayDeployment) value, (depl.map (·.arrayLengthWidth)).getD 4 ≠ 0 →
      readVector fuel depl (content fuel) s = .ok value t →
      ∃ announced start stop,
        readWidth ((depl.map (·.arrayLengthWidth)).getD 4) true 0 (aligned s) =
          .ok announced start ∧
        RowTakes (pushElement (content fuel)) [] start announced stop ∧
        (Exact s start t ((depl.map (·.arrayLengthWidth)).getD 4) announced ↔ AtByte stop)) ∧
    (∀ (depl : Option ArrayDeployment) value, (depl.map (·.arrayLengthWidth)).getD 4 ≠ 0 →
      readByteVector depl s = .ok value t →
      ∃ announced start,
        readWidth ((depl.map (·.arrayLengthWidth)).getD 4) true 0 (aligned s) =
          .ok announced start ∧
        Exact s start t ((depl.map (·.arrayLengthWidth)).getD 4) announced) ∧
    (∀ (depl : Option MapDeployment) value, (depl.map (·.mapLengthWidth)).getD 4 ≠ 0 →
      readMap fuel depl (key fuel) (mapped fuel) s = .ok value t →
      ∃ announced start stop,
        readWidth ((depl.map (·.mapLengthWidth)).getD 4) true 0 (aligned s) =
          .ok announced start ∧
        RowTakes (readEntry (key fuel) (mapped fuel)) [] start announced stop ∧
        (Exact s start t ((depl.map (·.mapLengthWidth)).getD 4) announced ↔ AtByte stop)) ∧
    (∀ value, readMapEmpty fuel (key fuel) (mapped fuel) s = .ok value t →
      ∃ announced start stop, readWidth 4 true 0 (aligned s) = .ok announced start ∧
        RowTakes (readEntry (key fuel) (mapped fuel)) [] start announced stop ∧
        (Exact s start t 4 announced ↔ AtByte stop)) := by
  have hgood : ∀ {β : Type} {d : ℕ → Read β} {value : β}, Decoder d → d fuel s = .ok value t →
      Good s := fun hd h => hs.good (hc.suffix (hd.extends_history h))
  refine ⟨fun depl value hwidth h => ?_, fun uninitialised depl value hwidth h => ?_,
    fun depl value hwidth h => ?_, fun depl value hwidth h => ?_, fun depl value hwidth h => ?_,
    fun value h => ?_⟩
  · exact readStruct_exact_iff hcontent (hgood (.struct depl hcontent) h) h hc herror hwidth
  · exact readVariant_exact_iff halternatives
      (hgood (.variant uninitialised depl halternatives) h) h hc herror hwidth
  · exact readVector_exact_iff hcontent (hgood (.vector depl hcontent) h) h hc herror hwidth
  · exact readByteVector_exact (hgood (.byteVector depl) h) h hc herror hwidth
  · exact readMap_exact_iff hkey hmapped (hgood (.map depl hkey hmapped) h) h hc herror hwidth
  · exact readMapEmpty_exact_iff hkey hmapped (hgood (.mapEmpty hkey hmapped) h) h hc herror

/-- Two bytes are announced, one is read, and the other one is skipped. -/
theorem announced_struct_exact :
    ∃ announced start v stop,
      readWidth 1 true 0 (aligned (create ⟨[2, 7, 9], by decide⟩ true)) = .ok announced start ∧
      readUInt8 none start = .ok v stop ∧
      (Exact (create ⟨[2, 7, 9], by decide⟩ true) start
          (finalState (readStruct (some ⟨1⟩) (readUInt8 none) (create ⟨[2, 7, 9], by decide⟩ true)))
          1 announced ↔ Within start stop announced) :=
  (declared_length_exact_iff (show Decoder fun _ => readUInt8 none from .integer uint8 none)
    (show Decoder fun _ => readBool from .bool) (show Decoder fun _ => readBool from .bool)
    (show ∀ d ∈ ([] : List (ℕ → Read (BitVec 8))), Decoder d from nofun) 0
    ⟨⟨[2, 7, 9], by decide⟩, true, Unit, pure (), (), .pure (), rfl⟩ (by decide) (by decide)).1
    (some ⟨1⟩) (some 7) (by decide) (eq_ok_of_returned (by decide))

theorem overrun_struct_accepted :
    ¬ ∀ (message : Message) (isLittleEndian : Bool) (α : Type) (fields : ℕ → Read α) (fuel : ℕ)
      (depl : Option StructDeployment) (value : Option α) (announced : ℕ) (start t : InputStream),
      Decoder fields → (depl.map (·.structLengthWidth)).getD 0 ≠ 0 →
      readStruct depl (fields fuel) (create message isLittleEndian) = .ok value t →
      t.errorOccurred = false →
      readWidth ((depl.map (·.structLengthWidth)).getD 0) true 0
        (aligned (create message isLittleEndian)) = .ok announced start →
      Exact (create message isLittleEndian) start t
        ((depl.map (·.structLengthWidth)).getD 0) announced := by
  intro h
  have hexact := h ⟨[1, 2, 3], by decide⟩ true (BitVec 8 × BitVec 8)
    (fun _ => readFields (readUInt8 none) (readUInt8 none)) 0 (some ⟨1⟩) (some (2, 3)) 1 _ _
    (.fields (.integer uint8 none) (.integer uint8 none)) (by decide)
    (eq_ok_of_returned (by decide)) (by decide) (eq_ok_of_returned (by decide))
  exact absurd hexact.content (by decide)

end SomeIPRuntime.InputStream
