import SomeIPRuntime.Received

set_option autoImplicit false

namespace SomeIPRuntime.RoundTrip
open Bits ProgramRuns Deployment
open InputStream (Consistent Read position readElements pushElement)
open OutputStream (Clean Write Wrote Writer writeElements)

section Elements
variable {α : Type} {element : α → Write Unit} {read : Read α} {value : List α}
  {m n : OutputStream} {s : InputStream}

/-- The last of the elements completes a byte of the payload. -/
def LastCompletes (element : α → Write Unit) : List α → OutputStream → Prop
  | [], _ => True
  | [a], o => ∃ t, element a o = .ok ⟨⟩ t ∧ o.payload.length < t.payload.length
  | a :: b :: rest, o => ∃ t, element a o = .ok ⟨⟩ t ∧ LastCompletes element (b :: rest) t

theorem writeElements_cons {a : α} {rest : List α}
    (h : writeElements element (a :: rest) m = .ok ⟨⟩ n) (herror : n.errorOccurred = false) :
    ∃ k, element a m = .ok ⟨⟩ k ∧ k.errorOccurred = false ∧ writeElements element rest k = .ok ⟨⟩ n := by
  obtain ⟨_, k, hfirst, hrest⟩ := bind_eq_ok.1 h
  rw [OutputStream.unlessError_run] at hrest
  split at hrest
  · rename_i hbad
    cases hrest
    rw [herror] at hbad
    cases hbad
  · exact ⟨k, hfirst, by simpa using ‹¬ k.errorOccurred = true›, hrest⟩

theorem lastCompletes_grows (helement : ∀ a ∈ value, RoundTrips (element a) read a) (hm : Clean m)
    (hrun : writeElements element value m = .ok ⟨⟩ n) (herror : n.errorOccurred = false)
    (hne : value ≠ []) (hlast : LastCompletes element value m) :
    m.payload.length < n.payload.length := by
  induction value generalizing m with
  | nil => exact absurd rfl hne
  | cons a rest ih =>
    obtain ⟨k, hfirst, hquiet, hrest⟩ := writeElements_cons hrun herror
    obtain ⟨_, _, hmk⟩ := (helement a List.mem_cons_self).writes.writer.ok hfirst hm
    have hback := fun b hb => helement b (List.mem_cons_of_mem a hb)
    obtain ⟨_, _, hkn⟩ := (OutputStream.writeElements_writer fun b hb =>
      (hback b hb).writes.writer).ok hrest hmk.clean
    have hle := hmk.length
    have hle' := hkn.length
    cases rest with
    | nil =>
      obtain ⟨t, hrun', hlt⟩ := hlast
      cases hfirst.symm.trans hrun'
      omega
    | cons b rest =>
      obtain ⟨t, hrun', hlast⟩ := hlast
      cases hfirst.symm.trans hrun'
      have hlt := ih hback hmk.clean hrest (List.cons_ne_nil b rest) hlast
      omega

theorem pushElement_run {a : α} {u : InputStream} (value : List α) (h : read s = .ok a u)
    (herror : u.errorOccurred = false) : pushElement read value s = .ok (some (value ++ [a])) u := by
  unfold pushElement
  rw [bind_ok h]
  change (if u.errorOccurred = true then pure none else _ : Read (Option (List α))) u = _
  rw [if_neg (herror ▸ Bool.false_ne_true)]
  rfl

theorem readElements_next {γ : Type} {lengthWidth maxLength : ℕ} {size : γ → ℕ}
    {next : γ → Read (Option γ)} {fuel itsSize : ℕ} {v v' : γ} {u : InputStream}
    (hmore : itsSize > 0 ∨ (lengthWidth = 0 ∧ size v < maxLength)) (h : next v s = .ok (some v') u) :
    readElements lengthWidth maxLength size next (fuel + 1) itsSize v s =
      readElements lengthWidth maxLength size next fuel
        (if lengthWidth ≠ 0 then wrapSub 32 itsSize (wrapSub 64 s.remaining u.remaining) else itsSize)
        v' u := by
  rw [readElements, if_pos hmore, bind_ok (get_run s)]
  exact bind_ok h

theorem element_back {a : α} {k : OutputStream}
    (ha : RoundTrips (element a) read a) (hm : Clean m) (hfirst : element a m = .ok ⟨⟩ k)
    (hquiet : k.errorOccurred = false) {extra : List ℕ} {new : List OutputStream.Event}
    (hkn : Wrote k n extra new) (hs : Receives s m n) :
    ∃ u, read s = .ok a u ∧ Arrived s u k ∧ Receives u k n ∧
      m.payload.length ≤ k.payload.length ∧
      wrapSub 64 s.remaining u.remaining = k.payload.length - m.payload.length := by
  obtain ⟨_, _, hmk⟩ := ha.writes.writer.ok hfirst hm
  have hshort := hs.short hkn.clean
  have hle := hkn.length
  have hbits := hmk.bits (hle.trans_lt hshort)
  obtain ⟨u, hread, hu⟩ := ha.reads m hm k s hfirst hquiet (hs.first hbits (hkn.bits hshort))
  exact ⟨u, hread, hu, hs.rest hbits (hkn.bits hshort) hu, hmk.length,
    hu.consumed hs.faces hm hmk.clean hmk.length⟩

theorem lastCompletes_cons {a : α} {rest : List α} {k : OutputStream}
    (hfirst : element a m = .ok ⟨⟩ k) (hrest : writeElements element rest k = .ok ⟨⟩ n)
    (hgrows : m.payload.length < n.payload.length) :
    LastCompletes element (a :: rest) m ↔ LastCompletes element rest k := by
  cases rest with
  | nil =>
    cases hrest
    exact iff_of_true ⟨_, hfirst, hgrows⟩ trivial
  | cons b rest =>
    constructor
    · rintro ⟨t, hrun, hlast⟩
      cases hfirst.symm.trans hrun
      exact hlast
    · exact fun hlast => ⟨k, hfirst, hlast⟩

/-- The loop over the elements of a vector with a length field. It ends before the elements
    that have completed no byte. -/
theorem elements_back {lengthWidth : ℕ} (maxLength : ℕ) (hwidth : lengthWidth ≠ 0)
    (helement : ∀ a ∈ value, RoundTrips (element a) read a) (hm : Clean m)
    (hrun : writeElements element value m = .ok ⟨⟩ n) (herror : n.errorOccurred = false)
    (hs : Receives s m n) (acc : List α) {fuel : ℕ} (hfuel : value.length ≤ fuel) :
    ∃ taken rest u, value = taken ++ rest ∧
      readElements lengthWidth maxLength List.length (pushElement read) fuel
        (n.payload.length - m.payload.length) acc s = .ok (0, acc ++ taken) u ∧
      (rest = [] ↔ LastCompletes element value m) ∧ (rest = [] → Arrived s u n) := by
  induction value generalizing m s acc fuel with
  | nil =>
    cases hrun
    refine ⟨[], [], s, rfl, ?_, iff_of_true rfl trivial, fun _ => ⟨hs.faces, rfl, hs.errorOccurred⟩⟩
    rw [InputStream.readElements_done _ (by omega), Nat.sub_self, List.append_nil]
    rfl
  | cons a rest ih =>
    have hback := fun b hb => helement b (List.mem_cons_of_mem a hb)
    obtain ⟨k, hfirst, hquiet, hrest⟩ := writeElements_cons hrun herror
    by_cases hgrows : m.payload.length < n.payload.length
    · obtain ⟨_, _, hmk⟩ := (helement a List.mem_cons_self).writes.writer.ok hfirst hm
      obtain ⟨_, _, hkn⟩ := (OutputStream.writeElements_writer fun b hb =>
        (hback b hb).writes.writer).ok hrest hmk.clean
      obtain ⟨u, hread, hsu, hu, hle, hconsumed⟩ :=
        element_back (helement a List.mem_cons_self) hm hfirst hquiet hkn hs
      obtain ⟨fuel, rfl⟩ : ∃ f, fuel = f + 1 := Nat.exists_eq_succ_of_ne_zero (by
        rw [List.length_cons] at hfuel
        omega)
      obtain ⟨taken, left, v, hsplit, hloop, hlast, harrived⟩ :=
        ih hback hmk.clean hrest hu (acc ++ [a]) (Nat.le_of_succ_le_succ hfuel)
      have hshort := hs.short hkn.clean
      have hle' := hkn.length
      refine ⟨a :: taken, left, v, by rw [hsplit, List.cons_append], ?_, ?_, fun h => ?_⟩
      · rw [readElements_next (Or.inl (by omega)) (pushElement_run acc hread hu.errorOccurred),
          if_pos hwidth, hconsumed, wrapSub_of_le (by omega) (by omega),
          show n.payload.length - m.payload.length - (k.payload.length - m.payload.length) =
            n.payload.length - k.payload.length by omega, hloop, List.append_assoc]
        rfl
      · rw [hlast, lastCompletes_cons hfirst hrest hgrows]
      · exact hsu.trans (harrived h)
    · have hno : ¬ LastCompletes element (a :: rest) m := fun h =>
        hgrows (lastCompletes_grows helement hm hrun herror (List.cons_ne_nil a rest) h)
      refine ⟨[], a :: rest, s, rfl, ?_, iff_of_false (List.cons_ne_nil a rest) hno, fun h => by cases h⟩
      rw [InputStream.readElements_done _ (by omega), Nat.sub_eq_zero_of_le (by omega), List.append_nil]
      rfl

theorem counted_back {lengthWidth maxLength : ℕ} (hwidth : lengthWidth = 0)
    (helement : ∀ a ∈ value, RoundTrips (element a) read a) (hm : Clean m)
    (hrun : writeElements element value m = .ok ⟨⟩ n) (herror : n.errorOccurred = false)
    (hs : Receives s m n) (acc : List α) (hmax : maxLength = acc.length + value.length) {fuel : ℕ}
    (hfuel : value.length ≤ fuel) :
    ∃ u, readElements lengthWidth maxLength List.length (pushElement read) fuel 0 acc s =
      .ok (0, acc ++ value) u ∧ Arrived s u n := by
  induction value generalizing m s acc fuel with
  | nil =>
    cases hrun
    refine ⟨s, ?_, hs.faces, rfl, hs.errorOccurred⟩
    rw [List.length_nil] at hmax
    rw [InputStream.readElements_done _ (by omega), List.append_nil]
    rfl
  | cons a rest ih =>
    have hback := fun b hb => helement b (List.mem_cons_of_mem a hb)
    obtain ⟨k, hfirst, hquiet, hrest⟩ := writeElements_cons hrun herror
    obtain ⟨_, _, hmk⟩ := (helement a List.mem_cons_self).writes.writer.ok hfirst hm
    obtain ⟨_, _, hkn⟩ := (OutputStream.writeElements_writer fun b hb =>
      (hback b hb).writes.writer).ok hrest hmk.clean
    obtain ⟨u, hread, hsu, hu, _⟩ :=
      element_back (helement a List.mem_cons_self) hm hfirst hquiet hkn hs
    rw [List.length_cons] at hfuel hmax
    obtain ⟨fuel, rfl⟩ : ∃ f, fuel = f + 1 := Nat.exists_eq_succ_of_ne_zero (by omega)
    obtain ⟨v, hloop, hv⟩ := ih hback hmk.clean hrest hu (acc ++ [a])
      (by rw [List.length_append, List.length_singleton]; omega) (Nat.le_of_succ_le_succ hfuel)
    refine ⟨v, ?_, hsu.trans hv⟩
    rw [readElements_next (Or.inr ⟨hwidth, by omega⟩) (pushElement_run acc hread hu.errorOccurred),
      if_neg (not_not_intro hwidth), hloop, List.append_assoc]
    rfl

end Elements

def SizeAllowed (lengthWidth minLength maxLength size : ℕ) : Prop :=
  if lengthWidth ≠ 0 then ¬ (minLength ≠ 0 ∧ size < minLength) ∧ ¬ (maxLength ≠ 0 ∧ size > maxLength)
  else maxLength = size

theorem checkSize_allowed {lengthWidth minLength maxLength size : ℕ}
    (h : SizeAllowed lengthWidth minLength maxLength size) (o : OutputStream) :
    OutputStream.checkSize lengthWidth minLength maxLength size o = .ok ⟨⟩ o := by
  unfold SizeAllowed at h
  unfold OutputStream.checkSize
  split_ifs at h ⊢ with hwidth hmax hmin hmin hmax
  · exact absurd hmax h.2
  · exact absurd hmax h.2
  · exact absurd hmin h.1
  · rfl
  · exact absurd h hmax
  · rfl

theorem checkSize_refused {lengthWidth minLength maxLength size : ℕ}
    (h : ¬ SizeAllowed lengthWidth minLength maxLength size) (o : OutputStream) :
    OutputStream.checkSize lengthWidth minLength maxLength size o =
      .ok ⟨⟩ { o with errorOccurred := true } := by
  unfold SizeAllowed at h
  unfold OutputStream.checkSize
  split_ifs at h ⊢ with hwidth hmax hmin hmin hmax
  · rfl
  · rfl
  · rfl
  · exact absurd ⟨hmin, hmax⟩ h
  · rfl
  · exact absurd (not_not.1 hmax) h

theorem checkSize_passed {lengthWidth minLength maxLength size : ℕ} {o m : OutputStream}
    (h : OutputStream.checkSize lengthWidth minLength maxLength size o = .ok ⟨⟩ m)
    (herror : m.errorOccurred = false) : SizeAllowed lengthWidth minLength maxLength size ∧ m = o := by
  by_cases hallowed : SizeAllowed lengthWidth minLength maxLength size
  · cases (checkSize_allowed hallowed o).symm.trans h
    exact ⟨hallowed, rfl⟩
  · cases (checkSize_refused hallowed o).symm.trans h
    cases herror

theorem checkLength_outcome (lengthWidth minLength maxLength size : ℕ) (s : InputStream) :
    ∃ u, InputStream.checkLength lengthWidth minLength maxLength 0 size s = .ok ⟨⟩ u ∧
      (SizeAllowed lengthWidth minLength maxLength size → u = s) := by
  unfold InputStream.checkLength SizeAllowed
  by_cases hwidth : lengthWidth ≠ 0
  · rw [if_pos hwidth, if_pos hwidth, if_neg (not_not_intro rfl)]
    split_ifs with hmax hmin hmin
    · exact ⟨_, rfl, fun h => absurd hmax h.2⟩
    · exact ⟨_, rfl, fun h => absurd hmax h.2⟩
    · exact ⟨_, rfl, fun h => absurd hmin h.1⟩
    · exact ⟨s, rfl, fun _ => rfl⟩
  · rw [if_neg hwidth, if_neg hwidth]
    split_ifs with hmax
    · exact ⟨_, rfl, fun h => absurd h hmax⟩
    · exact ⟨s, rfl, fun _ => rfl⟩

section Vectors
variable {α : Type} {element : α → Write Unit} {read : Read α} {value : List α}
  {depl : Option ArrayDeployment} {o m n t : OutputStream} {s : InputStream}

def arrayLengthWidth (depl : Option ArrayDeployment) : ℕ := (depl.map (·.arrayLengthWidth)).getD 4

def firstElement (depl : Option ArrayDeployment) (o : OutputStream) : OutputStream :=
  if arrayLengthWidth depl ≠ 0 then entered (arrayLengthWidth depl) (OutputStream.aligned o)
  else OutputStream.aligned o

def VectorAllowed (depl : Option ArrayDeployment) (size : ℕ) : Prop :=
  SizeAllowed (arrayLengthWidth depl) ((depl.map (·.arrayMinLength)).getD 0)
    ((depl.map (·.arrayMaxLength)).getD 0xFFFFFFFF) size

theorem writeVector_ok (helement : ∀ a ∈ value, Writer (element a)) (ho : Clean o)
    (hrun : OutputStream.writeVector depl element value o = .ok ⟨⟩ t)
    (herror : t.errorOccurred = false) :
    VectorAllowed depl value.length ∧ ∃ n,
      writeElements element value (firstElement depl o) = .ok ⟨⟩ n ∧ n.errorOccurred = false ∧
      OutputStream.closeLength (arrayLengthWidth depl) n = .ok ⟨⟩ t := by
  obtain ⟨hopen, hclean⟩ := openLength_run (arrayLengthWidth depl) ho
  change (OutputStream.bitAlign >>= _) o = _ at hrun
  rw [bind_ok (OutputStream.bitAlign_run o)] at hrun
  change (OutputStream.openLength (arrayLengthWidth depl) >>= _) (OutputStream.aligned o) = _ at hrun
  rw [bind_ok hopen] at hrun
  obtain ⟨_, n, hcontent, hclose⟩ := bind_eq_ok.1 hrun
  obtain ⟨_, _, hn⟩ :=
    (OutputStream.writeArrayContent_writer _ _ _ helement).ok hcontent hclean
  have hquiet := closeLength_quiet ho hn hclose herror
  obtain ⟨_, m, hcheck, helements⟩ := bind_eq_ok.1 hcontent
  rw [OutputStream.unlessError_run] at helements
  split at helements
  · rename_i hbad
    cases helements
    rw [hquiet] at hbad
    cases hbad
  · obtain ⟨hallowed, rfl⟩ := checkSize_passed hcheck (by simpa using ‹¬ m.errorOccurred = true›)
    exact ⟨hallowed, n, helements, hquiet, hclose⟩

theorem readVector_run {fuel itsSize : ℕ} {taken : List α} {u w : InputStream}
    (hread : InputStream.readWidth (arrayLengthWidth depl) true 0 (InputStream.aligned s) =
      .ok itsSize u) (hquiet : u.errorOccurred = false)
    (hloop : readElements (arrayLengthWidth depl) ((depl.map (·.arrayMaxLength)).getD 0xFFFFFFFF)
      List.length (pushElement read) fuel itsSize [] u = .ok (0, taken) w) :
    ∃ v, InputStream.readVector fuel depl read s = .ok taken v ∧
      (VectorAllowed depl taken.length → v = w) := by
  obtain ⟨v, hcheck, hv⟩ := checkLength_outcome (arrayLengthWidth depl)
    ((depl.map (·.arrayMinLength)).getD 0) ((depl.map (·.arrayMaxLength)).getD 0xFFFFFFFF)
    taken.length w
  refine ⟨v, ?_, hv⟩
  change (InputStream.bitAlign >>= _) s = _
  rw [bind_ok (InputStream.bitAlign_run s)]
  change (InputStream.readWidth (arrayLengthWidth depl) true 0 >>= _) (InputStream.aligned s) = _
  rw [bind_ok hread]
  change (if u.errorOccurred = true then pure [] else _ : Read (List α)) u = _
  rw [if_neg (hquiet ▸ Bool.false_ne_true)]
  exact (bind_ok hloop).trans (bind_ok hcheck)

/-- What a reader takes from a vector: with a length field the elements may end earlier. -/
theorem vector_taken (helement : ∀ a ∈ value, RoundTrips (element a) read a)
    (hwidth : arrayLengthWidth depl = 0 ∨ IsWidth (arrayLengthWidth depl)) (ho : Clean o)
    (hallowed : VectorAllowed depl value.length)
    (hrun : writeElements element value (firstElement depl o) = .ok ⟨⟩ n)
    (hquiet : n.errorOccurred = false)
    (hclose : OutputStream.closeLength (arrayLengthWidth depl) n = .ok ⟨⟩ t)
    (herror : t.errorOccurred = false) {fuel : ℕ} (hfuel : value.length ≤ fuel)
    (hs : Receives s o t) :
    ∃ taken rest u, value = taken ++ rest ∧ InputStream.readVector fuel depl read s = .ok taken u ∧
      (rest = [] ↔ arrayLengthWidth depl = 0 ∨ LastCompletes element value (firstElement depl o)) ∧
      (rest = [] → Arrived s u t) := by
  have hclean := (openLength_run (arrayLengthWidth depl) ho).2
  obtain ⟨extra, new, hn⟩ := (OutputStream.writeElements_writer fun a ha =>
    (helement a ha).writes.writer).ok hrun hclean
  obtain rfl := balanced hn hquiet
  obtain ⟨u, hread, hu, hbehind⟩ := content_receives hwidth ho hn hclose herror hs
  by_cases hzero : arrayLengthWidth depl = 0
  · rw [if_pos hzero] at hread
    have hmax : (depl.map (·.arrayMaxLength)).getD 0xFFFFFFFF = 0 + value.length := by
      unfold VectorAllowed SizeAllowed at hallowed
      rw [if_neg (not_not_intro hzero)] at hallowed
      omega
    obtain ⟨v, hloop, hv⟩ := counted_back hzero helement hclean hrun hquiet hu [] hmax hfuel
    obtain ⟨w, hvector, hw⟩ := readVector_run hread hu.errorOccurred hloop
    obtain rfl := hw hallowed
    exact ⟨value, [], w, (List.append_nil _).symm, hvector, iff_of_true rfl (Or.inl hzero),
      fun _ => hbehind w hv⟩
  · rw [if_neg hzero] at hread
    obtain ⟨taken, rest, v, hsplit, hloop, hlast, harrived⟩ :=
      elements_back ((depl.map (·.arrayMaxLength)).getD 0xFFFFFFFF) hzero helement hclean hrun
        hquiet hu [] hfuel
    obtain ⟨w, hvector, hw⟩ := readVector_run hread hu.errorOccurred hloop
    refine ⟨taken, rest, w, hsplit, hvector, ?_, fun h => ?_⟩
    · rw [or_iff_right hzero]
      exact hlast
    · rw [h, List.append_nil] at hsplit
      obtain rfl := hw (hsplit ▸ hallowed)
      exact hbehind w (harrived h)

/-- An accepted vector is read back just if it has no length field or its last element
    completes a byte. -/
theorem vector_round_trips_iff (helement : ∀ a ∈ value, RoundTrips (element a) read a)
    (hwidth : arrayLengthWidth depl = 0 ∨ IsWidth (arrayLengthWidth depl)) (ho : Clean o)
    (hrun : OutputStream.writeVector depl element value o = .ok ⟨⟩ t)
    (herror : t.errorOccurred = false)
    (hshort : (OutputStream.aligned t).payload.length < 2 ^ 32) {fuel : ℕ}
    (hfuel : value.length ≤ fuel) :
    ReadInFront (InputStream.readVector fuel depl read) value o t ↔
      arrayLengthWidth depl = 0 ∨ LastCompletes element value (firstElement depl o) := by
  obtain ⟨_, _, hwrote⟩ := (OutputStream.writeVector_writer depl fun a ha =>
    (helement a ha).writes.writer).ok hrun ho
  obtain ⟨hallowed, n, helements, hquiet, hclose⟩ :=
    writeVector_ok (fun a ha => (helement a ha).writes.writer) ho hrun herror
  rw [readInFront_iff hwrote.clean hwrote.bits herror]
  have htaken := fun s => vector_taken (s := s) helement hwidth ho hallowed helements hquiet hclose
    herror hfuel
  constructor
  · intro h
    have hbits := hwrote.bits ((aligned_longer hwrote.clean).trans_lt hshort)
    obtain ⟨s, hs⟩ := receives_exists hwrote.clean hbits hshort
    obtain ⟨taken, rest, u, hsplit, htake, hlast, _⟩ := htaken s hs
    obtain ⟨v, hread, _⟩ := h s hs
    cases htake.symm.trans hread
    exact hlast.1 (List.append_right_eq_self.1 hsplit.symm)
  · intro hlast s hs
    obtain ⟨taken, rest, u, hsplit, htake, hiff, harrived⟩ := htaken s hs
    have hrest := hiff.2 hlast
    rw [hrest, List.append_nil] at hsplit
    exact ⟨u, hsplit ▸ htake, harrived hrest⟩

end Vectors

theorem nibble_roundTrips (value : BitVec 8) (hvalue : value.toNat < 2 ^ 4) :
    RoundTrips (OutputStream.writeEnumeration uint8 (some ⟨4, false, none⟩) value)
      (InputStream.readEnumeration uint8 (some ⟨4, false, none⟩)) value :=
  @field_roundTrips _ 1 4 4 false value id none value (.enumeration uint8 (some ⟨4, false, none⟩) value)
    rfl (by unfold OutputStream.Writable; decide) fun le =>
      decoded_byte le (by decide) (by decide) hvalue

theorem nibbles_round_trip :
    ReadInFront (InputStream.readVector 2 none (InputStream.readEnumeration uint8 (some ⟨4, false, none⟩)))
      [1, 2] (OutputStream.create true)
      (finalState (OutputStream.writeVector none
        (OutputStream.writeEnumeration uint8 (some ⟨4, false, none⟩)) [1, 2] (OutputStream.create true))) :=
  (vector_round_trips_iff (by
      intro a ha
      obtain rfl | ha := List.mem_cons.1 ha
      · exact nibble_roundTrips 1 (by decide)
      · obtain rfl := List.mem_singleton.1 ha
        exact nibble_roundTrips 2 (by decide))
    (Or.inr (by decide)) (OutputStream.create_clean true) (eq_ok_of_returned (by decide)) (by decide)
    (by decide) (by decide)).2 (Or.inr (show LastCompletes
      (OutputStream.writeEnumeration uint8 (some ⟨4, false, none⟩)) [1, 2] _ from
        ⟨_, rfl, _, rfl, by decide⟩))

/-- One element of four bits: the length is written before its byte is complete. -/
theorem single_nibble_lost :
    ¬ ∀ (α : Type) (element : α → Write Unit) (read : Read α) (value : List α)
      (depl : Option ArrayDeployment) (o t : OutputStream) (fuel : ℕ),
      (∀ a ∈ value, RoundTrips (element a) read a) →
      (arrayLengthWidth depl = 0 ∨ IsWidth (arrayLengthWidth depl)) → Clean o →
      OutputStream.writeVector depl element value o = .ok ⟨⟩ t → t.errorOccurred = false →
      (OutputStream.aligned t).payload.length < 2 ^ 32 → value.length ≤ fuel →
      ReadInFront (InputStream.readVector fuel depl read) value o t := by
  intro h
  have hfront := h (BitVec 8) (OutputStream.writeEnumeration uint8 (some ⟨4, false, none⟩))
    (InputStream.readEnumeration uint8 (some ⟨4, false, none⟩)) [5] (some ⟨0, 0, 1⟩)
    (OutputStream.create true) _ 1
    (List.forall_mem_singleton.2 (nibble_roundTrips 5 (by decide))) (Or.inr (by decide))
    (OutputStream.create_clean true) (eq_ok_of_returned (by decide)) (by decide) (by decide) (by decide)
  obtain ⟨u, v, hread, _⟩ := hfront _ _ _ _ _ nothing_roundTrips rfl (by decide)
    (InputStream.create ⟨[0, 5], by decide⟩ true)
    ⟨create_faces _ true, rfl, by unfold Ahead; decide⟩
  have hvalue : returned (InputStream.readVector 1 (some ⟨0, 0, 1⟩)
      (InputStream.readEnumeration uint8 (some ⟨4, false, none⟩))
      (InputStream.create ⟨[0, 5], by decide⟩ true)) = some [5] := congrArg returned hread
  exact absurd hvalue (by decide)

end SomeIPRuntime.RoundTrip
