import SomeIPRuntime.VariantRoundTrip

set_option autoImplicit false

namespace SomeIPRuntime.RoundTrip
open Bits ProgramRuns Deployment
open InputStream (Read readElements readEntry insertEntry)
open OutputStream (Clean Write Wrote Writer writeEntries)

section Entries
variable {κ ν : Type} {key : κ → Write Unit} {mapped : ν → Write Unit}
  {readKey : Read κ} {readMapped : Read ν} {value : List (κ × ν)} {m n : OutputStream}
  {s : InputStream}

/-- The codecs of an entry round-trip on whole bytes, and one byte at least is written. -/
structure EntryBack (key : κ → Write Unit) (mapped : ν → Write Unit) (readKey : Read κ)
    (readMapped : Read ν) (entry : κ × ν) : Prop where
  first : WholeBytes (key entry.1) readKey entry.1
  second : WholeBytes (mapped entry.2) readMapped entry.2
  grows : ∀ o k t, Clean o → o.currentBit = 0 → key entry.1 o = .ok ⟨⟩ k →
    mapped entry.2 k = .ok ⟨⟩ t → t.errorOccurred = false → o.payload.length < t.payload.length

theorem entries_writer (hentry : ∀ e ∈ value, EntryBack key mapped readKey readMapped e) :
    Writer (writeEntries key mapped value) :=
  OutputStream.writeEntries_writer (fun e he => (hentry e he).first.writes.writer) fun e he =>
    (hentry e he).second.writes.writer

theorem writeEntries_cons {entry : κ × ν} {rest : List (κ × ν)} {completed : Bool}
    (h : writeEntries key mapped (entry :: rest) m = .ok completed n) (herror : n.errorOccurred = false) :
    ∃ j k, key entry.1 m = .ok ⟨⟩ j ∧ j.errorOccurred = false ∧ mapped entry.2 j = .ok ⟨⟩ k ∧
      k.errorOccurred = false ∧ writeEntries key mapped rest k = .ok completed n := by
  have hquiet : ∀ {k : OutputStream} {x : Write Bool},
      (if k.errorOccurred = true then pure false else x : Write Bool) k = .ok completed n →
      k.errorOccurred = false ∧ x k = .ok completed n := by
    intro k x hx
    split at hx
    · rename_i hbad
      cases hx
      cases herror.symm.trans hbad
    · exact ⟨by simpa using ‹¬ k.errorOccurred = true›, hx⟩
  rcases bind_eq_ok.1 h with ⟨_, j, hfirst, h⟩
  rw [bind_ok (OutputStream.hasError_run j)] at h
  rcases hquiet h with ⟨hj, h⟩
  rcases bind_eq_ok.1 h with ⟨_, k, hsecond, h⟩
  rw [bind_ok (OutputStream.hasError_run k)] at h
  rcases hquiet h with ⟨hk, h⟩
  exact ⟨j, k, hfirst, hj, hsecond, hk, h⟩

variable [DecidableEq κ]

theorem insertEntry_new {entry : κ × ν} {entries : List (κ × ν)}
    (h : entry.1 ∉ entries.map Prod.fst) : insertEntry entry.1 entry.2 entries = entries ++ [entry] :=
  if_neg h

theorem readEntry_run {entry : κ × ν} {u w : InputStream} (entries : List (κ × ν))
    (hkey : readKey s = .ok entry.1 u) (hu : u.errorOccurred = false)
    (hmapped : readMapped u = .ok entry.2 w) (hw : w.errorOccurred = false) :
    readEntry readKey readMapped entries s =
      .ok (some (insertEntry entry.1 entry.2 entries)) w := by
  unfold readEntry
  rw [bind_ok hkey]
  change (if u.errorOccurred = true then pure none else _ : Read (Option (List (κ × ν)))) u = _
  rw [if_neg (hu ▸ Bool.false_ne_true), bind_ok hmapped]
  change (if w.errorOccurred = true then pure none else _ : Read (Option (List (κ × ν)))) w = _
  rw [if_neg (hw ▸ Bool.false_ne_true)]
  rfl

theorem entry_back {entry : κ × ν} {rest : List (κ × ν)} {completed : Bool}
    (hentry : ∀ e ∈ entry :: rest, EntryBack key mapped readKey readMapped e) (hm : Clean m)
    (hbit : m.currentBit = 0)
    (hrun : writeEntries key mapped (entry :: rest) m = .ok completed n) (herror : n.errorOccurred = false)
    (hs : Receives s m n) (entries : List (κ × ν)) :
    ∃ k w, writeEntries key mapped rest k = .ok completed n ∧
      readEntry readKey readMapped entries s = .ok (some (insertEntry entry.1 entry.2 entries)) w ∧
      Arrived s w k ∧ Receives w k n ∧ Clean k ∧ k.currentBit = 0 ∧
      m.payload.length < k.payload.length ∧ k.payload.length ≤ n.payload.length ∧
      n.payload.length < 2 ^ 32 ∧
      wrapSub 64 s.remaining w.remaining = k.payload.length - m.payload.length := by
  have he := hentry entry List.mem_cons_self
  rcases writeEntries_cons hrun herror with ⟨j, k, hfirst, hj, hsecond, hk, hrest⟩
  rcases he.first.writes.writer.ok hfirst hm with ⟨_, _, hmj⟩
  have hjbit := he.first.whole m j hm hbit hfirst hj
  rcases he.second.writes.writer.ok hsecond hmj.clean with ⟨_, _, hjk⟩
  have hkbit := he.second.whole j k hmj.clean hjbit hsecond hk
  rcases (entries_writer fun e hmem => hentry e (List.mem_cons_of_mem entry hmem)).ok hrest hjk.clean with
    ⟨_, _, hkn⟩
  have hshort := hs.short hkn.clean
  have hklength := hkn.length
  have hbitsk := hkn.bits hshort
  have hbitsj := hjk.bits (hklength.trans_lt hshort)
  have hlength := hjk.length
  have hbitsm := hmj.bits ((hlength.trans hklength).trans_lt hshort)
  have hfront := hs.first (hbitsm.trans hbitsj) hbitsk
  rcases he.first.reads m hm hbit j s hfirst hj (hfront.first hbitsm hbitsj) with ⟨u, hread, hu⟩
  rcases he.second.reads j hmj.clean hjbit k u hsecond hk (hfront.rest hbitsm hbitsj hu) with
    ⟨w, hread', hw⟩
  have hgrows := he.grows m j k hm hbit hfirst hsecond hk
  have hsw := hu.trans hw
  exact ⟨k, w, hrest, readEntry_run entries hread hu.errorOccurred hread' hw.errorOccurred, hsw,
    hs.rest (hbitsm.trans hbitsj) hbitsk hsw, hjk.clean, hkbit, hgrows, hklength, hshort,
    hsw.consumed hs.faces hm hjk.clean hgrows.le⟩

/-- The loop over the entries: it inserts all of them, whether it counts bytes or keys. -/
theorem entries_back {completed : Bool} (lengthWidth maxLength : ℕ)
    (hentry : ∀ e ∈ value, EntryBack key mapped readKey readMapped e) (hm : Clean m)
    (hbit : m.currentBit = 0) (hrun : writeEntries key mapped value m = .ok completed n)
    (herror : n.errorOccurred = false) (hs : Receives s m n) (entries : List (κ × ν))
    (hkeys : ((entries ++ value).map Prod.fst).Nodup)
    (hmax : lengthWidth = 0 → maxLength = (entries ++ value).length) {fuel : ℕ}
    (hfuel : value.length ≤ fuel) :
    ∃ u, readElements lengthWidth maxLength List.length (readEntry readKey readMapped) fuel
        (if lengthWidth = 0 then 0 else n.payload.length - m.payload.length) entries s =
        .ok (0, entries ++ value) u ∧ Arrived s u n := by
  induction value generalizing m s entries fuel with
  | nil =>
    cases hrun
    rw [List.append_nil] at hmax ⊢
    refine ⟨s, ?_, hs.faces, rfl, hs.errorOccurred⟩
    rw [InputStream.readElements_done _ (by split_ifs <;> omega), Nat.sub_self, ite_self]
    rfl
  | cons entry rest ih =>
    rcases entry_back hentry hm hbit hrun herror hs entries with
      ⟨k, w, hrest, hread, hsw, hw, hk, hkbit, hgrows, hle, hshort, hconsumed⟩
    have hnew : insertEntry entry.1 entry.2 entries = entries ++ [entry] := by
      apply insertEntry_new
      rw [List.map_append, List.map_cons] at hkeys
      exact fun hmem => (List.nodup_append.1 hkeys).2.2 _ hmem _ List.mem_cons_self rfl
    have hsplit : entries ++ entry :: rest = (entries ++ [entry]) ++ rest := by
      rw [List.append_assoc]
      rfl
    rw [List.length_cons] at hfuel
    rcases Nat.exists_eq_succ_of_ne_zero (show fuel ≠ 0 by omega) with ⟨fuel, rfl⟩
    rw [hsplit] at hkeys hmax ⊢
    rcases ih (fun e hmem => hentry e (List.mem_cons_of_mem entry hmem)) hk hkbit hrest hw
      (entries ++ [entry]) hkeys hmax (Nat.le_of_succ_le_succ hfuel) with ⟨v, hloop, hv⟩
    refine ⟨v, ?_, hsw.trans hv⟩
    rw [hnew] at hread
    by_cases hzero : lengthWidth = 0
    · rw [if_pos hzero] at hloop ⊢
      have hmore := hmax hzero
      rw [List.length_append, List.length_append, List.length_singleton] at hmore
      rw [readElements_next (Or.inr ⟨hzero, by omega⟩) hread, if_neg (not_not_intro hzero), hloop]
    · rw [if_neg hzero] at hloop ⊢
      rw [readElements_next (Or.inl (by omega)) hread, if_pos hzero, hconsumed,
        wrapSub_of_le (by omega) (by omega),
        show n.payload.length - m.payload.length - (k.payload.length - m.payload.length) =
          n.payload.length - k.payload.length by omega, hloop]

end Entries

section Maps
variable {κ ν : Type} {key : κ → Write Unit} {mapped : ν → Write Unit}
  {readKey : Read κ} {readMapped : Read ν} {value : List (κ × ν)} {depl : Option MapDeployment}
  {o n t : OutputStream} {s : InputStream}

def mapLengthWidth (depl : Option MapDeployment) : ℕ := (depl.map (·.mapLengthWidth)).getD 4

def mapMaxLength (depl : Option MapDeployment) : ℕ := (depl.map (·.mapMaxLength)).getD 0xFFFFFFFF

def MapAllowed (depl : Option MapDeployment) (size : ℕ) : Prop :=
  SizeAllowed (mapLengthWidth depl) ((depl.map (·.mapMinLength)).getD 0) (mapMaxLength depl) size

theorem writeMap_ok (hentries : Writer (writeEntries key mapped value)) (ho : Clean o)
    (hrun : OutputStream.writeMap depl key mapped value o = .ok ⟨⟩ t)
    (herror : t.errorOccurred = false) :
    MapAllowed depl value.length ∧ ∃ n,
      writeEntries key mapped value (behindField (mapLengthWidth depl) o) = .ok true n ∧
      n.errorOccurred = false ∧ OutputStream.closeLength (mapLengthWidth depl) n = .ok ⟨⟩ t := by
  rcases openLength_run (mapLengthWidth depl) ho with ⟨hopen, hclean⟩
  change (OutputStream.bitAlign >>= _) o = _ at hrun
  rw [bind_ok (OutputStream.bitAlign_run o)] at hrun
  change (OutputStream.openLength (mapLengthWidth depl) >>= _) (OutputStream.aligned o) = _ at hrun
  rw [bind_ok hopen] at hrun
  rcases bind_eq_ok.1 hrun with ⟨completed, n, hcontent, hclose⟩
  rcases bind_eq_ok.1 hcontent with ⟨_, m, hcheck, hwritten⟩
  rcases (OutputStream.checkSize_writer _ _ _ _).ok hcheck hclean with ⟨_, _, hm⟩
  rcases hentries.ok hwritten hm.clean with ⟨_, _, hn⟩
  cases completed with
  | false =>
    have hbad := OutputStream.writeEntries_left hwritten
    unfold OutputStream.closeMap at hclose
    rw [if_neg Bool.false_ne_true] at hclose
    split at hclose <;> cases hclose <;> cases herror.symm.trans hbad
  | true =>
    have hquiet := closeLength_quiet ho (hm.trans hn) hclose herror
    rcases checkSize_passed hcheck (quiet_before hn hquiet) with ⟨hallowed, rfl⟩
    exact ⟨hallowed, n, hwritten, hquiet, hclose⟩

theorem readMap_run [DecidableEq κ] {fuel itsSize : ℕ} {u w : InputStream}
    (hread : InputStream.readWidth (mapLengthWidth depl) true 0 (InputStream.aligned s) = .ok itsSize u)
    (hquiet : u.errorOccurred = false)
    (hloop : readElements (mapLengthWidth depl) (mapMaxLength depl) List.length
      (readEntry readKey readMapped) fuel itsSize [] u = .ok (0, value) w)
    (hallowed : MapAllowed depl value.length) :
    InputStream.readMap fuel depl readKey readMapped s = .ok value w := by
  rcases checkLength_outcome (mapLengthWidth depl) ((depl.map (·.mapMinLength)).getD 0)
    (mapMaxLength depl) value.length w with ⟨v, hcheck, hv⟩
  cases hv hallowed
  have hentries : InputStream.readEntries fuel (mapLengthWidth depl) (mapMaxLength depl) itsSize readKey
      readMapped u = .ok (0, value) w := by
    change (if u.errorOccurred = true then pure (itsSize, []) else _ : Read (ℕ × List (κ × ν))) u = _
    rw [if_neg (hquiet ▸ Bool.false_ne_true)]
    exact hloop
  change (InputStream.bitAlign >>= _) s = _
  rw [bind_ok (InputStream.bitAlign_run s)]
  change (InputStream.readWidth (mapLengthWidth depl) true 0 >>= _) (InputStream.aligned s) = _
  rw [bind_ok hread]
  exact (bind_ok hentries).trans (bind_ok hcheck)

theorem map_taken [DecidableEq κ] (hentry : ∀ e ∈ value, EntryBack key mapped readKey readMapped e)
    (hkeys : (value.map Prod.fst).Nodup)
    (hwidth : mapLengthWidth depl = 0 ∨ IsWidth (mapLengthWidth depl)) (ho : Clean o)
    (hrun : OutputStream.writeMap depl key mapped value o = .ok ⟨⟩ t)
    (herror : t.errorOccurred = false) {fuel : ℕ} (hfuel : value.length ≤ fuel) (hs : Receives s o t) :
    ∃ u, InputStream.readMap fuel depl readKey readMapped s = .ok value u ∧ Arrived s u t := by
  rcases writeMap_ok (entries_writer hentry) ho hrun herror with ⟨hallowed, n, hentries, hquiet, hclose⟩
  have hclean := (openLength_run (mapLengthWidth depl) ho).2
  rcases (entries_writer hentry).ok hentries hclean with ⟨extra, new, hn⟩
  obtain rfl := balanced hn hquiet
  rcases content_receives hwidth ho hn hclose herror hs with ⟨u, hread, hu, hbehind⟩
  have hmax : mapLengthWidth depl = 0 → mapMaxLength depl = ([] ++ value).length := by
    intro hzero
    unfold MapAllowed SizeAllowed at hallowed
    rw [if_neg (not_not_intro hzero)] at hallowed
    exact hallowed
  rcases entries_back (mapLengthWidth depl) (mapMaxLength depl) hentry hclean (behindField_currentBit _ o)
    hentries hquiet hu [] hkeys hmax hfuel with ⟨w, hloop, hw⟩
  exact ⟨w, readMap_run hread hu.errorOccurred hloop hallowed, hbehind w hw⟩

/-- The overload for an `EmptyDeployment`: a length field of four bytes. -/
theorem writeMapEmpty_ok (hentries : Writer (writeEntries key mapped value)) (ho : Clean o)
    (hrun : OutputStream.writeMapEmpty key mapped value o = .ok ⟨⟩ t)
    (herror : t.errorOccurred = false) :
    ∃ n new, writeEntries key mapped value (entered 4 (OutputStream.aligned o)) = .ok true n ∧
      n.errorOccurred = false ∧ Wrote (entered 4 (OutputStream.aligned o)) n [] new ∧
      OutputStream.Closed n t 4 (OutputStream.aligned o).payload.length
        (entered 4 (OutputStream.aligned o)).payload.length (OutputStream.aligned o).positions := by
  have hopened := entered_opened (OutputStream.aligned_appends ho).clean (OutputStream.aligned_currentBit o) 4
  change (OutputStream.bitAlign >>= _) o = _ at hrun
  rw [bind_ok (OutputStream.bitAlign_run o)] at hrun
  change (OutputStream.openContent 4 >>= _) (OutputStream.aligned o) = _ at hrun
  rw [bind_ok (openContent_run (OutputStream.aligned_currentBit o) 4)] at hrun
  rcases bind_eq_ok.1 hrun with ⟨completed, n, hwritten, hclose⟩
  rcases hentries.ok hwritten hopened.clean with ⟨extra, new, hn⟩
  cases completed with
  | false =>
    have hbad := OutputStream.writeEntries_left hwritten
    cases hclose
    cases herror.symm.trans hbad
  | true =>
    rcases OutputStream.opened_pops hopened hn with ⟨q, p, rest, hpop⟩
    rcases OutputStream.closeMapEmpty_run hpop with ⟨t', hrun', ht⟩
    cases hclose.symm.trans hrun'
    have hquiet : n.errorOccurred = false := by
      rcases ht.kept with ⟨_, _, hover⟩
      by_contra hbad
      cases herror.symm.trans (hover.sticky (show n.errorOccurred = true by simpa using hbad))
    obtain rfl := balanced hn hquiet
    cases hpop.symm.trans (hn.positions.trans hopened.positions)
    exact ⟨n, new, hwritten, hquiet, hn, ht⟩

theorem readMapEmpty_run [DecidableEq κ] {fuel itsSize : ℕ} {u w : InputStream}
    (hread : InputStream.readWidth 4 true 0 (InputStream.aligned s) = .ok itsSize u)
    (hloop : readElements 4 0 List.length (readEntry readKey readMapped) fuel itsSize [] u = .ok (0, value) w) :
    InputStream.readMapEmpty fuel readKey readMapped s = .ok value w := by
  change (InputStream.bitAlign >>= _) s = _
  rw [bind_ok (InputStream.bitAlign_run s)]
  change (InputStream.readWidth 4 true 0 >>= _) (InputStream.aligned s) = _
  rw [bind_ok hread]
  exact bind_ok hloop

theorem mapEmpty_receives {new : List OutputStream.Event} (ho : Clean o)
    (hn : Wrote (entered 4 (OutputStream.aligned o)) n [] new)
    (ht : OutputStream.Closed n t 4 (OutputStream.aligned o).payload.length
      (entered 4 (OutputStream.aligned o)).payload.length (OutputStream.aligned o).positions)
    (herror : t.errorOccurred = false) (hs : Receives s o t) :
    ∃ u, InputStream.readWidth 4 true 0 (InputStream.aligned s) =
        .ok (n.payload.length - (entered 4 (OutputStream.aligned o)).payload.length) u ∧
      Receives u (entered 4 (OutputStream.aligned o)) n ∧ ∀ v, Arrived u v n → Arrived s v t := by
  have halign := OutputStream.aligned_appends ho
  have hbit := OutputStream.aligned_currentBit o
  have hwrote := OutputStream.closed_balanced (entered_opened halign.clean hbit 4) hn ht
  have hstart := hs.aligned ho (hwrote.bits (hs.short hwrote.clean))
  rcases enclosed_receives halign.clean hbit (by decide) hn ht herror hstart true 0 with
    ⟨u, hread, hu, hmessage⟩
  rcases faces_aligned hs.faces ho with ⟨_, hmessage', _⟩
  exact ⟨u, hread, hu, fun v hv =>
    closed_arrived ht hwrote.clean hn.clean (hmessage.trans hmessage') hv⟩

theorem mapEmpty_taken [DecidableEq κ] (hentry : ∀ e ∈ value, EntryBack key mapped readKey readMapped e)
    (hkeys : (value.map Prod.fst).Nodup) (ho : Clean o)
    (hrun : OutputStream.writeMapEmpty key mapped value o = .ok ⟨⟩ t)
    (herror : t.errorOccurred = false) {fuel : ℕ} (hfuel : value.length ≤ fuel) (hs : Receives s o t) :
    ∃ u, InputStream.readMapEmpty fuel readKey readMapped s = .ok value u ∧ Arrived s u t := by
  have hbit := OutputStream.aligned_currentBit o
  have hopened := entered_opened (OutputStream.aligned_appends ho).clean hbit 4
  rcases writeMapEmpty_ok (entries_writer hentry) ho hrun herror with ⟨n, new, hwritten, hquiet, hn, ht⟩
  rcases mapEmpty_receives ho hn ht herror hs with ⟨u, hread, hu, hbehind⟩
  rcases entries_back 4 0 hentry hopened.clean hbit hwritten hquiet hu [] hkeys nofun hfuel with
    ⟨w, hloop, hw⟩
  exact ⟨w, readMapEmpty_run hread hloop, hbehind w hw⟩

/-- In whatever order a map is iterated, the map that is accepted is read back, under every
    deployment and under none. -/
theorem map_round_trips [DecidableEq κ]
    (hentry : ∀ e ∈ value, EntryBack key mapped readKey readMapped e)
    (hkeys : (value.map Prod.fst).Nodup)
    (hwidth : mapLengthWidth depl = 0 ∨ IsWidth (mapLengthWidth depl)) (ho : Clean o) {fuel : ℕ}
    (hfuel : value.length ≤ fuel) :
    ReadBack (OutputStream.writeMap depl key mapped value)
        (InputStream.readMap fuel depl readKey readMapped) value o ∧
      ReadBack (OutputStream.writeMapEmpty key mapped value)
        (InputStream.readMapEmpty fuel readKey readMapped) value o :=
  ⟨fun _ _ hrun herror hs => map_taken hentry hkeys hwidth ho hrun herror hfuel hs,
    fun _ _ hrun herror hs => mapEmpty_taken hentry hkeys ho hrun herror hfuel hs⟩

end Maps

theorem integer_entryBack (keyType mappedType : IntegerType) (hkey : 0 < keyType.size)
    (hmapped : 0 < mappedType.size)
    (entry : BitVec (8 * keyType.size) × BitVec (8 * mappedType.size)) :
    EntryBack (OutputStream.writeInteger keyType none) (OutputStream.writeInteger mappedType none)
      (InputStream.readInteger keyType none) (InputStream.readInteger mappedType none) entry where
  first := integer_wholeBytes keyType hkey entry.1
  second := integer_wholeBytes mappedType hmapped entry.2
  grows o k t ho hbit hfirst hsecond herror := by
    have hsecondWrite := (integer_wholeBytes mappedType hmapped entry.2).writes.writer
    rcases full_stepped ho hkey keyType.isSigned entry.1 with ⟨k', hrun, hk, hlength, _⟩
    cases hfirst.symm.trans hrun
    rcases hsecondWrite.ok hsecond hk.clean with ⟨_, _, hkt⟩
    have hle := hkt.length
    have hkbit := hk.clean.bit
    rw [hk.clean.bits_length, ho.bits_length, hbit] at hlength
    omega

/-- Two entries of one byte each, with a length field of one byte. -/
theorem two_entries_round_trip :
    ReadBack (OutputStream.writeMap (some ⟨0, 2, 1⟩) (OutputStream.writeUInt8 none)
        (OutputStream.writeUInt8 none) [(1, 7), (2, 8)])
      (InputStream.readMap 2 (some ⟨0, 2, 1⟩) (InputStream.readUInt8 none) (InputStream.readUInt8 none))
      [(1, 7), (2, 8)] (OutputStream.create true) :=
  (map_round_trips (fun e _ => integer_entryBack uint8 uint8 (by decide) (by decide) e) (by decide)
    (by decide) (OutputStream.create_clean true) (by decide)).1

end SomeIPRuntime.RoundTrip
