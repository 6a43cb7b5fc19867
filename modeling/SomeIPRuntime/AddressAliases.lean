import SomeIPRuntime.AddressTranslator

set_option autoImplicit false

namespace SomeIPRuntime.AddressTranslation.AddressTranslator
open SearchTrees
variable {C : Type} [LinearOrder C]

def RoundTrips (t : AddressTranslator C) : Prop :=
  ∀ s c, t.translateBack s = some c → ∃ s', t.translate true c = some s' ∧ s'.Equals s

def Keeps (t u : AddressTranslator C) : Prop :=
  ∀ c s, t.translate true c = some s → u.translate true c = some s

/-- A new mapping is not for an alias. A new alias has no mapping of its own, and is no
    alias of another address. -/
def Harmless (t : AddressTranslator C) (call : Call C) : Prop :=
  (isValidService call.someipAddress.service && isValidInstance call.someipAddress.instance_) = true →
    match t.backwards.find call.someipAddress with
    | none => t.forwards.find call.address = none → t.others.find call.address = none
    | some bw => bw.2 ≠ call.address → t.forwards.find call.address = none ∧
        ∀ other, t.others.find call.address = some other → other.2 = bw.2

structure Separate (t : AddressTranslator C) : Prop where
  inverse : Inverse t
  aliases : ∀ c other, t.others.find c = some other →
    t.forwards.find c = none ∧ ∃ s, t.forwards.find other.2 = some (other.2, s)

section Translations
variable {t : AddressTranslator C} {c : C}

theorem translate_own (h : t.others.find c = none) :
    t.translate true c = (t.forwards.find c).map Prod.snd := by
  unfold translate
  rw [if_pos rfl, h]

theorem translate_alias {other : C × C} (h : t.others.find c = some other) :
    t.translate true c = (t.forwards.find other.2).map Prod.snd := by
  unfold translate
  rw [if_pos rfl, h]

theorem Inverse.find_forwards (h : Inverse t) {s : Address} (he : (s, c) ∈ t.backwards.entries) :
    t.forwards.find c = some (c, s) :=
  SearchMap.find_eq_some_iff.2 ⟨(h c s).2 he, rfl⟩

theorem Inverse.eq_of_find (h : Inverse t) {c c' : C} {s : Address}
    (hc : t.forwards.find c = some (c, s)) (hc' : t.forwards.find c' = some (c', s)) : c = c' := by
  have he := (h c s).1 (SearchMap.find_eq_some_iff.1 hc).1
  have he' := (h c' s).1 (SearchMap.find_eq_some_iff.1 hc').1
  have hself : Incomparable s s := ⟨irrefl_of (· < ·) s, irrefl_of (· < ·) s⟩
  exact congrArg Prod.snd (SearchMap.entries_apart he he' hself)

theorem Separate.own (h : Separate t) {e : C × Address} (he : t.forwards.find c = some e) :
    t.others.find c = none := by
  cases hother : t.others.find c with
  | none => rfl
  | some other => cases he.symm.trans (h.aliases c other hother).1

theorem Separate.roundTrips (h : Separate t) : RoundTrips t := by
  intro s c hback
  obtain ⟨⟨s', c'⟩, hfind, rfl⟩ := Option.map_eq_some_iff.1 hback
  obtain ⟨hentry, hequal, _⟩ := Address.find_lowest hfind
  have hforwards := h.inverse.find_forwards hentry
  refine ⟨s', ?_, hequal⟩
  rw [translate_own (h.own hforwards), hforwards]
  rfl

end Translations

theorem separate_init : Separate (init (C := C)) := ⟨inverse_init, nofun⟩

section Insertions
variable {t u : AddressTranslator C}

/-- A translation stays if its address has the alias that it had, and the mappings stay. -/
theorem translate_kept {c : C} {s : Address} (hothers : u.others.find c = t.others.find c)
    (hkept : ∀ c e, t.forwards.find c = some e → u.forwards.find c = some e)
    (h : t.translate true c = some s) : u.translate true c = some s := by
  cases hc : t.others.find c with
  | none =>
    rw [translate_own hc] at h
    rcases Option.map_eq_some_iff.1 h with ⟨e, he, rfl⟩
    rw [translate_own (hothers.trans hc), hkept c e he]
    rfl
  | some other =>
    rw [translate_alias hc] at h
    rcases Option.map_eq_some_iff.1 h with ⟨e, he, rfl⟩
    rw [translate_alias (hothers.trans hc), hkept _ e he]
    rfl

theorem Separate.mapped (h : Separate t) (hinverse : Inverse u) {address : C} {e : C × Address}
    (hfw : t.forwards.find address = none) (hother : t.others.find address = none)
    (hforwards : ∀ c, u.forwards.find c = if c = address then some e else t.forwards.find c)
    (hothers : u.others = t.others) : Separate u ∧ Keeps t u := by
  have hkept : ∀ c e, t.forwards.find c = some e → u.forwards.find c = some e := by
    intro c e he
    rw [hforwards, if_neg, he]
    rintro rfl
    cases hfw.symm.trans he
  refine ⟨⟨hinverse, fun c other hc => ?_⟩, fun c s => translate_kept (by rw [hothers]) hkept⟩
  rw [hothers] at hc
  rcases h.aliases c other hc with ⟨hnone, s, htarget⟩
  refine ⟨?_, s, hkept _ _ htarget⟩
  rw [hforwards, if_neg, hnone]
  rintro rfl
  cases hother.symm.trans hc

/-- A new alias, for an address that has no mapping and is not redirected. -/
theorem Separate.aliased (h : Separate t) (hinverse : Inverse u) {address target : C} {s : Address}
    (hnone : t.forwards.find address = none)
    (hredirected : ∀ other, t.others.find address = some other → other.2 = target)
    (htarget : t.forwards.find target = some (target, s))
    (hothers : ∀ c, u.others.find c = if c = address then some (address, target) else t.others.find c)
    (hforwards : u.forwards = t.forwards) : Separate u ∧ Keeps t u := by
  constructor
  · refine ⟨hinverse, fun c other hc => ?_⟩
    rw [hothers] at hc
    rw [hforwards]
    split at hc
    · next hself =>
      subst hself
      cases hc
      exact ⟨hnone, s, htarget⟩
    · exact h.aliases c other hc
  · intro c s htranslate
    have hnow := hothers c
    by_cases hself : c = address
    · subst hself
      rw [if_pos rfl] at hnow
      cases hc : t.others.find c with
      | none =>
        rw [translate_own hc, hnone] at htranslate
        cases htranslate
      | some other =>
        rw [translate_alias hc] at htranslate
        rw [translate_alias hnow, hforwards, ← hredirected other hc]
        exact htranslate
    · rw [if_neg hself] at hnow
      exact translate_kept hnow (fun _ _ he => hforwards ▸ he) htranslate

end Insertions

/-- A harmless insertion leaves the aliases apart from the mappings, and changes no translation. -/
theorem Separate.inserted {t : AddressTranslator C} (h : Separate t) {call : Call C}
    (hharmless : Harmless t call) : Separate (insert true t call) ∧ Keeps t (insert true t call) := by
  have hinverse := inverse_insert true h.inverse call
  rcases insert_cases true t call with hsame | ⟨hvalid, hfw, hbw, hnew⟩ | ⟨bw, hvalid, hbw, hne, _, halias⟩
  · rw [hsame]
    exact ⟨h, fun _ _ htranslate => htranslate⟩
  · have hharmless := hharmless hvalid
    rw [hbw] at hharmless
    have hforwards : ∀ c, (insert true t call).forwards.find c =
        if c = call.address then some (call.address, call.someipAddress) else t.forwards.find c := by
      intro c
      rw [hnew]
      exact SearchMap.find_set _ _ _ c
    exact h.mapped hinverse hfw (hharmless hfw) hforwards (by rw [hnew])
  · have hharmless := hharmless hvalid
    rw [hbw] at hharmless
    rcases hharmless hne with ⟨hnone, hredirected⟩
    have hothers : ∀ c, (insert true t call).others.find c =
        if c = call.address then some (call.address, bw.2) else t.others.find c := by
      intro c
      rw [halias]
      exact SearchMap.find_set _ _ _ c
    exact h.aliased hinverse hnone hredirected
      (h.inverse.find_forwards (SearchMap.find_least hbw).1) hothers (by rw [halias])

section Exact
variable {t : AddressTranslator C} {call : Call C}

theorem insert_new
    (hvalid : (isValidService call.someipAddress.service &&
      isValidInstance call.someipAddress.instance_) = true)
    (hfw : t.forwards.find call.address = none) (hbw : t.backwards.find call.someipAddress = none) :
    insert true t call =
      { t with
        forwards := t.forwards.set call.forwardsBalancing call.address call.someipAddress
        backwards := t.backwards.set call.backwardsBalancing call.someipAddress call.address } := by
  unfold insert
  rw [if_pos hvalid, hfw, hbw]

theorem insert_alias
    (hvalid : (isValidService call.someipAddress.service &&
      isValidInstance call.someipAddress.instance_) = true) {bw : Address × C}
    (hbw : t.backwards.find call.someipAddress = some bw) (hne : bw.2 ≠ call.address) :
    insert true t call =
      { t with others := t.others.set call.othersBalancing call.address bw.2 } := by
  unfold insert
  rw [if_pos hvalid, hbw]
  cases t.forwards.find call.address <;> exact if_pos ⟨hne, rfl⟩

theorem Separate.shadowed (h : Separate t)
    (hvalid : (isValidService call.someipAddress.service &&
      isValidInstance call.someipAddress.instance_) = true)
    (hfw : t.forwards.find call.address = none) (hbw : t.backwards.find call.someipAddress = none)
    {other : C × C} (hother : t.others.find call.address = some other) :
    ¬ RoundTrips (insert true t call) := by
  intro hround
  obtain ⟨_, s, htarget⟩ := h.aliases _ other hother
  have hne : other.2 ≠ call.address := fun heq => by
    rw [heq, hfw] at htarget
    cases htarget
  have hentry : (call.someipAddress, call.address) ∈
      (t.backwards.set call.backwardsBalancing call.someipAddress call.address).entries :=
    (SearchMap.mem_set _ fun e he hsame =>
      absurd hsame (SearchMap.find_eq_none_iff.1 hbw e he)).2 (Or.inl rfl)
  have hback : (insert true t call).translateBack call.someipAddress = some call.address := by
    rw [insert_new hvalid hfw hbw]
    exact congrArg (Option.map Prod.snd) (SearchMap.find_entry hentry)
  have hnow : (insert true t call).others.find call.address = some other := by
    rw [insert_new hvalid hfw hbw]
    exact hother
  have hforward : (insert true t call).translate true call.address = some s := by
    rw [translate_alias hnow, insert_new hvalid hfw hbw]
    dsimp only
    rw [SearchMap.find_set, if_neg hne, htarget]
    rfl
  obtain ⟨s', hs', hequal⟩ := hround _ _ hback
  cases hforward.symm.trans hs'
  have hold := (h.inverse other.2 s).1 (SearchMap.find_eq_some_iff.1 htarget).1
  exact SearchMap.find_eq_none_iff.1 hbw _ hold ((Address.incomparable_iff _ _).2 hequal)

/-- Behind an alias insertion the address translates to the address of the alias. -/
theorem Separate.redirected (h : Separate t)
    (hvalid : (isValidService call.someipAddress.service &&
      isValidInstance call.someipAddress.instance_) = true) {bw : Address × C}
    (hbw : t.backwards.find call.someipAddress = some bw) (hne : bw.2 ≠ call.address) :
    (insert true t call).translate true call.address = some bw.1 := by
  have hnow : (insert true t call).others.find call.address = some (call.address, bw.2) := by
    rw [insert_alias hvalid hbw hne]
    exact (SearchMap.find_set _ _ _ _).trans (if_pos rfl)
  rw [translate_alias hnow, insert_alias hvalid hbw hne]
  dsimp only
  rw [h.inverse.find_forwards (SearchMap.find_least hbw).1]
  rfl

/-- Any other insertion breaks a round trip or changes a translation. -/
theorem Separate.harmless (h : Separate t) (hround : RoundTrips (insert true t call))
    (hkeeps : Keeps t (insert true t call)) : Harmless t call := by
  intro hvalid
  cases hbw : t.backwards.find call.someipAddress with
  | none =>
    intro hfw
    cases hother : t.others.find call.address with
    | none => rfl
    | some other => exact absurd hround (h.shadowed hvalid hfw hbw hother)
  | some bw =>
    intro hne
    have htarget := h.inverse.find_forwards (SearchMap.find_least hbw).1
    have hnow := h.redirected hvalid hbw hne
    constructor
    · cases hfw : t.forwards.find call.address with
      | none => rfl
      | some e =>
        obtain ⟨_, hkey⟩ := SearchMap.find_eq_some_iff.1 hfw
        have hbefore : t.translate true call.address = some e.2 := by
          rw [translate_own (h.own hfw), hfw]
          rfl
        have hsame : e.2 = bw.1 := Option.some.inj ((hkeeps _ _ hbefore).symm.trans hnow)
        have hown : t.forwards.find call.address = some (call.address, bw.1) := by
          rw [hfw, ← hkey, ← hsame]
        exact absurd (h.inverse.eq_of_find htarget hown) hne
    · intro other hother
      obtain ⟨_, s, hs⟩ := h.aliases _ other hother
      have hbefore : t.translate true call.address = some s := by
        rw [translate_alias hother, hs]
        rfl
      obtain rfl := Option.some.inj ((hkeeps _ _ hbefore).symm.trans hnow)
      exact h.inverse.eq_of_find hs htarget

end Exact

/-- In every state that the calls come to, addresses lead back, and later states keep what
    earlier ones translate. -/
def StableRun (calls : List (Call C)) : Prop :=
  (∀ front, front <+: calls → RoundTrips (after true front)) ∧
    ∀ front more, front <+: more → more <+: calls → Keeps (after true front) (after true more)

def HarmlessRun (calls : List (Call C)) : Prop :=
  ∀ front call, front ++ [call] <+: calls → Harmless (after true front) call

theorem HarmlessRun.front {calls : List (Call C)} (h : HarmlessRun calls) {front : List (Call C)}
    (hfront : front <+: calls) : HarmlessRun front :=
  fun more call hmore => h more call (hmore.trans hfront)

theorem HarmlessRun.separate {calls : List (Call C)} (h : HarmlessRun calls) :
    Separate (after true calls) := by
  induction calls using List.reverseRecOn with
  | nil => exact separate_init
  | append_singleton calls call ih =>
    rw [after_append]
    exact ((ih (h.front (List.prefix_append _ _))).inserted (h calls call List.prefix_rfl)).1

theorem HarmlessRun.keeps {calls : List (Call C)} (h : HarmlessRun calls) {front : List (Call C)}
    (hfront : front <+: calls) : Keeps (after true front) (after true calls) := by
  induction calls using List.reverseRecOn with
  | nil =>
    obtain rfl := List.prefix_nil.1 hfront
    exact fun _ _ htranslate => htranslate
  | append_singleton calls call ih =>
    obtain rfl | hfront := List.prefix_concat_iff.1 hfront
    · exact fun _ _ htranslate => htranslate
    · have hcalls := h.front (List.prefix_append calls [call])
      rw [after_append]
      exact fun c s htranslate =>
        (hcalls.separate.inserted (h calls call List.prefix_rfl)).2 c s (ih hcalls hfront c s htranslate)

theorem StableRun.harmlessRun {calls : List (Call C)} (h : StableRun calls) : HarmlessRun calls := by
  induction calls using List.reverseRecOn with
  | nil =>
    intro front call hfront
    cases (List.append_eq_nil_iff.1 (List.prefix_nil.1 hfront)).2
  | append_singleton calls call ih =>
    have hprefix := List.prefix_append calls [call]
    have hcalls : HarmlessRun calls := ih ⟨fun front hfront => h.1 front (hfront.trans hprefix),
      fun front more hfront hmore => h.2 front more hfront (hmore.trans hprefix)⟩
    intro front call' hfront
    obtain heq | hfront := List.prefix_concat_iff.1 hfront
    · obtain ⟨rfl, hcall⟩ := List.append_inj' heq rfl
      cases hcall
      refine hcalls.separate.harmless ?_ ?_
      · rw [← after_append]
        exact h.1 _ List.prefix_rfl
      · rw [← after_append]
        exact h.2 _ _ hprefix List.prefix_rfl
    · exact hcalls front call' hfront

/-- Translations are stable and lead back in a run exactly if all its insertions are harmless. -/
theorem translations_stable_iff (calls : List (Call C)) : StableRun calls ↔ HarmlessRun calls := by
  constructor
  · exact StableRun.harmlessRun
  · exact fun h => ⟨fun front hfront => (h.front hfront).separate.roundTrips,
      fun front more hfront hmore => (h.front hmore).keeps hfront⟩

def plainBalancing (K V : Type) : Balancing K V := ⟨id, fun _ => rfl⟩

def plainCall (address : ℕ) (someipAddress : Address) : Call ℕ :=
  ⟨address, someipAddress, plainBalancing _ _, plainBalancing _ _, plainBalancing _ _⟩

/-- The address has its own mapping, and is made an alias of another one. -/
theorem own_mapping_shadowed :
    ¬ ∀ calls : List (Call ℕ), StableRun calls := by
  intro h
  have hstable := (h [plainCall 0 ⟨1, 1, 1, 0⟩, plainCall 1 ⟨2, 1, 1, 0⟩, plainCall 0 ⟨2, 1, 1, 0⟩]).2
    [plainCall 0 ⟨1, 1, 1, 0⟩] _ (List.prefix_append _ _) List.prefix_rfl 0 ⟨1, 1, 1, 0⟩ (by decide)
  revert hstable
  decide

end SomeIPRuntime.AddressTranslation.AddressTranslator
