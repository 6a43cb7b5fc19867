import SomeIPRuntime.AddressOrder
import SomeIPRuntime.ConfigurationValues

set_option autoImplicit false

/-!
# Alias tables

The `aliases` section of the configuration file. Its mappings may come in any order, and
the first one for an address fixes the target and the key. The order does not matter as
long as equal addresses have one major version and one target, and equal ids one target.
What is only logged is left out.
-/
namespace SomeIPRuntime.Configuration
open SearchTrees

local instance idOrder : LinearOrder (BitVec 16) where
  le_refl := BitVec.le_refl
  le_trans _ _ _ := BitVec.le_trans
  le_antisymm _ _ := BitVec.le_antisymm
  lt_iff_le_not_ge a b := by
    rw [BitVec.not_le]
    exact ⟨fun h => ⟨BitVec.le_of_lt h, h⟩, And.right⟩
  le_total a b := BitVec.le_total a b
  toDecidableLE := inferInstance
  toDecidableLT := inferInstance

inductive IdTable
  | methods
  | eventgroups
  deriving DecidableEq

structure Alias where
  target : Address
  ids : IdTable → SearchMap (BitVec 16) (BitVec 16)

abbrev Aliases := SearchMap Address Alias

def getAddressAlias (aliases : Aliases) (address : Address) : Address :=
  match aliases.find address with
  | some foundAddress => foundAddress.2.target
  | none => address

def getIdAlias (table : IdTable) (aliases : Aliases) (address : Address) (id : BitVec 16) :
    BitVec 16 :=
  match aliases.find address with
  | some foundAddress =>
    match (foundAddress.2.ids table).find id with
    | some found => found.2
    | none => id
  | none => id

def getMethodAlias : Aliases → Address → MethodId → MethodId := getIdAlias .methods

def getEventgroupAlias : Aliases → Address → EventgroupId → EventgroupId := getIdAlias .eventgroups

def minMethodId : MethodId := 0x0001
def maxMethodId : MethodId := 0xfffe
def minEventgroupId : EventgroupId := 0x0001
def maxEventgroupId : EventgroupId := 0xfffe

def isValidMethod (method : MethodId) : Bool := !(method < minMethodId || method > maxMethodId)

def isValidEventgroup (eventgroup : EventgroupId) : Bool :=
  !(eventgroup < minEventgroupId || eventgroup > maxEventgroupId)

def IdTable.isValid : IdTable → BitVec 16 → Bool
  | methods => isValidMethod
  | eventgroups => isValidEventgroup

structure Rotations where
  aliases : Balancing Address Alias
  ids : Balancing (BitVec 16) (BitVec 16)

structure Locals where
  sourceId : BitVec 16
  targetId : BitVec 16

def noAddress : Address := ⟨0x0000, 0x0000, anyMajorVersion, 0xffffffff⟩

def readBoth (locals : Locals) (source target : Text) (readId : Bool) :
    Option (Option ((Address × BitVec 16) × (Address × BitVec 16))) := do
  let readSource ← readValue source noAddress locals.sourceId readId
  if readSource.1 then
    let readTarget ← readValue target noAddress locals.targetId readId
    if readTarget.1 then return some (readSource.2, readTarget.2)
    return none
  return none

def insertService (rotations : Rotations) (aliases : Aliases) (source target : Address) : Aliases :=
  match aliases.find source with
  | none => aliases.set rotations.aliases source ⟨target, fun _ => .empty⟩
  | some _ => aliases

def insertId (rotations : Rotations) (table : IdTable) (aliases : Aliases) (source target : Address)
    (sourceId targetId : BitVec 16) : Aliases :=
  match aliases.find source with
  | none =>
    aliases.set rotations.aliases source
      ⟨target, Function.update (fun _ => .empty) table (.set rotations.ids sourceId targetId .empty)⟩
  | some findService =>
    if target.Equals findService.2.target then
      match (findService.2.ids table).find sourceId with
      | none =>
        aliases.set rotations.aliases source { findService.2 with
          ids := Function.update findService.2.ids table
            ((findService.2.ids table).set rotations.ids sourceId targetId) }
      | some _ => aliases
    else aliases

section Readers
variable (rotations : Rotations) (locals : Locals) (aliases : Aliases) (source target : Text)

def readServiceAlias : Option Aliases := do
  match ← readBoth locals source target false with
  | some (itsSource, itsTarget) =>
    return insertService rotations aliases itsSource.1 itsTarget.1
  | none => return aliases

def readIdAlias (table : IdTable) : Option Aliases := do
  match ← readBoth locals source target true with
  | some (itsSource, itsTarget) =>
    if table.isValid itsSource.2 && table.isValid itsTarget.2 then
      return insertId rotations table aliases itsSource.1 itsTarget.1 itsSource.2 itsTarget.2
    return aliases
  | none => return aliases

def readMethodAlias : Option Aliases := readIdAlias rotations locals aliases source target .methods

def readEventgroupAlias : Option Aliases :=
  readIdAlias rotations locals aliases source target .eventgroups

end Readers

def Text.behindPrefix (data : Text) (start : List Char) : Option Text :=
  if start.isPrefixOf data.chars then
    some ⟨data.chars.drop start.length, by
      have hshort := data.short
      rw [List.length_drop]
      omega⟩
  else none

/-- A mapping of the section, with what reading it depends on besides. -/
structure Mapping where
  key : Text
  value : Text
  locals : Locals
  rotations : Rotations

inductive Reader
  | service
  | method
  | event
  | eventgroup

def Mapping.reader (m : Mapping) : Option (Reader × Text) :=
  match m.key.behindPrefix "service:".toList, m.key.behindPrefix "method:".toList,
    m.key.behindPrefix "event:".toList, m.key.behindPrefix "eventgroup:".toList with
  | some source, _, _, _ => some (.service, source)
  | none, some source, _, _ => some (.method, source)
  | none, none, some source, _ => some (.event, source)
  | none, none, none, some source => some (.eventgroup, source)
  | none, none, none, none => none

def readMapping (aliases : Aliases) (m : Mapping) : Option Aliases :=
  match m.reader with
  | some (.service, source) => readServiceAlias m.rotations m.locals aliases source m.value
  | some (.method, source) => readMethodAlias m.rotations m.locals aliases source m.value
  | some (.event, source) => readMethodAlias m.rotations m.locals aliases source m.value
  | some (.eventgroup, source) => readEventgroupAlias m.rotations m.locals aliases source m.value
  | none => some aliases

def readAliases (mappings : List Mapping) : Option Aliases := mappings.foldlM readMapping .empty

inductive AliasEntry
  | service (source target : Address)
  | id (table : IdTable) (source target : Address) (sourceId targetId : BitVec 16)
  deriving DecidableEq

namespace AliasEntry

def source : AliasEntry → Address
  | service source _ => source
  | id _ source _ _ _ => source

def target : AliasEntry → Address
  | service _ target => target
  | id _ _ target _ _ => target

def insert (rotations : Rotations) (aliases : Aliases) : AliasEntry → Aliases
  | service source target => insertService rotations aliases source target
  | id table source target sourceId targetId =>
    insertId rotations table aliases source target sourceId targetId

end AliasEntry

section Entries
variable (locals : Locals) (source target : Text)

def serviceEntry : Option AliasEntry :=
  (readBoth locals source target false).join.map fun both => .service both.1.1 both.2.1

def idEntry (table : IdTable) : Option AliasEntry :=
  (readBoth locals source target true).join.bind fun both =>
    if table.isValid both.1.2 && table.isValid both.2.2 then
      some (.id table both.1.1 both.2.1 both.1.2 both.2.2)
    else none

end Entries

def Mapping.entry (m : Mapping) : Option AliasEntry :=
  match m.reader with
  | some (.service, source) => serviceEntry m.locals source m.value
  | some (.method, source) => idEntry m.locals source m.value .methods
  | some (.event, source) => idEntry m.locals source m.value .methods
  | some (.eventgroup, source) => idEntry m.locals source m.value .eventgroups
  | none => none

def entries (mappings : List Mapping) : List AliasEntry := mappings.filterMap Mapping.entry

/-- Equal sources have equal targets, and equal ids of them too. -/
structure ConflictFree (es : List AliasEntry) : Prop where
  targets : ∀ e ∈ es, ∀ e' ∈ es, e.source.Equals e'.source → e.target.Equals e'.target
  ids : ∀ table source target sourceId targetId source' target' targetId',
    .id table source target sourceId targetId ∈ es →
      .id table source' target' sourceId targetId' ∈ es →
        source.Equals source' → targetId = targetId'

/-- Equal sources have the same major version, and their targets are the same. -/
def Uniform (es : List AliasEntry) : Prop :=
  ∀ e ∈ es, ∀ e' ∈ es, e.source.Equals e'.source →
    e.source.majorVersion = e'.source.majorVersion ∧ e.target = e'.target

theorem readBoth_total (locals : Locals) (source target : Text) (readId : Bool) :
    ∃ both, readBoth locals source target readId = some both := by
  unfold readBoth
  rcases readValue_total source noAddress locals.sourceId readId with ⟨readSource, hsource⟩
  rcases readValue_total target noAddress locals.targetId readId with ⟨readTarget, htarget⟩
  simp only [hsource, htarget, bind, pure, Option.bind_some]
  split_ifs <;> exact ⟨_, rfl⟩

section Readers
variable (rotations : Rotations) (locals : Locals) (aliases : Aliases) (source target : Text)

theorem readServiceAlias_eq : readServiceAlias rotations locals aliases source target =
    some ((serviceEntry locals source target).elim aliases (AliasEntry.insert rotations aliases)) := by
  rcases readBoth_total locals source target false with ⟨both, hboth⟩
  unfold readServiceAlias serviceEntry
  rw [hboth]
  cases both with
  | none => rfl
  | some both => rfl

theorem readIdAlias_eq (table : IdTable) : readIdAlias rotations locals aliases source target table =
    some ((idEntry locals source target table).elim aliases
      (AliasEntry.insert rotations aliases)) := by
  rcases readBoth_total locals source target true with ⟨both, hboth⟩
  unfold readIdAlias idEntry
  rw [hboth]
  cases both with
  | none => rfl
  | some both =>
    change (if _ then _ else _ : Option Aliases) =
      some ((if _ then _ else _ : Option AliasEntry).elim _ _)
    split_ifs <;> rfl

end Readers

theorem readMapping_eq (aliases : Aliases) (m : Mapping) :
    readMapping aliases m =
      some (m.entry.elim aliases (AliasEntry.insert m.rotations aliases)) := by
  unfold readMapping Mapping.entry
  cases m.reader with
  | none => rfl
  | some reader =>
    rcases reader with ⟨reader, source⟩
    cases reader with
    | service => exact readServiceAlias_eq ..
    | method => exact readIdAlias_eq ..
    | event => exact readIdAlias_eq ..
    | eventgroup => exact readIdAlias_eq ..

def Alike (a b : Address) : Prop :=
  a.service = b.service ∧ a.instance_ = b.instance_ ∧ a.majorVersion = b.majorVersion

section Alike
variable {a b c : Address}

theorem Alike.symm (h : Alike a b) : Alike b a := ⟨h.1.symm, h.2.1.symm, h.2.2.symm⟩

theorem Alike.equals (h : Alike a b) (hbc : b.Equals c) : a.Equals c := by
  unfold Address.Equals at hbc ⊢
  rw [h.1, h.2.1, h.2.2]
  exact hbc

theorem Alike.trans (h : Alike a b) (hbc : Alike b c) : Alike a c :=
  ⟨h.1.trans hbc.1, h.2.1.trans hbc.2.1, h.2.2.trans hbc.2.2⟩

theorem alike_of_equals (h : a.Equals b) (hmajor : a.majorVersion = b.majorVersion) : Alike a b :=
  ⟨h.1, h.2.1, hmajor⟩

end Alike

structure Holds (t : Aliases) (es : List AliasEntry) : Prop where
  keys : ∀ f ∈ t.entries, ∃ e ∈ es, Alike e.source f.1 ∧ e.target = f.2.target
  sources : ∀ e ∈ es, ∃ f ∈ t.entries, Alike e.source f.1
  ids : ∀ f ∈ t.entries, ∀ table i j, (i, j) ∈ (f.2.ids table).entries ↔
    ∃ source target, .id table source target i j ∈ es ∧ Alike source f.1

/-- The entries that a table holds may be consistent with more. -/
structure Consistent (es : List AliasEntry) : Prop where
  free : ConflictFree es
  uniform : Uniform es

theorem Consistent.subset {es es' : List AliasEntry} (h : Consistent es') (hsub : es ⊆ es') :
    Consistent es where
  free :=
    { targets := fun e he e' he' => h.free.targets e (hsub he) e' (hsub he')
      ids := fun table s t i j s' t' j' hm hm' =>
        h.free.ids table s t i j s' t' j' (hsub hm) (hsub hm') }
  uniform := fun e he e' he' => h.uniform e (hsub he) e' (hsub he')

theorem mem_set_found {t : Aliases} {k : Address} {f : Address × Alias} (hf : t.find k = some f)
    (balancing : Balancing Address Alias) (v : Alias) {e : Address × Alias} :
    e ∈ (t.set balancing k v).entries ↔ e = (f.1, v) ∨ e ∈ t.entries ∧ e.1 ≠ f.1 := by
  have hmem := (Address.find_lowest hf).1
  have hsame : t.set balancing k v = t.set balancing f.1 v := by
    unfold SearchMap.set
    simp only [hf, SearchMap.find_entry hmem, Option.elim_some]
  rw [hsame, SearchMap.mem_set balancing]
  intro e he hkey
  rw [SearchMap.entries_apart he hmem hkey]

theorem mem_set_new {t : Aliases} {k : Address} (hk : t.find k = none)
    (balancing : Balancing Address Alias) (v : Alias) {e : Address × Alias} :
    e ∈ (t.set balancing k v).entries ↔ e = (k, v) ∨ e ∈ t.entries := by
  have hapart := SearchMap.find_eq_none_iff.1 hk
  rw [SearchMap.mem_set balancing fun e he hkey => absurd hkey (hapart e he)]
  refine or_congr_right (and_iff_left_of_imp fun he hkey => ?_)
  refine hapart e he ?_
  rw [hkey]
  exact ⟨irrefl_of (· < ·) k, irrefl_of (· < ·) k⟩

theorem find_id {ids : SearchMap (BitVec 16) (BitVec 16)} {i : BitVec 16} {g : BitVec 16 × BitVec 16} :
    ids.find i = some g ↔ g ∈ ids.entries ∧ g.1 = i :=
  SearchMap.find_eq_some_iff

theorem mem_update (ids : IdTable → SearchMap (BitVec 16) (BitVec 16)) {table : IdTable}
    {i : BitVec 16} (hnew : (ids table).find i = none) (balancing : Balancing (BitVec 16) (BitVec 16))
    (j : BitVec 16) {table' : IdTable} {i' j' : BitVec 16} :
    (i', j') ∈ (Function.update ids table ((ids table).set balancing i j) table').entries ↔
      (i', j') ∈ (ids table').entries ∨ table' = table ∧ i' = i ∧ j' = j := by
  by_cases htable : table' = table
  · subst htable
    rw [Function.update_self, SearchMap.mem_set balancing fun _ _ => incomparable_iff_eq.1]
    have hapart := SearchMap.find_eq_none_iff.1 hnew
    have hne : (i', j') ∈ (ids table').entries → i' ≠ i := fun hmem hi =>
      hapart _ hmem (incomparable_iff_eq.2 hi)
    simp only [Prod.mk.injEq, true_and]
    constructor
    · rintro (heq | hold)
      · exact Or.inr heq
      · exact Or.inl hold.1
    · rintro (hold | heq)
      · exact Or.inr ⟨hold, hne hold⟩
      · exact Or.inl heq
  · rw [Function.update_of_ne htable]
    simp only [htable, false_and, or_false]

theorem mem_same {t : Aliases} {f f' : Address × Alias} (hf : f ∈ t.entries) :
    f' ∈ t.entries ↔ f' = (f.1, f.2) ∨ f' ∈ t.entries ∧ f'.1 ≠ f.1 := by
  have hself : f'.1 = f.1 → Incomparable f'.1 f.1 := fun h => by
    rw [h]
    exact ⟨irrefl_of (· < ·) f.1, irrefl_of (· < ·) f.1⟩
  constructor
  · intro hf'
    by_cases hkey : f'.1 = f.1
    · exact Or.inl (SearchMap.entries_apart hf' hf (hself hkey))
    · exact Or.inr ⟨hf', hkey⟩
  · rintro (rfl | ⟨hold, _⟩)
    · exact hf
    · exact hold

section Holds
variable {t t' : Aliases} {es : List AliasEntry} {e : AliasEntry} {f : Address × Alias}

theorem entries_alike {f' : Address × Alias} (hf : f ∈ t.entries) (hf' : f' ∈ t.entries)
    (h : Alike f.1 f'.1) : f = f' :=
  SearchMap.entries_apart hf hf'
    ((Address.incomparable_iff _ _).2 (h.equals (Address.equals_refl _)))

theorem holds_empty : Holds .empty [] := ⟨nofun, nofun, nofun⟩

/-- What is found for an entry that is consistent with the others has its source and target. -/
theorem Holds.found (h : Holds t es) (hc : Consistent (es ++ [e]))
    (hf : t.find e.source = some f) :
    f ∈ t.entries ∧ Alike e.source f.1 ∧ e.target = f.2.target := by
  rcases Address.find_lowest hf with ⟨hmem, hequal, _⟩
  rcases h.keys f hmem with ⟨e', he', halike, htarget⟩
  have hsame := hc.uniform e' (List.mem_append_left _ he') e
    (List.mem_append_right _ (List.mem_singleton_self e)) (halike.equals hequal)
  have hsource : Alike e'.source e.source := alike_of_equals (halike.equals hequal) hsame.1
  exact ⟨hmem, hsource.symm.trans halike, hsame.2.symm.trans htarget⟩

/-- The alias that is found gets the ids of the entry, if they are not there. -/
theorem Holds.replace (h : Holds t es) (hf : f ∈ t.entries) (hsource : Alike e.source f.1)
    (htarget : e.target = f.2.target) {v : Alias} (hv : v.target = f.2.target)
    (hids : ∀ table i j, (i, j) ∈ (v.ids table).entries ↔
      (i, j) ∈ (f.2.ids table).entries ∨ ∃ source target, e = .id table source target i j)
    (hmem : ∀ f', f' ∈ t'.entries ↔ f' = (f.1, v) ∨ f' ∈ t.entries ∧ f'.1 ≠ f.1) :
    Holds t' (es ++ [e]) where
  keys f' hf' := by
    rcases (hmem f').1 hf' with rfl | ⟨hold, _⟩
    · exact ⟨e, by simp, hsource, htarget.trans hv.symm⟩
    · rcases h.keys f' hold with ⟨e', he', hkey⟩
      exact ⟨e', List.mem_append_left _ he', hkey⟩
  sources e' he' := by
    have hfirst : (f.1, v) ∈ t'.entries := (hmem _).2 (Or.inl rfl)
    rcases List.mem_append.1 he' with hold | hnew
    · rcases h.sources e' hold with ⟨f', hf', halike⟩
      by_cases hkey : f'.1 = f.1
      · exact ⟨(f.1, v), hfirst, hkey ▸ halike⟩
      · exact ⟨f', (hmem f').2 (Or.inr ⟨hf', hkey⟩), halike⟩
    · cases List.mem_singleton.1 hnew
      exact ⟨(f.1, v), hfirst, hsource⟩
  ids f' hf' table i j := by
    rcases (hmem f').1 hf' with rfl | ⟨hold, hkey⟩
    · rw [hids, h.ids f hf]
      constructor
      · rintro (⟨source, target, hid, halike⟩ | ⟨source, target, rfl⟩)
        · exact ⟨source, target, List.mem_append_left _ hid, halike⟩
        · exact ⟨source, target, by simp, hsource⟩
      · rintro ⟨source, target, hid, halike⟩
        rcases List.mem_append.1 hid with hid | hid
        · exact Or.inl ⟨source, target, hid, halike⟩
        · exact Or.inr ⟨source, target, (List.mem_singleton.1 hid).symm⟩
    · rw [h.ids f' hold]
      refine exists_congr fun source => exists_congr fun target => and_congr_left fun halike => ?_
      rw [List.mem_append, List.mem_singleton]
      refine (or_iff_left fun hid => hkey ?_).symm
      subst hid
      have hsame : Alike f'.1 f.1 := halike.symm.trans hsource
      exact congrArg Prod.fst (entries_alike hold hf hsame)

theorem Holds.add (h : Holds t es) (hnone : t.find e.source = none) {v : Alias}
    (hv : v.target = e.target)
    (hids : ∀ table i j, (i, j) ∈ (v.ids table).entries ↔ ∃ source target, e = .id table source target i j)
    (hmem : ∀ f', f' ∈ t'.entries ↔ f' = (e.source, v) ∨ f' ∈ t.entries) :
    Holds t' (es ++ [e]) := by
  have hapart : ∀ f' ∈ t.entries, ¬ Alike f'.1 e.source := fun f' hf' halike =>
    SearchMap.find_eq_none_iff.1 hnone f' hf'
      ((Address.incomparable_iff _ _).2 (halike.equals (Address.equals_refl _)))
  refine ⟨fun f' hf' => ?_, fun e' he' => ?_, fun f' hf' table i j => ?_⟩
  · rcases (hmem f').1 hf' with rfl | hold
    · exact ⟨e, by simp, ⟨rfl, rfl, rfl⟩, hv.symm⟩
    · rcases h.keys f' hold with ⟨e', he', hkey⟩
      exact ⟨e', List.mem_append_left _ he', hkey⟩
  · rcases List.mem_append.1 he' with hold | hnew
    · rcases h.sources e' hold with ⟨f', hf', halike⟩
      exact ⟨f', (hmem f').2 (Or.inr hf'), halike⟩
    · cases List.mem_singleton.1 hnew
      exact ⟨(e.source, v), (hmem _).2 (Or.inl rfl), rfl, rfl, rfl⟩
  · rcases (hmem f').1 hf' with rfl | hold
    · rw [hids]
      constructor
      · rintro ⟨source, target, rfl⟩
        exact ⟨source, target, by simp, rfl, rfl, rfl⟩
      · rintro ⟨source, target, hid, halike⟩
        rcases List.mem_append.1 hid with hid | hid
        · rcases h.sources _ hid with ⟨f', hf', halike'⟩
          exact absurd (halike'.symm.trans halike) (hapart f' hf')
        · exact ⟨source, target, (List.mem_singleton.1 hid).symm⟩
    · rw [h.ids f' hold]
      refine exists_congr fun source => exists_congr fun target => and_congr_left fun halike => ?_
      rw [List.mem_append, List.mem_singleton]
      refine (or_iff_left fun hid => hapart f' hold ?_).symm
      subst hid
      exact halike.symm

theorem Holds.service (h : Holds t es) {source target : Address}
    (hc : Consistent (es ++ [.service source target])) (rotations : Rotations) :
    Holds (insertService rotations t source target) (es ++ [.service source target]) := by
  unfold insertService
  cases hfind : t.find source with
  | none =>
    refine h.add hfind rfl (fun table i j => iff_of_false List.not_mem_nil ?_) fun f' =>
      mem_set_new hfind _ _
    rintro ⟨source, target, hid⟩
    cases hid
  | some f =>
    rcases h.found hc hfind with ⟨hf, hsource, htarget⟩
    refine h.replace hf hsource htarget rfl (fun table i j => (or_iff_left ?_).symm) fun f' => ?_
    · rintro ⟨source, target, hid⟩
      cases hid
    · exact mem_same hf

theorem Holds.id (h : Holds t es) {table : IdTable} {source target : Address} {i j : BitVec 16}
    (hc : Consistent (es ++ [.id table source target i j])) (rotations : Rotations) :
    Holds (insertId rotations table t source target i j) (es ++ [.id table source target i j]) := by
  have hsays : ∀ table' i' j', (table' = table ∧ i' = i ∧ j' = j) ↔
      ∃ source' target', AliasEntry.id table source target i j = .id table' source' target' i' j' := by
    intro table' i' j'
    constructor
    · rintro ⟨rfl, rfl, rfl⟩
      exact ⟨source, target, rfl⟩
    · rintro ⟨_, _, hid⟩
      cases hid
      exact ⟨rfl, rfl, rfl⟩
  unfold insertId
  cases hfind : t.find source with
  | none =>
    refine h.add hfind rfl (fun table' i' j' => ?_) fun f' => mem_set_new hfind _ _
    rw [← hsays]
    exact (mem_update (fun _ => .empty) rfl rotations.ids j).trans (or_iff_right nofun)
  | some f =>
    rcases h.found hc hfind with ⟨hf, hsource, htarget⟩
    have htarget' : target = f.2.target := htarget
    dsimp only
    rw [if_pos (htarget' ▸ Address.equals_refl target)]
    cases hid : (f.2.ids table).find i with
    | none =>
      dsimp only
      have hv : (⟨f.2.target, Function.update f.2.ids table
          ((f.2.ids table).set rotations.ids i j)⟩ : Alias).target = f.2.target := rfl
      refine h.replace hf hsource htarget hv (fun table' i' j' => ?_) fun f' =>
        mem_set_found hfind _ _
      rw [← hsays]
      exact mem_update f.2.ids hid rotations.ids j
    | some g =>
      rcases find_id.1 hid with ⟨hg, rfl⟩
      rcases (h.ids f hf table g.1 g.2).1 hg with ⟨source', target', hold, halike⟩
      have hsame : g.2 = j := hc.free.ids table source' target' g.1 g.2 source target j
        (List.mem_append_left _ hold) (List.mem_append_right _ (List.mem_singleton_self _))
        ((halike.trans hsource.symm).equals (Address.equals_refl _))
      refine h.replace hf hsource htarget rfl (fun table' i' j' => ?_) fun f' => mem_same hf
      rw [← hsays]
      refine (or_iff_left_of_imp ?_).symm
      rintro ⟨rfl, rfl, rfl⟩
      rw [← hsame]
      exact hg

theorem Holds.insert (h : Holds t es) (hc : Consistent (es ++ [e])) (rotations : Rotations) :
    Holds (e.insert rotations t) (es ++ [e]) := by
  cases e with
  | service source target => exact h.service hc rotations
  | id table source target i j => exact h.id hc rotations

end Holds

theorem entries_cons (m : Mapping) (rest : List Mapping) :
    entries (m :: rest) = m.entry.toList ++ entries rest := by
  unfold entries
  cases hentry : m.entry with
  | none => exact List.filterMap_cons_none hentry
  | some e => exact List.filterMap_cons_some hentry

theorem Holds.run {t : Aliases} {es : List AliasEntry} (h : Holds t es) (mappings : List Mapping)
    (hc : Consistent (es ++ entries mappings)) :
    ∃ t', mappings.foldlM readMapping t = some t' ∧ Holds t' (es ++ entries mappings) := by
  induction mappings generalizing t es with
  | nil => exact ⟨t, rfl, by rwa [entries, List.filterMap_nil, List.append_nil]⟩
  | cons m rest ih =>
    rw [entries_cons] at hc ⊢
    rw [List.foldlM_cons, readMapping_eq]
    cases hentry : m.entry with
    | none =>
      rw [hentry] at hc
      exact ih h hc
    | some e =>
      rw [hentry] at hc
      change Consistent (es ++ ([e] ++ entries rest)) at hc
      change ∃ t', rest.foldlM readMapping (e.insert m.rotations t) = some t' ∧
        Holds t' (es ++ ([e] ++ entries rest))
      rw [← List.append_assoc] at hc ⊢
      exact ih (h.insert (hc.subset (List.subset_append_left ..)) m.rotations) hc

/-- The three lookups give the same in both tables. -/
def SameLookups (t t' : Aliases) : Prop :=
  ∀ address method eventgroup,
    getAddressAlias t address = getAddressAlias t' address ∧
    getMethodAlias t address method = getMethodAlias t' address method ∧
    getEventgroupAlias t address eventgroup = getEventgroupAlias t' address eventgroup

section Lookups
variable {t t' : Aliases} {es es' : List AliasEntry} {address : Address} {f f' : Address × Alias}

/-- What one table finds, the other one finds with no higher major version. -/
theorem Holds.found_le (h : Holds t es) (h' : Holds t' es') (hsub : es ⊆ es')
    (hf : t.find address = some f) :
    ∃ f', t'.find address = some f' ∧ f'.1.majorVersion ≤ f.1.majorVersion := by
  rcases Address.find_lowest hf with ⟨hmem, hequal, _⟩
  rcases h.keys f hmem with ⟨e, he, halike, _⟩
  rcases h'.sources e (hsub he) with ⟨g, hg, halike'⟩
  have hkey : Alike g.1 f.1 := halike'.symm.trans halike
  have hsome := (Address.find_isSome_iff t' address).2 ⟨g, hg, hkey.equals hequal⟩
  rcases Option.isSome_iff_exists.1 hsome with ⟨f', hf'⟩
  refine ⟨f', hf', ?_⟩
  rw [← hkey.2.2]
  exact (Address.find_lowest hf').2.2 g hg (hkey.equals hequal)

theorem Holds.found_alike (h : Holds t es) (h' : Holds t' es') (hsame : ∀ e, e ∈ es ↔ e ∈ es')
    (hf : t.find address = some f) : ∃ f', t'.find address = some f' ∧ Alike f.1 f'.1 := by
  rcases h.found_le h' (fun e => (hsame e).1) hf with ⟨f', hf', hle⟩
  rcases h'.found_le h (fun e => (hsame e).2) hf' with ⟨g, hg, hge⟩
  cases hf.symm.trans hg
  have hplace := (Address.find_lowest hf).2.1
  have hplace' := (Address.find_lowest hf').2.1
  exact ⟨f', hf', hplace.1.trans hplace'.1.symm, hplace.2.1.trans hplace'.2.1.symm,
    BitVec.le_antisymm hge hle⟩

theorem Holds.found_same (h : Holds t es) (h' : Holds t' es') (hsame : ∀ e, e ∈ es ↔ e ∈ es')
    (hc : Consistent es) (hf : t.find address = some f) :
    ∃ f', t'.find address = some f' ∧ f.2.target = f'.2.target ∧
      ∀ table i, (f.2.ids table).find i = (f'.2.ids table).find i := by
  rcases h.found_alike h' hsame hf with ⟨f', hf', halike⟩
  have hmem := (Address.find_lowest hf).1
  have hmem' := (Address.find_lowest hf').1
  refine ⟨f', hf', ?_, fun table i => Option.ext fun g => ?_⟩
  · rcases h.keys f hmem with ⟨e, he, hkey, htarget⟩
    rcases h'.keys f' hmem' with ⟨e', he', hkey', htarget'⟩
    have hequal : e.source.Equals e'.source :=
      (hkey.trans (halike.trans hkey'.symm)).equals (Address.equals_refl _)
    rw [← htarget, ← htarget']
    exact (hc.uniform e he e' ((hsame e').2 he') hequal).2
  · rw [find_id, find_id]
    refine and_congr_left fun _ => ?_
    rw [h.ids f hmem table g.1 g.2, h'.ids f' hmem' table g.1 g.2]
    refine exists_congr fun source => exists_congr fun target => ?_
    rw [hsame]
    exact and_congr_right fun _ => ⟨fun hs => hs.trans halike, fun hs => hs.trans halike.symm⟩

theorem Holds.lookup (h : Holds t es) (h' : Holds t' es') (hsame : ∀ e, e ∈ es ↔ e ∈ es')
    (hc : Consistent es) (hc' : Consistent es') (address : Address) :
    getAddressAlias t address = getAddressAlias t' address ∧
      ∀ table id, getIdAlias table t address id = getIdAlias table t' address id := by
  unfold getAddressAlias getIdAlias
  cases hf : t.find address with
  | none =>
    have hnone : t'.find address = none := by
      cases hf' : t'.find address with
      | none => rfl
      | some f' =>
        rcases h'.found_same h (fun e => (hsame e).symm) hc' hf' with ⟨g, hg, _⟩
        cases hf.symm.trans hg
    rw [hnone]
    exact ⟨rfl, fun _ _ => rfl⟩
  | some f =>
    rcases h.found_same h' hsame hc hf with ⟨f', hf', htarget, hids⟩
    rw [hf']
    refine ⟨htarget, fun table id => ?_⟩
    dsimp only
    rw [hids]

theorem Holds.sameLookups (h : Holds t es) (h' : Holds t' es') (hsame : ∀ e, e ∈ es ↔ e ∈ es')
    (hc : Consistent es) (hc' : Consistent es') : SameLookups t t' := by
  intro address method eventgroup
  have hlookup := h.lookup h' hsame hc hc' address
  exact ⟨hlookup.1, hlookup.2 .methods method, hlookup.2 .eventgroups eventgroup⟩

end Lookups

/-- Entries whose equal sources have one major version and one target give the same lookups in
    every order. -/
theorem lookups_unordered {mappings mappings' : List Mapping}
    (hperm : (entries mappings).Perm (entries mappings')) (hfree : ConflictFree (entries mappings))
    (huniform : Uniform (entries mappings)) :
    ∃ t t', readAliases mappings = some t ∧ readAliases mappings' = some t' ∧ SameLookups t t' := by
  have hc : Consistent (entries mappings) := ⟨hfree, huniform⟩
  have hc' : Consistent (entries mappings') := hc.subset hperm.symm.subset
  rcases holds_empty.run mappings hc with ⟨t, hrun, h⟩
  rcases holds_empty.run mappings' hc' with ⟨t', hrun', h'⟩
  exact ⟨t, t', hrun, hrun', h.sameLookups h' (fun _ => hperm.mem_iff) hc hc'⟩

def noRotations : Rotations := ⟨⟨fun t => t, fun _ => rfl⟩, ⟨fun t => t, fun _ => rfl⟩⟩

def serviceMapping : Mapping where
  key := ⟨"service:1:1:1:0".toList, by decide⟩
  value := ⟨"2:2:1:0".toList, by decide⟩
  locals := ⟨0, 0⟩
  rotations := noRotations

def methodMapping : Mapping where
  key := ⟨"method:1:1:1:0:5".toList, by decide⟩
  value := ⟨"2:2:1:0:6".toList, by decide⟩
  locals := ⟨0, 0⟩
  rotations := noRotations

def minorMapping : Mapping where
  key := ⟨"method:1:1:1:0:5".toList, by decide⟩
  value := ⟨"2:2:1:1:6".toList, by decide⟩
  locals := ⟨0, 0⟩
  rotations := noRotations

theorem entries_method : entries [serviceMapping, methodMapping] =
    [.service ⟨1, 1, 1, 0⟩ ⟨2, 2, 1, 0⟩, .id .methods ⟨1, 1, 1, 0⟩ ⟨2, 2, 1, 0⟩ 5 6] := by
  decide +kernel

theorem entries_minor : entries [serviceMapping, minorMapping] =
    [.service ⟨1, 1, 1, 0⟩ ⟨2, 2, 1, 0⟩, .id .methods ⟨1, 1, 1, 0⟩ ⟨2, 2, 1, 1⟩ 5 6] := by
  decide +kernel

theorem entries_swap (m m' : Mapping) : (entries [m, m']).Perm (entries [m', m]) :=
  (List.Perm.swap m' m []).filterMap _

/-- With one entry that has an id, no two ids can be in conflict. -/
theorem conflictFree_two {source target source' target' : Address} {i j : BitVec 16}
    (h : target.Equals target') :
    ConflictFree [.service source target, .id .methods source' target' i j] where
  targets e he e' he' _ := by
    have hself := Address.equals_refl
    simp only [List.mem_cons, List.not_mem_nil, or_false] at he he'
    rcases he with rfl | rfl <;> rcases he' with rfl | rfl
    · exact hself _
    · exact h
    · exact Address.equals_symm h
    · exact hself _
  ids table s t k l s' t' l' hl hl' _ := by
    simp only [List.mem_cons, List.not_mem_nil, or_false, reduceCtorEq, false_or,
      AliasEntry.id.injEq] at hl hl'
    exact hl.2.2.2.2.trans hl'.2.2.2.2.symm

theorem lookups_unordered_method :
    ∃ t t', readAliases [serviceMapping, methodMapping] = some t ∧
      readAliases [methodMapping, serviceMapping] = some t' ∧ SameLookups t t' :=
  lookups_unordered (entries_swap _ _) (entries_method ▸ conflictFree_two (by decide))
    (by rw [entries_method]; unfold Uniform; decide)

/-- Equal targets are not enough: the one that is read first stays. -/
theorem lookups_ordered :
    ¬ ∀ mappings mappings' : List Mapping, (entries mappings).Perm (entries mappings') →
      ConflictFree (entries mappings) →
      ∃ t t', readAliases mappings = some t ∧ readAliases mappings' = some t' ∧ SameLookups t t' := by
  intro h
  rcases h [serviceMapping, minorMapping] [minorMapping, serviceMapping] (entries_swap _ _)
    (entries_minor ▸ conflictFree_two (by decide)) with ⟨t, t', ht, ht', hsame⟩
  have hfirst : (readAliases [serviceMapping, minorMapping]).map
      (getAddressAlias · ⟨1, 1, 1, 0⟩) = some ⟨2, 2, 1, 0⟩ := by decide +kernel
  have hsecond : (readAliases [minorMapping, serviceMapping]).map
      (getAddressAlias · ⟨1, 1, 1, 0⟩) = some ⟨2, 2, 1, 1⟩ := by decide +kernel
  rw [ht] at hfirst
  rw [ht'] at hsecond
  have hequal := (hsame ⟨1, 1, 1, 0⟩ 0 0).1
  rw [Option.map_some, Option.some.injEq] at hfirst hsecond
  rw [hfirst, hsecond] at hequal
  exact absurd hequal (by decide)

end SomeIPRuntime.Configuration
