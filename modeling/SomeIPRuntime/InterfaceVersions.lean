import Mathlib.Data.List.TakeWhile
import SomeIPRuntime.DecimalOrder
import SomeIPRuntime.Factory

set_option autoImplicit false

namespace SomeIPRuntime.Factory
open DecimalOrder

/-- An interface whose name with its version is `name:vMAJOR_MINOR`: the first colon ends the name. -/
structure Interface where
  name : String
  major : ℕ
  minor : ℕ
  plain : ':' ∉ name.toList
  deriving DecidableEq

def Interface.versioned (interface : Interface) : String :=
  interface.name ++ ":v" ++ toString interface.major ++ "_" ++ toString interface.minor

def Interface.withMinor (interface : Interface) (minor : ℕ) : Interface := { interface with minor := minor }

def Compatible (interface : Interface) (registered : String) : Prop :=
  ∃ minor, interface.minor ≤ minor ∧ registered = (interface.withMinor minor).versioned

structure Next (functions : List String) (interface next : String) : Prop where
  mem : next ∈ functions
  le : interface ≤ next
  first : ∀ name ∈ functions, interface ≤ name → next ≤ name

def BeginsLike (interface name : String) : Prop :=
  interface.toList.takeWhile (· ≠ '_') <+: name.toList

/-- The fallback of the factory is the interface itself if it is registered, and else a compatible one
    if there is one. -/
structure FallsBack (functions : List String) (interface : Interface) : Prop where
  registered : interface.versioned ∈ functions →
    findCreateFunction functions interface.versioned = some interface.versioned
  sound : interface.versioned ∉ functions → ∀ name,
    findCreateFunction functions interface.versioned = some name →
      name ∈ functions ∧ Compatible interface name
  complete : interface.versioned ∉ functions → (∃ name ∈ functions, Compatible interface name) →
    (findCreateFunction functions interface.versioned).isSome = true

section Search
variable {functions : List String} {interface next : String}

theorem next_unique {other : String} (h : Next functions interface next)
    (h' : Next functions interface other) : next = other :=
  le_antisymm (h.first other h'.mem h'.le) (h'.first next h.mem h.le)

theorem find?_next (hsorted : functions.Pairwise (· < ·)) :
    functions.find? (fun name => ¬ name < interface) = some next ↔ Next functions interface next := by
  induction functions with
  | nil => exact iff_of_false nofun fun h => absurd h.mem List.not_mem_nil
  | cons first rest ih =>
    rcases List.pairwise_cons.1 hsorted with ⟨hfirst, hrest⟩
    by_cases hlt : first < interface
    · rw [List.find?_cons_of_neg (by simpa using hlt), ih hrest]
      constructor
      · intro h
        refine ⟨List.mem_cons_of_mem first h.mem, h.le, ?_⟩
        intro name hname hle
        rcases List.mem_cons.1 hname with rfl | hname
        · exact absurd hlt (not_lt_of_ge hle)
        · exact h.first name hname hle
      · intro h
        refine ⟨?_, h.le, fun name hname => h.first name (List.mem_cons_of_mem first hname)⟩
        rcases List.mem_cons.1 h.mem with rfl | hmem
        · exact absurd hlt (not_lt_of_ge h.le)
        · exact hmem
    · have hle : interface ≤ first := le_of_not_gt hlt
      have hnext : Next (first :: rest) interface first := by
        refine ⟨List.mem_cons_self, hle, ?_⟩
        intro name hname _
        rcases List.mem_cons.1 hname with rfl | hname
        · exact le_rfl
        · exact (hfirst name hname).le
      rw [List.find?_cons_of_pos (by simpa using hlt), Option.some_inj]
      constructor
      · rintro rfl
        exact hnext
      · exact next_unique hnext

theorem findCreateFunction_next (hsorted : functions.Pairwise (· < ·)) (h : Next functions interface next) :
    findCreateFunction functions interface =
      if next = interface then some interface
      else if (interface.toList.takeWhile (· ≠ '_')).isPrefixOf next.toList then some next
      else none := by
  unfold findCreateFunction
  rw [(find?_next hsorted).2 h]

theorem findCreateFunction_none (hsorted : functions.Pairwise (· < ·))
    (h : ∀ next, ¬ Next functions interface next) : findCreateFunction functions interface = none := by
  unfold findCreateFunction
  cases hfind : functions.find? (fun name => ¬ name < interface) with
  | none => rfl
  | some next => exact absurd ((find?_next hsorted).1 hfind) (h next)

theorem next_self (h : interface ∈ functions) : Next functions interface interface :=
  ⟨h, le_rfl, fun _ _ hle => hle⟩

end Search

theorem takeWhile_stopped {α : Type} {p : α → Bool} {a : α} (ha : p a = false) (xs ys : List α) :
    (xs ++ a :: ys).takeWhile p <+: xs := by
  induction xs with
  | nil => rw [List.nil_append, List.takeWhile_cons_of_neg (by simpa using ha)]
  | cons x xs ih =>
    rw [List.cons_append, List.takeWhile_cons]
    split
    · exact List.prefix_cons_inj x |>.2 ih
    · exact List.nil_prefix

theorem withMinor_beginsLike (interface : Interface) (minor : ℕ) :
    BeginsLike interface.versioned (interface.withMinor minor).versioned := by
  have hparts : ∀ n : ℕ, (interface.withMinor n).versioned.toList =
      (interface.name ++ ":v" ++ toString interface.major).toList ++ '_' :: (toString n).toList := by
    intro n
    unfold Interface.versioned
    rw [String.toList_append, String.toList_append, List.append_assoc]
    rfl
  unfold BeginsLike
  rw [hparts minor, show interface.versioned.toList = _ from hparts interface.minor]
  exact (takeWhile_stopped (by decide) _ _).trans (List.prefix_append _ _)

theorem Compatible.beginsLike {interface : Interface} {name : String} (h : Compatible interface name) :
    BeginsLike interface.versioned name := by
  obtain ⟨minor, _, rfl⟩ := h
  exact withMinor_beginsLike interface minor

section Fallback
variable {functions : List String} {interface : Interface} {name : String}

theorem next_taken (hsorted : functions.Pairwise (· < ·)) (hne : interface.versioned ∉ functions)
    (h : Next functions interface.versioned name) (hlike : BeginsLike interface.versioned name) :
    findCreateFunction functions interface.versioned = some name := by
  have hother : name ≠ interface.versioned := fun heq => hne (heq ▸ h.mem)
  rw [findCreateFunction_next hsorted h, if_neg hother, if_pos (List.isPrefixOf_iff_prefix.2 hlike)]

theorem taken_next (hsorted : functions.Pairwise (· < ·)) (hne : interface.versioned ∉ functions)
    (h : findCreateFunction functions interface.versioned = some name) :
    Next functions interface.versioned name ∧ BeginsLike interface.versioned name := by
  by_cases hnext : ∃ next, Next functions interface.versioned next
  · rcases hnext with ⟨next, hnext⟩
    have hother : next ≠ interface.versioned := fun heq => hne (heq ▸ hnext.mem)
    rw [findCreateFunction_next hsorted hnext, if_neg hother] at h
    split at h
    · rename_i hlike
      cases h
      exact ⟨hnext, List.isPrefixOf_iff_prefix.1 hlike⟩
    · cases h
  · rw [findCreateFunction_none hsorted (fun next hnext' => hnext ⟨next, hnext'⟩)] at h
    cases h

theorem fallsBack_self (hsorted : functions.Pairwise (· < ·)) (hmem : interface.versioned ∈ functions) :
    FallsBack functions interface := by
  refine ⟨fun _ => ?_, absurd hmem, absurd hmem⟩
  rw [findCreateFunction_next hsorted (next_self hmem), if_pos rfl]

/-- What the search takes and what it should take: the next name is compatible, or none is and the
    next name begins otherwise. -/
theorem fallsBack_next (hsorted : functions.Pairwise (· < ·)) (hmem : interface.versioned ∉ functions) :
    FallsBack functions interface ↔
      (∃ name, Next functions interface.versioned name ∧ Compatible interface name) ∨
      (∀ name ∈ functions, ¬ Compatible interface name) ∧
        ∀ name, Next functions interface.versioned name → ¬ BeginsLike interface.versioned name := by
  constructor
  · intro h
    cases hfound : findCreateFunction functions interface.versioned with
    | some name =>
      exact Or.inl ⟨name, (taken_next hsorted hmem hfound).1, (h.sound hmem name hfound).2⟩
    | none =>
      right
      constructor
      · intro name hname hcompatible
        have hsome := h.complete hmem ⟨name, hname, hcompatible⟩
        rw [hfound] at hsome
        cases hsome
      · intro name hnext hlike
        cases hfound.symm.trans (next_taken hsorted hmem hnext hlike)
  · rintro (⟨name, hnext, hcompatible⟩ | ⟨hnone, hother⟩)
    · have hfound := next_taken hsorted hmem hnext hcompatible.beginsLike
      refine ⟨fun h => absurd h hmem, fun _ other hother => ?_, fun _ _ => hfound ▸ rfl⟩
      cases hfound.symm.trans hother
      exact ⟨hnext.mem, hcompatible⟩
    · refine ⟨fun h => absurd h hmem, fun _ name hfound => ?_, fun _ hexists => ?_⟩
      · rcases taken_next hsorted hmem hfound with ⟨hnext, hlike⟩
        exact absurd hlike (hother name hnext)
      · rcases hexists with ⟨name, hname, hcompatible⟩
        exact absurd hcompatible (hnone name hname)

end Fallback

section Words
variable {interface other : Interface}

def Interface.front (interface : Interface) : List Char :=
  interface.name.toList ++ ':' :: 'v' :: (Nat.toDigits 10 interface.major ++ ['_'])

theorem versioned_toList (interface : Interface) : interface.versioned.toList =
    interface.name.toList ++ ':' :: 'v' :: (Nat.toDigits 10 interface.major ++
      '_' :: Nat.toDigits 10 interface.minor) := by
  unfold Interface.versioned
  simp only [String.toList_append, List.append_assoc]
  rw [show (toString interface.major).toList = _ from Nat.toList_repr,
    show (toString interface.minor).toList = _ from Nat.toList_repr]
  rfl

theorem versioned_front (interface : Interface) :
    interface.versioned.toList = interface.front ++ Nat.toDigits 10 interface.minor := by
  rw [versioned_toList]
  simp [Interface.front]

theorem front_isolates (h : interface.front <+: other.versioned.toList) :
    other = interface.withMinor other.minor := by
  rw [versioned_toList] at h
  obtain ⟨hname, hrest⟩ := prefix_split interface.plain other.plain h
  have hmajor := (prefix_split Nat.underscore_not_in_toDigits Nat.underscore_not_in_toDigits
    ((List.prefix_cons_inj 'v').1 hrest)).1
  have hname : interface.name = other.name := String.toList_injective hname
  have hmajor : interface.major = other.major := toDigits_injective hmajor
  unfold Interface.withMinor
  cases interface
  cases other
  cases hname
  cases hmajor
  rfl

theorem versioned_injective {minor minor' : ℕ}
    (h : (interface.withMinor minor).versioned = (interface.withMinor minor').versioned) : minor = minor' := by
  have hlist := congrArg String.toList h
  rw [versioned_front, versioned_front] at hlist
  exact toDigits_injective (List.append_cancel_left hlist)

theorem versioned_lt_iff (minor minor' : ℕ) :
    (interface.withMinor minor).versioned < (interface.withMinor minor').versioned ↔
      Nat.toDigits 10 minor < Nat.toDigits 10 minor' := by
  rw [String.lt_iff_toList_lt, versioned_front, versioned_front]
  exact append_lt_append_iff _ _ _

/-- Between two minor versions of an interface there are only others. -/
theorem between_minors {minor minor' : ℕ} (hle : (interface.withMinor minor).versioned ≤ other.versioned)
    (hge : other.versioned ≤ (interface.withMinor minor').versioned) :
    other = interface.withMinor other.minor := by
  rw [String.le_iff_toList_le] at hle hge
  have hlow : interface.front <+: (interface.withMinor minor).versioned.toList :=
    versioned_front _ ▸ List.prefix_append _ _
  have hhigh : interface.front <+: (interface.withMinor minor').versioned.toList :=
    versioned_front _ ▸ List.prefix_append _ _
  exact front_isolates (prefix_between hlow hhigh hle hge)

def Interface.stem (interface : Interface) : List Char := interface.name.toList.takeWhile (· ≠ '_')

theorem beginsLike_stem (other : Interface) (h : '_' ∈ interface.name.toList) :
    BeginsLike interface.versioned other.versioned ↔ interface.stem <+: other.name.toList := by
  have hne : ¬ (interface.name.toList.takeWhile (· ≠ '_')).length = interface.name.toList.length := by
    intro hlength
    have hall := List.takeWhile_eq_self_iff.1 ((List.takeWhile_prefix _).eq_of_length hlength) '_' h
    simp at hall
  have hcolon : ':' ∉ interface.stem := fun hmem => interface.plain ((List.takeWhile_prefix _).mem hmem)
  unfold BeginsLike
  rw [versioned_toList, List.takeWhile_append, if_neg hne, versioned_toList]
  exact ⟨prefix_before hcolon, fun hprefix => hprefix.trans (List.prefix_append _ _)⟩

/-- Without an underscore in the name, what begins alike and comes behind is another minor version. -/
theorem beginsLike_isolates (h : '_' ∉ interface.name.toList)
    (hlike : BeginsLike interface.versioned other.versioned) (hlt : interface.versioned < other.versioned) :
    other = interface.withMinor other.minor := by
  have hdigits : ∀ n, ∀ c ∈ Nat.toDigits 10 n, c < '_' := by
    intro n c hc
    have hdigit := Nat.isDigit_of_mem_toDigits (by decide) (by decide) hc
    unfold Char.isDigit at hdigit
    simp only [Bool.and_eq_true, decide_eq_true_eq] at hdigit
    exact lt_of_le_of_lt (show c ≤ '9' from hdigit.2) (by decide)
  have hcut : interface.versioned.toList.takeWhile (· ≠ '_') =
      interface.name.toList ++ ':' :: 'v' :: Nat.toDigits 10 interface.major := by
    have hname : ∀ c ∈ interface.name.toList ++ ':' :: 'v' :: Nat.toDigits 10 interface.major,
        decide (c ≠ '_') = true := by
      intro c hc
      rw [decide_eq_true_iff]
      rintro rfl
      simp [h] at hc
    rw [versioned_toList, ← List.cons_append, ← List.cons_append, ← List.append_assoc,
      List.takeWhile_append_of_pos hname]
    simp
  unfold BeginsLike at hlike
  rw [hcut, versioned_toList] at hlike
  obtain ⟨hname, hrest⟩ := prefix_split interface.plain other.plain hlike
  obtain ⟨more, hmore⟩ := prefix_before Nat.underscore_not_in_toDigits ((List.prefix_cons_inj 'v').1 hrest)
  rw [String.lt_iff_toList_lt, versioned_toList, versioned_toList, ← hname, ← hmore, append_lt_append_iff,
    List.cons_lt_cons_iff, List.cons_lt_cons_iff] at hlt
  cases more with
  | nil =>
    refine front_isolates ?_
    rw [versioned_toList, ← hname, ← hmore, List.append_nil]
    exact ⟨Nat.toDigits 10 other.minor, by simp [Interface.front]⟩
  | cons c more =>
    have hc := hdigits other.major c (hmore ▸ List.mem_append_right _ List.mem_cons_self)
    simp only [lt_irrefl, false_or, true_and, List.append_assoc, append_lt_append_iff,
      List.cons_append, List.cons_lt_cons_iff] at hlt
    obtain hlt | ⟨heq, _⟩ := hlt
    · exact absurd hlt (lt_asymm hc)
    · exact absurd heq hc.ne'

end Words

def digits (n : ℕ) : ℕ := (Nat.toDigits 10 n).length

/-- The registered minor version that is the first one behind the requested one in the alphabet. -/
structure FirstBehind (table : List Interface) (interface : Interface) (first : ℕ) : Prop where
  registered : interface.withMinor first ∈ table
  behind : toString interface.minor < toString first
  first : ∀ minor, interface.withMinor minor ∈ table → toString interface.minor < toString minor →
    toString first ≤ toString minor

/-- No registered minor version comes behind the requested one in the alphabet or has more digits, and
    if the name has an underscore, nothing behind it begins like the name up to there. -/
structure NoneBehind (table : List Interface) (interface : Interface) : Prop where
  none : ∀ minor, interface.withMinor minor ∈ table → ¬ toString interface.minor < toString minor
  digits : ∀ minor, interface.withMinor minor ∈ table → digits minor ≤ digits interface.minor
  stem : '_' ∈ interface.name.toList → ∀ other ∈ table, interface.versioned < other.versioned →
    ¬ interface.stem <+: other.name.toList

/-- The alphabet keeps to the versions: the interface is registered, or the first minor version behind it
    does not have fewer digits, or there is none and nothing else is mistaken for one. -/
def KeepsVersions (table : List Interface) (interface : Interface) : Prop :=
  interface ∈ table ∨
    (∃ first, FirstBehind table interface first ∧ digits interface.minor ≤ digits first) ∨
    NoneBehind table interface

section Versions
variable {table : List Interface} {interface other : Interface}

theorem toString_lt_iff (m n : ℕ) : toString m < toString n ↔ Nat.toDigits 10 m < Nat.toDigits 10 n := by
  rw [String.lt_iff_toList_lt, show (toString m).toList = _ from Nat.toList_repr,
    show (toString n).toList = _ from Nat.toList_repr]

theorem withMinor_self (interface : Interface) : interface.withMinor interface.minor = interface := rfl

theorem mem_names_iff (table : List Interface) (interface : Interface) :
    interface.versioned ∈ table.map Interface.versioned ↔ interface ∈ table := by
  constructor
  · intro h
    obtain ⟨other, hmem, heq⟩ := List.mem_map.1 h
    have hother : other = interface.withMinor other.minor := by
      refine front_isolates ?_
      rw [heq, versioned_front]
      exact List.prefix_append _ _
    rw [hother, ← withMinor_self interface] at heq
    have hminor := versioned_injective heq
    rw [hother, hminor] at hmem
    exact hmem
  · exact List.mem_map_of_mem

/-- What is compatible is a minor version of the same interface. -/
theorem compatible_iff (interface : Interface) (minor : ℕ) :
    Compatible interface (interface.withMinor minor).versioned ↔ interface.minor ≤ minor := by
  constructor
  · rintro ⟨minor', hle, heq⟩
    exact versioned_injective heq ▸ hle
  · exact fun hle => ⟨minor, hle, rfl⟩

theorem exists_next (hsorted : (table.map Interface.versioned).Pairwise (· < ·)) (hmem : other ∈ table)
    (hle : interface.versioned ≤ other.versioned) : ∃ next, next ∈ table ∧
      Next (table.map Interface.versioned) interface.versioned next.versioned := by
  cases hfind : (table.map Interface.versioned).find? (fun name => ¬ name < interface.versioned) with
  | none =>
    have hnone := List.find?_eq_none.1 hfind _ (List.mem_map_of_mem hmem)
    simp only [decide_eq_true_iff, not_not] at hnone
    exact absurd hnone (not_lt_of_ge hle)
  | some name =>
    have hnext := (find?_next hsorted).1 hfind
    obtain ⟨next, hmem, rfl⟩ := List.mem_map.1 hnext.mem
    exact ⟨next, hmem, hnext⟩

/-- The first minor version behind is what the search comes to. -/
theorem FirstBehind.next {first : ℕ} (h : FirstBehind table interface first) (hne : interface ∉ table) :
    Next (table.map Interface.versioned) interface.versioned (interface.withMinor first).versioned := by
  have hlt : interface.versioned < (interface.withMinor first).versioned :=
    (versioned_lt_iff interface.minor first).2 ((toString_lt_iff _ _).1 h.behind)
  refine ⟨List.mem_map_of_mem h.registered, hlt.le, fun name hname hle => ?_⟩
  obtain ⟨other, hother, rfl⟩ := List.mem_map.1 hname
  by_contra hbefore
  have hminor : other = interface.withMinor other.minor :=
    between_minors (withMinor_self interface ▸ hle) (not_le.1 hbefore).le
  rw [hminor] at hle hbefore hother
  have hbehind : toString interface.minor < toString other.minor := by
    rw [toString_lt_iff]
    refine (versioned_lt_iff interface.minor other.minor).1 (lt_of_le_of_ne hle fun heq => hne ?_)
    have hsame : interface.minor = other.minor := versioned_injective heq
    rw [← hsame] at hother
    exact hother
  refine absurd (h.first other.minor hother hbehind) (not_le.2 ?_)
  rw [toString_lt_iff]
  exact (versioned_lt_iff _ _).1 (not_le.1 hbefore)

theorem minor_behind {minor : ℕ} (hne : interface ∉ table) (hmem : interface.withMinor minor ∈ table)
    (hle : interface.versioned ≤ (interface.withMinor minor).versioned) :
    toString interface.minor < toString minor := by
  rw [toString_lt_iff]
  refine (versioned_lt_iff interface.minor minor).1 (lt_of_le_of_ne hle fun heq => hne ?_)
  have hsame : interface.minor = minor := versioned_injective heq
  rw [← hsame] at hmem
  exact hmem

theorem exists_firstBehind (hsorted : (table.map Interface.versioned).Pairwise (· < ·))
    (hne : interface ∉ table) {minor : ℕ} (hmem : interface.withMinor minor ∈ table)
    (hbehind : toString interface.minor < toString minor) : ∃ first, FirstBehind table interface first := by
  have hlt : ∀ minor, toString interface.minor < toString minor →
      interface.versioned < (interface.withMinor minor).versioned := fun minor h =>
    (versioned_lt_iff interface.minor minor).2 ((toString_lt_iff _ _).1 h)
  obtain ⟨next, hnext, hfound⟩ := exists_next hsorted hmem (hlt minor hbehind).le
  have hminor : next = interface.withMinor next.minor := between_minors (withMinor_self interface ▸ hfound.le)
    (hfound.first _ (List.mem_map_of_mem hmem) (hlt minor hbehind).le)
  rw [hminor] at hnext hfound
  refine ⟨next.minor, hnext, minor_behind hne hnext hfound.le, fun other hother hother' => ?_⟩
  have hle := hfound.first _ (List.mem_map_of_mem hother) (hlt other hother').le
  rw [← not_lt, versioned_lt_iff, ← toString_lt_iff, not_lt] at hle
  exact hle

theorem not_compatible_iff (hne : interface ∉ table)
    (hnone : ∀ minor, interface.withMinor minor ∈ table → ¬ toString interface.minor < toString minor) :
    (∀ name ∈ table.map Interface.versioned, ¬ Compatible interface name) ↔
      ∀ minor, interface.withMinor minor ∈ table → digits minor ≤ digits interface.minor := by
  have hbefore : ∀ minor, interface.withMinor minor ∈ table →
      (interface.minor ≤ minor ↔ digits interface.minor < digits minor) := by
    intro minor hmem
    have hother : interface.minor ≠ minor := fun heq => hne (by rwa [← heq] at hmem)
    have hlt : Nat.toDigits 10 minor < Nat.toDigits 10 interface.minor := by
      refine lt_of_le_of_ne ?_ fun heq => hother (toDigits_injective heq).symm
      rw [← not_lt, ← toString_lt_iff]
      exact hnone minor hmem
    rw [hother.le_iff_lt]
    exact lt_iff_of_gt hlt
  constructor
  · intro h minor hmem
    have hno := h _ (List.mem_map_of_mem hmem)
    rw [compatible_iff, hbefore minor hmem, not_lt] at hno
    exact hno
  · rintro h name hname ⟨minor, hle, rfl⟩
    have hmem := (mem_names_iff table _).1 hname
    exact absurd ((hbefore minor hmem).1 hle) (not_lt.2 (h minor hmem))

theorem not_beginsLike_iff (hsorted : (table.map Interface.versioned).Pairwise (· < ·)) (hne : interface ∉ table)
    (hnone : ∀ minor, interface.withMinor minor ∈ table → ¬ toString interface.minor < toString minor) :
    (∀ name, Next (table.map Interface.versioned) interface.versioned name →
      ¬ BeginsLike interface.versioned name) ↔
    ('_' ∈ interface.name.toList → ∀ other ∈ table, interface.versioned < other.versioned →
      ¬ interface.stem <+: other.name.toList) := by
  constructor
  · intro h hunderscore other hother hlt hstem
    obtain ⟨next, _, hnext⟩ := exists_next hsorted hother hlt.le
    refine h _ hnext ?_
    have hself := (beginsLike_stem interface hunderscore).2 (List.takeWhile_prefix _)
    have hfar := (beginsLike_stem other hunderscore).2 hstem
    refine prefix_between hself hfar ?_ ?_
    · exact String.le_iff_toList_le.1 hnext.le
    · exact String.le_iff_toList_le.1 (hnext.first _ (List.mem_map_of_mem hother) hlt.le)
  · intro h name hnext hlike
    obtain ⟨other, hother, rfl⟩ := List.mem_map.1 hnext.mem
    have hlt : interface.versioned < other.versioned :=
      lt_of_le_of_ne hnext.le fun heq => hne ((mem_names_iff table _).1 (heq ▸ hnext.mem))
    by_cases hunderscore : '_' ∈ interface.name.toList
    · exact h hunderscore other hother hlt ((beginsLike_stem other hunderscore).1 hlike)
    · have hminor := beginsLike_isolates hunderscore hlike hlt
      rw [hminor] at hother hlt
      exact hnone other.minor hother (minor_behind hne hother hlt.le)

/-- For a table of interfaces in order, the fallback is sound and complete just if the alphabet keeps
    to the versions of the requested one. -/
theorem fallsBack_iff (hsorted : (table.map Interface.versioned).Pairwise (· < ·)) (interface : Interface) :
    FallsBack (table.map Interface.versioned) interface ↔ KeepsVersions table interface := by
  unfold KeepsVersions
  by_cases hmem : interface ∈ table
  · exact iff_of_true (fallsBack_self hsorted (List.mem_map_of_mem hmem)) (Or.inl hmem)
  rw [fallsBack_next hsorted (mt (mem_names_iff table interface).1 hmem), or_iff_right hmem]
  by_cases hbehind : ∃ minor, interface.withMinor minor ∈ table ∧ toString interface.minor < toString minor
  · obtain ⟨minor, hminor, hbehind⟩ := hbehind
    obtain ⟨first, hfirst⟩ := exists_firstBehind hsorted hmem hminor hbehind
    have hnext := hfirst.next hmem
    have hiff := compatible_iff interface first
    have hlike : interface.minor ≤ first ↔ digits interface.minor ≤ digits first :=
      le_iff_of_lt ((toString_lt_iff _ _).1 hfirst.behind)
    constructor
    · rintro (⟨name, hname, hcompatible⟩ | ⟨_, hother⟩)
      · cases next_unique hname hnext
        exact Or.inl ⟨first, hfirst, hlike.1 (hiff.1 hcompatible)⟩
      · exact absurd (withMinor_beginsLike interface first) (hother _ hnext)
    · rintro (⟨other, hother, hle⟩ | hnone)
      · have hsame := next_unique (hother.next hmem) hnext
        cases versioned_injective hsame
        exact Or.inl ⟨_, hnext, hiff.2 (hlike.2 hle)⟩
      · exact absurd hbehind (hnone.none minor hminor)
  · have hnone : ∀ minor, interface.withMinor minor ∈ table → ¬ toString interface.minor < toString minor :=
      fun minor hminor hlt => hbehind ⟨minor, hminor, hlt⟩
    rw [not_compatible_iff hmem hnone, not_beginsLike_iff hsorted hmem hnone]
    constructor
    · rintro (⟨name, hnext, minor, _, rfl⟩ | ⟨hdigits, hstem⟩)
      · have hminor := (mem_names_iff table _).1 hnext.mem
        exact absurd (minor_behind hmem hminor hnext.le) (hnone minor hminor)
      · exact Or.inr ⟨hnone, hdigits, hstem⟩
    · rintro (⟨first, hfirst, _⟩ | h)
      · exact absurd hfirst.behind (hnone first hfirst.registered)
      · exact Or.inr ⟨h.digits, h.stem⟩

theorem higher_minor_found :
    FallsBack ([⟨"a", 1, 2, by decide⟩, ⟨"b", 1, 0, by decide⟩].map Interface.versioned) ⟨"a", 1, 1, by decide⟩ := by
  refine (fallsBack_iff (by decide) ⟨"a", 1, 1, by decide⟩).2 (Or.inr (Or.inl ⟨2, ⟨by decide, by decide, ?_⟩, by decide⟩))
  intro minor hmem _
  have hminor : minor = 2 := by
    obtain heq | hmem := List.mem_cons.1 hmem
    · exact congrArg Interface.minor heq
    · exact absurd (congrArg Interface.name (List.mem_singleton.1 hmem)) (show "a" ≠ "b" by decide)
  exact hminor ▸ le_rfl

theorem two_digits_not_found :
    ¬ FallsBack ([⟨"a", 1, 10, by decide⟩].map Interface.versioned) ⟨"a", 1, 9, by decide⟩ := by
  intro h
  have hnone : findCreateFunction ["a:v1_10"] (Interface.versioned ⟨"a", 1, 9, by decide⟩) = none := by decide
  have hsome := h.complete (by decide) ⟨"a:v1_10", List.mem_singleton_self _, 10, by decide, by decide⟩
  rw [show [_].map Interface.versioned = ["a:v1_10"] from by decide, hnone] at hsome
  cases hsome

end Versions

/-- Another interface that begins alike, and a lower minor version. -/
example : findCreateFunction ["my_other:v1_0"] (Interface.versioned ⟨"my_interface", 1, 0, by decide⟩) =
    some "my_other:v1_0" := by decide

example : findCreateFunction ["a:v1_2"] (Interface.versioned ⟨"a", 1, 10, by decide⟩) = some "a:v1_2" := by decide

end SomeIPRuntime.Factory
