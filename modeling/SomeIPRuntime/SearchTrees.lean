import Mathlib.Tactic

set_option autoImplicit false

/-!
# Search trees over a strict partial order

Maps whose keys are compared by a transitive and irreflexive relation. Keys that are not
comparable are taken for the same, and this need not be an equivalence. The keys in
a tree are always a chain, and that is enough: a search finds the least of the keys
that it cannot tell from the one searched for, if there is any.
-/
namespace SomeIPRuntime.SearchTrees

def Incomparable {K : Type} [LT K] (j k : K) : Prop := ¬ j < k ∧ ¬ k < j

instance {K : Type} [LT K] [DecidableLT K] (j k : K) : Decidable (Incomparable j k) :=
  inferInstanceAs (Decidable (_ ∧ _))

inductive Tree (K V : Type)
  | nil
  | node (left : Tree K V) (entry : K × V) (right : Tree K V)

namespace Tree
variable {K V : Type}

def inorder : Tree K V → List (K × V)
  | nil => []
  | node left entry right => inorder left ++ entry :: inorder right

theorem inorder_node (left right : Tree K V) (entry : K × V) :
    (node left entry right).inorder = left.inorder ++ entry :: right.inorder := rfl

theorem mem_node {left right : Tree K V} {entry e : K × V} :
    e ∈ (node left entry right).inorder ↔ e ∈ left.inorder ∨ e = entry ∨ e ∈ right.inorder := by
  rw [inorder_node, List.mem_append, List.mem_cons]

variable [LT K]

def Sorted (t : Tree K V) : Prop := t.inorder.Pairwise fun e e' => e.1 < e'.1

theorem sorted_node {left right : Tree K V} {entry : K × V} :
    (node left entry right).Sorted ↔ left.Sorted ∧ right.Sorted ∧
      (∀ e ∈ left.inorder, e.1 < entry.1) ∧ (∀ e ∈ right.inorder, entry.1 < e.1) ∧
      ∀ e ∈ left.inorder, ∀ e' ∈ right.inorder, e.1 < e'.1 := by
  unfold Sorted
  rw [inorder_node, List.pairwise_append, List.pairwise_cons]
  simp only [List.forall_mem_cons]
  constructor
  · rintro ⟨hleft, ⟨habove, hright⟩, hbelow⟩
    exact ⟨hleft, hright, fun e he => (hbelow e he).1, habove, fun e he => (hbelow e he).2⟩
  · rintro ⟨hleft, hright, hbelow, habove, hapart⟩
    exact ⟨hleft, ⟨habove, hright⟩, fun e he => ⟨hbelow e he, hapart e he⟩⟩

variable [DecidableLT K]

def lowerBound (k : K) : Tree K V → Option (K × V) → Option (K × V)
  | nil, bound => bound
  | node left entry right, bound =>
    if entry.1 < k then lowerBound k right bound else lowerBound k left (some entry)

def find (k : K) (t : Tree K V) : Option (K × V) :=
  match lowerBound k t none with
  | some entry => if k < entry.1 then none else some entry
  | none => none

def place (k : K) (v : V) : Tree K V → Tree K V
  | nil => node nil (k, v) nil
  | node left entry right =>
    if k < entry.1 then node (place k v left) entry right
    else if entry.1 < k then node left entry (place k v right)
    else node left (entry.1, v) right

theorem place_keys {k : K} {v : V} {t : Tree K V} {e : K × V}
    (h : e ∈ (t.place k v).inorder) : e.1 = k ∨ ∃ e' ∈ t.inorder, e'.1 = e.1 := by
  induction t with
  | nil => exact Or.inl (congrArg Prod.fst (List.mem_singleton.1 h))
  | node left entry right ihleft ihright =>
    unfold place at h
    split_ifs at h
    · obtain hin | rfl | hin := mem_node.1 h
      · exact (ihleft hin).imp_right fun ⟨e', he', hkey⟩ => ⟨e', mem_node.2 (Or.inl he'), hkey⟩
      · exact Or.inr ⟨e, mem_node.2 (Or.inr (Or.inl rfl)), rfl⟩
      · exact Or.inr ⟨e, mem_node.2 (Or.inr (Or.inr hin)), rfl⟩
    · obtain hin | rfl | hin := mem_node.1 h
      · exact Or.inr ⟨e, mem_node.2 (Or.inl hin), rfl⟩
      · exact Or.inr ⟨e, mem_node.2 (Or.inr (Or.inl rfl)), rfl⟩
      · exact (ihright hin).imp_right fun ⟨e', he', hkey⟩ =>
          ⟨e', mem_node.2 (Or.inr (Or.inr he')), hkey⟩
    · obtain hin | rfl | hin := mem_node.1 h
      · exact Or.inr ⟨e, mem_node.2 (Or.inl hin), rfl⟩
      · exact Or.inr ⟨entry, mem_node.2 (Or.inr (Or.inl rfl)), rfl⟩
      · exact Or.inr ⟨e, mem_node.2 (Or.inr (Or.inr hin)), rfl⟩

end Tree

section Searching
variable {K V : Type} [LT K] [DecidableLT K] [IsStrictOrder K (· < ·)]

theorem Tree.lowerBound_eq (k : K) {t : Tree K V} (h : t.Sorted) (bound : Option (K × V)) :
    t.lowerBound k bound = (t.inorder.find? fun e => ¬ e.1 < k).or bound := by
  induction t generalizing bound with
  | nil => rfl
  | node left entry right ihleft ihright =>
    obtain ⟨hleft, hright, hbelow, _, _⟩ := Tree.sorted_node.1 h
    rw [Tree.lowerBound, Tree.inorder_node, List.find?_append]
    split
    · next hlt =>
      have hnone : left.inorder.find? (fun e => ¬ e.1 < k) = none := by
        rw [List.find?_eq_none]
        intro e he
        simpa using trans_of (· < ·) (hbelow e he) hlt
      rw [ihright hright, hnone, List.find?_cons_of_neg (by simpa using hlt)]
      rfl
    · next hlt =>
      rw [ihleft hleft, List.find?_cons_of_pos (by simpa using hlt), Option.or_assoc]
      rfl

/-- What a search finds is the least entry that cannot be told from the key. -/
theorem Tree.find_some {k : K} {t : Tree K V} (h : t.Sorted) {entry : K × V}
    (hfind : t.find k = some entry) :
    entry ∈ t.inorder ∧ Incomparable entry.1 k ∧
      ∀ e ∈ t.inorder, Incomparable e.1 k → e = entry ∨ entry.1 < e.1 := by
  unfold Tree.find at hfind
  rw [Tree.lowerBound_eq k h, Option.or_none] at hfind
  cases hbound : t.inorder.find? fun e => ¬ e.1 < k with
  | none =>
    rw [hbound] at hfind
    cases hfind
  | some e =>
    rw [hbound] at hfind
    dsimp only at hfind
    split at hfind
    · cases hfind
    · next habove =>
      cases hfind
      obtain ⟨hbelow, front, back, hsplit, hfront⟩ := List.find?_eq_some_iff_append.1 hbound
      have hsorted := h
      unfold Tree.Sorted at hsorted
      rw [hsplit, List.pairwise_append, List.pairwise_cons] at hsorted
      rw [hsplit]
      refine ⟨List.mem_append_right _ List.mem_cons_self, ⟨by simpa using hbelow, habove⟩, ?_⟩
      intro e' he' hsame
      obtain hin | hin := List.mem_append.1 he'
      · exact absurd hsame.1 (by simpa using hfront e' hin)
      · obtain rfl | hin := List.mem_cons.1 hin
        · exact Or.inl rfl
        · exact Or.inr (hsorted.2.1.1 e' hin)

/-- A search that finds nothing can tell the key from all the others. -/
theorem Tree.find_none {k : K} {t : Tree K V} (h : t.Sorted) (hfind : t.find k = none) :
    ∀ e ∈ t.inorder, ¬ Incomparable e.1 k := by
  intro e he hsame
  unfold Tree.find at hfind
  rw [Tree.lowerBound_eq k h, Option.or_none] at hfind
  cases hbound : t.inorder.find? fun e => ¬ e.1 < k with
  | none => exact absurd hsame.1 (by simpa using List.find?_eq_none.1 hbound e he)
  | some e' =>
    rw [hbound] at hfind
    dsimp only at hfind
    split at hfind
    · next habove =>
      obtain ⟨_, front, back, hsplit, hfront⟩ := List.find?_eq_some_iff_append.1 hbound
      unfold Tree.Sorted at h
      rw [hsplit, List.pairwise_append, List.pairwise_cons] at h
      rw [hsplit] at he
      obtain hin | hin := List.mem_append.1 he
      · exact absurd hsame.1 (by simpa using hfront e hin)
      · obtain rfl | hin := List.mem_cons.1 hin
        · exact hsame.2 habove
        · exact hsame.2 (trans_of (· < ·) habove (h.2.1.1 e hin))
    · cases hfind

/-- Each comparison on the way down holds for all that is behind it, by transitivity. -/
theorem Tree.sorted_place (k : K) (v : V) {t : Tree K V} (h : t.Sorted) : (t.place k v).Sorted := by
  induction t with
  | nil => exact List.pairwise_singleton _ _
  | node left entry right ihleft ihright =>
    obtain ⟨hleft, hright, hbelow, habove, hapart⟩ := Tree.sorted_node.1 h
    unfold Tree.place
    split_ifs with hlt hgt
    · have hsmall : ∀ e ∈ (left.place k v).inorder, e.1 < entry.1 := by
        intro e he
        obtain hkey | ⟨e', he', hkey⟩ := Tree.place_keys he
        · exact hkey ▸ hlt
        · exact hkey ▸ hbelow e' he'
      exact Tree.sorted_node.2 ⟨ihleft hleft, hright, hsmall, habove,
        fun e he e' he' => trans_of (· < ·) (hsmall e he) (habove e' he')⟩
    · have hlarge : ∀ e ∈ (right.place k v).inorder, entry.1 < e.1 := by
        intro e he
        obtain hkey | ⟨e', he', hkey⟩ := Tree.place_keys he
        · exact hkey ▸ hgt
        · exact hkey ▸ habove e' he'
      exact Tree.sorted_node.2 ⟨hleft, ihright hright, hbelow, hlarge,
        fun e he e' he' => trans_of (· < ·) (hbelow e he) (hlarge e' he')⟩
    · exact Tree.sorted_node.2 ⟨hleft, hright, hbelow, habove, hapart⟩

/-- A key that is told from all the others is there with its value, and nothing else changes. -/
theorem Tree.mem_place {k : K} {v : V} {t : Tree K V} (h : t.Sorted)
    (hk : ∀ e ∈ t.inorder, Incomparable e.1 k → e.1 = k) {e : K × V} :
    e ∈ (t.place k v).inorder ↔ e = (k, v) ∨ e ∈ t.inorder ∧ e.1 ≠ k := by
  have hne : ∀ {j : K}, j < k ∨ k < j → j ≠ k := by
    rintro j hj rfl
    exact irrefl_of (· < ·) j (hj.elim id id)
  induction t with
  | nil =>
    rw [Tree.place, Tree.mem_node]
    simp [Tree.inorder]
  | node left entry right ihleft ihright =>
    obtain ⟨hleft, hright, hbelow, habove, _⟩ := Tree.sorted_node.1 h
    have ihleft := ihleft hleft fun e he => hk e (Tree.mem_node.2 (Or.inl he))
    have ihright := ihright hright fun e he => hk e (Tree.mem_node.2 (Or.inr (Or.inr he)))
    unfold Tree.place
    split_ifs with hlt hgt
    · have hentry : entry.1 ≠ k := hne (Or.inr hlt)
      have hmore : ∀ e ∈ right.inorder, e.1 ≠ k := fun e he =>
        hne (Or.inr (trans_of (· < ·) hlt (habove e he)))
      rw [Tree.mem_node, Tree.mem_node]
      grind
    · have hentry : entry.1 ≠ k := hne (Or.inl hgt)
      have hless : ∀ e ∈ left.inorder, e.1 ≠ k := fun e he =>
        hne (Or.inl (trans_of (· < ·) (hbelow e he) hgt))
      rw [Tree.mem_node, Tree.mem_node]
      grind
    · have hentry : entry.1 = k :=
        hk entry (Tree.mem_node.2 (Or.inr (Or.inl rfl))) ⟨hgt, hlt⟩
      have hless : ∀ e ∈ left.inorder, e.1 ≠ k := fun e he =>
        hne (Or.inl (hentry ▸ hbelow e he))
      have hmore : ∀ e ∈ right.inorder, e.1 ≠ k := fun e he =>
        hne (Or.inr (hentry ▸ habove e he))
      rw [Tree.mem_node, Tree.mem_node, hentry]
      grind

end Searching

structure SearchMap (K V : Type) [LT K] where
  tree : Tree K V
  sorted : tree.Sorted

structure Balancing (K V : Type) where
  balance : Tree K V → Tree K V
  inorder_balance : ∀ t, (balance t).inorder = t.inorder

namespace SearchMap
variable {K V : Type} [LT K]

def empty : SearchMap K V := ⟨.nil, List.Pairwise.nil⟩

def entries (m : SearchMap K V) : List (K × V) := m.tree.inorder

theorem entries_apart {m : SearchMap K V} {e e' : K × V} (he : e ∈ m.entries) (he' : e' ∈ m.entries)
    (h : Incomparable e.1 e'.1) : e = e' := by
  by_contra hne
  have hsymm : Std.Symm fun e e' : K × V => e.1 < e'.1 ∨ e'.1 < e.1 := ⟨fun _ _ => Or.symm⟩
  have hapart : m.entries.Pairwise fun e e' => e.1 < e'.1 ∨ e'.1 < e.1 := m.sorted.imp Or.inl
  exact (hapart.forall he he' hne).elim h.1 h.2

variable [DecidableLT K]

def find (k : K) (m : SearchMap K V) : Option (K × V) := m.tree.find k

variable [IsStrictOrder K (· < ·)]

def set (balancing : Balancing K V) (k : K) (v : V) (m : SearchMap K V) : SearchMap K V where
  tree := balancing.balance (m.tree.place ((m.find k).elim k Prod.fst) v)
  sorted := by
    unfold Tree.Sorted
    rw [balancing.inorder_balance]
    exact Tree.sorted_place _ v m.sorted

theorem find_least {k : K} {m : SearchMap K V} {entry : K × V} (h : m.find k = some entry) :
    entry ∈ m.entries ∧ Incomparable entry.1 k ∧
      ∀ e ∈ m.entries, Incomparable e.1 k → e = entry ∨ entry.1 < e.1 :=
  Tree.find_some m.sorted h

theorem find_eq_none_iff {k : K} {m : SearchMap K V} :
    m.find k = none ↔ ∀ e ∈ m.entries, ¬ Incomparable e.1 k := by
  constructor
  · exact Tree.find_none m.sorted
  · intro h
    cases hfind : m.find k with
    | none => rfl
    | some entry => exact absurd (find_least hfind).2.1 (h entry (find_least hfind).1)

theorem find_entry {m : SearchMap K V} {e : K × V} (he : e ∈ m.entries) : m.find e.1 = some e := by
  have hself : Incomparable e.1 e.1 := ⟨irrefl_of (· < ·) e.1, irrefl_of (· < ·) e.1⟩
  cases hfind : m.find e.1 with
  | none => exact absurd hself (find_eq_none_iff.1 hfind e he)
  | some entry =>
    obtain ⟨hentry, hsame, _⟩ := find_least hfind
    rw [entries_apart hentry he hsame]

/-- The entries behind a change of a key that is told from all the others. -/
theorem mem_set {m : SearchMap K V} {k : K} {v : V} (balancing : Balancing K V)
    (hk : ∀ e ∈ m.entries, Incomparable e.1 k → e.1 = k) {e : K × V} :
    e ∈ (m.set balancing k v).entries ↔ e = (k, v) ∨ e ∈ m.entries ∧ e.1 ≠ k := by
  have hkey : (m.find k).elim k Prod.fst = k := by
    cases hfind : m.find k with
    | none => rfl
    | some entry =>
      obtain ⟨hentry, hsame, _⟩ := find_least hfind
      exact hk entry hentry hsame
  unfold entries set
  dsimp only
  rw [balancing.inorder_balance, hkey, Tree.mem_place m.sorted hk]

end SearchMap

section Total
variable {K V : Type} [LinearOrder K] {m : SearchMap K V}

theorem incomparable_iff_eq {j k : K} : Incomparable j k ↔ j = k := by
  constructor
  · exact fun h => le_antisymm (not_lt.1 h.2) (not_lt.1 h.1)
  · rintro rfl
    exact ⟨lt_irrefl j, lt_irrefl j⟩

theorem SearchMap.find_eq_some_iff {k : K} {e : K × V} :
    m.find k = some e ↔ e ∈ m.entries ∧ e.1 = k := by
  constructor
  · intro h
    obtain ⟨hentry, hsame, _⟩ := SearchMap.find_least h
    exact ⟨hentry, incomparable_iff_eq.1 hsame⟩
  · rintro ⟨hentry, rfl⟩
    exact SearchMap.find_entry hentry

theorem SearchMap.find_set (balancing : Balancing K V) (k : K) (v : V) (j : K) :
    (m.set balancing k v).find j = if j = k then some (k, v) else m.find j := by
  have hmem : ∀ e, e ∈ (m.set balancing k v).entries ↔ e = (k, v) ∨ e ∈ m.entries ∧ e.1 ≠ k := fun e =>
    SearchMap.mem_set balancing fun _ _ => incomparable_iff_eq.1
  apply Option.ext
  intro e
  rw [SearchMap.find_eq_some_iff, hmem]
  split_ifs with hj
  · subst hj
    rw [Option.some.injEq]
    constructor
    · rintro ⟨rfl | ⟨_, hne⟩, hkey⟩
      · rfl
      · exact absurd hkey hne
    · rintro rfl
      exact ⟨Or.inl rfl, rfl⟩
  · rw [SearchMap.find_eq_some_iff]
    constructor
    · rintro ⟨rfl | ⟨hentry, _⟩, hkey⟩
      · exact absurd hkey.symm hj
      · exact ⟨hentry, hkey⟩
    · rintro ⟨hentry, rfl⟩
      exact ⟨Or.inr ⟨hentry, hj⟩, rfl⟩

end Total

end SomeIPRuntime.SearchTrees
