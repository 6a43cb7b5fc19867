import Mathlib.Data.List.AList
import Mathlib.Data.List.Perm.Basic

set_option autoImplicit false

namespace SomeIPRuntime.Tables

section Whole
variable {α β : Type}

def filter (p : α → β → Bool) (table : AList fun _ : α => β) : AList fun _ : α => β :=
  ⟨table.entries.filter fun x => p x.1 x.2, table.nodupKeys.sublist List.filter_sublist⟩

theorem filter_append (p : α → β → Bool) (table : AList fun _ : α => β) :
    ((filter p table).entries ++ (filter (fun a b => !p a b) table).entries).Perm table.entries :=
  List.filter_append_perm _ _

def map {γ : Type} (f : β → γ) (table : AList fun _ : α => β) : AList fun _ : α => γ :=
  ⟨table.entries.map fun x => ⟨x.1, f x.2⟩, by
    have hkeys : (table.entries.map fun x => (⟨x.1, f x.2⟩ : Sigma fun _ : α => γ)).keys =
        table.entries.keys := List.map_map
    unfold List.NodupKeys
    rw [hkeys]
    exact table.nodupKeys⟩

theorem mem_filter {p : α → β → Bool} {table : AList fun _ : α => β} {x : Sigma fun _ : α => β} :
    x ∈ (filter p table).entries ↔ x ∈ table.entries ∧ p x.1 x.2 = true := List.mem_filter

theorem mem_map {γ : Type} {f : β → γ} {table : AList fun _ : α => β} {x : Sigma fun _ : α => γ} :
    x ∈ (map f table).entries ↔ ∃ old ∈ table.entries, ⟨old.1, f old.2⟩ = x := List.mem_map

end Whole

section Table
variable {α β : Type} [DecidableEq α] {a : α} {b : β} {x : Sigma fun _ : α => β}
  {table : AList fun _ : α => β}

theorem perm_cons_erase (h : table.lookup a = some b) :
    table.entries.Perm (⟨a, b⟩ :: (table.erase a).entries) := by
  obtain ⟨found, before, after, _, hentries, herase⟩ :=
    List.exists_of_kerase (AList.lookup_isSome.1 (Option.isSome_of_eq_some h))
  have hmem : (⟨a, found⟩ : Sigma fun _ => β) ∈ table.entries := by
    rw [hentries]
    exact List.mem_append_right _ List.mem_cons_self
  cases h.symm.trans (AList.mem_lookup_iff.2 hmem)
  change List.Perm _ (_ :: List.kerase a table.entries)
  rw [herase, hentries]
  exact List.perm_middle

theorem mem_of_lookup (h : table.lookup a = some b) : ⟨a, b⟩ ∈ table.entries :=
  AList.mem_lookup_iff.1 h

theorem erase_sublist (a : α) (table : AList fun _ : α => β) :
    (table.erase a).entries.Sublist table.entries :=
  List.kerase_sublist a table.entries

theorem mem_of_mem_erase (h : x ∈ (table.erase a).entries) : x ∈ table.entries :=
  (erase_sublist a table).subset h

theorem insert_subperm (a : α) (b : β) (table : AList fun _ : α => β) :
    (table.insert a b).entries.Subperm (⟨a, b⟩ :: table.entries) := by
  rw [AList.entries_insert]
  exact ((List.kerase_sublist a table.entries).cons_cons _).subperm

theorem mem_insert_entries (h : x ∈ (table.insert a b).entries) : x = ⟨a, b⟩ ∨ x ∈ table.entries :=
  List.mem_cons.1 ((insert_subperm a b table).subset h)

theorem lookup_of_insert {a' : α} {c : β} (h : (table.insert a b).lookup a' = some c) :
    a' = a ∧ c = b ∨ a' ≠ a ∧ table.lookup a' = some c := by
  by_cases heq : a' = a
  · rw [heq, AList.lookup_insert] at h
    exact .inl ⟨heq, (Option.some.inj h).symm⟩
  · rw [AList.lookup_insert_ne heq] at h
    exact .inr ⟨heq, h⟩

theorem lookup_of_erase {a' : α} {c : β} (h : (table.erase a).lookup a' = some c) :
    a' ≠ a ∧ table.lookup a' = some c := by
  by_cases heq : a' = a
  · rw [heq, AList.lookup_erase] at h
    cases h
  · rw [AList.lookup_erase_ne heq] at h
    exact ⟨heq, h⟩

theorem erase_insert (b : β) (h : a ∉ table) : (table.insert a b).erase a = table := by
  refine AList.ext ?_
  change List.kerase a (table.insert a b).entries = table.entries
  rw [AList.entries_insert_of_notMem h]
  exact List.kerase_cons_eq rfl

theorem insert_erase (a : α) (b : β) (table : AList fun _ : α => β) :
    (table.erase a).insert a b = table.insert a b := by
  refine AList.ext ?_
  rw [AList.entries_insert, AList.entries_insert]
  exact congrArg (List.cons _) (List.kerase_of_notMem_keys (List.notMem_keys_kerase a table.nodupKeys))

end Table

section Bag
variable {α : Type} {bag : List α} {i : ℕ} {old : α}

theorem set_perm (h : bag[i]? = some old) (new : α) :
    ∃ rest, bag.Perm (old :: rest) ∧ (bag.set i new).Perm (new :: rest) := by
  obtain ⟨hlt, hget⟩ := List.getElem?_eq_some_iff.1 h
  refine ⟨bag.eraseIdx i, ?_, List.set_perm_cons_eraseIdx hlt new⟩
  rw [← hget]
  exact (List.getElem_cons_eraseIdx_perm hlt).symm

theorem eraseIdx_perm (h : bag[i]? = some old) : bag.Perm (old :: bag.eraseIdx i) := by
  obtain ⟨hlt, hget⟩ := List.getElem?_eq_some_iff.1 h
  rw [← hget]
  exact (List.getElem_cons_eraseIdx_perm hlt).symm

end Bag

end SomeIPRuntime.Tables
