import Mathlib.Data.List.AList
import Mathlib.Data.List.Sort

/-!
# Keyed tables

A finite map with one value for each key, listed in an iteration order that
no caller may rely on.  Values are changed in place, so that an update keeps
the iteration order, and `reorder` permutes the entries: a run that may
reorder a table between two operations covers every iteration order of a hash
map.
-/

namespace Zaowutai.Lib

/-- A finite map from `κ` to `α` without repeated keys. -/
abbrev Table (κ α : Type*) := AList (fun _ : κ ↦ α)

namespace Table

variable {κ α : Type*}

def values (m : Table κ α) : List α := m.entries.map Sigma.snd

def mapValues (f : κ → α → α) (m : Table κ α) : Table κ α where
  entries := m.entries.map fun e ↦ ⟨e.1, f e.1 e.2⟩
  nodupKeys := by
    rw [List.NodupKeys, List.keys, List.map_map]
    exact m.nodupKeys

def retain (p : κ → α → Bool) (m : Table κ α) : Table κ α where
  entries := m.entries.filter fun e ↦ p e.1 e.2
  nodupKeys := m.nodupKeys.sublist List.filter_sublist

/-- Permute the iteration order according to a rank on the keys. -/
def reorder (rank : κ → ℕ) (m : Table κ α) : Table κ α where
  entries := m.entries.insertionSort fun a b ↦ rank a.1 ≤ rank b.1
  nodupKeys := (List.perm_nodupKeys (List.perm_insertionSort _ _)).mpr m.nodupKeys

theorem mapValues_mapValues (f g : κ → α → α) (m : Table κ α) :
    (m.mapValues f).mapValues g = m.mapValues fun k v ↦ g k (f k v) := by
  apply AList.ext
  simp [mapValues]

variable [DecidableEq κ]

def modify (k : κ) (f : α → α) (m : Table κ α) : Table κ α :=
  m.mapValues fun k' v ↦ if k' = k then f v else v

def eraseAll (ks : List κ) (m : Table κ α) : Table κ α :=
  ks.foldl (fun m k ↦ m.erase k) m

section Lookup

variable {m : Table κ α} {k k' : κ} {v : α}

@[simp] theorem lookup_mapValues (f : κ → α → α) :
    (m.mapValues f).lookup k = (m.lookup k).map (f k) :=
  List.dlookup_map₂ k

@[simp] theorem lookup_modify (f : α → α) :
    (m.modify k f).lookup k' = if k' = k then (m.lookup k').map f else m.lookup k' := by
  by_cases h : k' = k <;> simp [modify, h]

@[simp] theorem lookup_reorder (rank : κ → ℕ) : (m.reorder rank).lookup k = m.lookup k :=
  AList.perm_lookup (List.perm_insertionSort _ _)

theorem lookup_insert_eq (v : α) :
    AList.lookup k' (AList.insert k v m) = if k' = k then some v else m.lookup k' := by
  split
  · next h => rw [h, AList.lookup_insert]
  · next h => rw [AList.lookup_insert_ne h]

theorem lookup_erase_eq : AList.lookup k' (AList.erase k m) = if k' = k then none else m.lookup k' := by
  split
  · next h => rw [h, AList.lookup_erase]
  · next h => rw [AList.lookup_erase_ne h]

@[simp] theorem lookup_eraseAll (ks : List κ) :
    (m.eraseAll ks).lookup k = if k ∈ ks then none else m.lookup k := by
  induction ks generalizing m with
  | nil => simp [eraseAll]
  | cons a ks ih =>
      have hstep : (m.eraseAll (a :: ks)).lookup k = (eraseAll ks (m.erase a)).lookup k := rfl
      rw [hstep, ih, lookup_erase_eq]
      by_cases ha : k = a <;> simp [ha]

theorem mem_entries_iff : ⟨k, v⟩ ∈ m.entries ↔ m.lookup k = some v :=
  AList.mem_lookup_iff.symm

@[simp] theorem lookup_retain (p : κ → α → Bool) :
    (m.retain p).lookup k = (m.lookup k).filter (p k) := by
  apply Option.ext
  intro v
  rw [← mem_entries_iff, Option.filter_eq_some_iff, ← mem_entries_iff]
  exact List.mem_filter

theorem lookup_foldl_insert {l : List (Sigma fun _ : κ ↦ α)} (h : l.NodupKeys) :
    AList.lookup k (l.foldl (fun m e ↦ AList.insert e.1 e.2 m) m) =
      (l.dlookup k).or (m.lookup k) := by
  induction l generalizing m with
  | nil => rfl
  | cons e l ih =>
      obtain ⟨hnot, hrest⟩ := List.nodupKeys_cons.mp h
      rw [List.foldl_cons, ih hrest, lookup_insert_eq]
      split
      · next hself =>
          rw [hself, List.dlookup_eq_none.mpr hnot, Option.none_or, List.dlookup_cons_eq,
            Option.some_or]
      · next hne => rw [List.dlookup_cons_ne l e hne]

theorem mem_values_iff : v ∈ m.values ↔ ∃ k, m.lookup k = some v := by
  constructor
  · intro h
    obtain ⟨⟨k, w⟩, hmem, rfl⟩ := List.mem_map.mp h
    exact ⟨k, mem_entries_iff.mp hmem⟩
  · rintro ⟨k, h⟩
    exact List.mem_map.mpr ⟨⟨k, v⟩, mem_entries_iff.mpr h, rfl⟩

end Lookup

end Table

end Zaowutai.Lib
