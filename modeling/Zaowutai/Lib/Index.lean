import Mathlib.Data.List.Nodup
import Zaowutai.Lib.Table

/-!
# Lists that index a table

A component that keeps the values of a table in several queues stores each
value once and lists its key where the value belongs.  `Indexes m P l` says
that the list `l` names the keys of the values with property `P`, all of them
and each once.  The rules below say how an index follows a change of the table.
-/

namespace Zaowutai.Lib

variable {κ α : Type*} [DecidableEq κ]

/-- The list names exactly the keys whose value satisfies `P`, each of them once. -/
structure Indexes (m : Table κ α) (P : α → Prop) (l : List κ) : Prop where
  nodup : l.Nodup
  mem_iff : ∀ k, k ∈ l ↔ ∃ v, m.lookup k = some v ∧ P v

namespace Indexes

variable {m m' : Table κ α} {P Q : α → Prop} {l l' : List κ} {k : κ} {v : α}

theorem mem_iff_of_lookup (h : Indexes m P l) (hk : m.lookup k = some v) : k ∈ l ↔ P v := by
  rw [h.mem_iff]
  constructor
  · rintro ⟨w, hw, hP⟩
    rw [hk] at hw
    exact Option.some.inj hw ▸ hP
  · exact fun hP ↦ ⟨v, hk, hP⟩

theorem not_mem_of_lookup_none (h : Indexes m P l) (hk : m.lookup k = none) : k ∉ l := by
  rw [h.mem_iff]
  rintro ⟨w, hw, _⟩
  rw [hk] at hw
  exact absurd hw (by simp)

theorem nil (h : ∀ k v, m.lookup k = some v → ¬ P v) : Indexes m P ([] : List κ) where
  nodup := List.nodup_nil
  mem_iff k := by
    constructor
    · intro hk
      exact absurd hk List.not_mem_nil
    · rintro ⟨v, hk, hP⟩
      exact absurd hP (h k v hk)

theorem perm (h : Indexes m P l) (hl : l'.Perm l) : Indexes m P l' where
  nodup := hl.nodup_iff.mpr h.nodup
  mem_iff k := hl.mem_iff.trans (h.mem_iff k)

/-- Two tables that agree on the values with the property have the same indexes. -/
theorem congr (h : Indexes m P l)
    (hm : ∀ k, (∃ v, m'.lookup k = some v ∧ Q v) ↔ ∃ v, m.lookup k = some v ∧ P v) :
    Indexes m' Q l where
  nodup := h.nodup
  mem_iff k := (h.mem_iff k).trans (hm k).symm

theorem append (hl : Indexes m P l) (hl' : Indexes m Q l')
    (hdisj : ∀ k v, m.lookup k = some v → P v → ¬ Q v) :
    Indexes m (fun v ↦ P v ∨ Q v) (l ++ l') where
  nodup := by
    refine List.nodup_append.mpr ⟨hl.nodup, hl'.nodup, ?_⟩
    rintro a ha b hb rfl
    obtain ⟨v, hv, hP⟩ := (hl.mem_iff a).mp ha
    exact hdisj a v hv hP ((hl'.mem_iff_of_lookup hv).mp hb)
  mem_iff k := by
    rw [List.mem_append, hl.mem_iff, hl'.mem_iff]
    constructor
    · rintro (⟨v, hk, hP⟩ | ⟨v, hk, hQ⟩)
      · exact ⟨v, hk, Or.inl hP⟩
      · exact ⟨v, hk, Or.inr hQ⟩
    · rintro ⟨v, hk, hP | hQ⟩
      · exact Or.inl ⟨v, hk, hP⟩
      · exact Or.inr ⟨v, hk, hQ⟩

theorem mapValues_filter (h : Indexes m P l) {f : κ → α → α} {keep : κ → Bool}
    (hf : ∀ k v, m.lookup k = some v → (Q (f k v) ↔ P v ∧ keep k = true)) :
    Indexes (m.mapValues f) Q (l.filter keep) where
  nodup := h.nodup.filter _
  mem_iff k := by
    rw [List.mem_filter, h.mem_iff, Table.lookup_mapValues]
    constructor
    · rintro ⟨⟨v, hv, hP⟩, hkeep⟩
      exact ⟨f k v, by rw [hv]; rfl, (hf k v hv).mpr ⟨hP, hkeep⟩⟩
    · rintro ⟨w, hw, hQ⟩
      obtain ⟨v, hv, rfl⟩ := Option.map_eq_some_iff.mp hw
      obtain ⟨hP, hkeep⟩ := (hf k v hv).mp hQ
      exact ⟨⟨v, hv, hP⟩, hkeep⟩

theorem mapValues (h : Indexes m P l) {f : κ → α → α}
    (hf : ∀ k v, m.lookup k = some v → (Q (f k v) ↔ P v)) : Indexes (m.mapValues f) Q l := by
  have hall : l.filter (fun _ ↦ true) = l := List.filter_eq_self.mpr fun _ _ ↦ rfl
  rw [← hall]
  exact h.mapValues_filter fun k v hv ↦ by simp [hf k v hv]

theorem insert_other (h : Indexes m P l) (hk : m.lookup k = none) (hv : ¬ P v) :
    Indexes (AList.insert k v m) P l := by
  refine h.congr fun k' ↦ ?_
  rw [Table.lookup_insert_eq]
  by_cases hk' : k' = k
  · subst hk'
    simp [hk, hv]
  · simp [hk']

/-- A fresh key goes to the front or to the back of the list that indexes its value. -/
theorem insert_new (h : Indexes m P l) (hk : m.lookup k = none) (hv : P v) :
    Indexes (AList.insert k v m) P (k :: l) where
  nodup := List.nodup_cons.mpr ⟨h.not_mem_of_lookup_none hk, h.nodup⟩
  mem_iff k' := by
    rw [List.mem_cons, h.mem_iff, Table.lookup_insert_eq]
    by_cases hk' : k' = k
    · simp [hk', hv]
    · simp [hk']

theorem insert_new_back (h : Indexes m P l) (hk : m.lookup k = none) (hv : P v) :
    Indexes (AList.insert k v m) P (l ++ [k]) :=
  (h.insert_new hk hv).perm (List.perm_append_singleton k l)

theorem values_map {key : α → κ} (hkey : ∀ k v, m.lookup k = some v → key v = k)
    [DecidablePred P] : Indexes m P ((m.values.filter P).map key) where
  nodup := by
    have hsub : ((m.values.filter P).map key).Sublist (m.values.map key) :=
      List.filter_sublist.map key
    have hkeys : m.values.map key = m.keys := by
      rw [Table.values, List.map_map]
      exact List.map_congr_left fun e he ↦ hkey e.1 e.2 (Table.mem_entries_iff.mp he)
    exact (hkeys ▸ m.keys_nodup).sublist hsub
  mem_iff k := by
    simp only [List.mem_map, List.mem_filter, Table.mem_values_iff, decide_eq_true_eq]
    constructor
    · rintro ⟨v, ⟨⟨k', hk'⟩, hP⟩, rfl⟩
      rw [hkey k' v hk']
      exact ⟨v, hk', hP⟩
    · rintro ⟨v, hk, hP⟩
      exact ⟨v, ⟨⟨k, hk⟩, hP⟩, hkey k v hk⟩

end Indexes

end Zaowutai.Lib

/-!
## Keyed queues

A table of lists in which an empty list is not kept.  What matters is the list
under each key, which is empty for a key without an entry: values are added at
its end and taken from its front.
-/

namespace Zaowutai.Lib

abbrev Buckets (κ α : Type*) := Table κ (List α)

namespace Buckets

variable {κ α : Type*} [DecidableEq κ]

def bucket (m : Buckets κ α) (k : κ) : List α := (m.lookup k).getD []

def pushBack (k : κ) (a : α) (m : Buckets κ α) : Buckets κ α := m.insert k (bucket m k ++ [a])

def popFront (k : κ) (m : Buckets κ α) : Buckets κ α :=
  if (bucket m k).tail.isEmpty then m.erase k else m.insert k (bucket m k).tail

/-- Keep the values that satisfy `p`, and the entries with a value left. -/
def filterEach (p : α → Bool) (m : Buckets κ α) : Buckets κ α :=
  (m.mapValues fun _ values ↦ values.filter p).retain fun _ values ↦ !values.isEmpty

def heads (m : Buckets κ α) : List α := m.values.filterMap List.head?

variable {m : Buckets κ α} {k k' : κ} {a : α}

theorem bucket_pushBack :
    bucket (m.pushBack k a) k' = if k' = k then bucket m k ++ [a] else bucket m k' := by
  rw [bucket, pushBack, Table.lookup_insert_eq]
  split <;> rfl

theorem bucket_erase :
    bucket (AList.erase k m) k' = if k' = k then [] else bucket m k' := by
  rw [bucket, Table.lookup_erase_eq]
  split <;> rfl

theorem bucket_popFront :
    bucket (m.popFront k) k' = if k' = k then (bucket m k).tail else bucket m k' := by
  rw [popFront]
  split
  · next hempty =>
      rw [bucket_erase]
      split
      · exact (List.isEmpty_iff.mp hempty).symm
      · rfl
  · rw [bucket, Table.lookup_insert_eq]
    split <;> rfl

theorem bucket_filterEach (p : α → Bool) :
    bucket (m.filterEach p) k = (bucket m k).filter p := by
  rw [bucket, filterEach, Table.lookup_retain, Table.lookup_mapValues, bucket]
  cases m.lookup k with
  | none => rfl
  | some values =>
      cases hkept : values.filter p with
      | nil => simp [Option.filter, hkept]
      | cons b rest => simp [Option.filter, hkept]

theorem bucket_reorder (rank : κ → ℕ) : bucket (Table.reorder rank m) k = bucket m k := by
  rw [bucket, Table.lookup_reorder, bucket]

theorem mem_heads : a ∈ heads m ↔ ∃ k, (bucket m k).head? = some a := by
  rw [heads, List.mem_filterMap]
  constructor
  · rintro ⟨values, hmem, hhead⟩
    obtain ⟨k, hlookup⟩ := Table.mem_values_iff.mp hmem
    exact ⟨k, by rw [bucket, hlookup]; exact hhead⟩
  · rintro ⟨k, hhead⟩
    cases hlookup : m.lookup k with
    | none =>
        rw [bucket, hlookup] at hhead
        cases hhead
    | some values =>
        rw [bucket, hlookup] at hhead
        exact ⟨values, Table.mem_values_iff.mpr ⟨k, hlookup⟩, hhead⟩

theorem nodup_heads {f : α → κ} (hf : ∀ k, ∀ a ∈ bucket m k, f a = k) :
    ((heads m).map f).Nodup := by
  have hentries : ∀ entries : List (Σ _ : κ, List α), (entries.map Sigma.fst).Nodup →
      (∀ entry ∈ entries, ∀ a ∈ entry.2, f a = entry.1) →
        (((entries.map Sigma.snd).filterMap List.head?).map f).Nodup ∧
          ∀ k ∈ ((entries.map Sigma.snd).filterMap List.head?).map f, k ∈ entries.map Sigma.fst := by
    intro entries
    induction entries with
    | nil => exact fun _ _ ↦ ⟨List.nodup_nil, fun _ h ↦ (by cases h)⟩
    | cons entry entries ih =>
        intro hnodup hkeys
        obtain ⟨hnew, hnodup⟩ := List.nodup_cons.mp hnodup
        obtain ⟨hrest, hmem⟩ := ih hnodup fun other hother ↦
          hkeys other (List.mem_cons_of_mem entry hother)
        cases hhead : entry.2.head? with
        | none =>
            simp only [List.map_cons, List.filterMap_cons, hhead]
            exact ⟨hrest, fun k hk ↦ List.mem_cons_of_mem _ (hmem k hk)⟩
        | some a =>
            have hkey := hkeys entry List.mem_cons_self a (List.mem_of_head? hhead)
            simp only [List.map_cons, List.filterMap_cons, hhead, hkey]
            refine ⟨List.nodup_cons.mpr ⟨fun hk ↦ hnew (hmem _ hk), hrest⟩, ?_⟩
            intro k hk
            obtain rfl | hk := List.mem_cons.mp hk
            · exact List.mem_cons_self
            · exact List.mem_cons_of_mem _ (hmem k hk)
  refine (hentries m.entries m.nodupKeys fun entry hentry a ha ↦ hf entry.1 a ?_).1
  rw [bucket, Table.mem_entries_iff.mp hentry]
  exact ha

end Buckets

end Zaowutai.Lib
