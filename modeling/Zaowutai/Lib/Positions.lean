import Mathlib.Data.List.Basic
import Mathlib.Data.List.Nodup
import Mathlib.Data.List.Perm.Subperm

/-!
# Positions by key

The elements of a list have keys, any number of them, and a key stands for the
last position at which it occurs.  The rules say what becomes of the position
when an element is appended or takes the place of another.
-/

namespace Zaowutai.Lib

variable {α κ : Type*} [DecidableEq κ] {keysOf : α → List κ} {l l' : List α} {a b : α} {k : κ}
  {i : ℕ}

def lastIndex (keysOf : α → List κ) : List α → κ → Option ℕ
  | [], _ => none
  | a :: l, k =>
      match lastIndex keysOf l k with
      | some i => some (i + 1)
      | none => if k ∈ keysOf a then some 0 else none

theorem lastIndex_append :
    lastIndex keysOf (l ++ [a]) k =
      if k ∈ keysOf a then some l.length else lastIndex keysOf l k := by
  induction l with
  | nil => simp [lastIndex]
  | cons b l ih =>
      rw [List.cons_append, lastIndex, ih, lastIndex]
      by_cases hk : k ∈ keysOf a
      · rw [if_pos hk, if_pos hk, List.length_cons]
      · rw [if_neg hk, if_neg hk]

theorem lastIndex_congr
    (h : l.map (fun a ↦ k ∈ keysOf a) = l'.map fun a ↦ k ∈ keysOf a) :
    lastIndex keysOf l k = lastIndex keysOf l' k := by
  induction l generalizing l' with
  | nil =>
      obtain rfl : l' = [] := by simpa using h.symm
      rfl
  | cons a l ih =>
      cases l' with
      | nil => simp at h
      | cons b l' =>
          simp only [List.map_cons, List.cons.injEq] at h
          obtain ⟨hhead, htail⟩ := h
          rw [lastIndex, lastIndex, ih htail]
          simp only [hhead]

theorem lastIndex_set (h : ∀ a, l[i]? = some a → (k ∈ keysOf a ↔ k ∈ keysOf b)) :
    lastIndex keysOf (l.set i b) k = lastIndex keysOf l k := by
  apply lastIndex_congr
  apply List.ext_getElem?
  intro j
  rw [List.getElem?_map, List.getElem?_map, List.getElem?_set]
  by_cases hj : i = j
  · subst hj
    by_cases hi : i < l.length
    · rw [if_pos rfl, if_pos hi, List.getElem?_eq_getElem hi, Option.map_some, Option.map_some,
        propext (h _ (List.getElem?_eq_getElem hi))]
    · rw [if_pos rfl, if_neg hi, List.getElem?_eq_none (by omega)]
  · rw [if_neg hj]

theorem getElem?_of_lastIndex (h : lastIndex keysOf l k = some i) :
    ∃ a, l[i]? = some a ∧ k ∈ keysOf a := by
  induction l generalizing i with
  | nil => simp [lastIndex] at h
  | cons b l ih =>
      rw [lastIndex] at h
      cases hl : lastIndex keysOf l k with
      | some j =>
          rw [hl] at h
          obtain ⟨a, ha, hk⟩ := ih hl
          obtain rfl : j + 1 = i := Option.some.inj h
          exact ⟨a, by rwa [List.getElem?_cons_succ], hk⟩
      | none =>
          rw [hl] at h
          simp only [Option.ite_none_right_eq_some, Option.some.injEq] at h
          obtain ⟨hk, rfl⟩ := h
          exact ⟨b, rfl, hk⟩

end Zaowutai.Lib

/-!
## Precedence in a list

Of two different members of a list without repeats exactly one comes first, and
a part of the list that was kept in order agrees with it about which.
-/

namespace Zaowutai.Lib

variable {α : Type*} {l l' : List α} {a b : α}

def Precedes (l : List α) (a b : α) : Prop := [a, b].Sublist l

theorem Precedes.mono (h : Precedes l a b) (hl : l.Sublist l') : Precedes l' a b := h.trans hl

theorem Precedes.rel {r : α → α → Prop} (h : Precedes l a b) (hl : l.Pairwise r) : r a b :=
  List.pairwise_pair.mp (hl.sublist h)

theorem precedes_total (ha : a ∈ l) (hb : b ∈ l) (hne : a ≠ b) : Precedes l a b ∨ Precedes l b a := by
  induction l with
  | nil => cases ha
  | cons x l ih =>
      obtain hax | hal := List.mem_cons.mp ha
      · obtain hbx | hbl := List.mem_cons.mp hb
        · exact absurd (hax.trans hbx.symm) hne
        · exact Or.inl (hax ▸ (List.singleton_sublist.mpr hbl).cons_cons a)
      · obtain hbx | hbl := List.mem_cons.mp hb
        · exact Or.inr (hbx ▸ (List.singleton_sublist.mpr hal).cons_cons b)
        · obtain h | h := ih hal hbl
          · exact Or.inl (h.cons x)
          · exact Or.inr (h.cons x)

theorem Precedes.asymm (h : Precedes l a b) (hl : l.Nodup) : ¬ Precedes l b a := by
  induction l with
  | nil => cases h
  | cons x l ih =>
      obtain ⟨hx, hl⟩ := List.nodup_cons.mp hl
      intro hback
      cases h with
      | cons _ h =>
          cases hback with
          | cons _ hback => exact ih h hl hback
          | cons_cons _ hback => exact hx (h.subset (by simp))
      | cons_cons _ h =>
          cases hback with
          | cons _ hback => exact hx (hback.subset (by simp))
          | cons_cons _ hback => exact hx (h.subset (by simp))

variable [DecidableEq α]

theorem sublist_iff_eq_filter (hl : l.Nodup) :
    l'.Sublist l ↔ l' = l.filter (· ∈ l') := by
  constructor
  · intro h
    refine List.Sublist.eq_of_length_le ?_ ?_
    · have hsub := h.filter (· ∈ l')
      rwa [List.filter_eq_self.mpr fun x hx ↦ decide_eq_true hx] at hsub
    · refine (List.Nodup.subperm (hl.filter _) fun x hx ↦ ?_).length_le
      simpa using (List.mem_filter.mp hx).2
  · intro h
    rw [h]
    exact List.filter_sublist

end Zaowutai.Lib
