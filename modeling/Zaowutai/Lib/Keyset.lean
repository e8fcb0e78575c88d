import Zaowutai.Lib.Ranking

/-!
# Reading a ranked list in windows

A reader is given a window of the list and its last element, from which it asks
for the next window.  Windows may differ in size.  The windows put together are
the list.
-/

namespace Zaowutai.Lib

variable {α κ : Type*} [LinearOrder κ]

def behindCursor (key : α → κ) (l : List α) : Option α → List α
  | none => l
  | some a => behind key (key a) l

def nextCursor (n : ℕ) (l : List α) : Option α := if n < l.length then (l.take n).getLast? else none

def readFrom (key : α → κ) (l : List α) : List ℕ → Option α → List α × Option α
  | _, none => ([], none)
  | [], some a => ([], some a)
  | n :: ns, some a =>
      let found := behindCursor key l (some a)
      let rest := readFrom key l ns (nextCursor n found)
      (found.take n ++ rest.1, rest.2)

variable {key : α → κ} {l : List α} {a : α} {n : ℕ} {ns : List ℕ}

theorem behindCursor_sublist (cursor : Option α) : (behindCursor key l cursor).Sublist l := by
  cases cursor with
  | none => exact List.Sublist.refl l
  | some a => exact List.filter_sublist

theorem nextCursor_eq_some (hn : 0 < n) (hlen : n < l.length) :
    ∃ a, nextCursor n l = some a ∧ (l.take n).getLast? = some a := by
  have hne : l.take n ≠ [] := by
    intro h
    have hlength := congrArg List.length h
    rw [List.length_take] at hlength
    simp only [List.length_nil] at hlength
    omega
  refine ⟨(l.take n).getLast hne, ?_, List.getLast?_eq_some_getLast hne⟩
  rw [nextCursor, if_pos hlen, List.getLast?_eq_some_getLast hne]

theorem Ranked.behind_last (h : Ranked key l) {cursor : Option α}
    (hlast : ((behindCursor key l cursor).take n).getLast? = some a) :
    behind key (key a) l = (behindCursor key l cursor).drop n := by
  have hfound : Ranked key (behindCursor key l cursor) := h.sublist (behindCursor_sublist cursor)
  have hsplit : (behindCursor key l cursor).take n ++
      behind key (key a) (behindCursor key l cursor) = behindCursor key l cursor := by
    rw [hfound.take_eq_upTo hlast]
    exact hfound.upTo_append_behind (key a)
  have hdrop : behind key (key a) (behindCursor key l cursor) =
      (behindCursor key l cursor).drop n := by
    refine List.append_cancel_left (hsplit.trans ?_)
    exact (List.take_append_drop n _).symm
  rw [← hdrop]
  cases cursor with
  | none => rfl
  | some c =>
      -- the window lies behind its cursor, so nothing behind its last element is before the cursor
      have hmem : a ∈ behind key (key c) l := List.mem_of_mem_take (List.mem_of_getLast? hlast)
      have hca : key c < key a := (mem_behind.mp hmem).2
      have hfilter : behind key (key a) (behind key (key c) l) = behind key (key a) l := by
        rw [behind, behind, List.filter_filter]
        refine List.filter_congr fun b _ ↦ ?_
        by_cases hab : key a < key b
        · simp [hab, hca.trans hab]
        · simp [hab]
      exact hfilter.symm

theorem Ranked.read_all (h : Ranked key l) (cursor : Option α) (hn : 0 < n)
    (hns : ∀ n ∈ ns, 0 < n) (hlen : ((behindCursor key l cursor).drop n).length ≤ ns.length) :
    readFrom key l ns (nextCursor n (behindCursor key l cursor)) =
      ((behindCursor key l cursor).drop n, none) := by
  induction ns generalizing cursor n with
  | nil =>
      have hle : (behindCursor key l cursor).length ≤ n := by
        rw [List.length_drop] at hlen
        simp only [List.length_nil] at hlen
        omega
      rw [nextCursor, if_neg (not_lt.mpr hle), List.drop_eq_nil_of_le hle]
      rfl
  | cons m ns ih =>
      obtain ⟨hm, hns⟩ := List.forall_mem_cons.mp hns
      by_cases hmore : n < (behindCursor key l cursor).length
      · obtain ⟨a, hnext, hlast⟩ := nextCursor_eq_some hn hmore
        have hbehind : behindCursor key l (some a) = (behindCursor key l cursor).drop n :=
          h.behind_last hlast
        have hrest : ((behindCursor key l (some a)).drop m).length ≤ ns.length := by
          rw [hbehind]
          simp only [List.length_drop, List.length_cons] at hlen ⊢
          omega
        rw [hnext]
        simp only [readFrom]
        rw [ih _ hm hns hrest, hbehind, List.take_append_drop]
      · rw [nextCursor, if_neg hmore, List.drop_eq_nil_of_le (not_lt.mp hmore)]
        rfl

end Zaowutai.Lib

/-!
## Windows of a ranked list

A window is a part of a ranked list without gaps.  What is ahead of its first
element and what is behind its last one are the rest of the list.
-/

namespace Zaowutai.Lib

variable {α κ : Type*} [LinearOrder κ] {key : α → κ} {l pre post window : List α} {a : α}

def ahead (key : α → κ) (c : κ) (l : List α) : List α := l.filter (key · < c)

theorem Ranked.ahead_append (h : Ranked key l) (c : κ) :
    ahead key c l ++ l.filter (c ≤ key ·) = l := by
  induction l with
  | nil => rfl
  | cons a l ih =>
      obtain ⟨habove, htail⟩ := ranked_cons.mp h
      by_cases hc : key a < c
      · have hahead : ahead key c (a :: l) = a :: ahead key c l := by simp [ahead, hc]
        have hrest : (a :: l).filter (c ≤ key ·) = l.filter (c ≤ key ·) := by simp [hc]
        rw [hahead, hrest, List.cons_append, ih htail]
      · have hle : ∀ b ∈ a :: l, c ≤ key b := by
          intro b hb
          rcases List.mem_cons.mp hb with rfl | hb
          · exact not_lt.mp hc
          · exact (not_lt.mp hc).trans (habove b hb).le
        have hahead : ahead key c (a :: l) = [] :=
          List.filter_eq_nil_iff.mpr fun b hb ↦ by simpa using hle b hb
        rw [hahead, List.filter_eq_self.mpr fun b hb ↦ decide_eq_true (hle b hb), List.nil_append]

theorem Ranked.ahead_split (h : Ranked key (pre ++ a :: post)) :
    ahead key (key a) (pre ++ a :: post) = pre := by
  obtain ⟨-, hrest, hacross⟩ := ranked_append.mp h
  have hpre : pre.filter (key · < key a) = pre :=
    List.filter_eq_self.mpr fun b hb ↦ decide_eq_true (hacross b hb a List.mem_cons_self)
  have hpost : (a :: post).filter (key · < key a) = [] := by
    refine List.filter_eq_nil_iff.mpr fun b hb ↦ ?_
    rcases List.mem_cons.mp hb with rfl | hb
    · simp
    · simpa using ((ranked_cons.mp hrest).1 b hb).le
  rw [ahead, List.filter_append, hpre, hpost, List.append_nil]

theorem Ranked.behind_split (h : Ranked key (pre ++ a :: post)) :
    behind key (key a) (pre ++ a :: post) = post := by
  obtain ⟨-, hrest, hacross⟩ := ranked_append.mp h
  have hpost : post.filter (key a < key ·) = post :=
    List.filter_eq_self.mpr fun b hb ↦ decide_eq_true ((ranked_cons.mp hrest).1 b hb)
  have hpre : pre.filter (key a < key ·) = [] := by
    refine List.filter_eq_nil_iff.mpr fun b hb ↦ ?_
    simpa using (hacross b hb a List.mem_cons_self).le
  have hself : [a].filter (key a < key ·) = [] := by simp
  rw [behind, ← List.singleton_append, List.filter_append, List.filter_append, hpre, hself, hpost,
    List.nil_append, List.nil_append]

/-- The last elements, as they are found from the end. -/
theorem reverse_take_reverse (n : ℕ) : (l.reverse.take n).reverse = l.drop (l.length - n) := by
  rw [List.reverse_take, List.reverse_reverse, List.length_reverse]

theorem Ranked.insertionSort_key {l' : List α} (h : Ranked key l) (hperm : l'.Perm l) :
    l'.insertionSort (fun a b ↦ key a ≤ key b) = l := by
  have htotal : Std.Total fun a b : α ↦ key a ≤ key b := ⟨fun a b ↦ le_total (key a) (key b)⟩
  have htrans : IsTrans α fun a b ↦ key a ≤ key b := ⟨fun a b c hab hbc ↦ le_trans hab hbc⟩
  exact h.insertionSort_eq (fun a b hlt ↦ hlt.not_ge) hperm

theorem Ranked.insertionSort_reverse {l' : List α} (h : Ranked key l) (hperm : l'.Perm l) :
    l'.insertionSort (fun a b ↦ key b ≤ key a) = l.reverse := by
  have hranked : Ranked (OrderDual.toDual ∘ key) l.reverse := List.pairwise_reverse.mpr h
  exact hranked.insertionSort_key (hperm.trans l.reverse_perm.symm)

end Zaowutai.Lib
