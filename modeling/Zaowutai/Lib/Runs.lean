import Mathlib.Data.List.Nodup

/-!
# Lists whose runs are folded

Some elements of a list belong to runs.  Folding keeps the first element of each
run and all elements outside.  Where elements stand for entries, and only the
elements of a run stand for the same one, a folded list names each entry once, in
the order of first occurrence.
-/

namespace Zaowutai.Lib

variable {α κ ε : Type*} [DecidableEq κ]

section Distinct

variable [DecidableEq ε] {l : List ε} {a : ε}

theorem eraseDups_filter (p : ε → Bool) (l : List ε) :
    (l.filter p).eraseDups = l.eraseDups.filter p := by
  induction hn : l.length using Nat.strongRecOn generalizing l with
  | ind n ih =>
      cases l with
      | nil => rfl
      | cons a l =>
          have hlt : (l.filter fun b ↦ !b == a).length < n := by
            have hle := List.length_filter_le (fun b ↦ !b == a) l
            rw [List.length_cons] at hn
            omega
          have hrest := ih _ hlt (l.filter fun b ↦ !b == a) rfl
          rw [List.eraseDups_cons]
          by_cases ha : p a = true
          · rw [List.filter_cons_of_pos ha, List.filter_cons_of_pos ha, List.eraseDups_cons, ← hrest]
            simp only [List.filter_filter, Bool.and_comm]
          · rw [List.filter_cons_of_neg ha, List.filter_cons_of_neg ha, ← hrest]
            rw [List.filter_filter]
            refine congrArg List.eraseDups (List.filter_congr fun b _ ↦ ?_)
            -- An element that passes is not the one that fails.
            cases hb : p b with
            | false => rw [Bool.false_and]
            | true =>
                have hne : b ≠ a := by
                  rintro rfl
                  exact ha hb
                simp [hne]

theorem nodup_eraseDups (l : List ε) : l.eraseDups.Nodup := by
  induction hn : l.length using Nat.strongRecOn generalizing l with
  | ind n ih =>
      cases l with
      | nil => exact List.nodup_nil
      | cons a l =>
          have hlt : (l.filter fun b ↦ !b == a).length < n := by
            have hle := List.length_filter_le (fun b ↦ !b == a) l
            rw [List.length_cons] at hn
            omega
          rw [List.eraseDups_cons, List.nodup_cons]
          refine ⟨?_, ih _ hlt _ rfl⟩
          simp

theorem eraseDups_of_nodup (h : l.Nodup) : l.eraseDups = l := by
  induction l with
  | nil => rfl
  | cons a l ih =>
      obtain ⟨ha, hl⟩ := List.nodup_cons.mp h
      have hfilter : (l.filter fun b ↦ !b == a) = l := by
        refine List.filter_eq_self.mpr fun b hb ↦ ?_
        have hne : b ≠ a := fun heq ↦ ha (heq ▸ hb)
        simpa using hne
      rw [List.eraseDups_cons, hfilter, ih hl]

end Distinct

section Fold

/-- The elements outside of the runs and the first element of each run that is not seen yet. -/
def foldRuns (run : α → Option κ) : List κ → List α → List α
  | _, [] => []
  | seen, a :: l =>
      match run a with
      | none => a :: foldRuns run seen l
      | some k => if k ∈ seen then foldRuns run seen l else a :: foldRuns run (k :: seen) l

variable {run : α → Option κ} {entry : α → ε} {l : List α} {seen : List κ}

theorem foldRuns_sublist : (foldRuns run seen l).Sublist l := by
  induction l generalizing seen with
  | nil => exact List.Sublist.refl []
  | cons a l ih =>
      rw [foldRuns]
      split
      · exact ih.cons_cons a
      · split
        · exact ih.cons a
        · exact ih.cons_cons a

theorem filter_foldRuns :
    (foldRuns run seen l).filter (fun a ↦ (run a).isNone) = l.filter fun a ↦ (run a).isNone := by
  induction l generalizing seen with
  | nil => rfl
  | cons a l ih =>
      rw [foldRuns]
      cases ha : run a with
      | none => simp [ha, ih]
      | some k =>
          by_cases hk : k ∈ seen
          · simp [ha, hk, ih]
          · simp [ha, hk, ih]

theorem not_mem_of_mem_foldRuns {a : α} {k : κ} (ha : a ∈ foldRuns run seen l)
    (hk : run a = some k) : k ∉ seen := by
  induction l generalizing seen with
  | nil => cases ha
  | cons b l ih =>
      rw [foldRuns] at ha
      cases hb : run b with
      | none =>
          rw [hb] at ha
          obtain rfl | ha := List.mem_cons.mp ha
          · rw [hk] at hb
            cases hb
          · exact ih ha
      | some k' =>
          rw [hb] at ha
          simp only at ha
          split at ha
          · exact ih ha
          · next hseen =>
              obtain rfl | ha := List.mem_cons.mp ha
              · rw [hk] at hb
                exact Option.some.inj hb ▸ hseen
              · exact fun hmem ↦ ih ha (List.mem_cons_of_mem k' hmem)

theorem pairwise_foldRuns :
    (foldRuns run seen l).Pairwise fun a b ↦ (run a).isSome → run a ≠ run b := by
  induction l generalizing seen with
  | nil => exact List.Pairwise.nil
  | cons a l ih =>
      rw [foldRuns]
      cases hrun : run a with
      | none =>
          refine List.pairwise_cons.mpr ⟨fun b _ hsome ↦ ?_, ih⟩
          rw [hrun] at hsome
          cases hsome
      | some k =>
          simp only
          split
          · exact ih
          · refine List.pairwise_cons.mpr ⟨fun b hb _ heq ↦ ?_, ih⟩
            rw [hrun] at heq
            exact not_mem_of_mem_foldRuns hb heq.symm List.mem_cons_self

/-- Elements that stand for the same entry are of one run, and so are the elements of a run. -/
structure EntriesOf (run : α → Option κ) (entry : α → ε) : Prop where
  run_eq : ∀ a b, entry a = entry b → run a = run b
  entry_eq : ∀ a b k, run a = some k → run b = some k → entry a = entry b

/-- Only the elements of a run stand for the same entry. -/
def OutsideDistinct (run : α → Option κ) (entry : α → ε) (l : List α) : Prop :=
  l.Pairwise fun a b ↦ entry a = entry b → (run a).isSome

theorem OutsideDistinct.of_entries (h : EntriesOf run entry) {l' : List α}
    (heq : l.map entry = l'.map entry) (hl : OutsideDistinct run entry l) :
    OutsideDistinct run entry l' := by
  induction l generalizing l' with
  | nil =>
      rw [List.map_eq_nil_iff.mp heq.symm]
      exact List.Pairwise.nil
  | cons a l ih =>
      cases l' with
      | nil => cases heq
      | cons b l' =>
          obtain ⟨hab, htail⟩ := List.cons.inj heq
          obtain ⟨ha, hl⟩ := List.pairwise_cons.mp hl
          refine List.pairwise_cons.mpr ⟨fun c hc hbc ↦ ?_, ih htail hl⟩
          have hmem : entry c ∈ l.map entry := htail ▸ List.mem_map_of_mem hc
          obtain ⟨d, hd, hdc⟩ := List.mem_map.mp hmem
          rw [← h.run_eq a b hab]
          exact ha d hd (by rw [hab, hbc, hdc])

theorem entries_foldRuns_seen [DecidableEq ε] (h : EntriesOf run entry) (hl : OutsideDistinct run entry l) :
    (foldRuns run seen l).map entry =
      ((l.filter fun a ↦ (run a).all (· ∉ seen)).map entry).eraseDups := by
  induction l generalizing seen with
  | nil => rfl
  | cons a l ih =>
      obtain ⟨ha, hl⟩ := List.pairwise_cons.mp hl
      rw [foldRuns]
      cases hrun : run a with
      | none =>
          have hother : ∀ e ∈ (l.filter fun a ↦ (run a).all (· ∉ seen)).map entry,
              (!e == entry a) = true := by
            intro e he
            obtain ⟨b, hb, rfl⟩ := List.mem_map.mp he
            have hne : entry b ≠ entry a := by
              intro heq
              have hsome := ha b (List.mem_of_mem_filter hb) heq.symm
              rw [hrun] at hsome
              cases hsome
            simpa using hne
          simp only
          rw [List.filter_cons_of_pos (by simp [hrun]), List.map_cons, List.map_cons,
            List.eraseDups_cons, List.filter_eq_self.mpr hother, ← ih hl]
      | some k =>
          by_cases hk : k ∈ seen
          · simp only [if_pos hk]
            rw [ih hl, List.filter_cons_of_neg (by simp [hrun, hk])]
          · simp only [if_neg hk]
            rw [List.map_cons, ih hl, List.filter_cons_of_pos (by simp [hrun, hk]), List.map_cons,
              List.eraseDups_cons, List.filter_map, List.filter_filter]
            refine congrArg (fun l ↦ entry a :: (List.map entry l).eraseDups)
              (List.filter_congr fun b _ ↦ ?_)
            have hsame : entry b = entry a ↔ run b = some k := by
              constructor
              · intro heq
                rw [h.run_eq b a heq, hrun]
              · exact fun hb ↦ h.entry_eq b a k hb hrun
            cases hb : run b with
            | none => simp [hsame, hb]
            | some k' =>
                by_cases hkk : k' = k
                · simp [hsame, hb, hkk]
                · simp [hsame, hb, hkk]

theorem entries_foldRuns [DecidableEq ε] (h : EntriesOf run entry) (hl : OutsideDistinct run entry l) :
    (foldRuns run [] l).map entry = (l.map entry).eraseDups := by
  rw [entries_foldRuns_seen h hl]
  refine congrArg (fun l ↦ (List.map entry l).eraseDups) (List.filter_eq_self.mpr fun a _ ↦ ?_)
  cases run a with
  | none => rfl
  | some k => simp

theorem outsideDistinct_of_nodup (h : EntriesOf run entry)
    (hnodup : ((foldRuns run seen l).map entry).Nodup) : OutsideDistinct run entry l := by
  have houtside : (((foldRuns run seen l).filter fun a ↦ (run a).isNone).map entry).Nodup :=
    hnodup.sublist (List.filter_sublist.map entry)
  rw [filter_foldRuns] at houtside
  clear hnodup
  induction l with
  | nil => exact List.Pairwise.nil
  | cons a l ih =>
      cases hrun : run a with
      | none =>
          rw [List.filter_cons_of_pos (by simp [hrun]), List.map_cons, List.nodup_cons] at houtside
          obtain ⟨ha, hl⟩ := houtside
          refine List.pairwise_cons.mpr ⟨fun b hb heq ↦ ?_, ih hl⟩
          refine absurd (List.mem_map.mpr ⟨b, List.mem_filter.mpr ⟨hb, ?_⟩, heq.symm⟩) ha
          rw [h.run_eq b a heq.symm, hrun]
          rfl
      | some k =>
          rw [List.filter_cons_of_neg (by simp [hrun])] at houtside
          refine List.pairwise_cons.mpr ⟨fun b _ _ ↦ ?_, ih houtside⟩
          rw [hrun]
          rfl

end Fold

end Zaowutai.Lib
