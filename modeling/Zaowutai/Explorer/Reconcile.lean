import Mathlib.Data.List.Zip
import Zaowutai.Explorer.ExplorerModel

/-!
# Reconciling a listing

The changes between two levels are a script of edits: the synthesized renames
come first, then what is added, and what is removed last.  A name that changes
its kind is removed as well as added, so it is lost unless it is renamed away.
-/

namespace Zaowutai.Explorer

open Zaowutai.Lib

section Pairing

def EntryFact.class (fact : EntryFact) : ℕ × Kind := (fact.inode, fact.kind)

def ofClass (c : ℕ × Kind) (entries : List (String × EntryFact)) : List String :=
  (entries.filter fun e ↦ e.2.class = c).map Prod.fst

def Paired (removed added : List (String × EntryFact)) (pair : String × String) : Prop :=
  ∃ c : ℕ × Kind, c.1 ≠ 0 ∧ pair ∈ (ofClass c removed).zip (ofClass c added)

def free (slots : List AddedSlot) : List (String × EntryFact) :=
  (slots.filter fun slot ↦ !slot.used).map fun slot ↦ (slot.name, slot.fact)

variable {rf : EntryFact} {slots slots' : List AddedSlot} {name : String}
  {removed : List (String × EntryFact)}

theorem class_eq_iff {nf : EntryFact} :
    nf.class = rf.class ↔ nf.inode = rf.inode ∧ nf.kind = rf.kind := by
  rw [EntryFact.class, EntryFact.class, Prod.mk.injEq]

theorem free_cons (slot : AddedSlot) (slots : List AddedSlot) :
    free (slot :: slots) = if slot.used then free slots else (slot.name, slot.fact) :: free slots := by
  cases hused : slot.used <;> simp [free, hused]

theorem useSlot_eq_some (h : useSlot rf slots = some (name, slots')) :
    ∃ before nf after, free slots = before ++ (name, nf) :: after ∧
      free slots' = before ++ after ∧ nf.class = rf.class ∧
      ∀ e ∈ before, e.2.class ≠ rf.class := by
  induction slots generalizing slots' with
  | nil => cases h
  | cons slot slots ih =>
      rw [useSlot] at h
      split at h
      · next hfirst =>
          cases h
          simp only [Bool.and_eq_true, Bool.not_eq_true', decide_eq_true_eq] at hfirst
          obtain ⟨⟨hused, hinode⟩, hkind⟩ := hfirst
          refine ⟨[], slot.fact, free slots, ?_, ?_, class_eq_iff.mpr ⟨hinode, hkind⟩, by simp⟩
          · rw [free_cons, hused, if_neg Bool.false_ne_true, List.nil_append]
          · rw [free_cons, if_pos rfl, List.nil_append]
      · next hother =>
          obtain ⟨⟨name', rest⟩, hrest, heq⟩ := Option.map_eq_some_iff.mp h
          cases heq
          obtain ⟨before, nf, after, hslots, hslots', hclass, hbefore⟩ := ih hrest
          rw [free_cons, free_cons, hslots, hslots']
          cases hused : slot.used with
          | true => exact ⟨before, nf, after, rfl, rfl, hclass, hbefore⟩
          | false =>
              refine ⟨(slot.name, slot.fact) :: before, nf, after, rfl, rfl, hclass, ?_⟩
              intro e he
              rcases List.mem_cons.mp he with rfl | he
              · intro hsame
                obtain ⟨hinode, hkind⟩ : slot.fact.inode = rf.inode ∧ slot.fact.kind = rf.kind :=
                  class_eq_iff.mp hsame
                exact hother (by simp [hused, hinode, hkind])
              · exact hbefore e he

theorem useSlot_eq_none (h : useSlot rf slots = none) :
    ∀ e ∈ free slots, e.2.class ≠ rf.class := by
  induction slots with
  | nil => simp [free]
  | cons slot slots ih =>
      rw [useSlot] at h
      split at h
      · cases h
      · next hother =>
          have hrest := ih (Option.map_eq_none_iff.mp h)
          rw [free_cons]
          cases hused : slot.used with
          | true => exact hrest
          | false =>
              intro e he
              rcases List.mem_cons.mp he with rfl | he
              · intro hsame
                obtain ⟨hinode, hkind⟩ : slot.fact.inode = rf.inode ∧ slot.fact.kind = rf.kind :=
                  class_eq_iff.mp hsame
                exact hother (by simp [hused, hinode, hkind])
              · exact hrest e he

theorem pairRenames_cons (name : String) (rf : EntryFact) (removed : List (String × EntryFact))
    (slots : List AddedSlot) :
    (∃ target nf before after slots', rf.inode ≠ 0 ∧ free slots = before ++ (target, nf) :: after ∧
        free slots' = before ++ after ∧ nf.class = rf.class ∧
        (∀ e ∈ before, e.2.class ≠ rf.class) ∧
        pairRenames ((name, rf) :: removed) slots =
          ⟨(name, target) :: (pairRenames removed slots').renames,
            (pairRenames removed slots').removed, (pairRenames removed slots').slots⟩) ∨
      (rf.inode ≠ 0 → ∀ e ∈ free slots, e.2.class ≠ rf.class) ∧
        pairRenames ((name, rf) :: removed) slots =
          ⟨(pairRenames removed slots).renames, (name, rf) :: (pairRenames removed slots).removed,
            (pairRenames removed slots).slots⟩ := by
  rw [pairRenames]
  by_cases hinode : rf.inode = 0
  · right
    refine ⟨fun h ↦ absurd hinode h, ?_⟩
    rw [if_neg (not_not.mpr hinode)]
  rw [if_pos hinode]
  cases huse : useSlot rf slots with
  | none => exact .inr ⟨fun _ ↦ useSlot_eq_none huse, rfl⟩
  | some used =>
      obtain ⟨before, nf, after, hslots, hslots', hclass, hbefore⟩ := useSlot_eq_some huse
      exact .inl ⟨used.1, nf, before, after, used.2, hinode, hslots, hslots', hclass, hbefore, rfl⟩

theorem perm_sources (removed : List (String × EntryFact)) (slots : List AddedSlot) :
    ((pairRenames removed slots).renames.map Prod.fst ++
      (pairRenames removed slots).removed.map Prod.fst).Perm (removed.map Prod.fst) := by
  induction removed generalizing slots with
  | nil => exact List.Perm.refl _
  | cons e removed ih =>
      obtain ⟨name, rf⟩ := e
      rcases pairRenames_cons name rf removed slots with
        ⟨target, nf, before, after, slots', -, -, -, -, -, heq⟩ | ⟨-, heq⟩
      · rw [heq]
        exact (ih slots').cons name
      · rw [heq]
        exact List.perm_middle.trans ((ih slots).cons name)

theorem perm_targets (removed : List (String × EntryFact)) (slots : List AddedSlot) :
    ((pairRenames removed slots).renames.map Prod.snd ++
      (free (pairRenames removed slots).slots).map Prod.fst).Perm ((free slots).map Prod.fst) := by
  induction removed generalizing slots with
  | nil => exact List.Perm.refl _
  | cons e removed ih =>
      obtain ⟨name, rf⟩ := e
      rcases pairRenames_cons name rf removed slots with
        ⟨target, nf, before, after, slots', -, hslots, hslots', -, -, heq⟩ | ⟨-, heq⟩
      · rw [heq, hslots]
        have hrest := ih slots'
        rw [hslots', List.map_append] at hrest
        rw [List.map_append, List.map_cons]
        exact (hrest.cons target).trans List.perm_middle.symm
      · rw [heq]
        exact ih slots

theorem free_sublist (removed : List (String × EntryFact)) (slots : List AddedSlot) :
    (free (pairRenames removed slots).slots).Sublist (free slots) := by
  induction removed generalizing slots with
  | nil => exact List.Sublist.refl _
  | cons e removed ih =>
      obtain ⟨name, rf⟩ := e
      rcases pairRenames_cons name rf removed slots with
        ⟨target, nf, before, after, slots', -, hslots, hslots', -, -, heq⟩ | ⟨-, heq⟩
      · rw [heq, hslots]
        refine (ih slots').trans ?_
        rw [hslots']
        exact (List.sublist_cons_self _ _).append_left _
      · rw [heq]
        exact ih slots

theorem sources_sublist (removed : List (String × EntryFact)) (slots : List AddedSlot) :
    ((pairRenames removed slots).renames.map Prod.fst).Sublist (removed.map Prod.fst) := by
  induction removed generalizing slots with
  | nil => exact List.Sublist.refl _
  | cons e removed ih =>
      obtain ⟨name, rf⟩ := e
      rcases pairRenames_cons name rf removed slots with
        ⟨target, nf, before, after, slots', -, -, -, -, -, heq⟩ | ⟨-, heq⟩
      · rw [heq]
        exact (ih slots').cons_cons name
      · rw [heq]
        exact (ih slots).cons name

theorem ofClass_append (c : ℕ × Kind) (xs ys : List (String × EntryFact)) :
    ofClass c (xs ++ ys) = ofClass c xs ++ ofClass c ys := by
  rw [ofClass, List.filter_append, List.map_append, ofClass, ofClass]

theorem ofClass_cons (c : ℕ × Kind) (e : String × EntryFact) (es : List (String × EntryFact)) :
    ofClass c (e :: es) = if e.2.class = c then e.1 :: ofClass c es else ofClass c es := by
  rw [ofClass, List.filter_cons]
  split
  · next h => rw [if_pos (of_decide_eq_true h), List.map_cons, ofClass]
  · next h => rw [if_neg (by simpa using h), ofClass]

theorem ofClass_eq_nil {c : ℕ × Kind} {es : List (String × EntryFact)}
    (h : ∀ e ∈ es, e.2.class ≠ c) : ofClass c es = [] := by
  rw [ofClass, List.filter_eq_nil_iff.mpr, List.map_nil]
  exact fun e he hclass ↦ h e he (of_decide_eq_true hclass)

theorem mem_renames_iff (removed : List (String × EntryFact)) (slots : List AddedSlot)
    (pair : String × String) :
    pair ∈ (pairRenames removed slots).renames ↔ Paired removed (free slots) pair := by
  induction removed generalizing slots with
  | nil => simp [pairRenames, Paired, ofClass]
  | cons e removed ih =>
      obtain ⟨name, rf⟩ := e
      rcases pairRenames_cons name rf removed slots with
        ⟨target, nf, before, after, slots', hinode, hslots, hslots', hclass, hbefore, heq⟩ |
          ⟨hnone, heq⟩
      · have hfirst : ofClass rf.class (free slots) = target :: ofClass rf.class (free slots') := by
          rw [hslots, hslots', ofClass_append, ofClass_append, ofClass_cons, if_pos hclass,
            ofClass_eq_nil hbefore, List.nil_append, List.nil_append]
        have hother : ∀ c, rf.class ≠ c → ofClass c (free slots) = ofClass c (free slots') := by
          intro c hc
          rw [hslots, hslots', ofClass_append, ofClass_append, ofClass_cons,
            if_neg (hclass ▸ hc)]
        rw [heq, List.mem_cons, ih]
        constructor
        · rintro (rfl | ⟨c, hc, hmem⟩)
          · refine ⟨rf.class, hinode, ?_⟩
            rw [ofClass_cons, if_pos rfl, hfirst]
            exact List.mem_cons_self
          · refine ⟨c, hc, ?_⟩
            rw [ofClass_cons]
            split
            · next hrf =>
                subst hrf
                rw [hfirst]
                exact List.mem_cons_of_mem _ hmem
            · next hrf =>
                rw [hother c hrf]
                exact hmem
        · rintro ⟨c, hc, hmem⟩
          rw [ofClass_cons] at hmem
          split at hmem
          · next hrf =>
              subst hrf
              rw [hfirst, List.zip_cons_cons] at hmem
              exact (List.mem_cons.mp hmem).imp_right fun hmem ↦ ⟨rf.class, hc, hmem⟩
          · next hrf =>
              rw [hother c hrf] at hmem
              exact .inr ⟨c, hc, hmem⟩
      · rw [heq, ih]
        have hskip : ∀ c : ℕ × Kind, c.1 ≠ 0 → (ofClass c ((name, rf) :: removed)).zip
            (ofClass c (free slots)) = (ofClass c removed).zip (ofClass c (free slots)) := by
          intro c hc
          rw [ofClass_cons]
          split
          · next hrf =>
              subst hrf
              rw [ofClass_eq_nil (hnone hc), List.zip_nil_right, List.zip_nil_right]
          · rfl
        constructor
        · rintro ⟨c, hc, hmem⟩
          exact ⟨c, hc, hskip c hc ▸ hmem⟩
        · rintro ⟨c, hc, hmem⟩
          exact ⟨c, hc, hskip c hc ▸ hmem⟩

end Pairing

section Script

variable {old fresh : Listing} {name : String}

theorem mem_removedEntries {e : String × EntryFact} :
    e ∈ removedEntries old fresh ↔
      old.lookup e.1 = some e.2 ∧ kinds fresh e.1 ≠ some e.2.kind := by
  rw [removedEntries, List.mem_filter, mem_inOrder, kinds]
  cases fresh.lookup e.1 <;> simp

theorem mem_addedEntries {e : String × EntryFact} :
    e ∈ addedEntries old fresh ↔
      fresh.lookup e.1 = some e.2 ∧ kinds old e.1 ≠ some e.2.kind := by
  rw [addedEntries, List.mem_append, List.mem_filterMap, List.mem_filter, mem_inOrder, kinds]
  constructor
  · rintro (⟨⟨name, of⟩, hof, hkind⟩ | ⟨hfresh, hnew⟩)
    · split at hkind
      · cases hkind
      · next nf hnf =>
          split at hkind
          · next hne =>
              cases hkind
              rw [mem_inOrder.mp hof]
              exact ⟨hnf, fun heq ↦ hne (Option.some.inj heq).symm⟩
          · cases hkind
    · refine ⟨hfresh, ?_⟩
      rw [Option.isNone_iff_eq_none.mp hnew]
      exact fun h ↦ by cases h
  · rintro ⟨hfresh, hkind⟩
    cases hof : old.lookup e.1 with
    | none => exact .inr ⟨hfresh, rfl⟩
    | some of =>
        left
        refine ⟨(e.1, of), mem_inOrder.mpr hof, ?_⟩
        rw [hof] at hkind
        have hne : e.2.kind ≠ of.kind := fun heq ↦ hkind (by rw [heq]; rfl)
        simp only [hfresh, if_pos hne]

theorem mem_removedNames :
    name ∈ (removedEntries old fresh).map Prod.fst ↔
      (kinds old name).isSome = true ∧ kinds fresh name ≠ kinds old name := by
  rw [List.mem_map]
  constructor
  · rintro ⟨e, he, rfl⟩
    obtain ⟨hold, hkind⟩ := mem_removedEntries.mp he
    rw [kinds, hold]
    exact ⟨rfl, hkind⟩
  · rintro ⟨hsome, hkind⟩
    rw [kinds, Option.isSome_map, Option.isSome_iff_exists] at hsome
    obtain ⟨of, hold⟩ := hsome
    refine ⟨(name, of), mem_removedEntries.mpr ⟨hold, ?_⟩, rfl⟩
    have hof : kinds old name = some of.kind := by rw [kinds, hold, Option.map_some]
    exact hof ▸ hkind

theorem mem_addedNames :
    name ∈ (addedEntries old fresh).map Prod.fst ↔
      (kinds fresh name).isSome = true ∧ kinds fresh name ≠ kinds old name := by
  rw [List.mem_map]
  constructor
  · rintro ⟨e, he, rfl⟩
    obtain ⟨hfresh, hkind⟩ := mem_addedEntries.mp he
    have hnf : kinds fresh e.1 = some e.2.kind := by rw [kinds, hfresh, Option.map_some]
    rw [hnf]
    exact ⟨rfl, hkind.symm⟩
  · rintro ⟨hsome, hkind⟩
    rw [kinds, Option.isSome_map, Option.isSome_iff_exists] at hsome
    obtain ⟨nf, hfresh⟩ := hsome
    refine ⟨(name, nf), mem_addedEntries.mpr ⟨hfresh, ?_⟩, rfl⟩
    have hnf : kinds fresh name = some nf.kind := by rw [kinds, hfresh, Option.map_some]
    exact hnf ▸ hkind.symm

theorem nodup_removedNames : ((removedEntries old fresh).map Prod.fst).Nodup :=
  (nodup_inOrder old).sublist (List.filter_sublist.map _)

theorem keys_filterMap_sublist {κ α β : Type*} {f : κ × α → Option (κ × β)}
    (hf : ∀ e e', f e = some e' → e'.1 = e.1) (es : List (κ × α)) :
    ((es.filterMap f).map Prod.fst).Sublist (es.map Prod.fst) := by
  induction es with
  | nil => exact List.Sublist.refl _
  | cons e es ih =>
      cases he : f e with
      | none =>
          rw [List.filterMap_cons_none he, List.map_cons]
          exact ih.cons e.1
      | some e' =>
          rw [List.filterMap_cons_some he, List.map_cons, List.map_cons, hf e e' he]
          exact ih.cons_cons e.1

theorem nodup_addedNames : ((addedEntries old fresh).map Prod.fst).Nodup := by
  obtain ⟨changed, hchanged, hadded⟩ : ∃ changed : List (String × EntryFact),
      (changed.map Prod.fst).Sublist ((inOrder old).map Prod.fst) ∧
        addedEntries old fresh =
          changed ++ (inOrder fresh).filter fun e ↦ (old.lookup e.1).isNone := by
    refine ⟨_, keys_filterMap_sublist (fun e e' h ↦ ?_) (inOrder old), rfl⟩
    split at h
    · cases h
    · split at h
      · cases h
        rfl
      · cases h
  rw [hadded, List.map_append, List.nodup_append]
  refine ⟨(nodup_inOrder old).sublist hchanged,
    (nodup_inOrder fresh).sublist (List.filter_sublist.map _), ?_⟩
  rintro name hold _ hnew rfl
  obtain ⟨⟨_, of⟩, hof, rfl⟩ := List.mem_map.mp (hchanged.subset hold)
  obtain ⟨⟨_, nf⟩, hnf, rfl⟩ := List.mem_map.mp hnew
  have hnone := (List.mem_filter.mp hnf).2
  rw [mem_inOrder.mp hof] at hnone
  cases hnone

theorem free_addedSlots (entries : List (String × EntryFact)) :
    free (entries.map fun e ↦ ⟨e.1, e.2, false⟩) = entries := by
  induction entries with
  | nil => rfl
  | cons e entries ih =>
      rw [List.map_cons, free_cons, if_neg Bool.false_ne_true, ih]

theorem mem_renames_pairing {pair : String × String} :
    pair ∈ (pairing old fresh).renames ↔
      Paired (removedEntries old fresh) (addedEntries old fresh) pair := by
  rw [pairing, mem_renames_iff, free_addedSlots]

theorem mem_ofClass {c : ℕ × Kind} {entries : List (String × EntryFact)} :
    name ∈ ofClass c entries ↔ ∃ fact, (name, fact) ∈ entries ∧ fact.class = c := by
  simp [ofClass]

theorem kinds_paired {pair : String × String}
    (h : Paired (removedEntries old fresh) (addedEntries old fresh) pair) :
    kinds fresh pair.2 = kinds old pair.1 := by
  obtain ⟨c, -, hmem⟩ := h
  obtain ⟨hsource, htarget⟩ := List.of_mem_zip hmem
  obtain ⟨of, hof, hc⟩ := mem_ofClass.mp hsource
  obtain ⟨nf, hnf, hc'⟩ := mem_ofClass.mp htarget
  rw [kinds, kinds, (mem_removedEntries.mp hof).1, (mem_addedEntries.mp hnf).1, Option.map_some,
    Option.map_some, (class_eq_iff.mp (hc'.trans hc.symm)).2]

def script (old fresh : Listing) : Script (kinds old) (kinds fresh) where
  pairs := (pairing old fresh).renames
  added := (free (pairing old fresh).slots).map fun e ↦ (e.1, e.2.kind)
  removed := (pairing old fresh).removed.map Prod.fst
  lost name := by
    rw [← mem_removedNames]
    exact (perm_sources _ _).mem_iff
  lost_nodup := (perm_sources _ _).nodup_iff.mpr nodup_removedNames
  gained name := by
    have hperm := perm_targets (removedEntries old fresh)
      ((addedEntries old fresh).map fun e ↦ ⟨e.1, e.2, false⟩)
    rw [free_addedSlots] at hperm
    rw [← mem_addedNames, List.map_map]
    exact hperm.mem_iff
  gained_nodup := by
    have hperm := perm_targets (removedEntries old fresh)
      ((addedEntries old fresh).map fun e ↦ ⟨e.1, e.2, false⟩)
    rw [free_addedSlots] at hperm
    rw [List.map_map]
    exact hperm.nodup_iff.mpr nodup_addedNames
  same _ h := kinds_paired (mem_renames_pairing.mp h)
  value e he := by
    obtain ⟨⟨name, nf⟩, hmem, rfl⟩ := List.mem_map.mp he
    have hadded := (free_sublist _ _).subset hmem
    rw [free_addedSlots] at hadded
    rw [kinds, (mem_addedEntries.mp hadded).1, Option.map_some]

theorem filterMap_diff (old fresh : Listing) :
    (diff old fresh).filterMap Change.toEdit = (script old fresh).edits := by
  have hmodified : ∀ names : List String,
      (names.map Change.modified).filterMap Change.toEdit = [] := by
    intro names
    induction names with
    | nil => rfl
    | cons name names ih => exact ih
  rw [diff, List.filterMap_append, List.filterMap_append, List.filterMap_append, hmodified,
    List.append_nil, Script.edits, renames, adds, removes]
  simp only [List.filterMap_map, script, free, List.map_map]
  congr 1
  · congr 1
    · exact congrFun List.filterMap_eq_map _
    · exact congrFun List.filterMap_eq_map _
  · exact congrFun List.filterMap_eq_map _

def KindChangesMoved (old fresh : Listing) : Prop :=
  ∀ name, (kinds old name).isSome = true → (kinds fresh name).isSome = true →
    kinds fresh name ≠ kinds old name →
      (∃ target, Paired (removedEntries old fresh) (addedEntries old fresh) (name, target)) ∧
        ∀ source, Paired (removedEntries old fresh) (addedEntries old fresh) (source, name) →
          name < source

theorem pairwise_renames (old fresh : Listing) :
    (script old fresh).pairs.Pairwise fun p q ↦ p.1 < q.1 := by
  have hsorted : ((inOrder old).map Prod.fst).Pairwise (· ≤ ·) :=
    List.pairwise_map.mpr (List.pairwise_insertionSort _ _)
  have hnames := (hsorted.sublist (List.filter_sublist.map _)).sublist
    (sources_sublist (removedEntries old fresh)
      ((addedEntries old fresh).map fun e ↦ ⟨e.1, e.2, false⟩))
  have hnodup := (List.nodup_append.mp (script old fresh).lost_nodup).1
  exact List.pairwise_map.mp ((hnames.and hnodup).imp fun h ↦ lt_of_le_of_ne h.1 h.2)

theorem ne_of_lt (h : (script old fresh).Ordered) {p q : String × String}
    (hp : p ∈ (script old fresh).pairs) (hq : q ∈ (script old fresh).pairs) (hlt : p.1 < q.1) :
    p.2 ≠ q.1 := by
  have hboth : (script old fresh).pairs.Pairwise fun p q ↦
      (p.1 < q.1 → p.2 ≠ q.1) ∧ (q.1 < p.1 → q.2 ≠ p.1) :=
    ((pairwise_renames old fresh).and h.order).imp fun h ↦
      ⟨fun _ ↦ h.2, fun hgt ↦ absurd hgt (lt_asymm h.1)⟩
  have hsymm : Std.Symm fun p q : String × String ↦
      (p.1 < q.1 → p.2 ≠ q.1) ∧ (q.1 < p.1 → q.2 ≠ p.1) := ⟨fun _ _ h ↦ ⟨h.2, h.1⟩⟩
  have hne : p ≠ q := by
    rintro rfl
    exact lt_irrefl _ hlt
  exact (hboth.forall hp hq hne).1 hlt

theorem ordered_script_iff (old fresh : Listing) :
    (script old fresh).Ordered ↔ KindChangesMoved old fresh := by
  have hmem : ∀ {pair}, pair ∈ (script old fresh).pairs ↔
      Paired (removedEntries old fresh) (addedEntries old fresh) pair := mem_renames_pairing
  constructor
  · intro h name hold hfresh hne
    obtain ⟨⟨first, target⟩, htarget, heq⟩ := List.mem_map.mp (h.moved name hold hfresh hne)
    obtain rfl : first = name := heq
    refine ⟨⟨target, hmem.mp htarget⟩, fun source hsource ↦ ?_⟩
    rcases lt_trichotomy first source with hlt | heq | hgt
    · exact hlt
    · exact absurd heq.symm ((script old fresh).ne_of_mem_pairs (hmem.mpr hsource))
    · exact absurd rfl (ne_of_lt h (hmem.mpr hsource) htarget hgt)
  · intro h
    refine ⟨?_, ?_⟩
    · intro name hold hfresh hne
      obtain ⟨target, htarget⟩ := (h name hold hfresh hne).1
      exact List.mem_map_of_mem (f := Prod.fst) (hmem.mpr htarget)
    · refine (pairwise_renames old fresh).imp_of_mem ?_
      intro p q hp hq hlt heq
      have hlost := ((script old fresh).lost q.1).mp
        (List.mem_append_left _ (List.mem_map_of_mem hq))
      have hgained := ((script old fresh).gained q.1).mp
        (List.mem_append_left _ (heq ▸ List.mem_map_of_mem hp))
      have hafter := (h q.1 hlost.1 hgained.1 hlost.2).2 p.1 (by rw [← heq]; exact hmem.mp hp)
      exact absurd hafter (lt_asymm hlt)

theorem shows_diff_iff {entries : List Entry} (h : Shows entries old) :
    Shows (((diff old fresh).map changeToWire).foldl applyChange entries) fresh ↔
      KindChangesMoved old fresh := by
  obtain ⟨hnodup, hkinds⟩ := applyChanges_spec h.nodup (diff old fresh)
  rw [← ordered_script_iff, ← Script.applyEdits_eq_iff, ← filterMap_diff, ← h.kinds, ← hkinds]
  exact ⟨fun hshows ↦ hshows.kinds, fun heq ↦ ⟨hnodup, heq⟩⟩

theorem kinds_eq_of_diff_eq_nil (h : diff old fresh = []) : kinds fresh = kinds old := by
  have hnil : (script old fresh).edits = [] := by rw [← filterMap_diff, h, List.filterMap_nil]
  have hpairs : (script old fresh).pairs = [] ∧ (script old fresh).added = [] ∧
      (script old fresh).removed = [] := by
    simpa [Script.edits, renames, adds, removes, and_assoc] using hnil
  funext name
  by_contra hne
  cases hold : kinds old name with
  | some kind =>
      have hlost := ((script old fresh).lost name).mpr ⟨by rw [hold]; rfl, hne⟩
      rw [hpairs.1, hpairs.2.2] at hlost
      cases hlost
  | none =>
      have hsome : (kinds fresh name).isSome = true := by
        rw [Option.isSome_iff_ne_none, ← hold]
        exact hne
      have hgained := ((script old fresh).gained name).mpr ⟨hsome, hne⟩
      rw [hpairs.1, hpairs.2.1] at hgained
      cases hgained

end Script

end Zaowutai.Explorer
