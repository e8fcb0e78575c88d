import Mathlib.Data.List.Nodup
import Mathlib.Data.String.Basic
import Zaowutai.Explorer.TreeModel
import Zaowutai.Lib.Edits

/-!
# The client's listings

The client mirrors one level of each directory it subscribes to.  A snapshot
replaces the listing, and a delta edits it in the order of its changes.
-/

namespace Zaowutai.Explorer

open Zaowutai.Lib

structure Entry where
  name : String
  kind : Kind
  symlinkTarget : Option String
  excluded : Option Bool
  deriving DecidableEq, Repr

inductive WireChange
  | added (name : String) (kind : Kind) (excluded : Option Bool)
  | removed (name : String)
  | renamed (source target : String)
  | modified (name : String)
  /-- An operation that this build of the client does not know. -/
  | other (op : String)
  deriving DecidableEq, Repr

def Entry.fromFact (name : String) (fact : EntryFact) : Entry :=
  ⟨name, fact.kind, fact.symlinkTarget, none⟩

def wireEntries (snapshot : Snapshot) : List Entry :=
  snapshot.entries.map fun e ↦ .fromFact e.1 e.2

def changeToWire : Change → WireChange
  | .added name kind => .added name kind none
  | .removed name => .removed name
  | .renamed source target => .renamed source target
  | .modified name => .modified name

/-- The listings of the subscribed directories. -/
abbrev FactCache (κ : Type*) := Table κ (List Entry)

/-- One round of the loop of `applyDelta`. -/
def applyChange (entries : List Entry) : WireChange → List Entry
  | .added name kind excluded =>
      let entry := ⟨name, kind, none, if excluded = some true then some true else none⟩
      entries.filter (fun e ↦ e.name ≠ name) ++ [entry]
  | .removed name => entries.filter fun e ↦ e.name ≠ name
  | .renamed source target =>
      if entries.any fun e ↦ e.name = source then
        (entries.filter fun e ↦ e.name ≠ target || e.name = source).map fun e ↦
          if e.name = source then { e with name := target } else e
      else entries
  | .modified _ | .other _ => entries

namespace FactCache

variable {κ : Type*} [DecidableEq κ] (cache : FactCache κ) (key : κ)

def applySnapshot (entries : List Entry) : FactCache κ := cache.insert key entries

def applyDelta (changes : List WireChange) : FactCache κ :=
  match cache.lookup key with
  | none => cache
  | some existing => cache.insert key (changes.foldl applyChange existing)

end FactCache

def kinds (m : Listing) (name : String) : Option Kind := (m.lookup name).map EntryFact.kind

def kindOf (entries : List Entry) (name : String) : Option Kind :=
  (entries.find? fun e ↦ e.name = name).map Entry.kind

structure Shows (entries : List Entry) (m : Listing) : Prop where
  nodup : (entries.map Entry.name).Nodup
  kinds : kindOf entries = kinds m

def Change.toEdit : Change → Option (Edit String Kind)
  | .added name kind => some (.add name kind)
  | .removed name => some (.remove name)
  | .renamed source target => some (.rename source target)
  | .modified _ => none

section Edits

variable {entries : List Entry} {name : String} {kind : Kind}

theorem kindOf_eq_some_iff (h : (entries.map Entry.name).Nodup) :
    kindOf entries name = some kind ↔ ∃ e ∈ entries, e.name = name ∧ e.kind = kind := by
  rw [kindOf, Option.map_eq_some_iff]
  constructor
  · rintro ⟨e, he, rfl⟩
    have hname := List.find?_some he
    exact ⟨e, List.mem_of_find?_eq_some he, of_decide_eq_true hname, rfl⟩
  · rintro ⟨e, he, rfl, rfl⟩
    have hfound : (entries.find? fun e' ↦ e'.name = e.name).isSome = true :=
      List.find?_isSome.mpr ⟨e, he, by simp⟩
    obtain ⟨e', he'⟩ := Option.isSome_iff_exists.mp hfound
    have hname := List.find?_some he'
    have heq := List.inj_on_of_nodup_map h (List.mem_of_find?_eq_some he') he
      (of_decide_eq_true hname)
    exact ⟨e', he', by rw [heq]⟩

theorem any_name_iff : (entries.any fun e ↦ e.name = name) = (kindOf entries name).isSome := by
  rw [kindOf, Option.isSome_map, Bool.eq_iff_iff, List.find?_isSome, List.any_eq_true]

theorem nodup_applyChange (h : (entries.map Entry.name).Nodup) (change : WireChange) :
    ((applyChange entries change).map Entry.name).Nodup := by
  have hfilter : ∀ p : Entry → Bool, ((entries.filter p).map Entry.name).Nodup :=
    fun p ↦ h.sublist (List.filter_sublist.map _)
  cases change with
  | added name kind excluded =>
      rw [applyChange, List.map_append, List.nodup_append]
      refine ⟨hfilter _, List.nodup_singleton _, ?_⟩
      rintro a ha b hb rfl
      obtain ⟨e, he, rfl⟩ := List.mem_map.mp ha
      obtain rfl := List.mem_singleton.mp hb
      exact of_decide_eq_true (List.mem_filter.mp he).2 rfl
  | removed name => exact hfilter _
  | renamed source target =>
      rw [applyChange]
      split
      · rw [List.map_map]
        refine (List.Nodup.of_map _ (hfilter _)).map_on ?_
        intro a ha b hb heq
        rw [List.mem_filter, Bool.or_eq_true, decide_eq_true_iff, decide_eq_true_iff] at ha hb
        have hinj := List.inj_on_of_nodup_map h ha.1 hb.1
        simp only [Function.comp_apply] at heq
        split at heq <;> split at heq
        · next hsource hsource' => exact hinj (hsource.trans hsource'.symm)
        · next hsource => exact absurd heq.symm (hb.2.resolve_right hsource)
        · next hsource _ => exact absurd heq (ha.2.resolve_right hsource)
        · exact hinj heq
      · exact h
  | modified name => exact h
  | other op => exact h

theorem kindOf_applyChange (h : (entries.map Entry.name).Nodup) (change : Change) :
    kindOf (applyChange entries (changeToWire change)) =
      applyEdits (kindOf entries) change.toEdit.toList := by
  funext n
  have hnodup := nodup_applyChange h (changeToWire change)
  ext k
  rw [kindOf_eq_some_iff hnodup]
  cases change with
  | added name kind =>
      have hedit : applyEdits (kindOf entries) (Change.added name kind).toEdit.toList =
        Function.update (kindOf entries) name (some kind) := rfl
      rw [hedit, Function.update_apply]
      simp only [changeToWire, applyChange, List.mem_append, List.mem_filter, List.mem_singleton,
        decide_eq_true_eq]
      by_cases hn : n = name
      · subst hn
        simp only [if_true, Option.some.injEq]
        constructor
        · rintro ⟨e, ⟨-, hne⟩ | rfl, hname, hkind⟩
          · exact absurd hname hne
          · exact hkind
        · rintro rfl
          exact ⟨_, .inr rfl, rfl, rfl⟩
      · rw [if_neg hn, kindOf_eq_some_iff h]
        constructor
        · rintro ⟨e, ⟨he, -⟩ | rfl, hname, hkind⟩
          · exact ⟨e, he, hname, hkind⟩
          · exact absurd hname.symm hn
        · rintro ⟨e, he, rfl, rfl⟩
          exact ⟨e, .inl ⟨he, hn⟩, rfl, rfl⟩
  | removed name =>
      have hedit : applyEdits (kindOf entries) (Change.removed name).toEdit.toList =
        Function.update (kindOf entries) name none := rfl
      rw [hedit, Function.update_apply]
      simp only [changeToWire, applyChange, List.mem_filter, decide_eq_true_eq]
      by_cases hn : n = name
      · subst hn
        simp only [if_true, reduceCtorEq, iff_false]
        rintro ⟨e, ⟨-, hne⟩, rfl, -⟩
        exact hne rfl
      · rw [if_neg hn, kindOf_eq_some_iff h]
        constructor
        · rintro ⟨e, ⟨he, -⟩, rfl, rfl⟩
          exact ⟨e, he, rfl, rfl⟩
        · rintro ⟨e, he, rfl, rfl⟩
          exact ⟨e, ⟨he, hn⟩, rfl, rfl⟩
  | renamed source target =>
      have hedit : applyEdits (kindOf entries) (Change.renamed source target).toEdit.toList =
        (Edit.rename source target).apply (kindOf entries) := rfl
      rw [hedit, Edit.apply]
      simp only [changeToWire, applyChange, any_name_iff]
      split
      · rw [Function.update_apply, Function.update_apply]
        simp only [List.mem_map, List.mem_filter, Bool.or_eq_true, decide_eq_true_eq]
        by_cases htarget : n = target
        · rw [if_pos htarget, kindOf_eq_some_iff h]
          constructor
          · rintro ⟨e, ⟨e', ⟨he', hkept⟩, rfl⟩, hname, hkind⟩
            split at hname
            · next hsource =>
                rw [if_pos hsource] at hkind
                exact ⟨e', he', hsource, hkind⟩
            · next hsource =>
                exact absurd (hname.trans htarget) (hkept.resolve_right hsource)
          · rintro ⟨e, he, hsource, hkind⟩
            refine ⟨{ e with name := target }, ⟨e, ⟨he, .inr hsource⟩, if_pos hsource⟩, ?_, hkind⟩
            exact htarget.symm
        · rw [if_neg htarget]
          by_cases hn : n = source
          · rw [if_pos hn]
            simp only [reduceCtorEq, iff_false]
            rintro ⟨e, ⟨e', ⟨he', hkept⟩, rfl⟩, hname, hkind⟩
            split at hname
            · exact htarget hname.symm
            · next hsource => exact hsource (hname.trans hn)
          · rw [if_neg hn, kindOf_eq_some_iff h]
            constructor
            · rintro ⟨e, ⟨e', ⟨he', hkept⟩, rfl⟩, hname, hkind⟩
              split at hname
              · exact absurd hname.symm htarget
              · next hsource =>
                  rw [if_neg hsource] at hkind
                  exact ⟨e', he', hname, hkind⟩
            · rintro ⟨e, he, hname, hkind⟩
              have hsource : e.name ≠ source := fun heq ↦ hn (hname.symm.trans heq)
              have hkept : e.name ≠ target := fun heq ↦ htarget (hname.symm.trans heq)
              exact ⟨e, ⟨e, ⟨he, .inl hkept⟩, if_neg hsource⟩, hname, hkind⟩
      · exact (kindOf_eq_some_iff h).symm
  | modified name => exact (kindOf_eq_some_iff h).symm

theorem applyChanges_spec (h : (entries.map Entry.name).Nodup) (changes : List Change) :
    (((changes.map changeToWire).foldl applyChange entries).map Entry.name).Nodup ∧
      kindOf ((changes.map changeToWire).foldl applyChange entries) =
        applyEdits (kindOf entries) (changes.filterMap Change.toEdit) := by
  induction changes generalizing entries with
  | nil => exact ⟨h, rfl⟩
  | cons change changes ih =>
      obtain ⟨hnodup, hkinds⟩ := ih (nodup_applyChange h (changeToWire change))
      refine ⟨hnodup, ?_⟩
      rw [List.map_cons, List.foldl_cons, hkinds, kindOf_applyChange h, ← applyEdits_append]
      cases hedit : change.toEdit with
      | none => rw [List.filterMap_cons_none hedit, Option.toList_none, List.nil_append]
      | some edit =>
          rw [List.filterMap_cons_some hedit, Option.toList_some, List.singleton_append]

end Edits

section Snapshots

variable {m : Listing} {name : String} {fact : EntryFact}

theorem mem_inOrder : (name, fact) ∈ inOrder m ↔ m.lookup name = some fact := by
  rw [inOrder, List.mem_insertionSort, ← Table.mem_entries_iff]
  constructor
  · intro h
    obtain ⟨⟨name', fact'⟩, hmem, heq⟩ := List.mem_map.mp h
    cases heq
    exact hmem
  · exact fun h ↦ List.mem_map.mpr ⟨⟨name, fact⟩, h, rfl⟩

theorem nodup_inOrder (m : Listing) : ((inOrder m).map Prod.fst).Nodup := by
  have hperm : ((inOrder m).map Prod.fst).Perm m.keys := by
    refine ((List.perm_insertionSort _ _).map _).trans ?_
    rw [List.map_map]
    exact List.Perm.refl _
  exact hperm.nodup_iff.mpr m.nodupKeys

theorem shows_wireEntries (canonical : String) (m : Listing) :
    Shows (wireEntries ⟨canonical, inOrder m⟩) m := by
  have hnodup : ((wireEntries ⟨canonical, inOrder m⟩).map Entry.name).Nodup := by
    rw [wireEntries, List.map_map]
    exact nodup_inOrder m
  refine ⟨hnodup, ?_⟩
  funext name
  ext kind
  rw [kindOf_eq_some_iff hnodup, kinds, Option.map_eq_some_iff]
  constructor
  · rintro ⟨e, he, rfl, rfl⟩
    obtain ⟨⟨name, fact⟩, hmem, rfl⟩ := List.mem_map.mp he
    exact ⟨fact, mem_inOrder.mp hmem, rfl⟩
  · rintro ⟨fact, hfact, rfl⟩
    exact ⟨_, List.mem_map_of_mem (mem_inOrder.mpr hfact), rfl, rfl⟩

end Snapshots

end Zaowutai.Explorer
