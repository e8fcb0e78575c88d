import Mathlib.Data.List.Nodup
import Mathlib.Data.List.Pairwise
import Mathlib.Logic.Function.Basic

/-!
# Edit scripts

A partial map is changed by adding, removing and renaming keys.  A script that
renames first, then adds and removes last turns one map into another exactly
when each key that changes its value is renamed away, and no key is renamed
onto before it is renamed away.
-/

namespace Zaowutai.Lib

inductive Edit (α β : Type*)
  | add (key : α) (value : β)
  | remove (key : α)
  | rename (source target : α)

variable {α β : Type*} [DecidableEq α]

def Edit.apply (f : α → Option β) : Edit α β → α → Option β
  | .add key value => Function.update f key (some value)
  | .remove key => Function.update f key none
  | .rename source target =>
      if (f source).isSome then Function.update (Function.update f source none) target (f source)
      else f

def applyEdits (f : α → Option β) (edits : List (Edit α β)) : α → Option β :=
  edits.foldl Edit.apply f

def renames (pairs : List (α × α)) : List (Edit α β) := pairs.map fun p ↦ .rename p.1 p.2

def adds (entries : List (α × β)) : List (Edit α β) := entries.map fun e ↦ .add e.1 e.2

def removes (keys : List α) : List (Edit α β) := keys.map .remove

section Stages

variable {f : α → Option β} {k : α}

theorem applyEdits_append (f : α → Option β) (xs ys : List (Edit α β)) :
    applyEdits f (xs ++ ys) = applyEdits (applyEdits f xs) ys :=
  List.foldl_append

theorem applyEdits_removes (f : α → Option β) (keys : List α) (k : α) :
    applyEdits f (removes keys) k = if k ∈ keys then none else f k := by
  induction keys generalizing f with
  | nil => simp [applyEdits, removes]
  | cons key keys ih =>
      have hstep : applyEdits f (removes (key :: keys)) =
          applyEdits (Function.update f key none) (removes keys) := rfl
      rw [hstep, ih]
      by_cases hk : k = key
      · simp [hk]
      · simp [hk]

theorem applyEdits_adds_of_notMem (f : α → Option β) {entries : List (α × β)}
    (hk : k ∉ entries.map Prod.fst) : applyEdits f (adds entries) k = f k := by
  induction entries generalizing f with
  | nil => rfl
  | cons e entries ih =>
      rw [List.map_cons, List.mem_cons, not_or] at hk
      have hstep : applyEdits f (adds (e :: entries)) =
          applyEdits (Function.update f e.1 (some e.2)) (adds entries) := rfl
      rw [hstep, ih _ hk.2, Function.update_of_ne hk.1]

theorem applyEdits_adds_of_mem (f : α → Option β) {entries : List (α × β)} {v : β}
    (hnodup : (entries.map Prod.fst).Nodup) (hmem : (k, v) ∈ entries) :
    applyEdits f (adds entries) k = some v := by
  induction entries generalizing f with
  | nil => cases hmem
  | cons e entries ih =>
      rw [List.map_cons, List.nodup_cons] at hnodup
      have hstep : applyEdits f (adds (e :: entries)) =
          applyEdits (Function.update f e.1 (some e.2)) (adds entries) := rfl
      rw [hstep]
      rcases List.mem_cons.mp hmem with rfl | hmem
      · rw [applyEdits_adds_of_notMem _ hnodup.1, Function.update_self]
      · exact ih _ hnodup.2 hmem

theorem applyEdits_renames_cons (f : α → Option β) (p : α × α) (pairs : List (α × α)) :
    applyEdits f (renames (p :: pairs)) =
      applyEdits ((Edit.rename p.1 p.2).apply f) (renames pairs) := rfl

theorem rename_of_ne {p : α × α} (hsource : k ≠ p.1) (htarget : k ≠ p.2) :
    (Edit.rename p.1 p.2).apply f k = f k := by
  rw [Edit.apply]
  split
  · rw [Function.update_of_ne htarget, Function.update_of_ne hsource]
  · rfl

theorem rename_source {p : α × α} (hne : p.1 ≠ p.2) :
    (Edit.rename p.1 p.2).apply f p.1 = none := by
  rw [Edit.apply]
  split
  · rw [Function.update_of_ne hne, Function.update_self]
  · next hnone => exact Option.not_isSome_iff_eq_none.mp hnone

theorem rename_target {p : α × α} (hsource : (f p.1).isSome = true) :
    (Edit.rename p.1 p.2).apply f p.2 = f p.1 := by
  rw [Edit.apply, if_pos hsource, Function.update_self]

theorem applyEdits_renames_of_notMem (f : α → Option β) {pairs : List (α × α)}
    (hsource : k ∉ pairs.map Prod.fst) (htarget : k ∉ pairs.map Prod.snd) :
    applyEdits f (renames pairs) k = f k := by
  induction pairs generalizing f with
  | nil => rfl
  | cons p pairs ih =>
      rw [List.map_cons, List.mem_cons, not_or] at hsource htarget
      rw [applyEdits_renames_cons, ih _ hsource.2 htarget.2, rename_of_ne hsource.1 htarget.1]

theorem applyEdits_renames_absent {f : α → Option β} {pairs : List (α × α)} (hnone : f k = none)
    (htarget : k ∉ pairs.map Prod.snd) : applyEdits f (renames pairs) k = none := by
  induction pairs generalizing f with
  | nil => exact hnone
  | cons p pairs ih =>
      rw [List.map_cons, List.mem_cons, not_or] at htarget
      rw [applyEdits_renames_cons]
      refine ih ?_ htarget.2
      by_cases hsource : k = p.1
      · rw [hsource]
        exact rename_source fun heq ↦ htarget.1 (hsource.trans heq)
      · rw [rename_of_ne hsource htarget.1]
        exact hnone

theorem applyEdits_renames_away (f : α → Option β) {before after : List (α × α)} {target : α}
    (hne : k ≠ target) (hafter : k ∉ after.map Prod.snd) :
    applyEdits f (renames (before ++ (k, target) :: after)) k = none := by
  have hsplit : renames (β := β) (before ++ (k, target) :: after) =
      renames before ++ renames ((k, target) :: after) := List.map_append
  rw [hsplit, applyEdits_append, applyEdits_renames_cons]
  exact applyEdits_renames_absent (rename_source (p := (k, target)) hne) hafter

/-- What renames in a good order do: each target gets the value of its source, and the other
sources are gone. -/
theorem applyEdits_renames_of_pairwise {f : α → Option β} {pairs : List (α × α)}
    (hsources : (pairs.map Prod.fst).Nodup) (htargets : (pairs.map Prod.snd).Nodup)
    (hpresent : ∀ p ∈ pairs, (f p.1).isSome = true) (hne : ∀ p ∈ pairs, p.1 ≠ p.2)
    (horder : pairs.Pairwise fun p q ↦ p.2 ≠ q.1) :
    (∀ p ∈ pairs, applyEdits f (renames pairs) p.2 = f p.1) ∧
      ∀ k, k ∈ pairs.map Prod.fst → k ∉ pairs.map Prod.snd →
        applyEdits f (renames pairs) k = none := by
  induction pairs generalizing f with
  | nil => exact ⟨fun p hp ↦ (by cases hp), fun k hk ↦ (by cases hk)⟩
  | cons p pairs ih =>
      rw [List.map_cons, List.nodup_cons] at hsources htargets
      rw [List.pairwise_cons] at horder
      have hlater : p.2 ∉ pairs.map Prod.fst := by
        intro hmem
        obtain ⟨q, hq, heq⟩ := List.mem_map.mp hmem
        exact horder.1 q hq heq.symm
      -- the sources of the later renames are where they were
      have hsame : ∀ q ∈ pairs, (Edit.rename p.1 p.2).apply f q.1 = f q.1 := by
        intro q hq
        apply rename_of_ne
        · rintro heq
          exact hsources.1 (heq ▸ List.mem_map_of_mem hq)
        · exact (horder.1 q hq).symm
      obtain ⟨htarget, hgone⟩ := ih hsources.2 htargets.2
        (fun q hq ↦ (hsame q hq).symm ▸ hpresent q (List.mem_cons_of_mem _ hq))
        (fun q hq ↦ hne q (List.mem_cons_of_mem _ hq)) horder.2
      rw [applyEdits_renames_cons]
      constructor
      · intro q hq
        rcases List.mem_cons.mp hq with rfl | hq
        · rw [applyEdits_renames_of_notMem _ hlater htargets.1]
          exact rename_target (hpresent q List.mem_cons_self)
        · rw [htarget q hq, hsame q hq]
      · intro k hsource htarget'
        rw [List.map_cons, List.mem_cons, not_or] at htarget'
        rcases List.mem_cons.mp hsource with rfl | hsource
        · rw [applyEdits_renames_of_notMem _ hsources.1 htarget'.2]
          exact rename_source (hne p List.mem_cons_self)
        · exact hgone k hsource htarget'.2

end Stages

structure Script (old fresh : α → Option β) where
  pairs : List (α × α)
  added : List (α × β)
  removed : List α
  lost : ∀ k, k ∈ pairs.map Prod.fst ++ removed ↔ (old k).isSome = true ∧ fresh k ≠ old k
  lost_nodup : (pairs.map Prod.fst ++ removed).Nodup
  gained : ∀ k, k ∈ pairs.map Prod.snd ++ added.map Prod.fst ↔
    (fresh k).isSome = true ∧ fresh k ≠ old k
  gained_nodup : (pairs.map Prod.snd ++ added.map Prod.fst).Nodup
  same : ∀ p ∈ pairs, fresh p.2 = old p.1
  value : ∀ e ∈ added, fresh e.1 = some e.2

namespace Script

variable {old fresh : α → Option β} (s : Script old fresh)

def edits : List (Edit α β) := renames s.pairs ++ adds s.added ++ removes s.removed

/-- Each key that changes its value is renamed away, and not after it is renamed onto. -/
structure Ordered : Prop where
  moved : ∀ k, (old k).isSome = true → (fresh k).isSome = true → fresh k ≠ old k →
    k ∈ s.pairs.map Prod.fst
  order : s.pairs.Pairwise fun p q ↦ p.2 ≠ q.1

theorem applyEdits_edits (k : α) :
    applyEdits old s.edits k =
      if k ∈ s.removed then none
      else applyEdits (applyEdits old (renames s.pairs)) (adds s.added) k := by
  rw [edits, applyEdits_append, applyEdits_removes, applyEdits_append]

omit [DecidableEq α] in
theorem ne_of_mem_pairs {p : α × α} (hp : p ∈ s.pairs) : p.1 ≠ p.2 := by
  intro heq
  have hsource : p.1 ∈ s.pairs.map Prod.fst ++ s.removed :=
    List.mem_append_left _ (List.mem_map_of_mem hp)
  apply ((s.lost p.1).mp hsource).2
  rw [← s.same p hp, ← heq]

theorem applyEdits_of_ordered (h : s.Ordered) : applyEdits old s.edits = fresh := by
  have hgained := List.nodup_append.mp s.gained_nodup
  have hlost := List.nodup_append.mp s.lost_nodup
  obtain ⟨htarget, hgone⟩ := applyEdits_renames_of_pairwise hlost.1 hgained.1
    (fun p hp ↦ ((s.lost p.1).mp (List.mem_append_left _ (List.mem_map_of_mem hp))).1)
    (fun _ ↦ s.ne_of_mem_pairs) h.order
  funext k
  rw [s.applyEdits_edits]
  split
  · next hremoved =>
      obtain ⟨hold, hne⟩ := (s.lost k).mp (List.mem_append_right _ hremoved)
      by_contra hfresh
      have hmoved := h.moved k hold (Option.isSome_iff_ne_none.mpr (Ne.symm hfresh)) hne
      exact hlost.2.2 k hmoved k hremoved rfl
  · next hremoved =>
      by_cases hadded : k ∈ s.added.map Prod.fst
      · obtain ⟨e, he, rfl⟩ := List.mem_map.mp hadded
        rw [applyEdits_adds_of_mem _ hgained.2.1 he, s.value e he]
      rw [applyEdits_adds_of_notMem _ hadded]
      by_cases honto : k ∈ s.pairs.map Prod.snd
      · obtain ⟨p, hp, rfl⟩ := List.mem_map.mp honto
        rw [htarget p hp, s.same p hp]
      have hnew : ¬ ((fresh k).isSome = true ∧ fresh k ≠ old k) := by
        rw [← s.gained, List.mem_append]
        exact fun hmem ↦ hmem.elim honto hadded
      by_cases hsource : k ∈ s.pairs.map Prod.fst
      · rw [hgone k hsource honto]
        have hne := ((s.lost k).mp (List.mem_append_left _ hsource)).2
        have hnone : ¬ (fresh k).isSome = true := fun hsome ↦ hnew ⟨hsome, hne⟩
        exact (Option.not_isSome_iff_eq_none.mp hnone).symm
      · rw [applyEdits_renames_of_notMem _ hsource honto]
        have hkept : ¬ ((old k).isSome = true ∧ fresh k ≠ old k) := by
          rw [← s.lost, List.mem_append]
          exact fun hmem ↦ hmem.elim hsource hremoved
        by_contra hne
        cases hold : old k with
        | none =>
            refine hnew ⟨?_, Ne.symm hne⟩
            rw [hold] at hne
            exact Option.isSome_iff_ne_none.mpr (Ne.symm hne)
        | some v => exact hkept ⟨by rw [hold]; rfl, Ne.symm hne⟩

theorem moved_of_applyEdits (h : applyEdits old s.edits = fresh) {k : α}
    (hold : (old k).isSome = true) (hfresh : (fresh k).isSome = true) (hne : fresh k ≠ old k) :
    k ∈ s.pairs.map Prod.fst := by
  rcases List.mem_append.mp ((s.lost k).mpr ⟨hold, hne⟩) with hsource | hremoved
  · exact hsource
  · have hnone := congrFun h k
    rw [s.applyEdits_edits, if_pos hremoved] at hnone
    rw [← hnone] at hfresh
    cases hfresh

theorem order_of_applyEdits (h : applyEdits old s.edits = fresh) :
    s.pairs.Pairwise fun p q ↦ p.2 ≠ q.1 := by
  rw [List.pairwise_iff_forall_sublist]
  intro p q hsub heq
  have hgained := List.nodup_append.mp s.gained_nodup
  -- the target of `p` is not a target again, nor added
  have honto : p.2 ∈ s.pairs.map Prod.snd :=
    List.mem_map_of_mem (hsub.subset List.mem_cons_self)
  obtain ⟨before, after, hpairs, hlater⟩ : ∃ before after,
      s.pairs = before ++ q :: after ∧ p ∈ before := by
    obtain ⟨l₁, l₂, hl, hp, hq⟩ := List.cons_sublist_iff.mp hsub
    obtain ⟨c, d, rfl⟩ := List.append_of_mem (List.singleton_sublist.mp hq)
    exact ⟨l₁ ++ c, d, by rw [hl, List.append_assoc], List.mem_append_left _ hp⟩
  have hunique : p.2 ∉ (q :: after).map Prod.snd := by
    intro hmem
    have hnodup := hgained.1
    rw [hpairs, List.map_append, List.nodup_append] at hnodup
    exact hnodup.2.2 p.2 (List.mem_map_of_mem hlater) p.2 hmem rfl
  rw [List.map_cons, List.mem_cons, not_or] at hunique
  have hsome := ((s.gained p.2).mp (List.mem_append_left _ honto)).1
  have hnone : applyEdits old (renames s.pairs) p.2 = none := by
    rw [hpairs, heq]
    exact applyEdits_renames_away old (fun h ↦ hunique.1 (heq.trans h))
      fun hmem ↦ hunique.2 (heq ▸ hmem)
  have hfinal := congrFun h p.2
  rw [s.applyEdits_edits, applyEdits_adds_of_notMem, hnone, ite_self] at hfinal
  · rw [← hfinal] at hsome
    cases hsome
  · exact fun hadded ↦ hgained.2.2 p.2 honto p.2 hadded rfl

theorem applyEdits_eq_iff : applyEdits old s.edits = fresh ↔ s.Ordered :=
  ⟨fun h ↦ ⟨fun _ ↦ s.moved_of_applyEdits h, s.order_of_applyEdits h⟩, s.applyEdits_of_ordered⟩

end Script

end Zaowutai.Lib
