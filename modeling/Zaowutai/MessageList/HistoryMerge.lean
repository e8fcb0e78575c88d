import Zaowutai.MessageList.History
import Zaowutai.MessageList.OneCard

/-!
# One message for each entry

Messages with one id or one own identity are the same entry.  A merged list has
each entry once exactly where a message that shares its id or merge key with the
other list is the same entry as one that is kept.
-/

namespace Zaowutai.MessageList

open Zaowutai.Lib

variable {a b m : TMessage} {l page current : List TMessage} {k : String}

def ownIdentity (message : TMessage) : Option String :=
  match message.content with
  | .text _ => truthy message.msgId
  | _ => identity message

def SameEntry (a b : TMessage) : Prop :=
  a.id = b.id ∨ a.type = b.type ∧ (ownIdentity a).isSome ∧ ownIdentity a = ownIdentity b

instance : DecidableRel SameEntry := fun a b ↦
  inferInstanceAs (Decidable
    (a.id = b.id ∨ a.type = b.type ∧ (ownIdentity a).isSome ∧ ownIdentity a = ownIdentity b))

def Coherent (l : List TMessage) : Prop :=
  ∀ a ∈ l, ∀ b ∈ l, a.id = b.id → a.type = b.type ∧ ownIdentity a = ownIdentity b

def Distinct (l : List TMessage) : Prop :=
  l.Pairwise fun a b ↦ SameEntry a b → (supersedesKeyOf a).isSome

inductive EntryKey where
  | own (type : MessageType) (identity : String)
  | id (id : String)
  deriving DecidableEq, Repr

def entryKey (message : TMessage) : EntryKey :=
  match ownIdentity message with
  | some k => .own message.type k
  | none => .id message.id

section Entries

theorem entryKey_eq_iff : entryKey a = entryKey b ↔
    (a.type = b.type ∧ (ownIdentity a).isSome ∧ ownIdentity a = ownIdentity b) ∨
      ownIdentity a = none ∧ ownIdentity b = none ∧ a.id = b.id := by
  rw [entryKey, entryKey]
  cases ha : ownIdentity a <;> cases hb : ownIdentity b <;> simp

theorem sameEntry_iff (h : Coherent l) (ha : a ∈ l) (hb : b ∈ l) :
    SameEntry a b ↔ entryKey a = entryKey b := by
  rw [entryKey_eq_iff, SameEntry]
  constructor
  · rintro (hid | hown)
    · obtain ⟨htype, hidentity⟩ := h a ha b hb hid
      cases hown : ownIdentity a with
      | none => exact Or.inr ⟨rfl, hown ▸ hidentity.symm, hid⟩
      | some k => exact Or.inl ⟨htype, rfl, hown ▸ hidentity⟩
    · exact Or.inl hown
  · rintro (hown | ⟨-, -, hid⟩)
    · exact Or.inr hown
    · exact Or.inl hid

theorem supersedesKeyOf_eq_some_iff :
    supersedesKeyOf m = some k ↔ m.type = .tips ∧ ownIdentity m = some k := by
  rw [supersedesKeyOf, ownIdentity, TMessage.type]
  cases hcontent : m.content <;> simp [identity, hcontent, Content.type]

theorem entriesOf_supersedesKeyOf : EntriesOf supersedesKeyOf entryKey := by
  constructor
  · intro a b h
    apply Option.ext
    intro k
    rw [supersedesKeyOf_eq_some_iff, supersedesKeyOf_eq_some_iff]
    obtain ⟨htype, -, hown⟩ | ⟨ha, hb, -⟩ := entryKey_eq_iff.mp h
    · rw [htype, hown]
    · simp [ha, hb]
  · intro a b k ha hb
    rw [supersedesKeyOf_eq_some_iff] at ha hb
    rw [entryKey, entryKey, ha.2, hb.2, ha.1, hb.1]

theorem SameEntry.swap (h : Coherent l) (ha : a ∈ l) (hb : b ∈ l) (hab : SameEntry a b) :
    SameEntry b a ∧ supersedesKeyOf a = supersedesKeyOf b := by
  have hkey := (sameEntry_iff h ha hb).mp hab
  exact ⟨(sameEntry_iff h hb ha).mpr hkey.symm, entriesOf_supersedesKeyOf.run_eq a b hkey⟩

theorem Distinct.outside (hcoherent : Coherent l) (h : Distinct l) :
    OutsideDistinct supersedesKeyOf entryKey l := by
  refine List.Pairwise.imp_of_mem ?_ h
  intro a b ha hb hab heq
  exact hab ((sameEntry_iff hcoherent ha hb).mpr heq)

end Entries

section Fold

def refresh (messages : List TMessage) (message : TMessage) : TMessage :=
  match supersedesKeyOf message with
  | none => message
  | some key => withLatest messages key message

theorem latestByKey_eq_some {latest : TMessage} (h : latestByKey l k = some latest) :
    latest ∈ l ∧ supersedesKeyOf latest = some k := by
  rw [latestByKey] at h
  exact ⟨List.mem_reverse.mp (List.mem_of_find?_eq_some h), by simpa using List.find?_some h⟩

theorem latestByKey_isSome (hm : m ∈ l) (hk : supersedesKeyOf m = some k) :
    ∃ latest, latestByKey l k = some latest := by
  rw [← Option.isSome_iff_exists, latestByKey, List.find?_isSome]
  exact ⟨m, List.mem_reverse.mpr hm, decide_eq_true hk⟩

theorem foldTips_eq {messages : List TMessage} {seen : List String} :
    foldTips messages seen l = (foldRuns supersedesKeyOf seen l).map (refresh messages) := by
  induction l generalizing seen with
  | nil => rfl
  | cons m l ih =>
      rw [foldTips, foldRuns]
      cases hk : supersedesKeyOf m with
      | none => simp only [List.map_cons, ih, refresh, hk]
      | some key =>
          by_cases hseen : key ∈ seen
          · simp only [if_pos hseen, ih]
          · simp only [if_neg hseen, List.map_cons, ih, refresh, hk]

theorem refresh_id (h : supersedesKeyOf m = none) : refresh l m = m := by
  rw [refresh, h]

theorem supersedesKeyOf_withContent (h : supersedesKeyOf a = supersedesKeyOf b)
    (hsome : (supersedesKeyOf b).isSome) :
    entryKey { b with content := a.content } = entryKey b := by
  obtain ⟨k, hb⟩ := Option.isSome_iff_exists.mp hsome
  have ha := h.trans hb
  have hrun : supersedesKeyOf { b with content := a.content } = some k := by
    rw [← ha, supersedesKeyOf, supersedesKeyOf]
  exact entriesOf_supersedesKeyOf.entry_eq _ _ k hrun hb

theorem entryKey_refresh : entryKey (refresh l m) = entryKey m := by
  rw [refresh]
  split
  · rfl
  · next k hk =>
      rw [withLatest]
      split
      · rfl
      · next latest hlatest =>
          have hkey := (latestByKey_eq_some hlatest).2
          exact supersedesKeyOf_withContent (hkey.trans hk.symm) (by rw [hk]; rfl)

theorem refresh_eq_self (hruns : foldRuns supersedesKeyOf [] l = l) (hm : m ∈ l) :
    refresh l m = m := by
  rw [refresh]
  cases hk : supersedesKeyOf m with
  | none => rfl
  | some key =>
      obtain ⟨latest, hlatest⟩ := latestByKey_isSome hm hk
      obtain ⟨hmem, hkey⟩ := latestByKey_eq_some hlatest
      have hpairwise : l.Pairwise fun a b ↦
          (supersedesKeyOf a).isSome → supersedesKeyOf a ≠ supersedesKeyOf b := by
        rw [← hruns]
        exact pairwise_foldRuns
      have hsame : latest = m := by
        by_contra hne
        have hsymm : Std.Symm fun a b ↦
            (supersedesKeyOf a).isSome → supersedesKeyOf a ≠ supersedesKeyOf b := by
          constructor
          intro a b hab hb heq
          exact hab (heq ▸ hb) heq.symm
        exact hpairwise.forall hmem hm hne (by rw [hkey]; rfl) (hkey.trans hk.symm)
      simp only [withLatest, hlatest, hsame]

theorem foldSupersededTips_eq :
    foldSupersededTips l = (foldRuns supersedesKeyOf [] l).map (refresh l) := by
  have hwhole : foldRuns supersedesKeyOf [] l = l →
      l = (foldRuns supersedesKeyOf [] l).map (refresh l) := by
    intro hruns
    rw [hruns]
    exact (List.map_id l).symm.trans (List.map_congr_left fun m hm ↦
      (refresh_eq_self hruns hm).symm)
  rw [foldSupersededTips, foldTips_eq]
  split
  · next hnone =>
      apply hwhole
      have hfilter : (l.filter fun m ↦ (supersedesKeyOf m).isNone) = l :=
        List.filter_eq_self.mpr (List.all_eq_true.mp hnone)
      have hkept : ((foldRuns supersedesKeyOf [] l).filter fun m ↦ (supersedesKeyOf m).isNone) = l :=
        filter_foldRuns.trans hfilter
      refine foldRuns_sublist.antisymm ?_
      conv_lhs => rw [← hkept]
      exact List.filter_sublist
  · simp only
    split
    · next hlength =>
        rw [List.length_map] at hlength
        exact hwhole (foldRuns_sublist.eq_of_length hlength)
    · rfl

theorem entries_fold (h : OutsideDistinct supersedesKeyOf entryKey l) :
    (foldSupersededTips l).map entryKey = (l.map entryKey).eraseDups := by
  rw [foldSupersededTips_eq, List.map_map, ← entries_foldRuns entriesOf_supersedesKeyOf h]
  exact List.map_congr_left fun m _ ↦ entryKey_refresh

theorem outsideDistinct_of_fold (h : ((foldSupersededTips l).map entryKey).Nodup) :
    OutsideDistinct supersedesKeyOf entryKey l := by
  rw [foldSupersededTips_eq, List.map_map] at h
  have hkeys : (foldRuns supersedesKeyOf [] l).map (entryKey ∘ refresh l) =
      (foldRuns supersedesKeyOf [] l).map entryKey :=
    List.map_congr_left fun m _ ↦ entryKey_refresh
  rw [hkeys] at h
  exact outsideDistinct_of_nodup entriesOf_supersedesKeyOf h

end Fold

section Merged

structure Merged (page current result : List TMessage) : Prop where
  once : ∀ x ∈ page ++ current, (result.filter fun r ↦ SameEntry r x).length = 1
  page_order : (result.map entryKey).filter (· ∈ page.map entryKey) =
    (page.map entryKey).eraseDups
  rest_order : (result.map entryKey).filter (· ∉ page.map entryKey) =
    ((current.map entryKey).filter (· ∉ page.map entryKey)).eraseDups
  stands : ∀ r ∈ result, ∃ x ∈ page ++ current, entryKey r = entryKey x ∧
    (r = x ∨ (supersedesKeyOf x).isSome ∧ r = { x with content := r.content })
  newest : ∀ r ∈ result, ∀ k ∈ supersedesKeyOf r,
    some r.content = (latestByKey (page ++ current) k).map (·.content)

theorem nodup_of_filters {l : List EntryKey} {p : EntryKey → Bool}
    (h : (l.filter p).Nodup) (h' : (l.filter fun e ↦ !p e).Nodup) : l.Nodup := by
  refine (List.filter_append_perm p l).nodup_iff.mp (List.nodup_append.mpr ⟨h, h', ?_⟩)
  rintro a ha b hb rfl
  have hp := (List.mem_filter.mp ha).2
  have hn := (List.mem_filter.mp hb).2
  rw [hp] at hn
  cases hn

theorem refresh_same (l : List TMessage) (m : TMessage) : (refresh l m).id = m.id ∧
    (refresh l m).type = m.type ∧ ownIdentity (refresh l m) = ownIdentity m := by
  cases hk : supersedesKeyOf m with
  | none =>
      rw [refresh_id hk]
      exact ⟨rfl, rfl, rfl⟩
  | some k =>
      have hrun : supersedesKeyOf (refresh l m) = some k :=
        (entriesOf_supersedesKeyOf.run_eq _ _ entryKey_refresh).trans hk
      obtain ⟨htype, hown⟩ := supersedesKeyOf_eq_some_iff.mp hk
      obtain ⟨htype', hown'⟩ := supersedesKeyOf_eq_some_iff.mp hrun
      refine ⟨?_, htype'.trans htype.symm, hown'.trans hown.symm⟩
      simp only [refresh, hk, withLatest]
      split <;> rfl

theorem sameEntry_refresh_iff : SameEntry (refresh l a) b ↔ SameEntry a b := by
  obtain ⟨hid, htype, hown⟩ := refresh_same l a
  rw [SameEntry, SameEntry, hid, htype, hown]

theorem mem_fold (h : m ∈ foldSupersededTips l) : ∃ x ∈ l, m = refresh l x := by
  rw [foldSupersededTips_eq] at h
  obtain ⟨x, hx, rfl⟩ := List.mem_map.mp h
  exact ⟨x, foldRuns_sublist.subset hx, rfl⟩

theorem content_of_mem_fold (h : m ∈ foldSupersededTips l) (hk : supersedesKeyOf m = some k) :
    some m.content = (latestByKey l k).map (·.content) := by
  obtain ⟨x, hx, rfl⟩ := mem_fold h
  have hrun : supersedesKeyOf x = some k :=
    (entriesOf_supersedesKeyOf.run_eq _ _ entryKey_refresh).symm.trans hk
  obtain ⟨latest, hlatest⟩ := latestByKey_isSome hx hrun
  simp only [refresh, hrun, withLatest, hlatest, Option.map_some]

section Orders

variable {P C L R : List EntryKey}

theorem mem_of_orders (hpage : R.filter (· ∈ P) = P.eraseDups)
    (hrest : R.filter (· ∉ P) = (C.filter (· ∉ P)).eraseDups) {e : EntryKey} (he : e ∈ P ++ C) :
    e ∈ R := by
  by_cases hP : e ∈ P
  · have hmem : e ∈ R.filter (· ∈ P) := by rwa [hpage, List.mem_eraseDups]
    exact List.mem_of_mem_filter hmem
  · have hC : e ∈ C := (List.mem_append.mp he).resolve_left hP
    have hmem : e ∈ R.filter (· ∉ P) := by
      rw [hrest, List.mem_eraseDups]
      exact List.mem_filter.mpr ⟨hC, decide_eq_true hP⟩
    exact List.mem_of_mem_filter hmem

theorem nodup_of_orders (hpage : R.filter (· ∈ P) = P.eraseDups)
    (hrest : R.filter (· ∉ P) = (C.filter (· ∉ P)).eraseDups) : R.Nodup := by
  refine nodup_of_filters (hpage ▸ nodup_eraseDups P) ?_
  have hnot : (R.filter fun e ↦ !decide (e ∈ P)) = R.filter (· ∉ P) :=
    List.filter_congr fun e _ ↦ by simp
  rw [hnot, hrest]
  exact nodup_eraseDups _

end Orders

theorem merged_fold_iff (hcoherent : Coherent (page ++ current))
    (hl : ∀ m ∈ l, m ∈ page ++ current) :
    Merged page current (foldSupersededTips l) ↔
      OutsideDistinct supersedesKeyOf entryKey l ∧
      ((l.map entryKey).filter (· ∈ page.map entryKey)).eraseDups =
        (page.map entryKey).eraseDups ∧
      ((l.map entryKey).filter (· ∉ page.map entryKey)).eraseDups =
        ((current.map entryKey).filter (· ∉ page.map entryKey)).eraseDups ∧
      ∀ k, (latestByKey l k).map (·.content) =
        (latestByKey (page ++ current) k).map (·.content) := by
  constructor
  · intro h
    have hnodup := nodup_of_orders h.page_order h.rest_order
    have hdistinct := outsideDistinct_of_fold hnodup
    have hpage := h.page_order
    have hrest := h.rest_order
    rw [entries_fold hdistinct, ← eraseDups_filter] at hpage hrest
    refine ⟨hdistinct, hpage, hrest, fun k ↦ ?_⟩
    cases hlatest : latestByKey (page ++ current) k with
    | none =>
        cases hkept : latestByKey l k with
        | none => rfl
        | some latest =>
            obtain ⟨hmem, hkey⟩ := latestByKey_eq_some hkept
            obtain ⟨other, hother⟩ := latestByKey_isSome (hl latest hmem) hkey
            rw [hlatest] at hother
            cases hother
    | some latest =>
        obtain ⟨hmem, hkey⟩ := latestByKey_eq_some hlatest
        have he : entryKey latest ∈ (foldSupersededTips l).map entryKey := by
          refine mem_of_orders h.page_order h.rest_order ?_
          rw [← List.map_append]
          exact List.mem_map_of_mem hmem
        obtain ⟨r, hr, hsame⟩ := List.mem_map.mp he
        have hrun := (entriesOf_supersedesKeyOf.run_eq _ _ hsame).trans hkey
        rw [← content_of_mem_fold hr hrun, h.newest r hr k hrun, hlatest]
  · rintro ⟨hdistinct, hpage, hrest, hnewest⟩
    have hpage' : ((foldSupersededTips l).map entryKey).filter (· ∈ page.map entryKey) =
        (page.map entryKey).eraseDups := by
      rw [entries_fold hdistinct, ← eraseDups_filter, hpage]
    have hrest' : ((foldSupersededTips l).map entryKey).filter (· ∉ page.map entryKey) =
        ((current.map entryKey).filter (· ∉ page.map entryKey)).eraseDups := by
      rw [entries_fold hdistinct, ← eraseDups_filter, hrest]
    refine ⟨fun x hx ↦ ?_, hpage', hrest', fun r hr ↦ ?_, fun r hr k hk ↦ ?_⟩
    · have hfilter : ((foldSupersededTips l).filter fun r ↦ SameEntry r x) =
          (foldSupersededTips l).filter fun r ↦ entryKey r = entryKey x := by
        refine List.filter_congr fun r hr ↦ decide_eq_decide.mpr ?_
        obtain ⟨y, hy, rfl⟩ := mem_fold hr
        rw [sameEntry_refresh_iff, entryKey_refresh]
        exact sameEntry_iff hcoherent (hl y hy) hx
      have hcount : ((foldSupersededTips l).map entryKey).count (entryKey x) = 1 := by
        refine List.count_eq_one_of_mem (nodup_of_orders hpage' hrest')
          (mem_of_orders hpage' hrest' ?_)
        rw [← List.map_append]
        exact List.mem_map_of_mem hx
      rw [hfilter, ← hcount, List.count_eq_length_filter, List.filter_map, List.length_map]
      refine congrArg List.length (List.filter_congr fun r _ ↦ ?_)
      simp [beq_eq_decide]
    · obtain ⟨y, hy, rfl⟩ := mem_fold hr
      refine ⟨y, hl y hy, entryKey_refresh, ?_⟩
      cases hk : supersedesKeyOf y with
      | none => exact Or.inl (refresh_id hk)
      | some k =>
          refine Or.inr ⟨rfl, ?_⟩
          simp only [refresh, hk, withLatest]
          split <;> rfl
    · rw [content_of_mem_fold hr hk]
      exact hnewest k

end Merged

section Prepend

/-- The messages of a list that share neither an id nor a merge key with the other one. -/
def unmatchedBy (other l : List TMessage) : List TMessage := l.filter fun m ↦ !matchedBy other m

theorem mem_unmatchedBy {other : List TMessage} :
    m ∈ unmatchedBy other l ↔ m ∈ l ∧ matchedBy other m = false := by
  rw [unmatchedBy, List.mem_filter, Bool.not_eq_true']

/-- When a page is put in front rightly: what it shares an id or a merge key with is an entry it
has itself, and it leaves to the current list only entries that belong behind its other ones. -/
structure PrependFits (page current : List TMessage) : Prop where
  matched : ∀ p ∈ page, matchedBy current p = true →
    ∃ x ∈ unmatchedBy current page ++ current, SameEntry x p
  unmatched : ∀ p ∈ page, matchedBy current p = false → ∀ c ∈ current, SameEntry p c →
    (supersedesKeyOf p).isSome
  in_order : (((unmatchedBy current page ++ current).map entryKey).filter
    (· ∈ page.map entryKey)).eraseDups = (page.map entryKey).eraseDups
  newest : ∀ k, (latestByKey (unmatchedBy current page ++ current) k).map (·.content) =
    (latestByKey (page ++ current) k).map (·.content)
  folded : unmatchedBy current page = [] → (current.map entryKey).Nodup

structure MergeFits (page current : List TMessage) : Prop where
  matched : ∀ c ∈ current, matchedBy page c = true →
    ∃ x ∈ page ++ unmatchedBy page current, SameEntry x c
  unmatched : ∀ c ∈ current, matchedBy page c = false → ∀ p ∈ page, SameEntry c p →
    (supersedesKeyOf c).isSome
  in_order : (((unmatchedBy page current).map entryKey).filter (· ∉ page.map entryKey)).eraseDups =
    ((current.map entryKey).filter (· ∉ page.map entryKey)).eraseDups
  newest : ∀ k, (latestByKey (page ++ unmatchedBy page current) k).map (·.content) =
    (latestByKey (page ++ current) k).map (·.content)

theorem Coherent.subset {l' : List TMessage} (h : Coherent l) (hl : ∀ m ∈ l', m ∈ l) : Coherent l' :=
  fun a ha b hb ↦ h a (hl a ha) b (hl b hb)

theorem Distinct.sublist {l' : List TMessage} (h : Distinct l) (hl : l'.Sublist l) : Distinct l' :=
  List.Pairwise.sublist hl h

theorem fold_of_nodup (h : (l.map entryKey).Nodup) : foldSupersededTips l = l := by
  have hdistinct : OutsideDistinct supersedesKeyOf entryKey l := by
    refine (List.pairwise_map.mp h).imp fun hne heq ↦ ?_
    exact absurd heq hne
  have hkeys := entries_foldRuns entriesOf_supersedesKeyOf hdistinct
  rw [eraseDups_of_nodup h] at hkeys
  have hlength : (foldRuns supersedesKeyOf [] l).length = l.length := by
    simpa using congrArg List.length hkeys
  have hruns : foldRuns supersedesKeyOf [] l = l := foldRuns_sublist.eq_of_length hlength
  rw [foldSupersededTips_eq, hruns]
  conv_rhs => rw [← List.map_id l]
  exact List.map_congr_left fun m hm ↦ refresh_eq_self hruns hm

theorem outsideDistinct_append_iff {l₁ l₂ : List TMessage} (hcoherent : Coherent (l₁ ++ l₂))
    (h₁ : Distinct l₁) (h₂ : Distinct l₂) :
    OutsideDistinct supersedesKeyOf entryKey (l₁ ++ l₂) ↔
      ∀ a ∈ l₁, ∀ b ∈ l₂, SameEntry a b → (supersedesKeyOf a).isSome := by
  have hl₁ := h₁.outside (hcoherent.subset fun m ↦ List.mem_append_left l₂)
  have hl₂ := h₂.outside (hcoherent.subset fun m ↦ List.mem_append_right l₁)
  rw [OutsideDistinct, List.pairwise_append]
  constructor
  · rintro ⟨-, -, hcross⟩ a ha b hb hab
    refine hcross a ha b hb ((sameEntry_iff hcoherent ?_ ?_).mp hab)
    · exact List.mem_append_left l₂ ha
    · exact List.mem_append_right l₁ hb
  · intro hcross
    refine ⟨hl₁, hl₂, fun a ha b hb hab ↦ hcross a ha b hb ?_⟩
    refine (sameEntry_iff hcoherent ?_ ?_).mpr hab
    · exact List.mem_append_left l₂ ha
    · exact List.mem_append_right l₁ hb

theorem exists_of_orders (hcoherent : Coherent (page ++ current))
    (hl : ∀ m ∈ l, m ∈ page ++ current)
    (hpage : ((l.map entryKey).filter (· ∈ page.map entryKey)).eraseDups =
      (page.map entryKey).eraseDups)
    (hrest : ((l.map entryKey).filter (· ∉ page.map entryKey)).eraseDups =
      ((current.map entryKey).filter (· ∉ page.map entryKey)).eraseDups)
    (hm : m ∈ page ++ current) : ∃ x ∈ l, SameEntry x m := by
  have hpage' := (eraseDups_filter _ _).symm.trans hpage
  have hrest' := (eraseDups_filter _ _).symm.trans hrest
  have he : entryKey m ∈ (l.map entryKey).eraseDups := by
    refine mem_of_orders hpage' hrest' ?_
    rw [← List.map_append]
    exact List.mem_map_of_mem hm
  obtain ⟨x, hx, heq⟩ := List.mem_map.mp (List.mem_eraseDups.mp he)
  exact ⟨x, hx, (sameEntry_iff hcoherent (hl x hx) hm).mpr heq⟩

theorem merged_prepend_iff (hcoherent : Coherent (page ++ current)) (hpage : Distinct page)
    (hcurrent : Distinct current) :
    Merged page current (prependHistoryMessages current page) ↔ PrependFits page current := by
  have hsub : ∀ m ∈ unmatchedBy current page ++ current, m ∈ page ++ current := by
    intro m hm
    obtain hm | hm := List.mem_append.mp hm
    · exact List.mem_append_left current (mem_unmatchedBy.mp hm).1
    · exact List.mem_append_right page hm
  have hfold := merged_fold_iff hcoherent hsub
  -- What is not in the page is in the current list.
  have hrest : (((unmatchedBy current page ++ current).map entryKey).filter
      (· ∉ page.map entryKey)).eraseDups =
        ((current.map entryKey).filter (· ∉ page.map entryKey)).eraseDups := by
    have hnone : ((unmatchedBy current page).map entryKey).filter (· ∉ page.map entryKey) = [] := by
      refine List.filter_eq_nil_iff.mpr fun e he ↦ ?_
      obtain ⟨p, hp, rfl⟩ := List.mem_map.mp he
      have hmem : entryKey p ∈ page.map entryKey :=
        List.mem_map_of_mem (mem_unmatchedBy.mp hp).1
      simpa using hmem
    rw [List.map_append, List.filter_append, hnone, List.nil_append]
  rw [and_iff_right hrest, outsideDistinct_append_iff (hcoherent.subset hsub)
    (hpage.sublist List.filter_sublist) hcurrent] at hfold
  have hfits : (foldSupersededTips (unmatchedBy current page ++ current) =
      prependHistoryMessages current page) → ((unmatchedBy current page = [] →
        (current.map entryKey).Nodup)) →
      (Merged page current (prependHistoryMessages current page) ↔ PrependFits page current) := by
    intro heq hfolded
    rw [← heq, hfold]
    constructor
    · rintro ⟨hcross, horder, hnewest⟩
      refine ⟨fun p hp _ ↦ ?_, fun p hp hmatched ↦ ?_, horder, hnewest, hfolded⟩
      · exact exists_of_orders hcoherent hsub horder hrest (List.mem_append_left current hp)
      · exact hcross p (mem_unmatchedBy.mpr ⟨hp, hmatched⟩)
    · intro h
      refine ⟨fun p hp ↦ ?_, h.in_order, h.newest⟩
      obtain ⟨hp, hmatched⟩ := mem_unmatchedBy.mp hp
      exact h.unmatched p hp hmatched
  by_cases hnil : unmatchedBy current page = []
  · have hprepend : prependHistoryMessages current page = current := by
      rw [prependHistoryMessages]
      exact if_pos (by rw [← unmatchedBy, hnil]; rfl)
    constructor
    · intro h
      have hnodup := nodup_of_orders h.page_order h.rest_order
      rw [hprepend] at hnodup
      refine (hfits ?_ fun _ ↦ hnodup).mp h
      rw [hprepend, hnil, List.nil_append, fold_of_nodup hnodup]
    · intro h
      have hnodup := h.folded hnil
      refine (hfits ?_ fun _ ↦ hnodup).mpr h
      rw [hprepend, hnil, List.nil_append, fold_of_nodup hnodup]
  · refine hfits ?_ fun h ↦ absurd h hnil
    rw [prependHistoryMessages]
    refine (if_neg ?_).symm
    rw [← unmatchedBy, List.isEmpty_iff]
    exact hnil

end Prepend

section Loaded

theorem liveOf_mem {live : TMessage} (h : liveOf l m = some live) :
    live ∈ l ∧ (live.id = m.id ∨ getMessageMergeKey live = getMessageMergeKey m) := by
  rw [liveOf, Option.or_eq_some_iff] at h
  obtain hid | ⟨-, hkey⟩ := h
  · refine ⟨List.mem_reverse.mp (List.mem_of_find?_eq_some hid), Or.inl ?_⟩
    simpa using List.find?_some hid
  · refine ⟨List.mem_reverse.mp (List.mem_of_find?_eq_some hkey), Or.inr ?_⟩
    simpa using List.find?_some hkey

theorem mergeMessage_cases (l : List TMessage) (m : TMessage) :
    mergeMessage l m = m ∨ ∃ live content liveContent, liveOf l m = some live ∧
      mergeMessage l m = live ∧ m.content = .text content ∧ live.content = .text liveContent := by
  rw [mergeMessage]
  cases hlive : liveOf l m with
  | none => exact Or.inl rfl
  | some live =>
      simp only [preferPersistedOrLiveMessage]
      split
      · next content liveContent hm hl =>
          rw [preferTextMessageVersion]
          have hchosen : ∀ r, r = m ∨ r = live → r = m ∨ ∃ x c c', some live = some x ∧ r = x ∧
              m.content = .text c ∧ x.content = .text c' := by
            rintro r (rfl | rfl)
            · exact Or.inl rfl
            · exact Or.inr ⟨r, content, liveContent, rfl, rfl, hm, hl⟩
          apply hchosen
          split_ifs <;> simp
      · exact Or.inl rfl

theorem entryKey_of_mergeKey_eq {content content' : TextContent} (ha : a.content = .text content)
    (hb : b.content = .text content') (h : getMessageMergeKey a = getMessageMergeKey b) :
    entryKey a = entryKey b := by
  have htype : a.type = b.type := by rw [TMessage.type, TMessage.type, ha, hb]; rfl
  rw [getMessageMergeKey, getMessageMergeKey] at h
  rw [entryKey, entryKey, ownIdentity, ownIdentity, ha, hb]
  cases hka : truthy a.msgId <;> cases hkb : truthy b.msgId <;> rw [hka, hkb] at h <;>
    simp_all

variable (hcoherent : Coherent (page ++ current))
include hcoherent

theorem entryKey_mergeMessage (hm : m ∈ page) : entryKey (mergeMessage current m) = entryKey m := by
  obtain heq | ⟨live, content, liveContent, hlive, heq, hcm, hcl⟩ := mergeMessage_cases current m
  · rw [heq]
  · rw [heq]
    obtain ⟨hmem, hid | hkey⟩ := liveOf_mem hlive
    · refine (sameEntry_iff hcoherent ?_ ?_).mp (Or.inl hid)
      · exact List.mem_append_right page hmem
      · exact List.mem_append_left current hm
    · exact entryKey_of_mergeKey_eq hcl hcm hkey

omit hcoherent in
theorem mergeMessage_mem (hm : m ∈ page) : mergeMessage current m ∈ page ++ current := by
  obtain heq | ⟨live, _, _, hlive, heq, -, -⟩ := mergeMessage_cases current m
  · rw [heq]
    exact List.mem_append_left current hm
  · rw [heq]
    exact List.mem_append_right page (liveOf_mem hlive).1

omit hcoherent in
theorem mergeMessage_tip (hk : supersedesKeyOf (mergeMessage current m) = some k ∨
    supersedesKeyOf m = some k) : mergeMessage current m = m := by
  obtain heq | ⟨live, content, liveContent, -, heq, hcm, hcl⟩ := mergeMessage_cases current m
  · exact heq
  · rw [heq, supersedesKeyOf, supersedesKeyOf, hcm, hcl] at hk
    simp at hk

omit hcoherent in
theorem latestByKey_mergeMessage (rest : List TMessage) (k : String) :
    latestByKey (page.map (mergeMessage current) ++ rest) k = latestByKey (page ++ rest) k := by
  rw [latestByKey, latestByKey, List.reverse_append, List.reverse_append, List.find?_append,
    List.find?_append, ← List.map_reverse, List.find?_map]
  have hpred : (page.reverse.find? ((fun m ↦ decide (supersedesKeyOf m = some k)) ∘
      mergeMessage current)) = page.reverse.find? fun m ↦ supersedesKeyOf m = some k := by
    refine congrFun (congrArg List.find? (funext fun m ↦ decide_eq_decide.mpr ?_)) page.reverse
    constructor
    · intro h
      rwa [mergeMessage_tip (Or.inl h)] at h
    · intro h
      rwa [mergeMessage_tip (Or.inr h)]
  rw [hpred]
  cases htip : page.reverse.find? fun m ↦ supersedesKeyOf m = some k with
  | none => rfl
  | some tip =>
      have hkey : supersedesKeyOf tip = some k := by simpa using List.find?_some htip
      rw [Option.map_some, mergeMessage_tip (Or.inr hkey)]

theorem merged_loaded_iff {conversationId : String}
    (hconversation : ∀ m ∈ current, m.conversationId = conversationId) (hpage : Distinct page)
    (hcurrent : Distinct current) :
    Merged page current (mergeLoadedPageWithCurrent conversationId page current) ↔
      MergeFits page current := by
  have hsame : current.filter (·.conversationId = conversationId) = current :=
    List.filter_eq_self.mpr fun m hm ↦ decide_eq_true (hconversation m hm)
  have heq : mergeLoadedPageWithCurrent conversationId page current =
      foldSupersededTips (page.map (mergeMessage current) ++ unmatchedBy page current) := by
    rw [mergeLoadedPageWithCurrent]
    simp only [hsame]
    cases current with
    | nil =>
        have hmerge : page.map (mergeMessage []) = page :=
          (List.map_congr_left fun _ _ ↦ rfl).trans (List.map_id page)
        rw [hmerge]
        exact congrArg foldSupersededTips (List.append_nil page).symm
    | cons m current => rfl
  have hkeys : (page.map (mergeMessage current) ++ unmatchedBy page current).map entryKey =
      page.map entryKey ++ (unmatchedBy page current).map entryKey := by
    rw [List.map_append, List.map_map]
    refine congrArg (· ++ _) (List.map_congr_left fun m hm ↦ ?_)
    exact entryKey_mergeMessage hcoherent hm
  have hsub : ∀ m ∈ page.map (mergeMessage current) ++ unmatchedBy page current,
      m ∈ page ++ current := by
    intro m hm
    obtain hm | hm := List.mem_append.mp hm
    · obtain ⟨p, hp, rfl⟩ := List.mem_map.mp hm
      exact mergeMessage_mem hp
    · exact List.mem_append_right page (mem_unmatchedBy.mp hm).1
  have hunmatched : ∀ m ∈ page ++ unmatchedBy page current, m ∈ page ++ current := by
    intro m hm
    obtain hm | hm := List.mem_append.mp hm
    · exact List.mem_append_left current hm
    · exact List.mem_append_right page (mem_unmatchedBy.mp hm).1
  have hdistinct : OutsideDistinct supersedesKeyOf entryKey
      (page.map (mergeMessage current) ++ unmatchedBy page current) ↔
        OutsideDistinct supersedesKeyOf entryKey (page ++ unmatchedBy page current) := by
    rw [← List.map_append] at hkeys
    constructor
    · exact OutsideDistinct.of_entries entriesOf_supersedesKeyOf hkeys
    · exact OutsideDistinct.of_entries entriesOf_supersedesKeyOf hkeys.symm
  -- What is added behind the page repeats none of its entries in front.
  have horder : ((page.map entryKey ++ (unmatchedBy page current).map entryKey).filter
      (· ∈ page.map entryKey)).eraseDups = (page.map entryKey).eraseDups := by
    rw [List.filter_append, List.eraseDups_append, List.filter_eq_self.mpr (by simp)]
    have hnone : (((unmatchedBy page current).map entryKey).filter
        (· ∈ page.map entryKey)).removeAll (page.map entryKey) = [] := by
      refine List.filter_eq_nil_iff.mpr fun e he ↦ ?_
      simpa using (List.mem_filter.mp he).2
    rw [hnone]
    exact List.append_nil _
  have hrest : (page.map entryKey ++ (unmatchedBy page current).map entryKey).filter
      (· ∉ page.map entryKey) = ((unmatchedBy page current).map entryKey).filter
        (· ∉ page.map entryKey) := by
    have hnone : (page.map entryKey).filter (· ∉ page.map entryKey) = [] :=
      List.filter_eq_nil_iff.mpr fun e he ↦ by simpa using he
    rw [List.filter_append, hnone, List.nil_append]
  have hfold := merged_fold_iff hcoherent hsub
  rw [hkeys, and_iff_right horder, hrest, hdistinct, outsideDistinct_append_iff
    (hcoherent.subset hunmatched) hpage (hcurrent.sublist List.filter_sublist)] at hfold
  simp only [latestByKey_mergeMessage] at hfold
  rw [heq, hfold]
  constructor
  · rintro ⟨hcross, hin_order, hnewest⟩
    refine ⟨fun c hc _ ↦ ?_, fun c hc hmatched p hp hsame ↦ ?_, hin_order, hnewest⟩
    · refine exists_of_orders hcoherent hunmatched ?_ ?_ (List.mem_append_right page hc)
      · rw [List.map_append, horder]
      · rw [List.map_append, hrest, hin_order]
    · obtain ⟨hswap, hrun⟩ := hsame.swap hcoherent (List.mem_append_right page hc)
        (List.mem_append_left current hp)
      rw [hrun]
      exact hcross p hp c (mem_unmatchedBy.mpr ⟨hc, hmatched⟩) hswap
  · intro h
    refine ⟨fun p hp c hc hsame ↦ ?_, h.in_order, h.newest⟩
    obtain ⟨hc, hmatched⟩ := mem_unmatchedBy.mp hc
    obtain ⟨hswap, hrun⟩ := hsame.swap hcoherent (List.mem_append_left current hp)
      (List.mem_append_right page hc)
    rw [hrun]
    exact h.unmatched c hc hmatched p hp hswap

end Loaded

section Results

def historyRow (id turn : String) (content : Content) : TMessage :=
  ⟨id, some turn, "conversation", some .left, content, ∅⟩

def call (callId : String) : Content := .toolCall ⟨some callId, ∅⟩

theorem latestByKey_of_none (h : ∀ m ∈ l, supersedesKeyOf m = none) (k : String) :
    latestByKey l k = none := by
  refine List.find?_eq_none.mpr fun m hm ↦ ?_
  simp [h m (List.mem_reverse.mp hm)]

end Results

end Zaowutai.MessageList
