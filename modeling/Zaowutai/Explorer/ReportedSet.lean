import Zaowutai.Explorer.ExplorerStore
import Zaowutai.Lib.Run

/-!
# The reported set

The frames under way turn what the backend has registered into the reported
set, but for the keys of requests that have failed and not been rejected yet.
When nothing is under way the two agree.
-/

namespace Zaowutai.Explorer

open Zaowutai.Lib

def Frame.apply (subscribed : List PeKey) : Frame → List PeKey
  | .subscribe _ refs => subscribed ∪ refs
  | .unsubscribe refs => subscribed.filter fun key ↦ !refs.contains key

def Frame.id? : Frame → Option ℕ
  | .subscribe id _ => some id
  | .unsubscribe _ => none

namespace ExplorerStore

section Laws

variable (s : ExplorerStore)

/-- What the backend will have registered once it has handled the frames. -/
def intended : List PeKey := s.outbox.foldl Frame.apply s.subscribed

def Quiescent : Prop := s.outbox = [] ∧ s.pending = [] ∧ s.reconcileScheduled = false

/-- The reported set is what is wanted, except for `out`; it is what the backend has registered,
and each of its directories has a listing of its own. -/
structure Agrees (out : List PeKey) : Prop where
  reported : ∀ key, key ∈ s.current ↔ key ∈ deriveWant s.expanded ∧ key ∉ out
  subscribed : ∀ key, key ∈ s.subscribed ↔ key ∈ s.current
  cached : ∀ key ∈ s.current, ∃ listing, s.cache.lookup key = some listing ∧ listing.source = key

/-- At rest, all is reported but what has been rejected since the last reconciliation. -/
def Settled : Prop := s.Quiescent → s.Agrees s.rolledBack

def SparesReported (target : PeKey) (s : ExplorerStore) : WireChange → Prop
  | .removed name => ∀ key ∈ s.current, isDescendantOrSelf key (childKey target name) = false
  | .renamed source name =>
      (∀ key ∈ s.current,
        migrateKey key (childKey target source) (childKey target name) = key) ∧
      ∀ key ∈ s.cache.keys,
        migrateKey key (childKey target source) (childKey target name) ∈ s.current →
          migrateKey key (childKey target source) (childKey target name) = key
  | .added _ _ _ | .modified _ | .other _ => True

/-- An `unsubscribe` reaches its directories. -/
def Reaches (answers : BackendAnswers) : List Frame → Prop
  | .unsubscribe refs :: _ => ∀ key ∈ refs, key ∉ answers.unresolved
  | _ => True

/-- A reply lists the reported directories it was asked for, and finds them wanted. -/
def Complete : Option PendingSubscribe → Prop
  | some ⟨_, keys, .answered snapshots⟩ => ∀ key ∈ keys, key ∈ s.current →
      key ∈ deriveWant s.expanded ∧ key ∈ snapshots.map Prod.fst
  | _ => True

/-- No directory that is, or is going to be, registered is taken back. -/
def Revocable : Option PendingSubscribe → Prop
  | some ⟨_, keys, .answered _⟩ | some ⟨_, keys, .failed⟩ =>
      ∀ key ∈ keys, key ∈ s.current → key ∉ s.intended
  | _ => True

/-- Deltas spare the reported directories, no `unsubscribe` is dropped or ignored, replies are
complete, and rejections take back nothing that is registered. -/
def Tame : StoreAct → Prop
  | .delta target changes => s.isWanted target = true →
      Meets (applyStructure target) (SparesReported target) (s.applyDelta target changes) changes
  | .reconcile online => s.reconcileScheduled = true → online = false →
      ∀ key ∈ s.current, key ∈ deriveWant s.expanded
  | .backend answers => Reaches answers s.outbox
  | .resolve id => s.Complete (s.request? id)
  | .reject id => s.Revocable (s.request? id)
  | .setExpanded _ _ | .setExpandedKeys _ | .snapshot _ _ => True

/-- The frames under way account for the reported set, and belong to requests that wait. -/
structure Accounted : Prop where
  intended : ∀ key ∈ s.intended, key ∈ s.current
  current : ∀ key ∈ s.current,
    key ∈ s.intended ∨ ∃ r ∈ s.pending, r.progress = .failed ∧ key ∈ r.keys
  ids : (s.pending.map PendingSubscribe.id).Nodup
  bound : ∀ r ∈ s.pending, r.id < s.nextId
  sent : ∀ id refs, .subscribe id refs ∈ s.outbox → ⟨id, refs, .waiting⟩ ∈ s.pending
  once : (s.outbox.filterMap Frame.id?).Nodup

/-- A reported directory has a listing of its own, or a request for it is under way. -/
def Loading : Prop :=
  ∀ key ∈ s.current, (∃ listing, s.cache.lookup key = some listing ∧ listing.source = key) ∨
    ∃ r ∈ s.pending, key ∈ r.keys

def Reported : Prop :=
  s.reconcileScheduled = false →
    ∀ key, key ∈ s.current ↔ key ∈ deriveWant s.expanded ∧ key ∉ s.rolledBack

structure Sound : Prop where
  accounted : s.Accounted
  loading : s.Loading
  reported : s.Reported

end Laws

section Decisions

instance (target : PeKey) (s : ExplorerStore) : ∀ change, Decidable (SparesReported target s change)
  | .removed name => inferInstanceAs (Decidable (∀ key ∈ s.current,
      isDescendantOrSelf key (childKey target name) = false))
  | .renamed source name => inferInstanceAs (Decidable ((∀ key ∈ s.current,
      migrateKey key (childKey target source) (childKey target name) = key) ∧
        ∀ key ∈ s.cache.keys,
          migrateKey key (childKey target source) (childKey target name) ∈ s.current →
            migrateKey key (childKey target source) (childKey target name) = key))
  | .added _ _ _ | .modified _ | .other _ => isTrue trivial

instance (answers : BackendAnswers) : ∀ outbox, Decidable (Reaches answers outbox)
  | .unsubscribe refs :: _ =>
      inferInstanceAs (Decidable (∀ key ∈ refs, key ∉ answers.unresolved))
  | .subscribe _ _ :: _ | [] => isTrue trivial

instance (s : ExplorerStore) : ∀ r, Decidable (s.Complete r)
  | some ⟨_, keys, .answered snapshots⟩ => inferInstanceAs (Decidable (∀ key ∈ keys,
      key ∈ s.current → key ∈ deriveWant s.expanded ∧ key ∈ snapshots.map Prod.fst))
  | some ⟨_, _, .waiting⟩ | some ⟨_, _, .failed⟩ | none => isTrue trivial

instance (s : ExplorerStore) : ∀ r, Decidable (s.Revocable r)
  | some ⟨_, keys, .answered _⟩ | some ⟨_, keys, .failed⟩ =>
      inferInstanceAs (Decidable (∀ key ∈ keys, key ∈ s.current → key ∉ s.intended))
  | some ⟨_, _, .waiting⟩ | none => isTrue trivial

instance (s : ExplorerStore) : ∀ a, Decidable (s.Tame a)
  | .delta target changes => inferInstanceAs (Decidable (s.isWanted target = true →
      Meets (applyStructure target) (SparesReported target) (s.applyDelta target changes) changes))
  | .reconcile online => inferInstanceAs (Decidable (s.reconcileScheduled = true →
      online = false → ∀ key ∈ s.current, key ∈ deriveWant s.expanded))
  | .backend answers => inferInstanceAs (Decidable (Reaches answers s.outbox))
  | .resolve id => inferInstanceAs (Decidable (s.Complete (s.request? id)))
  | .reject id => inferInstanceAs (Decidable (s.Revocable (s.request? id)))
  | .setExpanded _ _ | .setExpandedKeys _ | .snapshot _ _ => isTrue trivial

end Decisions

section Frames

variable {subscribed subscribed' : List PeKey} {key : PeKey}

theorem mem_frames_mono (outbox : List Frame) (h : key ∈ subscribed → key ∈ subscribed') :
    key ∈ outbox.foldl Frame.apply subscribed → key ∈ outbox.foldl Frame.apply subscribed' := by
  induction outbox generalizing subscribed subscribed' with
  | nil => exact h
  | cons frame outbox ih =>
      refine ih ?_
      cases frame with
      | subscribe id refs => simpa [Frame.apply] using Or.imp_left h
      | unsubscribe refs => simpa [Frame.apply] using fun hmem hrefs ↦ ⟨h hmem, hrefs⟩

theorem mem_frames_congr (outbox : List Frame) (h : key ∈ subscribed ↔ key ∈ subscribed') :
    key ∈ outbox.foldl Frame.apply subscribed ↔ key ∈ outbox.foldl Frame.apply subscribed' :=
  ⟨mem_frames_mono outbox h.mp, mem_frames_mono outbox h.mpr⟩

end Frames

section Requests

variable {s : ExplorerStore} {r r' : PendingSubscribe} {id : ℕ}

theorem eq_of_id_eq (h : s.Accounted) (hr : r ∈ s.pending) (hr' : r' ∈ s.pending)
    (hid : r.id = r'.id) : r = r' :=
  List.inj_on_of_nodup_map h.ids hr hr' hid

theorem mem_of_request? (h : s.request? id = some r) : r ∈ s.pending ∧ r.id = id := by
  have hid := List.find?_some h
  exact ⟨List.mem_of_find?_eq_some h, of_decide_eq_true hid⟩

theorem mem_setProgress_of_ne (progress : Progress) (hr : r ∈ s.pending) (hid : r.id ≠ id) :
    r ∈ (s.setProgress id progress).pending :=
  List.mem_map.mpr ⟨r, hr, if_neg hid⟩

theorem mem_setProgress_self (progress : Progress) (hr : r ∈ s.pending) (hid : r.id = id) :
    { r with progress := progress } ∈ (s.setProgress id progress).pending :=
  List.mem_map.mpr ⟨r, hr, if_pos hid⟩

theorem ids_setProgress (progress : Progress) :
    (s.setProgress id progress).pending.map PendingSubscribe.id =
      s.pending.map PendingSubscribe.id := by
  rw [setProgress, List.map_map]
  apply List.map_congr_left
  intro r _
  rw [Function.comp_apply]
  split <;> rfl

theorem mem_settle : r ∈ (s.settle id).pending ↔ r ∈ s.pending ∧ r.id ≠ id := by
  simp [settle]

end Requests

section Cache

variable {cache : Table PeKey CachedListing} {key : PeKey} {listing : CachedListing}

theorem lookup_setKey (k : PeKey) :
    (setKey cache key listing).lookup k = if k = key then some listing else cache.lookup k := by
  rw [setKey]
  split
  · next hsome =>
      rw [Table.lookup_modify]
      split
      · next hk =>
          obtain ⟨v, hv⟩ := Option.isSome_iff_exists.mp hsome
          rw [hk, hv, Option.map_some]
      · rfl
  · exact Table.lookup_insert_eq _

theorem lookup_migrateCache {source target : PeKey} (hstay : migrateKey key source target = key)
    (halone : ∀ k ∈ cache.keys, migrateKey k source target = key → k = key) :
    (migrateCache cache source target).lookup key = cache.lookup key := by
  have hfold : ∀ (es : List (Σ _ : PeKey, CachedListing)) (next : Table PeKey CachedListing),
      es.NodupKeys → (∀ e ∈ es, migrateKey e.1 source target = key → e.1 = key) →
        (es.foldl (fun next e ↦ setKey next (migrateKey e.1 source target) e.2) next).lookup key =
          (es.dlookup key).or (next.lookup key) := by
    intro es
    induction es with
    | nil => exact fun _ _ _ ↦ rfl
    | cons e es ih =>
        intro next hnodup hes
        obtain ⟨k, v⟩ := e
        rw [List.nodupKeys_cons] at hnodup
        rw [List.foldl_cons, ih _ hnodup.2 fun e he ↦ hes e (List.mem_cons_of_mem _ he),
          lookup_setKey]
        by_cases hk : k = key
        · subst hk
          rw [List.dlookup_cons_eq, List.dlookup_eq_none.mpr hnodup.1, if_pos hstay.symm]
          rfl
        · have hmoved : key ≠ migrateKey k source target := fun heq ↦
            hk (hes ⟨k, v⟩ List.mem_cons_self heq.symm)
          rw [if_neg hmoved, List.dlookup_cons_ne _ _ (Ne.symm hk)]
  have hrev : cache.entries.reverse.NodupKeys :=
    (List.perm_nodupKeys (List.reverse_perm _)).mpr cache.nodupKeys
  rw [migrateCache, hfold _ _ hrev]
  · rw [List.perm_dlookup key hrev (List.reverse_perm _)]
    exact Option.or_none
  · intro e he hmoved
    exact halone e.1 (List.mem_map_of_mem (List.mem_reverse.mp he)) hmoved

end Cache

section Quiet

variable {s s' : ExplorerStore}

structure SameReported (s s' : ExplorerStore) : Prop where
  current : ∀ key, key ∈ s'.current ↔ key ∈ s.current
  cache : ∀ key ∈ s.current, (s'.cache.lookup key).map CachedListing.source =
    (s.cache.lookup key).map CachedListing.source
  pending : s'.pending = s.pending
  outbox : s'.outbox = s.outbox
  subscribed : s'.subscribed = s.subscribed
  nextId : s'.nextId = s.nextId

theorem SameReported.trans {s'' : ExplorerStore} (h : SameReported s s')
    (h' : SameReported s' s'') : SameReported s s'' where
  current key := (h'.current key).trans (h.current key)
  cache key hkey := (h'.cache key ((h.current key).mpr hkey)).trans (h.cache key hkey)
  pending := h'.pending.trans h.pending
  outbox := h'.outbox.trans h.outbox
  subscribed := h'.subscribed.trans h.subscribed
  nextId := h'.nextId.trans h.nextId

theorem SameReported.accounted (h : SameReported s s') (hs : s.Accounted) : s'.Accounted := by
  have hintended : s'.intended = s.intended := by rw [intended, h.outbox, h.subscribed, intended]
  constructor
  · intro key hkey
    rw [hintended] at hkey
    exact (h.current key).mpr (hs.intended key hkey)
  · intro key hkey
    rw [hintended, h.pending]
    exact hs.current key ((h.current key).mp hkey)
  · rw [h.pending]
    exact hs.ids
  · rw [h.pending, h.nextId]
    exact hs.bound
  · rw [h.pending, h.outbox]
    exact hs.sent
  · rw [h.outbox]
    exact hs.once

theorem SameReported.loading (h : SameReported s s') (hs : s.Loading) : s'.Loading := by
  intro key hkey
  have hbefore := (h.current key).mp hkey
  rcases hs key hbefore with ⟨listing, hlookup, hsource⟩ | hpending
  · have hcache := h.cache key hbefore
    rw [hlookup, Option.map_some, Option.map_eq_some_iff] at hcache
    obtain ⟨listing', hlookup', hsource'⟩ := hcache
    exact .inl ⟨listing', hlookup', hsource'.trans hsource⟩
  · rw [h.pending]
    exact .inr hpending

theorem sameReported_applyDelta (key : PeKey) (changes : List WireChange) :
    SameReported s (s.applyDelta key changes) where
  current _ := Iff.rfl
  cache k _ := by
    simp only [applyDelta, Table.lookup_modify]
    split
    · rw [Option.map_map]
      rfl
    · rfl
  pending := rfl
  outbox := rfl
  subscribed := rfl
  nextId := rfl

theorem sameReported_applyStructure {target : PeKey} {change : WireChange}
    (h : SparesReported target s change) : SameReported s (applyStructure target s change) := by
  cases change with
  | removed name =>
      refine ⟨?_, ?_, rfl, rfl, rfl, rfl⟩
      · intro key
        simp only [applyStructure, pruneSubtree, List.mem_filter, Bool.not_eq_true']
        exact and_iff_left_of_imp (h key)
      · intro key hkey
        have hnot : key ∉ subtreeKeys s.cache.keys (childKey target name) := by
          intro hmem
          have hdesc := (List.mem_filter.mp hmem).2
          rw [h key hkey] at hdesc
          cases hdesc
        simp only [applyStructure, pruneSubtree, Table.lookup_eraseAll, if_neg hnot]
  | renamed source name =>
      refine ⟨?_, ?_, rfl, rfl, rfl, rfl⟩
      · intro key
        simp only [applyStructure, migratePrefix, List.mem_dedup, List.mem_map]
        constructor
        · rintro ⟨k, hk, rfl⟩
          rw [h.1 k hk]
          exact hk
        · exact fun hkey ↦ ⟨key, hkey, h.1 key hkey⟩
      · intro key hkey
        simp only [applyStructure, migratePrefix]
        rw [lookup_migrateCache (h.1 key hkey)]
        intro k hk hmoved
        have hstays := h.2 k hk (hmoved.symm ▸ hkey)
        exact hstays.symm.trans hmoved
  | added name kind excluded => exact ⟨fun _ ↦ Iff.rfl, fun _ _ ↦ rfl, rfl, rfl, rfl, rfl⟩
  | modified name => exact ⟨fun _ ↦ Iff.rfl, fun _ _ ↦ rfl, rfl, rfl, rfl, rfl⟩
  | other op => exact ⟨fun _ ↦ Iff.rfl, fun _ _ ↦ rfl, rfl, rfl, rfl, rfl⟩

theorem sameReported_changes {target : PeKey} {changes : List WireChange}
    (h : Meets (applyStructure target) (SparesReported target) s changes) :
    SameReported s (changes.foldl (applyStructure target) s) := by
  induction changes generalizing s with
  | nil => exact ⟨fun _ ↦ Iff.rfl, fun _ _ ↦ rfl, rfl, rfl, rfl, rfl⟩
  | cons change changes ih => exact (sameReported_applyStructure h.1).trans (ih h.2)

theorem SameReported.scheduled (h : SameReported s s') (hs : s.Sound)
    (hscheduled : s'.reconcileScheduled = true) : s'.Sound where
  accounted := h.accounted hs.accounted
  loading := h.loading hs.loading
  reported hnot := by cases hscheduled.symm.trans hnot

theorem sound_delta (hs : s.Sound) {target : PeKey} {changes : List WireChange}
    (htame : s.Tame (.delta target changes)) : (s.applyServerDelta target changes).Sound := by
  rw [applyServerDelta]
  split
  · next hwanted =>
      have hchanges := (sameReported_applyDelta target changes).trans
        (sameReported_changes (htame hwanted))
      refine SameReported.scheduled (s := s) ?_ hs rfl
      exact ⟨hchanges.current, hchanges.cache, hchanges.pending, hchanges.outbox,
        hchanges.subscribed, hchanges.nextId⟩
  · exact hs

end Quiet

section Reconcile

variable {s : ExplorerStore}

theorem runReconcile_eq (s : ExplorerStore) (online : Bool) :
    s.runReconcile online =
      { s with
        current := deriveWant s.expanded
        reconcileScheduled := false
        rolledBack := []
        nextId := if (reconcileDiff (deriveWant s.expanded) s.current).1 = [] then s.nextId
          else s.nextId + 1
        pending := s.pending ++
          if (reconcileDiff (deriveWant s.expanded) s.current).1 = [] then []
          else [⟨s.nextId, (reconcileDiff (deriveWant s.expanded) s.current).1,
            if online then .waiting else .failed⟩]
        outbox := s.outbox ++ if online then
            (if (reconcileDiff (deriveWant s.expanded) s.current).2 = [] then []
              else [.unsubscribe (reconcileDiff (deriveWant s.expanded) s.current).2]) ++
            if (reconcileDiff (deriveWant s.expanded) s.current).1 = [] then []
            else [.subscribe s.nextId (reconcileDiff (deriveWant s.expanded) s.current).1]
          else [] } := by
  simp only [runReconcile, List.isEmpty_iff]
  by_cases hadd : (reconcileDiff (deriveWant s.expanded) s.current).1 = [] <;>
    by_cases hremove : (reconcileDiff (deriveWant s.expanded) s.current).2 = [] <;>
      cases online <;> simp [hadd, hremove, notify, request]

/-- What the frames of a reconciliation do, sent or not. -/
theorem mem_intended_reconcile (s : ExplorerStore) (online : Bool) (key : PeKey) :
    key ∈ (s.runReconcile online).intended ↔
      if online then key ∈ s.intended ∧ (key ∈ s.current → key ∈ deriveWant s.expanded) ∨
        key ∈ deriveWant s.expanded ∧ key ∉ s.current
      else key ∈ s.intended := by
  have hunsubscribe : ∀ (refs subscribed : List PeKey),
      key ∈ (if refs = [] then [] else [Frame.unsubscribe refs]).foldl Frame.apply subscribed ↔
        key ∈ subscribed ∧ key ∉ refs := by
    intro refs subscribed
    by_cases hnil : refs = [] <;> simp [hnil, Frame.apply]
  have hsubscribe : ∀ (id : ℕ) (refs subscribed : List PeKey),
      key ∈ (if refs = [] then [] else [Frame.subscribe id refs]).foldl Frame.apply subscribed ↔
        key ∈ subscribed ∨ key ∈ refs := by
    intro id refs subscribed
    by_cases hnil : refs = [] <;> simp [hnil, Frame.apply]
  rw [runReconcile_eq]
  cases online with
  | false => simp [intended]
  | true =>
      simp only [intended, if_true, List.foldl_append, hsubscribe, hunsubscribe, mem_toAdd,
        mem_toRemove, not_and, not_not]

theorem lt_of_mem_ids (h : s.Accounted) {id : ℕ} (hid : id ∈ s.outbox.filterMap Frame.id?) :
    id < s.nextId := by
  obtain ⟨frame, hframe, hsome⟩ := List.mem_filterMap.mp hid
  cases frame with
  | subscribe id' refs =>
      cases hsome
      exact h.bound _ (h.sent id refs hframe)
  | unsubscribe refs => cases hsome

theorem sound_reconcile (hs : s.Sound) {online : Bool}
    (htame : online = false → ∀ key ∈ s.current, key ∈ deriveWant s.expanded) :
    (s.runReconcile online).Sound := by
  have hcurrent : (s.runReconcile online).current = deriveWant s.expanded := by
    rw [runReconcile_eq]
  have hkept : ∀ r ∈ s.pending, r ∈ (s.runReconcile online).pending := by
    intro r hr
    rw [runReconcile_eq]
    exact List.mem_append_left _ hr
  have hadded : ∀ key ∈ deriveWant s.expanded, key ∉ s.current →
      ∃ r ∈ (s.runReconcile online).pending, (online = false → r.progress = .failed) ∧
        key ∈ r.keys := by
    intro key hwant hnot
    have hmem := mem_toAdd.mpr ⟨hwant, hnot⟩
    rw [runReconcile_eq]
    simp only [if_neg (List.ne_nil_of_mem hmem)]
    refine ⟨_, List.mem_append_right _ List.mem_cons_self, ?_, hmem⟩
    rintro rfl
    rfl
  refine ⟨⟨?_, ?_, ?_, ?_, ?_, ?_⟩, ?_, ?_⟩
  · intro key hkey
    rw [mem_intended_reconcile] at hkey
    rw [hcurrent]
    cases online with
    | false => exact htame rfl key (hs.accounted.intended key hkey)
    | true =>
        rcases hkey with ⟨hintended, hwant⟩ | ⟨hwant, -⟩
        · exact hwant (hs.accounted.intended key hintended)
        · exact hwant
  · intro key hwant
    rw [hcurrent] at hwant
    rw [mem_intended_reconcile]
    by_cases hkey : key ∈ s.current
    · rcases hs.accounted.current key hkey with hintended | ⟨r, hr, hfailed, hmem⟩
      · left
        cases online with
        | false => exact hintended
        | true => exact .inl ⟨hintended, fun _ ↦ hwant⟩
      · exact .inr ⟨r, hkept r hr, hfailed, hmem⟩
    · cases online with
      | true => exact .inl (.inr ⟨hwant, hkey⟩)
      | false =>
          obtain ⟨r, hr, hfailed, hmem⟩ := hadded key hwant hkey
          exact .inr ⟨r, hr, hfailed rfl, hmem⟩
  · rw [runReconcile_eq]
    simp only [List.map_append]
    refine List.nodup_append.mpr ⟨hs.accounted.ids, ?_, ?_⟩
    · split <;> simp
    · rintro id hid _ hnew rfl
      obtain ⟨r, hr, rfl⟩ := List.mem_map.mp hid
      have hlt := hs.accounted.bound r hr
      split at hnew
      · cases hnew
      · simp only [List.map_cons, List.map_nil, List.mem_singleton] at hnew
        omega
  · intro r hr
    rw [runReconcile_eq] at hr ⊢
    simp only [List.mem_append] at hr ⊢
    rcases hr with hr | hr
    · have hlt := hs.accounted.bound r hr
      split <;> omega
    · split at hr
      · cases hr
      · next hne =>
          obtain rfl := List.mem_singleton.mp hr
          rw [if_neg hne]
          exact Nat.lt_succ_self _
  · intro id refs hmem
    rw [runReconcile_eq] at hmem ⊢
    simp only [List.mem_append] at hmem ⊢
    rcases hmem with hmem | hmem
    · exact .inl (hs.accounted.sent id refs hmem)
    · cases online with
      | false => cases hmem
      | true =>
          simp only [if_true, List.mem_append] at hmem
          rcases hmem with hmem | hmem
          · split at hmem
            · cases hmem
            · cases List.mem_singleton.mp hmem
          · split at hmem
            · cases hmem
            · next hne =>
                cases List.mem_singleton.mp hmem
                rw [if_neg hne]
                exact .inr List.mem_cons_self
  · have hframes : ∀ (refs refs' : List PeKey),
        ((if refs = [] then [] else [Frame.unsubscribe refs]) ++
          if refs' = [] then [] else [Frame.subscribe s.nextId refs']).filterMap Frame.id? =
            if refs' = [] then [] else [s.nextId] := by
      intro refs refs'
      rw [List.filterMap_append]
      split <;> split <;> rfl
    rw [runReconcile_eq]
    simp only [List.filterMap_append]
    cases online with
    | false => simpa using hs.accounted.once
    | true =>
        simp only [if_true, hframes]
        refine List.nodup_append.mpr ⟨hs.accounted.once, ?_, ?_⟩
        · split <;> simp
        · rintro id hid _ hnew rfl
          have hlt := lt_of_mem_ids hs.accounted hid
          split at hnew
          · cases hnew
          · rw [List.mem_singleton] at hnew
            omega
  · intro key hwant
    rw [hcurrent] at hwant
    by_cases hkey : key ∈ s.current
    · rcases hs.loading key hkey with hcached | ⟨r, hr, hmem⟩
      · left
        rw [runReconcile_eq]
        exact hcached
      · exact .inr ⟨r, hkept r hr, hmem⟩
    · obtain ⟨r, hr, -, hmem⟩ := hadded key hwant hkey
      exact .inr ⟨r, hr, hmem⟩
  · intro _ key
    rw [runReconcile_eq]
    simp

end Reconcile

section Backend

variable {s : ExplorerStore} {outbox : List Frame}

theorem sound_unsubscribe (hs : s.Sound) {refs : List PeKey} {answers : BackendAnswers}
    (houtbox : s.outbox = .unsubscribe refs :: outbox)
    (hresolved : ∀ key ∈ refs, key ∉ answers.unresolved) :
    ({ s with outbox := outbox }.handleFrame answers (.unsubscribe refs)).Sound := by
  have hintended : ∀ key, key ∈ ({ s with outbox := outbox }.handleFrame answers
      (.unsubscribe refs)).intended ↔ key ∈ s.intended := by
    intro key
    rw [intended, intended, houtbox, List.foldl_cons]
    apply mem_frames_congr
    simp only [handleFrame, Frame.apply, List.mem_filter, Bool.or_eq_true, Bool.not_eq_true',
      List.contains_eq_mem, decide_eq_false_iff_not, decide_eq_true_eq]
    constructor
    · rintro ⟨hmem, hnot | hunresolved⟩
      · exact ⟨hmem, hnot⟩
      · exact ⟨hmem, fun hrefs ↦ hresolved key hrefs hunresolved⟩
    · exact fun ⟨hmem, hnot⟩ ↦ ⟨hmem, .inl hnot⟩
  refine ⟨⟨?_, ?_, hs.accounted.ids, hs.accounted.bound, ?_, ?_⟩, hs.loading, hs.reported⟩
  · exact fun key hkey ↦ hs.accounted.intended key ((hintended key).mp hkey)
  · intro key hkey
    rw [hintended]
    exact hs.accounted.current key hkey
  · intro id refs' hmem
    apply hs.accounted.sent
    rw [houtbox]
    exact List.mem_cons_of_mem _ hmem
  · have honce := hs.accounted.once
    rw [houtbox] at honce
    exact honce

/-- The backend handles a `subscribe`: it registers the keys, or it fails the request. -/
theorem sound_subscribe (hs : s.Sound) {id : ℕ} {refs subscribed : List PeKey}
    {progress : Progress} (houtbox : s.outbox = .subscribe id refs :: outbox)
    (hregistered : subscribed = s.subscribed ∪ refs ∨
      subscribed = s.subscribed ∧ progress = .failed) :
    ({ s with outbox := outbox, subscribed := subscribed }.setProgress id progress).Sound := by
  have hwaits : ⟨id, refs, .waiting⟩ ∈ s.pending := by
    apply hs.accounted.sent
    rw [houtbox]
    exact List.mem_cons_self
  have hother : ∀ r ∈ s.pending, r.progress = .failed → r.id ≠ id := by
    intro r hr hfailed hid
    cases eq_of_id_eq hs.accounted hr hwaits hid
    cases hfailed
  have honce := hs.accounted.once
  rw [houtbox, List.filterMap_cons_some (by rfl : Frame.id? (.subscribe id refs) = some id),
    List.nodup_cons] at honce
  have hintended : ∀ key, key ∈ outbox.foldl Frame.apply (s.subscribed ∪ refs) ↔
      key ∈ s.intended := by
    intro key
    rw [intended, houtbox]
    rfl
  have hids : ({ s with outbox := outbox, subscribed := subscribed }.setProgress id
      progress).pending.map PendingSubscribe.id = s.pending.map PendingSubscribe.id :=
    ids_setProgress progress
  refine ⟨⟨?_, ?_, hids ▸ hs.accounted.ids, ?_, ?_, honce.2⟩, ?_, hs.reported⟩
  · intro key hkey
    apply hs.accounted.intended
    rw [← hintended]
    refine mem_frames_mono outbox (fun hmem ↦ ?_) hkey
    rcases hregistered with heq | ⟨heq, -⟩
    · exact heq ▸ hmem
    · rw [List.mem_union_iff]
      exact .inl (heq ▸ hmem)
  · intro key hkey
    rcases hs.accounted.current key hkey with hmem | ⟨r, hr, hfailed, hmem⟩
    · rw [← hintended] at hmem
      rcases hregistered with heq | ⟨heq, hprogress⟩
      · subst heq
        exact .inl hmem
      · subst heq
        by_cases hrefs : key ∈ refs
        · right
          exact ⟨_, mem_setProgress_self progress hwaits rfl, hprogress, hrefs⟩
        · left
          refine (mem_frames_congr outbox ?_).mp hmem
          rw [List.mem_union_iff]
          exact or_iff_left hrefs
    · right
      exact ⟨r, mem_setProgress_of_ne progress hr (hother r hr hfailed), hfailed, hmem⟩
  · intro r hr
    obtain ⟨r', hr', rfl⟩ := List.mem_map.mp hr
    have hlt := hs.accounted.bound r' hr'
    split <;> exact hlt
  · intro id' refs' hmem
    have hsent := hs.accounted.sent id' refs' (houtbox ▸ List.mem_cons_of_mem _ hmem)
    apply mem_setProgress_of_ne progress hsent
    rintro rfl
    exact honce.1 (List.mem_filterMap.mpr ⟨_, hmem, rfl⟩)
  · intro key hkey
    rcases hs.loading key hkey with hcached | ⟨r, hr, hmem⟩
    · exact .inl hcached
    · right
      by_cases hid : r.id = id
      · exact ⟨_, mem_setProgress_self progress hr hid, hmem⟩
      · exact ⟨r, mem_setProgress_of_ne progress hr hid, hmem⟩

theorem sound_backend (hs : s.Sound) {answers : BackendAnswers} (htame : s.Tame (.backend answers)) :
    (s.step (.backend answers)).Sound := by
  rw [Tame] at htame
  rw [step]
  split
  · exact hs
  · next frame outbox houtbox =>
      rw [houtbox] at htame
      cases frame with
      | unsubscribe refs => exact sound_unsubscribe hs houtbox htame
      | subscribe id refs =>
          rw [handleFrame]
          split
          · exact sound_subscribe hs houtbox (.inr ⟨rfl, rfl⟩)
          · exact sound_subscribe hs houtbox (.inl rfl)

end Backend

section Settling

variable {s : ExplorerStore} {r : PendingSubscribe} {id : ℕ}

theorem accounted_settle (h : s.Accounted) (hr : s.request? id = some r)
    (hprogress : r.progress ≠ .waiting)
    (hfailed : r.progress = .failed → ∀ key ∈ r.keys, key ∉ s.current) :
    (s.settle id).Accounted := by
  obtain ⟨hmem, hid⟩ := mem_of_request? hr
  refine ⟨h.intended, ?_, h.ids.sublist (List.filter_sublist.map _), ?_, ?_, h.once⟩
  · intro key hkey
    rcases h.current key hkey with hintended | ⟨r', hr', hfailed', hmem'⟩
    · exact .inl hintended
    · refine .inr ⟨r', mem_settle.mpr ⟨hr', fun hid' ↦ ?_⟩, hfailed', hmem'⟩
      cases eq_of_id_eq h hr' hmem (hid'.trans hid.symm)
      exact hfailed hfailed' key hmem' hkey
  · exact fun r' hr' ↦ h.bound r' (mem_settle.mp hr').1
  · intro id' refs hframe
    have hsent := h.sent id' refs hframe
    refine mem_settle.mpr ⟨hsent, fun hid' ↦ ?_⟩
    cases eq_of_id_eq h hsent hmem (hid'.trans hid.symm)
    exact hprogress rfl

theorem applyReply_spec (s : ExplorerStore) (snapshots : List (PeKey × List Entry)) :
    s.applyReply snapshots = { s with cache := (s.applyReply snapshots).cache } ∧
      ∀ key, (∃ listing, s.cache.lookup key = some listing ∧ listing.source = key) ∨
          key ∈ deriveWant s.expanded ∧ key ∈ snapshots.map Prod.fst →
        ∃ listing, (s.applyReply snapshots).cache.lookup key = some listing ∧
          listing.source = key := by
  induction snapshots generalizing s with
  | nil =>
      refine ⟨rfl, fun key h ↦ ?_⟩
      rcases h with hown | ⟨-, hmem⟩
      · exact hown
      · cases hmem
  | cons snap snapshots ih =>
      have hstep : s.applyReply (snap :: snapshots) =
          (if s.isWanted snap.1 then s.applySnapshot snap.1 snap.2 else s).applyReply snapshots :=
        rfl
      rw [hstep]
      split
      · next hwanted =>
          obtain ⟨hfields, hown⟩ := ih (s.applySnapshot snap.1 snap.2)
          refine ⟨hfields, fun key h ↦ hown key ?_⟩
          rw [applySnapshot]
          simp only [lookup_setKey]
          by_cases hkey : key = snap.1
          · exact .inl ⟨_, if_pos hkey, hkey.symm⟩
          · rw [if_neg hkey]
            exact h.imp_right fun h ↦ ⟨h.1, (List.mem_cons.mp h.2).resolve_left hkey⟩
      · next hunwanted =>
          obtain ⟨hfields, hown⟩ := ih s
          refine ⟨hfields, fun key h ↦ hown key (h.imp_right fun h ↦ ⟨h.1, ?_⟩)⟩
          refine (List.mem_cons.mp h.2).resolve_left ?_
          rintro rfl
          exact hunwanted (List.contains_iff_mem.mpr h.1)

theorem sound_resolve (hs : s.Sound) {keys : List PeKey} {snapshots : List (PeKey × List Entry)}
    (hr : s.request? id = some ⟨id, keys, .answered snapshots⟩)
    (htame : ∀ key ∈ keys, key ∈ s.current →
      key ∈ deriveWant s.expanded ∧ key ∈ snapshots.map Prod.fst) :
    ((s.settle id).applyReply snapshots).Sound := by
  obtain ⟨hfields, hown⟩ := applyReply_spec (s.settle id) snapshots
  obtain ⟨hmem, hid⟩ := mem_of_request? hr
  have haccounted := accounted_settle hs.accounted hr (by simp) (by simp)
  rw [hfields]
  refine ⟨⟨haccounted.intended, haccounted.current, haccounted.ids, haccounted.bound,
    haccounted.sent, haccounted.once⟩, ?_, hs.reported⟩
  intro key hkey
  rcases hs.loading key hkey with hcached | ⟨r, hr', hkeys⟩
  · exact .inl (hown key (.inl hcached))
  · by_cases hsame : r.id = id
    · cases eq_of_id_eq hs.accounted hr' hmem (hsame.trans hid.symm)
      exact .inl (hown key (.inr (htame key hkeys hkey)))
    · exact .inr ⟨r, mem_settle.mpr ⟨hr', hsame⟩, hkeys⟩

theorem accounted_rollBack (h : s.Accounted) {keys : List PeKey}
    (htame : ∀ key ∈ keys, key ∈ s.current → key ∉ s.intended) :
    (s.rollBack keys).Accounted := by
  refine ⟨?_, ?_, h.ids, h.bound, h.sent, h.once⟩
  · intro key hkey
    have hcurrent := h.intended key hkey
    refine List.mem_filter.mpr ⟨hcurrent, ?_⟩
    simp only [List.contains_eq_mem, Bool.not_eq_true', decide_eq_false_iff_not]
    exact fun hmem ↦ htame key hmem hcurrent hkey
  · intro key hkey
    exact h.current key (List.mem_of_mem_filter hkey)

theorem sound_reject (hs : s.Sound) (hr : s.request? id = some r)
    (hprogress : r.progress ≠ .waiting)
    (htame : ∀ key ∈ r.keys, key ∈ s.current → key ∉ s.intended) :
    ((s.settle id).rollBack r.keys).Sound := by
  obtain ⟨hmem, hid⟩ := mem_of_request? hr
  have hkept : ∀ key, key ∈ ((s.settle id).rollBack r.keys).current ↔
      key ∈ s.current ∧ key ∉ r.keys := by
    intro key
    simp [rollBack, settle]
  have haccounted : ((s.rollBack r.keys).settle id).Accounted := by
    apply accounted_settle (accounted_rollBack hs.accounted htame) hr hprogress
    intro _ key hkey hcurrent
    exact ((hkept key).mp hcurrent).2 hkey
  refine ⟨haccounted, ?_, ?_⟩
  · intro key hkey
    obtain ⟨hcurrent, hnot⟩ := (hkept key).mp hkey
    rcases hs.loading key hcurrent with hcached | ⟨r', hr', hkeys⟩
    · exact .inl hcached
    · refine .inr ⟨r', mem_settle.mpr ⟨hr', fun hsame ↦ ?_⟩, hkeys⟩
      cases eq_of_id_eq hs.accounted hr' hmem (hsame.trans hid.symm)
      exact hnot hkeys
  · intro hscheduled key
    rw [hkept, hs.reported hscheduled key, and_assoc, rollBack, List.mem_append, not_or]
    rfl

end Settling

section Run

variable {s : ExplorerStore}

theorem sound_expanded (hs : s.Sound) (expanded : List PeKey) :
    { s with expanded := expanded }.scheduleReconcile.Sound := by
  refine SameReported.scheduled (s := s) ?_ hs rfl
  exact ⟨fun _ ↦ Iff.rfl, fun _ _ ↦ rfl, rfl, rfl, rfl, rfl⟩

theorem sound_snapshot (hs : s.Sound) (target : PeKey) (entries : List Entry) :
    (s.applySnapshot target entries).Sound := by
  refine ⟨⟨hs.accounted.intended, hs.accounted.current, hs.accounted.ids, hs.accounted.bound,
    hs.accounted.sent, hs.accounted.once⟩, ?_, hs.reported⟩
  intro key hkey
  refine (hs.loading key hkey).imp_left ?_
  rintro ⟨listing, hlookup, hsource⟩
  rw [applySnapshot]
  simp only [lookup_setKey]
  by_cases heq : key = target
  · exact ⟨_, if_pos heq, heq.symm⟩
  · exact ⟨listing, (if_neg heq).trans hlookup, hsource⟩

theorem sound_step (hs : s.Sound) {a : StoreAct} (htame : s.Tame a) : (s.step a).Sound := by
  cases a with
  | setExpanded key isExpanded => exact sound_expanded hs _
  | setExpandedKeys keys => exact sound_expanded hs _
  | snapshot target entries =>
      rw [step]
      split
      · exact sound_snapshot hs target entries
      · exact hs
  | delta target changes => exact sound_delta hs htame
  | reconcile online =>
      rw [step]
      split
      · next hscheduled => exact sound_reconcile hs (htame hscheduled)
      · exact hs
  | backend answers => exact sound_backend hs htame
  | resolve id =>
      rw [Tame] at htame
      rw [step]
      split
      · next id' keys snapshots hr =>
          rw [hr] at htame
          obtain rfl : id' = id := (mem_of_request? hr).2
          exact sound_resolve hs hr htame
      · exact hs
  | reject id =>
      rw [Tame] at htame
      rw [step]
      split
      · next id' keys snapshots hr =>
          rw [hr] at htame
          exact sound_reject hs hr (by simp) htame
      · next id' keys hr =>
          rw [hr] at htame
          exact sound_reject hs hr (by simp) htame
      · exact hs

theorem settled_of_sound (hs : s.Sound) : s.Settled := by
  rintro ⟨houtbox, hpending, hscheduled⟩
  have hintended : s.intended = s.subscribed := by rw [intended, houtbox, List.foldl_nil]
  refine ⟨hs.reported hscheduled, fun key ↦ ⟨?_, fun hkey ↦ ?_⟩, fun key hkey ↦ ?_⟩
  · exact fun hkey ↦ hs.accounted.intended key (hintended ▸ hkey)
  · rcases hs.accounted.current key hkey with hmem | ⟨r, hr, -⟩
    · exact hintended ▸ hmem
    · rw [hpending] at hr
      cases hr
  · rcases hs.loading key hkey with hcached | ⟨r, hr, -⟩
    · exact hcached
    · rw [hpending] at hr
      cases hr

theorem sound_new : new.Sound := by
  refine ⟨⟨?_, ?_, List.nodup_nil, ?_, ?_, List.nodup_nil⟩, ?_, ?_⟩
  · exact fun _ h ↦ by cases h
  · exact fun _ h ↦ by cases h
  · exact fun _ h ↦ by cases h
  · exact fun _ _ h ↦ by cases h
  · exact fun _ h ↦ by cases h
  · exact fun _ _ ↦ by simp [new, deriveWant]

/-- In every tame run, the reported set is at rest what the backend has registered, and what is
wanted and has not been rejected. -/
theorem reported_set_settles (acts : List StoreAct) (h : Meets step Tame new acts) :
    Throughout step Settled new acts := by
  have hsound : Throughout step Sound new acts :=
    throughout_of_meets (P := Sound) (fun _ _ hs htame ↦ sound_step hs htame) sound_new h
  exact hsound.mono fun _ ↦ settled_of_sound

def peRoot : PeKey := ⟨"pe", []⟩

def peChild : PeKey := ⟨"pe", "a".toList⟩

/-- Every directory is empty but for the root, which has the directory `a`. -/
def oneDir : BackendAnswers :=
  ⟨[], fun key ↦ some (if key = peRoot then [⟨"a", .dir, none, none⟩] else [])⟩

def browse : List StoreAct :=
  [.setExpanded peRoot true, .reconcile true, .backend oneDir, .resolve 0,
    .setExpanded peChild true, .reconcile true, .delta peRoot [.added "b" .file none],
    .backend oneDir, .reconcile true, .resolve 1, .setExpanded peChild false, .reconcile true,
    .backend oneDir]

theorem browse_settles : Throughout step Settled new browse :=
  reported_set_settles browse (by decide)

def expandOffline : List StoreAct := [.setExpanded peRoot true, .reconcile false, .reject 0]

/-- The directory below the root cannot be mounted. -/
def expandUnlisted : List StoreAct :=
  [.setExpandedKeys [peRoot, peChild], .reconcile true,
    .backend ⟨[], fun key ↦ if key = peRoot then some [] else none⟩, .resolve 0]

/-- The connection is lost before the directory is collapsed. -/
def collapseOffline : List StoreAct :=
  [.setExpanded peRoot true, .reconcile true, .backend oneDir, .resolve 0,
    .setExpanded peRoot false, .reconcile false]

/-- The expanded directory below the root gets another name. -/
def renameExpanded : List StoreAct :=
  [.setExpandedKeys [peRoot, peChild], .reconcile true, .backend oneDir, .resolve 0,
    .delta peRoot [.renamed "a" "z"], .reconcile true]

/-- At rest, a wanted directory is not reported, a reported one has no listing, one that is not
reported stays registered, and a renamed one is not registered under its new name. -/
theorem runs_disagree_at_rest :
    ¬ Throughout step (fun s ↦ s.Quiescent → s.Agrees []) new expandOffline ∧
      ¬ Throughout step (fun s ↦ s.Quiescent → s.Agrees []) new expandUnlisted ∧
      ¬ Throughout step (fun s ↦ s.Quiescent → s.Agrees []) new collapseOffline ∧
      ¬ Throughout step (fun s ↦ s.Quiescent → s.Agrees []) new renameExpanded := by
  refine ⟨fun h ↦ ?_, fun h ↦ ?_, fun h ↦ ?_, fun h ↦ ?_⟩
  · have hreported := ((h.last ⟨by decide, by decide, by decide⟩).reported peRoot).mpr (by decide)
    exact absurd hreported (by decide)
  · obtain ⟨listing, hlookup, -⟩ :=
      (h.last ⟨by decide, by decide, by decide⟩).cached peChild (by decide)
    have hnone : (run step new expandUnlisted).cache.lookup peChild = none := by decide
    rw [hnone] at hlookup
    cases hlookup
  · have hreported := ((h.last ⟨by decide, by decide, by decide⟩).subscribed peRoot).mp (by decide)
    exact absurd hreported (by decide)
  · have hregistered := ((h.last ⟨by decide, by decide, by decide⟩).subscribed
      ⟨"pe", "z".toList⟩).mpr (by decide)
    exact absurd hregistered (by decide)

end Run

end ExplorerStore

end Zaowutai.Explorer
