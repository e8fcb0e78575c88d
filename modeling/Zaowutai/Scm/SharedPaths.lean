import Zaowutai.Scm.GitWatcher

/-!
# Repositories that share their paths

Where two calls of `watch` overlap in a path or a text, they register the same
paths under the same texts.  Then the holders of an entry are the repositories
that claim its paths, and whoever leaves can be released.
-/

namespace Zaowutai.Scm

open Zaowutai.Lib

variable {Path : Type*} {lib : PathLibrary Path}

namespace GitWatcher

variable {w : GitWatcher Path} {repoId : String} {registry : Table String (WatchEntry Path)}
  {registered : List Path} {keys : List String}
  {key id : String}

/-- The entry under a text that the repository comes to hold. -/
def heldEntry (registered : List Path) (repoId : String) :
    Option (WatchEntry Path) → WatchEntry Path
  | some entry => { entry with repoIds := insert repoId entry.repoIds }
  | none => ⟨{repoId}, registered⟩

theorem lookup_hold (key' : String) :
    (hold registered repoId registry key).lookup key' =
      if key' = key then some (heldEntry registered repoId (registry.lookup key))
      else registry.lookup key' := by
  rw [hold]
  split
  · next entry hentry => rw [Table.lookup_insert_eq, hentry, heldEntry]
  · next hnone => rw [Table.lookup_insert_eq, hnone, heldEntry]

/-- The repository holds the entry of the text. -/
def HeldBy (registry : Table String (WatchEntry Path)) (key id : String) : Prop :=
  ∃ entry, registry.lookup key = some entry ∧ id ∈ entry.repoIds

theorem heldBy_hold {key' : String} :
    HeldBy (hold registered repoId registry key) key' id ↔
      HeldBy registry key' id ∨ id = repoId ∧ key' = key := by
  rw [HeldBy, HeldBy, lookup_hold]
  by_cases hkey : key' = key
  · subst hkey
    rw [if_pos rfl]
    cases registry.lookup key' with
    | none => simp [heldEntry]
    | some entry => simp [heldEntry, or_comm]
  · simp [hkey]

theorem heldBy_foldl_hold :
    HeldBy (keys.foldl (hold registered repoId) registry) key id ↔
      HeldBy registry key id ∨ id = repoId ∧ key ∈ keys := by
  induction keys generalizing registry with
  | nil => simp
  | cons first keys ih =>
      rw [List.foldl_cons, ih, heldBy_hold, List.mem_cons]
      tauto

theorem held_foldl_hold
    (h : ∀ key entry, registry.lookup key = some entry → ∃ id, id ∈ entry.repoIds) :
    ∀ key entry, (keys.foldl (hold registered repoId) registry).lookup key = some entry →
      ∃ id, id ∈ entry.repoIds := by
  induction keys generalizing registry with
  | nil => exact h
  | cons first keys ih =>
      refine ih fun key entry hentry ↦ ?_
      rw [lookup_hold] at hentry
      split at hentry
      · obtain rfl := Option.some.inj hentry
        refine ⟨repoId, ?_⟩
        cases registry.lookup first with
        | none => exact Finset.mem_singleton_self repoId
        | some old => exact Finset.mem_insert_self repoId old.repoIds
      · exact h key entry hentry

theorem registered_of_foldl_hold {entry : WatchEntry Path}
    (h : (keys.foldl (hold registered repoId) registry).lookup key = some entry) :
    (∃ old, registry.lookup key = some old ∧ entry.registered = old.registered) ∨
      registry.lookup key = none ∧ entry.registered = registered := by
  induction keys generalizing registry with
  | nil => exact .inl ⟨entry, h, rfl⟩
  | cons first keys ih =>
      have hrest := ih h
      rw [lookup_hold] at hrest
      by_cases hkey : key = first
      · subst hkey
        rw [if_pos rfl] at hrest
        rcases hrest with ⟨mid, hmid, hsame⟩ | ⟨hnone, -⟩
        · obtain rfl := Option.some.inj hmid
          cases hlookup : registry.lookup key with
          | none => exact .inr ⟨rfl, by rw [hsame, hlookup, heldEntry]⟩
          | some old => exact .inl ⟨old, rfl, by rw [hsame, hlookup, heldEntry]⟩
        · cases hnone
      · rwa [if_neg hkey] at hrest

variable [DecidableEq Path]

theorem lookup_unwatch (key : String) :
    (w.unwatch repoId).registry.lookup key =
      (((w.registry.lookup key).map fun entry ↦
        { entry with repoIds := entry.repoIds.erase repoId }).filter
          fun entry ↦ entry.repoIds ≠ ∅) := by
  rw [unwatch, Table.lookup_retain, lookup_disowned]

theorem lookup_unwatch_eq_some {entry : WatchEntry Path} :
    (w.unwatch repoId).registry.lookup key = some entry ↔
      ∃ old, w.registry.lookup key = some old ∧ entry.repoIds ≠ ∅ ∧
        { old with repoIds := old.repoIds.erase repoId } = entry := by
  rw [lookup_unwatch, Option.filter_eq_some_iff, Option.map_eq_some_iff]
  simp only [decide_eq_true_iff]
  constructor
  · rintro ⟨⟨old, hold, rfl⟩, hne⟩
    exact ⟨old, hold, hne, rfl⟩
  · rintro ⟨old, hold, hne, rfl⟩
    exact ⟨⟨old, hold, rfl⟩, hne⟩

theorem heldBy_unwatch :
    HeldBy (w.unwatch repoId).registry key id ↔ HeldBy w.registry key id ∧ id ≠ repoId := by
  constructor
  · rintro ⟨entry, hentry, hid⟩
    obtain ⟨old, hold, -, rfl⟩ := lookup_unwatch_eq_some.mp hentry
    obtain ⟨hne, hid⟩ := Finset.mem_erase.mp hid
    exact ⟨⟨old, hold, hid⟩, hne⟩
  · rintro ⟨⟨old, hold, hid⟩, hne⟩
    have hmem : id ∈ old.repoIds.erase repoId := Finset.mem_erase.mpr ⟨hne, hid⟩
    exact ⟨_, lookup_unwatch_eq_some.mpr ⟨old, hold, Finset.ne_empty_of_mem hmem, rfl⟩, hmem⟩

end GitWatcher

def WatchClaim.SameOrApart (claim other : WatchClaim Path) : Prop :=
  claim.registered = other.registered ∧ claim.keys = other.keys ∨
    claim.registered.Disjoint other.registered ∧ claim.keys.Disjoint other.keys

namespace WatchClaim

variable {claim other : WatchClaim Path}

theorem SameOrApart.symm (h : claim.SameOrApart other) : other.SameOrApart claim := by
  rcases h with ⟨hpaths, hkeys⟩ | ⟨hpaths, hkeys⟩
  · exact .inl ⟨hpaths.symm, hkeys.symm⟩
  · exact .inr ⟨hpaths.symm, hkeys.symm⟩

theorem SameOrApart.same_of_key (h : claim.SameOrApart other) {key : String}
    (hkey : key ∈ claim.keys) (hother : key ∈ other.keys) :
    claim.registered = other.registered :=
  (h.resolve_right fun hapart ↦ hapart.2 hkey hother).1

theorem SameOrApart.same_of_path (h : claim.SameOrApart other) {path : Path}
    (hpath : path ∈ claim.registered) (hother : path ∈ other.registered) :
    claim.keys = other.keys :=
  (h.resolve_right fun hapart ↦ hapart.1 hpath hother).2

end WatchClaim

namespace WatchState

variable (lib) (s : WatchState Path)

/-- A call of `watch` shares all with a claim or nothing. -/
def Coherent : WatchCall Path → Prop
  | .watch system repoId gitDir =>
      ∀ watched, GitWatcher.registeredPaths lib system gitDir = .ok watched →
        ∀ claim ∈ s.claims, (claimed lib system repoId watched).SameOrApart claim
  | .unwatch _ => True

structure Tidy : Prop where
  holders : ∀ key id, GitWatcher.HeldBy s.watcher.registry key id ↔
    ∃ claim ∈ s.claims, claim.repoId = id ∧ key ∈ claim.keys
  held : ∀ key entry, s.watcher.registry.lookup key = some entry →
    ∃ id, id ∈ entry.repoIds
  listed : ∀ key entry, s.watcher.registry.lookup key = some entry →
    ∀ claim ∈ s.claims, key ∈ claim.keys → entry.registered = claim.registered
  named : ∀ claim ∈ s.claims, ∀ path ∈ claim.registered, ∃ key, key ∈ claim.keys
  apart : ∀ claim ∈ s.claims, ∀ other ∈ s.claims, claim.repoId ≠ other.repoId →
    claim.SameOrApart other

variable {lib s}

theorem tidy_new : (new : WatchState Path).Tidy := by
  refine ⟨fun key id ↦ ?_, ?_, ?_, ?_, ?_⟩
  · refine iff_of_false ?_ ?_
    · rintro ⟨entry, hentry, -⟩
      cases hentry
    · rintro ⟨claim, hclaim, -⟩
      cases hclaim
  · intro key entry hentry
    cases hentry
  · intro key entry hentry
    cases hentry
  · intro claim hclaim
    cases hclaim
  · intro claim hclaim
    cases hclaim

theorem exists_key_claimed {system : WatchSystem Path} {repoId : String}
    {watched : List (Path × RecursiveMode)} {path : Path}
    (h : path ∈ (claimed lib system repoId watched).registered) :
    ∃ key, key ∈ (claimed lib system repoId watched).keys := by
  refine ⟨lib.toStringLossy path, List.mem_flatMap.mpr ⟨path, h, ?_⟩⟩
  rw [GitWatcher.keysFor]
  split
  · next real _ => by_cases hreal : real = lib.toStringLossy path <;> simp [hreal]
  · exact List.mem_singleton_self _

theorem releasable_of_tidy (h : s.Tidy) (repoId : String) : s.Releasable repoId := by
  constructor
  · intro key entry hentry hholder path hpath
    rintro ⟨other, hother, hne, hotherPath⟩
    obtain ⟨id, hid⟩ := h.held key entry hentry
    obtain ⟨claim, hclaim, rfl, hkey⟩ := (h.holders key id).mp ⟨entry, hentry, hid⟩
    rw [h.listed key entry hentry claim hclaim hkey] at hpath
    have hrepo := hholder _ hid
    have hsame :=
      (h.apart claim hclaim other hother (hrepo ▸ hne.symm)).same_of_path hpath hotherPath
    obtain ⟨entry', hentry', hheld⟩ :=
      (h.holders key other.repoId).mpr ⟨other, hother, rfl, hsame ▸ hkey⟩
    rw [hentry] at hentry'
    obtain rfl := Option.some.inj hentry'
    exact hne (hholder _ hheld)
  · rintro claim hclaim rfl path hpath hother
    obtain ⟨key, hkey⟩ := h.named claim hclaim path hpath
    obtain ⟨entry, hentry, -⟩ := (h.holders key claim.repoId).mpr ⟨claim, hclaim, rfl, hkey⟩
    refine ⟨key, entry, hentry, fun id hid ↦ ?_, ?_⟩
    · obtain ⟨first, hfirst, rfl, hfirstKey⟩ := (h.holders key id).mp ⟨entry, hentry, hid⟩
      by_contra hne
      have hsame := (h.apart first hfirst claim hclaim hne).same_of_key hfirstKey hkey
      exact hother ⟨first, hfirst, hne, hsame ▸ hpath⟩
    · rw [h.listed key entry hentry claim hclaim hkey]
      exact hpath

variable [DecidableEq Path]

theorem tidy_watch (h : s.Tidy) {system : WatchSystem Path} {repoId : String} {gitDir : Path}
    (hcoherent : s.Coherent lib (.watch system repoId gitDir)) :
    (step lib s (.watch system repoId gitDir)).Tidy := by
  rw [step]
  cases hwatched : GitWatcher.registeredPaths lib system gitDir with
  | error err =>
      rw [GitWatcher.watch_of_error hwatched]
      exact h
  | ok watched =>
      have hoverlap := hcoherent watched hwatched
      have hnamed := fun path ↦ @exists_key_claimed _ lib system repoId watched path
      rw [GitWatcher.watch_of_ok hwatched]
      simp only
      generalize hclaim : claimed lib system repoId watched = claim at hoverlap hnamed
      obtain ⟨rfl, hpaths⟩ : claim.repoId = repoId ∧ claim.registered = watched.map Prod.fst := by
        rw [← hclaim]
        exact ⟨rfl, rfl⟩
      rw [← hpaths]
      refine ⟨fun key id ↦ ?_, fun key entry hentry ↦ ?_, fun key entry hentry ↦ ?_, ?_, ?_⟩
      · rw [GitWatcher.heldBy_foldl_hold, h.holders key id, List.exists_mem_cons_iff, or_comm,
          @eq_comm _ id]
      · exact GitWatcher.held_foldl_hold h.held key entry hentry
      · intro other hother hkey
        rcases GitWatcher.registered_of_foldl_hold hentry with ⟨old, hold, hsame⟩ | ⟨hnone, hsame⟩
        · rcases List.mem_cons.mp hother with rfl | hother
          · obtain ⟨id, hid⟩ := h.held key old hold
            obtain ⟨first, hfirst, -, hfirstKey⟩ := (h.holders key id).mp ⟨old, hold, hid⟩
            rw [hsame, h.listed key old hold first hfirst hfirstKey]
            exact ((hoverlap first hfirst).same_of_key hkey hfirstKey).symm
          · rw [hsame, h.listed key old hold other hother hkey]
        · rcases List.mem_cons.mp hother with rfl | hother
          · exact hsame
          · obtain ⟨old, hold, -⟩ := (h.holders key other.repoId).mpr ⟨other, hother, rfl, hkey⟩
            cases hnone.symm.trans hold
      · intro other hother path hpath
        rcases List.mem_cons.mp hother with rfl | hother
        · exact hnamed path hpath
        · exact h.named other hother path hpath
      · intro first hfirst other hother hne
        rcases List.mem_cons.mp hfirst with rfl | hold
        · rcases List.mem_cons.mp hother with rfl | hother
          · exact absurd rfl hne
          · exact hoverlap other hother
        · rcases List.mem_cons.mp hother with rfl | hother
          · exact (hoverlap first hold).symm
          · exact h.apart first hold other hother hne

theorem tidy_unwatch (h : s.Tidy) (repoId : String) : (step lib s (.unwatch repoId)).Tidy := by
  have hmem : ∀ claim, claim ∈ (step lib s (.unwatch repoId)).claims ↔
      claim ∈ s.claims ∧ claim.repoId ≠ repoId := by
    intro claim
    rw [step, List.mem_filter, decide_eq_true_iff]
  refine ⟨fun key id ↦ ?_, fun key entry hentry ↦ ?_, fun key entry hentry ↦ ?_, ?_, ?_⟩
  · rw [step, GitWatcher.heldBy_unwatch, h.holders key id]
    constructor
    · rintro ⟨⟨claim, hclaim, rfl, hkey⟩, hne⟩
      exact ⟨claim, (hmem claim).mpr ⟨hclaim, hne⟩, rfl, hkey⟩
    · rintro ⟨claim, hclaim, rfl, hkey⟩
      obtain ⟨hclaim, hne⟩ := (hmem claim).mp hclaim
      exact ⟨⟨claim, hclaim, rfl, hkey⟩, hne⟩
  · obtain ⟨old, -, hne, -⟩ := GitWatcher.lookup_unwatch_eq_some.mp hentry
    exact Finset.nonempty_iff_ne_empty.mpr hne
  · intro claim hclaim hkey
    obtain ⟨old, hold, -, rfl⟩ := GitWatcher.lookup_unwatch_eq_some.mp hentry
    exact h.listed key old hold claim ((hmem claim).mp hclaim).1 hkey
  · exact fun claim hclaim ↦ h.named claim ((hmem claim).mp hclaim).1
  · exact fun claim hclaim other hother ↦
      h.apart claim ((hmem claim).mp hclaim).1 other ((hmem other).mp hother).1

end WatchState

end Zaowutai.Scm
