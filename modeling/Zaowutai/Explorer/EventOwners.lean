import Zaowutai.Explorer.WatchedNodes

/-!
# The owners of an event

The table of spellings has room for one directory under each of them.  As long
as no two names of one directory are watched together, every watched directory
gets the events under both of its spellings.  A second name of a directory
takes the real path of the first away, or gets none itself.
-/

namespace Zaowutai.Explorer

open Zaowutai.Lib

def ownerAt (watched : Table String WatchEntry) (key : String) : Option String :=
  (watched.lookup key).map WatchEntry.lexical

theorem mem_resolveOwner {watched : Table String WatchEntry} {path : EventPath} {owner : String} :
    owner ∈ resolveOwner watched path ↔
      ∃ key, (path.self = some key ∨ path.parent = some key) ∧ ownerAt watched key = some owner := by
  obtain ⟨self, parent⟩ := path
  have hself : owner ∈ ((self.bind watched.lookup).map WatchEntry.lexical).toList ↔
      ∃ key, self = some key ∧ ownerAt watched key = some owner := by
    cases self <;> simp [ownerAt]
  have hparent : (parent.bind watched.lookup).map WatchEntry.lexical = some owner ↔
      ∃ key, parent = some key ∧ ownerAt watched key = some owner := by
    cases parent <;> simp [ownerAt]
  simp only [or_and_right, exists_or, ← hself, ← hparent]
  unfold resolveOwner
  dsimp only
  generalize ((self.bind watched.lookup).map WatchEntry.lexical).toList = owners
  cases parent.bind watched.lookup with
  | none => simp
  | some entry =>
      simp only [Option.map_some, Option.some.injEq]
      split
      · next hmem => exact ⟨Or.inl, fun h ↦ h.elim id fun heq ↦ heq ▸ hmem⟩
      · rw [List.mem_append, List.mem_singleton, eq_comm (a := owner)]

inductive WatchCall
  | watch (answer : Except FsError Unit) (canonical : String)
  | unwatch (canonical : String)

/-- The watcher, and the directories that have been watched and not been unwatched since. -/
structure Watches where
  watcher : LocalWatcher
  current : Finset String

namespace Watches

variable (urls : UrlCrate) (realpath : String → Option String)

def new : Watches := ⟨.new, ∅⟩

def step (s : Watches) : WatchCall → Watches
  | .watch answer canonical =>
      let watched := s.watcher.watch urls realpath answer canonical
      match watched.2 with
      | .ok _ => ⟨watched.1, insert canonical s.current⟩
      | .error _ => ⟨watched.1, s.current⟩
  | .unwatch canonical => ⟨s.watcher.unwatch ⟨canonical⟩, s.current.erase canonical⟩

def real (canonical : String) : Option String := (urls.uriToPath canonical).bind realpath

/-- The spellings under which the events of a directory are reported. -/
def Spells (key canonical : String) : Prop := key = canonical ∨ real urls realpath canonical = some key

/-- Two names of one directory: they have a spelling in common. -/
def SameDir (a b : String) : Prop :=
  ∃ key, Spells urls realpath key a ∧ Spells urls realpath key b

structure Attributes (s : Watches) : Prop where
  each : ∀ canonical ∈ s.current, ∀ key, Spells urls realpath key canonical →
    ∀ path : EventPath, (path.self = some key ∨ path.parent = some key) →
      canonical ∈ resolveOwner s.watcher.watched path
  only : ∀ path, ∀ owner ∈ resolveOwner s.watcher.watched path, owner ∈ s.current

def Apart (s : Watches) : WatchCall → Prop
  | .watch answer canonical =>
      (s.watcher.watch urls realpath answer canonical).2 = .ok ⟨canonical⟩ →
        ∀ other ∈ s.current, other ≠ canonical → ¬SameDir urls realpath other canonical
  | .unwatch _ => True

structure Tracks (s : Watches) : Prop where
  known : ∀ key owner, ownerAt s.watcher.watched key = some owner →
    owner ∈ s.current ∧ Spells urls realpath key owner
  own : ∀ canonical ∈ s.current, ownerAt s.watcher.watched canonical = some canonical

variable {urls realpath} {s : Watches} {canonical key : String} {answer : Except FsError Unit}

variable (urls realpath) in
theorem watch_cases (w : LocalWatcher) (answer : Except FsError Unit) (canonical : String) :
    (∃ e, w.watch urls realpath answer canonical = (w, .error e)) ∨
      (w.watch urls realpath answer canonical).2 = .ok ⟨canonical⟩ ∧
        ∀ key, ownerAt (w.watch urls realpath answer canonical).1.watched key =
          if key = canonical then some canonical
          else if real urls realpath canonical = some key then
            (ownerAt w.watched key).or (some canonical)
          else ownerAt w.watched key := by
  unfold LocalWatcher.watch real
  cases urls.uriToPath canonical with
  | none => exact Or.inl ⟨_, rfl⟩
  | some path =>
      cases answer with
      | error e => exact Or.inl ⟨e, rfl⟩
      | ok _ =>
          refine Or.inr ⟨rfl, fun key ↦ ?_⟩
          have hown : ∀ key, ownerAt (w.watched.insert canonical ⟨canonical, path⟩) key =
              if key = canonical then some canonical else ownerAt w.watched key := by
            intro key
            rw [ownerAt, Table.lookup_insert_eq]
            split <;> rfl
          dsimp only
          rw [Option.bind_some]
          cases realpath path with
          | none => simp only [hown, reduceCtorEq, if_false]
          | some other =>
              simp only [Option.some.injEq]
              split
              · next hmem =>
                  rw [hown]
                  split
                  · rfl
                  · next hne =>
                      split
                      · next hreal =>
                          -- the real path leads to another watched directory already
                          subst hreal
                          have hold : other ∈ w.watched := by simpa [hne] using hmem
                          obtain ⟨entry, hentry⟩ :=
                            Option.isSome_iff_exists.mp (AList.lookup_isSome.mpr hold)
                          rw [ownerAt, hentry]
                          rfl
                      · rfl
              · next hfree =>
                  have hfree' : ¬(other = canonical ∨ other ∈ w.watched) := by simpa using hfree
                  rw [ownerAt, Table.lookup_insert_eq]
                  by_cases hkey : key = other
                  · subst hkey
                    have hnone : w.watched.lookup key = none :=
                      AList.lookup_eq_none.mpr fun hmem ↦ hfree' (Or.inr hmem)
                    rw [if_pos rfl, if_neg fun heq ↦ hfree' (Or.inl heq), if_pos rfl, ownerAt,
                      hnone]
                    rfl
                  · rw [if_neg hkey, if_neg (Ne.symm hkey), ← ownerAt, hown]

theorem ownerAt_unwatch (w : LocalWatcher) (canonical key : String) :
    ownerAt (w.unwatch ⟨canonical⟩).watched key =
      (ownerAt w.watched key).filter (· ≠ canonical) := by
  have hwatched : (w.unwatch ⟨canonical⟩).watched =
      w.watched.retain fun _ entry ↦ entry.lexical ≠ canonical := by
    unfold LocalWatcher.unwatch
    dsimp only
    split <;> rfl
  rw [hwatched, ownerAt, Table.lookup_retain, ownerAt]
  cases w.watched.lookup key with
  | none => rfl
  | some entry => by_cases h : entry.lexical = canonical <;> simp [h, Option.filter]

theorem tracks_step (h : Tracks urls realpath s) (call : WatchCall) :
    Tracks urls realpath (s.step urls realpath call) := by
  cases call with
  | watch answer canonical =>
      obtain ⟨e, herror⟩ | ⟨hok, howner⟩ := watch_cases urls realpath s.watcher answer canonical
      · simp only [step, herror]
        exact h
      · simp only [step, hok]
        refine ⟨fun key owner hkey ↦ ?_, fun other hother ↦ ?_⟩
        · rw [howner] at hkey
          split at hkey
          · next heq =>
              obtain rfl := Option.some.inj hkey
              exact ⟨Finset.mem_insert_self _ _, Or.inl heq⟩
          · split at hkey
            · next hreal =>
                obtain hold | ⟨-, hnew⟩ := Option.or_eq_some_iff.mp hkey
                · obtain ⟨hmem, hspells⟩ := h.known key owner hold
                  exact ⟨Finset.mem_insert_of_mem hmem, hspells⟩
                · obtain rfl := Option.some.inj hnew
                  exact ⟨Finset.mem_insert_self _ _, Or.inr hreal⟩
            · obtain ⟨hmem, hspells⟩ := h.known key owner hkey
              exact ⟨Finset.mem_insert_of_mem hmem, hspells⟩
        · rw [howner]
          split
          · next heq => rw [heq]
          · next hne =>
              have hold := h.own other ((Finset.mem_insert.mp hother).resolve_left hne)
              split
              · rw [hold, Option.some_or]
              · exact hold
  | unwatch canonical =>
      refine ⟨fun key owner hkey ↦ ?_, fun other hother ↦ ?_⟩
      · simp only [step, ownerAt_unwatch] at hkey
        obtain ⟨hold, hne⟩ := Option.filter_eq_some_iff.mp hkey
        obtain ⟨hmem, hspells⟩ := h.known key owner hold
        exact ⟨Finset.mem_erase.mpr ⟨by simpa using hne, hmem⟩, hspells⟩
      · obtain ⟨hne, hmem⟩ := Finset.mem_erase.mp hother
        simp only [step, ownerAt_unwatch, h.own other hmem]
        exact Option.filter_eq_some_iff.mpr ⟨rfl, by simpa using hne⟩

theorem attributes_iff (h : Tracks urls realpath s) :
    Attributes urls realpath s ↔ ∀ canonical ∈ s.current, ∀ key,
      Spells urls realpath key canonical → ownerAt s.watcher.watched key = some canonical := by
  constructor
  · intro hattr canonical hmem key hspells
    obtain ⟨key', hkey, howner⟩ :=
      mem_resolveOwner.mp (hattr.each canonical hmem key hspells ⟨none, some key⟩ (Or.inr rfl))
    obtain hnone | hkey := hkey
    · cases hnone
    · rw [Option.some.inj hkey]
      exact howner
  · intro hall
    refine ⟨fun canonical hmem key hspells path hpath ↦ ?_, fun path owner howner ↦ ?_⟩
    · exact mem_resolveOwner.mpr ⟨key, hpath, hall canonical hmem key hspells⟩
    · obtain ⟨key, -, hkey⟩ := mem_resolveOwner.mp howner
      exact (h.known key owner hkey).1

theorem apart_of_attributes (h : Tracks urls realpath s) (hattr : Attributes urls realpath s)
    {a b : String} (ha : a ∈ s.current) (hb : b ∈ s.current) (hne : a ≠ b) :
    ¬SameDir urls realpath a b := by
  rintro ⟨key, hkey, hkey'⟩
  have howner := (attributes_iff h).mp hattr
  have hsame := (howner a ha key hkey).symm.trans (howner b hb key hkey')
  exact hne (Option.some.inj hsame)

theorem tracks_new : Tracks urls realpath new :=
  ⟨(fun _ _ h ↦ by cases h), fun _ h ↦ absurd h (Finset.notMem_empty _)⟩

theorem attributes_new : Attributes urls realpath new :=
  (attributes_iff tracks_new).mpr fun _ h ↦ absurd h (Finset.notMem_empty _)

theorem attributes_step_iff (h : Tracks urls realpath s) (hattr : Attributes urls realpath s)
    (call : WatchCall) :
    Attributes urls realpath (s.step urls realpath call) ↔ Apart urls realpath s call := by
  have hnext := tracks_step h call
  have howner := (attributes_iff h).mp hattr
  cases call with
  | watch answer canonical =>
      constructor
      · intro hafter hok other hother hne
        have hcurrent : (s.step urls realpath (.watch answer canonical)).current =
            insert canonical s.current := by simp only [step, hok]
        refine apart_of_attributes hnext hafter ?_ ?_ hne
        · exact hcurrent ▸ Finset.mem_insert_of_mem hother
        · exact hcurrent ▸ Finset.mem_insert_self _ _
      · intro hapart
        rw [attributes_iff hnext]
        obtain ⟨e, herror⟩ | ⟨hok, hwatched⟩ := watch_cases urls realpath s.watcher answer canonical
        · simp only [step, herror]
          exact howner
        · simp only [step, hok, hwatched, Finset.mem_insert]
          intro other hother key hspells
          have hsame : ∀ name ∈ s.current, Spells urls realpath key name →
              Spells urls realpath key canonical → name = canonical := fun name hname hkey hkey' ↦
            not_not.mp fun hne ↦ hapart hok name hname hne ⟨key, hkey, hkey'⟩
          by_cases hkey : Spells urls realpath key canonical
          · obtain rfl : other = canonical :=
              hother.elim id fun hmem ↦ hsame other hmem hspells hkey
            split
            · rfl
            · next hne =>
                rw [if_pos (hkey.resolve_left hne)]
                cases hold : ownerAt s.watcher.watched key with
                | none => rfl
                | some owner =>
                    obtain ⟨hmem, hspells'⟩ := h.known key owner hold
                    rw [hsame owner hmem hspells' hkey, Option.some_or]
          · have hother' : other ∈ s.current :=
              hother.resolve_left fun heq ↦ hkey (heq ▸ hspells)
            rw [if_neg fun heq ↦ hkey (Or.inl heq), if_neg fun heq ↦ hkey (Or.inr heq)]
            exact howner other hother' key hspells
  | unwatch canonical =>
      refine iff_of_true ?_ trivial
      rw [attributes_iff hnext]
      intro other hother key hspells
      obtain ⟨hne, hmem⟩ := Finset.mem_erase.mp hother
      simp only [step, ownerAt_unwatch, howner other hmem key hspells]
      exact Option.filter_eq_some_iff.mpr ⟨rfl, by simpa using hne⟩

/-- In every run, all events of the watched directories are attributed after each request exactly
as long as no two names of one directory are watched together. -/
theorem attributes_iff_apart (urls : UrlCrate) (realpath : String → Option String)
    (calls : List WatchCall) :
    Throughout (step urls realpath) (Attributes urls realpath) new calls ↔
      Meets (step urls realpath) (Apart urls realpath) new calls :=
  throughout_iff_meets (Q := Tracks urls realpath) (fun _ call h ↦ tracks_step h call)
    (fun _ call h hattr ↦ attributes_step_iff h hattr call) tracks_new attributes_new

section Alias

-- two links to one directory

def linkTarget (path : String) : Option String :=
  if path = "/a" ∨ path = "/b" then some "/real" else some path

/-- When the first link is unwatched the second one is watched still, and an event under the real
path has no owner. -/
theorem second_link_unowned :
    let s := run (step Shard.plainUrls linkTarget) new
      [.watch (.ok ()) "/a", .watch (.ok ()) "/b", .unwatch "/a"]
    s.current = {"/b"} ∧ real Shard.plainUrls linkTarget "/b" = some "/real" ∧
      resolveOwner s.watcher.watched ⟨some "/real/new.txt", some "/real"⟩ = [] := by
  decide

end Alias

end Watches

end Zaowutai.Explorer
