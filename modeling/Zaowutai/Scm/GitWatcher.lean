import Mathlib.Data.Finset.Basic
import Zaowutai.Lib.Run
import Zaowutai.Lib.Table

/-!
# Watches on the metadata of repositories

A repository is watched by its git directory and the directory of its refs.
The registry has an entry for every text under which an event on one of these
paths may be reported.  An entry names the repositories that hold it and the
paths which were registered when it was made, and an entry that nobody holds
any more gives its paths back.
-/

namespace Zaowutai.Scm

open Zaowutai.Lib

inductive RecursiveMode
  | recursive
  | nonRecursive
  deriving DecidableEq, Repr

inductive ScmError
  | io (path message : String)
  deriving DecidableEq, Repr

structure WatchEntry (Path : Type*) where
  repoIds : Finset String
  registered : List Path
  deriving DecidableEq

structure PathLibrary (Path : Type*) where
  join : Path → String → Path
  toStringLossy : Path → String

structure WatchSystem (Path : Type*) where
  watch : Path → RecursiveMode → Except String Unit
  canonicalize : Path → Option Path

structure GitWatcher (Path : Type*) where
  /-- The paths that are registered with the system. -/
  inner : Table Path RecursiveMode
  registry : Table String (WatchEntry Path)

namespace GitWatcher

variable {Path : Type*} [DecidableEq Path] (lib : PathLibrary Path)

def new : GitWatcher Path := ⟨∅, ∅⟩

def keysFor (system : WatchSystem Path) (path : Path) : List String :=
  let key := lib.toStringLossy path
  match (system.canonicalize path).map lib.toStringLossy with
  | some real => if real = key then [key] else [key, real]
  | none => [key]

/-- The paths that a call of `watch` registers with the system. -/
def registeredPaths (system : WatchSystem Path) (gitDir : Path) :
    Except ScmError (List (Path × RecursiveMode)) :=
  match system.watch gitDir .nonRecursive with
  | .error err => .error (.io (lib.toStringLossy gitDir) ("watch git dir failed: " ++ err))
  | .ok () =>
      let refsDir := lib.join gitDir "refs"
      match system.watch refsDir .recursive with
      | .ok () => .ok [(gitDir, .nonRecursive), (refsDir, .recursive)]
      -- a repository without refs is watched by its git directory alone
      | .error _ => .ok [(gitDir, .nonRecursive)]

def hold (registered : List Path) (repoId : String) (registry : Table String (WatchEntry Path))
    (key : String) : Table String (WatchEntry Path) :=
  match registry.lookup key with
  | some entry => registry.insert key { entry with repoIds := insert repoId entry.repoIds }
  | none => registry.insert key ⟨{repoId}, registered⟩

variable (w : GitWatcher Path)

def watch (system : WatchSystem Path) (repoId : String) (gitDir : Path) :
    GitWatcher Path × Except ScmError Unit :=
  match registeredPaths lib system gitDir with
  | .error err => (w, .error err)
  | .ok watched =>
      let registered := watched.map Prod.fst
      let keys := registered.flatMap (keysFor lib system)
      ({ inner := watched.foldl (fun inner path ↦ inner.insert path.1 path.2) w.inner
         registry := keys.foldl (hold registered repoId) w.registry }, .ok ())

def disowned (repoId : String) : Table String (WatchEntry Path) :=
  w.registry.mapValues fun _ entry ↦ { entry with repoIds := entry.repoIds.erase repoId }

/-- The paths of the entries that nobody holds any more. -/
def released (repoId : String) : List Path :=
  ((w.disowned repoId).values.filter fun entry ↦ entry.repoIds = ∅).flatMap (·.registered)

def unwatch (repoId : String) : GitWatcher Path :=
  { inner := w.inner.eraseAll (w.released repoId)
    registry := (w.disowned repoId).retain fun _ entry ↦ entry.repoIds ≠ ∅ }

end GitWatcher

/-- The paths that a repository claims since a call of `watch`, with the texts under which it
holds them. -/
structure WatchClaim (Path : Type*) where
  repoId : String
  registered : List Path
  keys : List String
  deriving DecidableEq

structure WatchState (Path : Type*) where
  watcher : GitWatcher Path
  claims : List (WatchClaim Path)

inductive WatchCall (Path : Type*)
  | watch (system : WatchSystem Path) (repoId : String) (gitDir : Path)
  | unwatch (repoId : String)

namespace WatchState

variable {Path : Type*} [DecidableEq Path] (lib : PathLibrary Path)

def new : WatchState Path := ⟨.new, []⟩

/-- What the repository claims by a call of `watch` that succeeds. -/
def claimed (system : WatchSystem Path) (repoId : String) (watched : List (Path × RecursiveMode)) :
    WatchClaim Path :=
  let registered := watched.map Prod.fst
  ⟨repoId, registered, registered.flatMap (GitWatcher.keysFor lib system)⟩

def step (s : WatchState Path) : WatchCall Path → WatchState Path
  | .watch system repoId gitDir =>
      { watcher := (s.watcher.watch lib system repoId gitDir).1
        claims :=
          match GitWatcher.registeredPaths lib system gitDir with
          | .ok watched => claimed lib system repoId watched :: s.claims
          | .error _ => s.claims }
  | .unwatch repoId =>
      { watcher := s.watcher.unwatch repoId
        claims := s.claims.filter (·.repoId ≠ repoId) }

end WatchState

/-!
## Claimed paths and registered paths

The paths that are registered with the system are the claimed ones as long as
every repository, when it leaves, is the only holder of an entry for each path
that it alone claims, and of no entry that lists a path of another.  This is so
when repositories whose paths or texts overlap have the same ones.
-/

variable {Path : Type*} {lib : PathLibrary Path}

def WatchEntry.SoleHolder (entry : WatchEntry Path) (repoId : String) : Prop :=
  ∀ id ∈ entry.repoIds, id = repoId

namespace GitWatcher

variable {w : GitWatcher Path} {path : Path} {repoId : String}

theorem lookup_disowned (key : String) :
    (w.disowned repoId).lookup key = (w.registry.lookup key).map fun entry ↦
      { entry with repoIds := entry.repoIds.erase repoId } :=
  Table.lookup_mapValues _

theorem erase_repoIds_eq_empty {entry : WatchEntry Path} :
    entry.repoIds.erase repoId = ∅ ↔ entry.SoleHolder repoId := by
  rw [Finset.eq_empty_iff_forall_notMem]
  refine forall_congr' fun id ↦ ?_
  rw [Finset.mem_erase, not_and', not_not]

theorem mem_released :
    path ∈ w.released repoId ↔ ∃ key entry, w.registry.lookup key = some entry ∧
      entry.SoleHolder repoId ∧ path ∈ entry.registered := by
  constructor
  · intro h
    obtain ⟨_, hmem, hpath⟩ := List.mem_flatMap.mp h
    obtain ⟨hvalue, hempty⟩ := List.mem_filter.mp hmem
    obtain ⟨key, hkey⟩ := Table.mem_values_iff.mp hvalue
    rw [lookup_disowned] at hkey
    obtain ⟨entry, hentry, rfl⟩ := Option.map_eq_some_iff.mp hkey
    exact ⟨key, entry, hentry, erase_repoIds_eq_empty.mp (of_decide_eq_true hempty), hpath⟩
  · rintro ⟨key, entry, hentry, hholder, hpath⟩
    have hkey : (w.disowned repoId).lookup key =
        some { entry with repoIds := entry.repoIds.erase repoId } := by
      rw [lookup_disowned, hentry, Option.map_some]
    exact List.mem_flatMap.mpr ⟨_, List.mem_filter.mpr ⟨Table.mem_values_iff.mpr ⟨key, hkey⟩,
      decide_eq_true (erase_repoIds_eq_empty.mpr hholder)⟩, hpath⟩

variable [DecidableEq Path]

theorem mem_inner_unwatch :
    path ∈ (w.unwatch repoId).inner ↔ path ∈ w.inner ∧ path ∉ w.released repoId := by
  rw [← AList.lookup_isSome, ← AList.lookup_isSome, unwatch, Table.lookup_eraseAll]
  by_cases h : path ∈ w.released repoId <;> simp [h]

theorem mem_foldl_insert {watched : List (Path × RecursiveMode)}
    {inner : Table Path RecursiveMode} :
    path ∈ watched.foldl (fun inner path ↦ inner.insert path.1 path.2) inner ↔
      path ∈ inner ∨ path ∈ watched.map Prod.fst := by
  induction watched generalizing inner with
  | nil => simp
  | cons first watched ih =>
      rw [List.foldl_cons, ih, AList.mem_insert, List.map_cons, List.mem_cons]
      tauto

theorem watch_of_ok {system : WatchSystem Path} {gitDir : Path}
    {watched : List (Path × RecursiveMode)}
    (h : registeredPaths lib system gitDir = .ok watched) :
    (w.watch lib system repoId gitDir).1 =
      { inner := watched.foldl (fun inner path ↦ inner.insert path.1 path.2) w.inner
        registry := (WatchState.claimed lib system repoId watched).keys.foldl
          (hold (watched.map Prod.fst) repoId) w.registry } := by
  rw [watch, h]
  rfl

theorem watch_of_error {system : WatchSystem Path} {gitDir : Path} {err : ScmError}
    (h : registeredPaths lib system gitDir = .error err) :
    (w.watch lib system repoId gitDir).1 = w := by
  rw [watch, h]

end GitWatcher

namespace WatchState

variable (s : WatchState Path)

def Exact : Prop :=
  ∀ path, path ∈ s.watcher.inner ↔ ∃ claim ∈ s.claims, path ∈ claim.registered

def ClaimedByOther (repoId : String) (path : Path) : Prop :=
  ∃ claim ∈ s.claims, claim.repoId ≠ repoId ∧ path ∈ claim.registered

structure Releasable (repoId : String) : Prop where
  others : ∀ key entry, s.watcher.registry.lookup key = some entry → entry.SoleHolder repoId →
    ∀ path ∈ entry.registered, ¬ s.ClaimedByOther repoId path
  own : ∀ claim ∈ s.claims, claim.repoId = repoId → ∀ path ∈ claim.registered,
    ¬ s.ClaimedByOther repoId path → ∃ key entry,
      s.watcher.registry.lookup key = some entry ∧ entry.SoleHolder repoId ∧
        path ∈ entry.registered

def MayLeave : WatchCall Path → Prop
  | .watch _ _ _ => True
  | .unwatch repoId => s.Releasable repoId

variable {s}

theorem exact_new : (new : WatchState Path).Exact := by
  intro path
  refine iff_of_false (AList.notMem_empty path) ?_
  rintro ⟨claim, hclaim, -⟩
  cases hclaim

variable [DecidableEq Path]

theorem exact_watch (h : s.Exact) (system : WatchSystem Path) (repoId : String) (gitDir : Path) :
    (step lib s (.watch system repoId gitDir)).Exact := by
  intro path
  rw [step]
  cases hwatched : GitWatcher.registeredPaths lib system gitDir with
  | error err => exact GitWatcher.watch_of_error hwatched ▸ h path
  | ok watched =>
      rw [GitWatcher.watch_of_ok hwatched]
      simp only
      rw [GitWatcher.mem_foldl_insert, h path, List.exists_mem_cons_iff, or_comm]
      rfl

theorem claimed_unwatch {repoId : String} {path : Path} :
    (∃ claim ∈ (step lib s (.unwatch repoId)).claims, path ∈ claim.registered) ↔
      s.ClaimedByOther repoId path := by
  refine exists_congr fun claim ↦ ?_
  rw [step, List.mem_filter, decide_eq_true_iff, and_assoc]

theorem exact_unwatch_iff (h : s.Exact) (repoId : String) :
    (step lib s (.unwatch repoId)).Exact ↔ s.Releasable repoId := by
  have hpaths : (step lib s (.unwatch repoId)).Exact ↔ ∀ path,
      (∃ claim ∈ s.claims, path ∈ claim.registered) ∧ path ∉ s.watcher.released repoId ↔
        s.ClaimedByOther repoId path := by
    refine forall_congr' fun path ↦ ?_
    rw [claimed_unwatch, ← h path, ← GitWatcher.mem_inner_unwatch]
    rfl
  rw [hpaths]
  constructor
  · intro hexact
    constructor
    · intro key entry hentry hholder path hpath hother
      exact ((hexact path).mpr hother).2
        (GitWatcher.mem_released.mpr ⟨key, entry, hentry, hholder, hpath⟩)
    · intro claim hclaim _ path hpath hother
      by_contra hkept
      exact hother ((hexact path).mp ⟨⟨claim, hclaim, hpath⟩,
        fun hreleased ↦ hkept (GitWatcher.mem_released.mp hreleased)⟩)
  · intro hreleasable path
    constructor
    · rintro ⟨⟨claim, hclaim, hpath⟩, hkept⟩
      by_contra hother
      have hrepo : claim.repoId = repoId := by
        by_contra hne
        exact hother ⟨claim, hclaim, hne, hpath⟩
      exact hkept (GitWatcher.mem_released.mpr
        (hreleasable.own claim hclaim hrepo path hpath hother))
    · rintro ⟨claim, hclaim, hother, hpath⟩
      refine ⟨⟨claim, hclaim, hpath⟩, fun hreleased ↦ ?_⟩
      obtain ⟨key, entry, hentry, hholder, hlisted⟩ := GitWatcher.mem_released.mp hreleased
      exact hreleasable.others key entry hentry hholder path hlisted ⟨claim, hclaim, hother, hpath⟩

/-- Along a run the registered paths are the claimed ones, exactly when every repository that
leaves can be released. -/
theorem exact_iff_mayLeave (lib : PathLibrary Path) (calls : List (WatchCall Path)) :
    Throughout (step lib) Exact new calls ↔ Meets (step lib) MayLeave new calls := by
  have htrue : ∀ (s : WatchState Path) (call : WatchCall Path), True → True := fun _ _ h ↦ h
  refine throughout_iff_meets htrue (fun s call _ h ↦ ?_) trivial exact_new
  cases call with
  | watch system repoId gitDir => exact iff_of_true (exact_watch h system repoId gitDir) trivial
  | unwatch repoId => exact exact_unwatch_iff h repoId

/-- Without refs the first repository registers the git directory alone, the second one, which
shares it, registers the refs as well; when the second leaves, its entry for the refs gives back
the git directory too. -/
theorem shared_git_dir_not_exact :
    ¬ ∀ (lib : PathLibrary String) (calls : List (WatchCall String)),
      Throughout (step lib) Exact new calls := by
  intro h
  let lib : PathLibrary String := ⟨fun path child ↦ path ++ "/" ++ child, id⟩
  let early : WatchSystem String :=
    ⟨fun path _ ↦ if path = "/w/.git" then .ok () else .error "No path was found.", some⟩
  let late : WatchSystem String := ⟨fun _ _ ↦ .ok (), some⟩
  have hexact := (h lib [.watch early "one" "/w/.git", .watch late "two" "/w/.git",
    .unwatch "two"]).last
  exact absurd ((hexact "/w/.git").mpr ⟨⟨"one", ["/w/.git"], ["/w/.git"]⟩, by decide, by decide⟩)
    (by decide)

end WatchState

end Zaowutai.Scm
