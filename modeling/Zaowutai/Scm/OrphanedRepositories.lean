import Mathlib.Data.List.Dedup
import Zaowutai.Lib.Run
import Zaowutai.Lib.Table

/-!
# The source control runtime

The runtime holds the repositories it has discovered, with the sessions that
are subscribed to each and the watches on them, and for each project the
repositories that it last resolved to.  The actor answers one request after
the other.
-/

namespace Zaowutai.Scm

open Zaowutai.Lib

structure FileRef where
  peId : String
  relativePath : String
  deriving DecidableEq, Repr

structure ScmRepository where
  repoId : String
  root : FileRef
  head : Option String
  deriving DecidableEq, Repr

structure ScmStatus where
  seq : ℕ
  resources : List FileRef
  deriving DecidableEq, Repr

structure RepoState where
  repository : ScmRepository
  gitDir : String
  last : Option ScmStatus
  seq : ℕ
  subscribers : List String
  deriving DecidableEq, Repr

/-- The session is no longer among the subscribers; without any the status is forgotten. -/
def RepoState.drop (session : String) (state : RepoState) : RepoState :=
  let subscribers := state.subscribers.filter (· ≠ session)
  { state with
    subscribers
    last := if subscribers.isEmpty then none else state.last }

/-- What the discovery below one root finds: repositories with their git directories. -/
abbrev Discovery := Except String (List (ScmRepository × Option String))

/-- The frame `scm/repositoriesChanged`. -/
structure RepositoriesChanged where
  projectId : String
  added : List ScmRepository
  removed : List String
  deriving DecidableEq, Repr

structure ScmRuntime where
  repos : Table String RepoState
  /-- The repositories whose git directory is watched. -/
  watching : List String
  projectRepos : Table String (List String)
  projectInterest : Table String (List String)
  /-- The projects that the store no longer has. -/
  deleted : List String

/-- A request to the actor, or the deletion of a project.  `roots` is what the discovery finds
below each root of the project; `scope` lists the entries that the user of the request may
reach; `armed` says whether the watch could be set, and `resources` are the paths of the status,
if it could be computed. -/
inductive ScmAct
  | listRepositories (session projectId : String) (roots : List Discovery)
  | rootsChanged (projectId : String) (roots : List Discovery)
  | subscribe (session repoId : String) (scope : List String) (armed : Bool)
      (resources : Option (List String))
  | unsubscribe (session repoId : String)
  | disconnect (session : String)
  | deleteProject (projectId : String)

namespace ScmRuntime

variable (s : ScmRuntime)

def new : ScmRuntime := ⟨∅, [], ∅, ∅, []⟩

/-- A repository that is known keeps its subscribers and its sequence number. -/
def register (found : ScmRepository × Option String) : ScmRuntime :=
  match s.repos.lookup found.1.repoId with
  | some _ =>
      { s with repos := s.repos.modify found.1.repoId fun state ↦
          { state with repository := found.1 } }
  | none =>
      { s with repos := s.repos.insert found.1.repoId ⟨found.1, found.2.getD "", none, 0, []⟩ }

def discovered (roots : List Discovery) : List (ScmRepository × Option String) :=
  roots.flatMap fun
    | .ok repositories => repositories
    | .error _ => []

def discoverRoots (roots : List Discovery) : ScmRuntime × List ScmRepository :=
  ((discovered roots).foldl register s, (discovered roots).map Prod.fst)

def discover (projectId : String) (roots : List Discovery) : ScmRuntime × List ScmRepository :=
  let (s, found) := s.discoverRoots roots
  ({ s with projectRepos := s.projectRepos.insert projectId (found.map (·.repoId)).dedup }, found)

def unwatch (repoId : String) : ScmRuntime :=
  { s with watching := s.watching.filter (· ≠ repoId) }

def releaseRepo (repoId : String) : ScmRuntime :=
  { s.unwatch repoId with repos := s.repos.erase repoId }

def reposOf (projectId : String) : List String := (s.projectRepos.lookup projectId).getD []

def recomputeProject (projectId : String) (roots : List Discovery) :
    ScmRuntime × List ScmRepository × List String :=
  let (s, now) := s.discoverRoots roots
  let nowIds := (now.map (·.repoId)).dedup
  let previous := s.reposOf projectId
  let added := now.filter (·.repoId ∉ previous)
  let removed := previous.filter (· ∉ nowIds)
  let s := { s with projectRepos := s.projectRepos.insert projectId nowIds }
  (removed.foldl releaseRepo s, added, removed)

def projectSubscribersOf (projectId : String) : List String :=
  (s.projectInterest.lookup projectId).getD []

def registerInterest (session projectId : String) : ScmRuntime :=
  { s with projectInterest :=
      s.projectInterest.insert projectId ((s.projectSubscribersOf projectId).insert session) }

def refresh (repoId : String) (resources : Option (List String)) : ScmRuntime :=
  match resources with
  | none => s
  | some paths =>
      { s with repos := s.repos.modify repoId fun state ↦
          { state with
            seq := state.seq + 1
            last := some ⟨state.seq + 1, paths.map (⟨state.repository.root.peId, ·⟩)⟩ } }

/-- The first subscriber sets the watch, before the status is computed. -/
def subscribe (session repoId : String) (armed : Bool) (resources : Option (List String)) :
    ScmRuntime :=
  match s.repos.lookup repoId with
  | none => s
  | some state =>
      let s' := { s with repos := s.repos.modify repoId fun state ↦
        { state with subscribers :=
            if session ∈ state.subscribers then state.subscribers
            else state.subscribers ++ [session] } }
      if state.subscribers.isEmpty && armed then
        { s' with watching := s'.watching.insert repoId }.refresh repoId resources
      else s'.refresh repoId resources

def unsubscribe (session repoId : String) : ScmRuntime :=
  match s.repos.lookup repoId with
  | none => s
  | some state =>
      let s' := { s with repos := s.repos.modify repoId (RepoState.drop session) }
      if (RepoState.drop session state).subscribers.isEmpty then s'.unwatch repoId else s'

def dropSession (session : String) : ScmRuntime :=
  -- only the repositories that this session has left without subscribers
  let left (state : RepoState) : Bool :=
    session ∈ state.subscribers && (RepoState.drop session state).subscribers.isEmpty
  let orphaned := (s.repos.retain fun _ state ↦ left state).keys
  let s' := { s with repos := s.repos.mapValues fun _ state ↦
    if session ∈ state.subscribers then RepoState.drop session state else state }
  let s'' := orphaned.foldl unwatch s'
  let interest := s''.projectInterest.mapValues fun _ sessions ↦ sessions.filter (· ≠ session)
  { s'' with projectInterest := interest.retain fun _ sessions ↦ !sessions.isEmpty }

/-- The frames that are pushed to the sessions, with the next state. -/
def perform : ScmAct → ScmRuntime × List (String × RepositoriesChanged)
  | .listRepositories session projectId roots =>
      let s := s.registerInterest session projectId
      if projectId ∈ s.deleted then (s, []) else ((s.discover projectId roots).1, [])
  | .rootsChanged projectId roots =>
      -- a deleted project has no roots to resolve
      if projectId ∈ s.deleted then (s, [])
      else
        let (s, added, removed) := s.recomputeProject projectId roots
        if added.isEmpty && removed.isEmpty then (s, [])
        else
          (s, (s.projectSubscribersOf projectId).map (·, ⟨projectId, added, removed⟩))
  | .subscribe session repoId scope armed resources =>
      match s.repos.lookup repoId with
      | some state =>
          if state.repository.root.peId ∈ scope then
            (s.subscribe session repoId armed resources, [])
          else (s, [])
      | none => (s, [])
  | .unsubscribe session repoId => (s.unsubscribe session repoId, [])
  | .disconnect session => (s.dropSession session, [])
  | .deleteProject projectId => ({ s with deleted := s.deleted.insert projectId }, [])

def step (act : ScmAct) : ScmRuntime := (s.perform act).1

end ScmRuntime

/-!
## No orphaned repository

Whatever is registered or watched is a repository of a project, and what
leaves the last project is released and reported.  A change of the roots sees
to both; a listing overwrites what the project resolved to, and the deletion
of a project skips the recomputation.
-/

namespace ScmRuntime

section Laws

variable (s : ScmRuntime)

def Registered (repoId : String) : Prop := (s.repos.lookup repoId).isSome = true

def InSomeProject (repoId : String) : Prop :=
  ∃ projectId, projectId ∉ s.deleted ∧ repoId ∈ s.reposOf projectId

def Elsewhere (projectId repoId : String) : Prop :=
  ∃ other, other ∉ s.deleted ∧ other ≠ projectId ∧ repoId ∈ s.reposOf other

structure Rooted : Prop where
  repos : ∀ repoId, s.Registered repoId → s.InSomeProject repoId
  watching : ∀ repoId ∈ s.watching, s.InSomeProject repoId

def Released (act : ScmAct) : Prop :=
  ∀ projectId, projectId ∉ s.deleted → ∀ repoId ∈ s.reposOf projectId,
    ¬ (s.step act).InSomeProject repoId →
      repoId ∉ (s.step act).watching ∧
        ∀ session ∈ s.projectSubscribersOf projectId, ∃ frame,
          (session, frame) ∈ (s.perform act).2 ∧ frame.projectId = projectId ∧
            repoId ∈ frame.removed

/-- The repository is in another project, or has been released already and nobody is interested
in this one. -/
def Spared (projectId repoId : String) : Prop :=
  s.Elsewhere projectId repoId ∨
    ¬ s.Registered repoId ∧ s.projectSubscribersOf projectId = []

def Kept : ScmAct → Prop
  | .listRepositories _ projectId roots =>
      projectId ∉ s.deleted → ∀ repoId ∈ s.reposOf projectId,
        repoId ∉ (discovered roots).map (·.1.repoId) → s.Spared projectId repoId
  | .deleteProject projectId =>
      projectId ∉ s.deleted → ∀ repoId ∈ s.reposOf projectId, s.Spared projectId repoId
  | .rootsChanged _ _ | .subscribe _ _ _ _ _ | .unsubscribe _ _ | .disconnect _ => True

def WatchesRegistered : Prop := ∀ repoId ∈ s.watching, s.Registered repoId

end Laws

section Projects

variable {s s' : ScmRuntime} {projectId repoId : String}

theorem inSomeProject_iff (hlive : projectId ∉ s.deleted) :
    s.InSomeProject repoId ↔ repoId ∈ s.reposOf projectId ∨ s.Elsewhere projectId repoId := by
  constructor
  · rintro ⟨other, hother, hmem⟩
    by_cases heq : other = projectId
    · exact .inl (heq ▸ hmem)
    · exact .inr ⟨other, hother, heq, hmem⟩
  · rintro (hmem | ⟨other, hother, -, hmem⟩)
    · exact ⟨projectId, hlive, hmem⟩
    · exact ⟨other, hother, hmem⟩

theorem reposOf_insert {ids : List String} {other : String}
    (h : s'.projectRepos = s.projectRepos.insert projectId ids) :
    s'.reposOf other = if other = projectId then ids else s.reposOf other := by
  rw [reposOf, h, Table.lookup_insert_eq]
  split
  · rfl
  · rfl

theorem inSomeProject_insert {ids : List String} (hlive : projectId ∉ s.deleted)
    (h : s'.projectRepos = s.projectRepos.insert projectId ids) (hdeleted : s'.deleted = s.deleted) :
    s'.InSomeProject repoId ↔ repoId ∈ ids ∨ s.Elsewhere projectId repoId := by
  rw [inSomeProject_iff (hdeleted ▸ hlive), reposOf_insert h, if_pos rfl, Elsewhere, Elsewhere,
    hdeleted]
  have hother : ∀ other, (other ∉ s.deleted ∧ other ≠ projectId ∧ repoId ∈ s'.reposOf other) ↔
      (other ∉ s.deleted ∧ other ≠ projectId ∧ repoId ∈ s.reposOf other) := by
    intro other
    refine and_congr_right fun _ ↦ and_congr_right fun hne ↦ ?_
    rw [reposOf_insert h, if_neg hne]
  simp only [hother]

theorem Rooted.of_registered (hrepos : ∀ repoId, s.Registered repoId → s.InSomeProject repoId)
    (hwatch : s.WatchesRegistered) : s.Rooted :=
  ⟨hrepos, fun repoId h ↦ hrepos repoId (hwatch repoId h)⟩

end Projects

section Discovery

variable {s : ScmRuntime} {repoId : String}

theorem registered_modify {repos : Table String RepoState} (key : String)
    (f : RepoState → RepoState) :
    ((repos.modify key f).lookup repoId).isSome = (repos.lookup repoId).isSome := by
  rw [Table.lookup_modify]
  split
  · rw [Option.isSome_map]
  · rfl

theorem register_spec (s : ScmRuntime) (found : ScmRepository × Option String) :
    ∃ repos, s.register found = { s with repos } ∧
      ∀ repoId, (repos.lookup repoId).isSome = true ↔
        s.Registered repoId ∨ repoId = found.1.repoId := by
  rw [register]
  split
  · next state hstate =>
      refine ⟨_, rfl, fun repoId ↦ ?_⟩
      rw [registered_modify, Registered]
      refine ⟨.inl, ?_⟩
      rintro (h | rfl)
      · exact h
      · rw [hstate]
        rfl
  · refine ⟨_, rfl, fun repoId ↦ ?_⟩
    rw [Table.lookup_insert_eq, Registered]
    split
    · next heq => exact iff_of_true rfl (.inr heq)
    · next hne => exact ⟨.inl, fun h ↦ h.resolve_right hne⟩

theorem registers_spec (founds : List (ScmRepository × Option String)) (s : ScmRuntime) :
    ∃ repos, founds.foldl register s = { s with repos } ∧
      ∀ repoId, (repos.lookup repoId).isSome = true ↔
        s.Registered repoId ∨ repoId ∈ founds.map (·.1.repoId) := by
  induction founds generalizing s with
  | nil => exact ⟨s.repos, rfl, fun repoId ↦ by simp [Registered]⟩
  | cons found founds ih =>
      obtain ⟨repos, heq, hrepos⟩ := s.register_spec found
      obtain ⟨repos', heq', hrepos'⟩ := ih (s.register found)
      refine ⟨repos', by rw [List.foldl_cons, heq', heq], fun repoId ↦ ?_⟩
      rw [hrepos', heq, Registered, hrepos, List.map_cons, List.mem_cons, or_assoc]

theorem discoverRoots_spec (s : ScmRuntime) (roots : List Discovery) :
    ∃ repos, (s.discoverRoots roots).1 = { s with repos } ∧
      ∀ repoId, (repos.lookup repoId).isSome = true ↔
        s.Registered repoId ∨ repoId ∈ (discovered roots).map (·.1.repoId) :=
  registers_spec (discovered roots) s

theorem releases_spec (removed : List String) (s : ScmRuntime) :
    ∃ repos watching, removed.foldl releaseRepo s = { s with repos, watching } ∧
      (∀ repoId, (repos.lookup repoId).isSome = true ↔
        s.Registered repoId ∧ repoId ∉ removed) ∧
      ∀ repoId, repoId ∈ watching ↔ repoId ∈ s.watching ∧ repoId ∉ removed := by
  induction removed generalizing s with
  | nil => exact ⟨s.repos, s.watching, rfl, fun repoId ↦ by simp [Registered], by simp⟩
  | cons key removed ih =>
      obtain ⟨repos, watching, heq, hrepos, hwatching⟩ := ih (s.releaseRepo key)
      refine ⟨repos, watching, heq, fun repoId ↦ ?_, fun repoId ↦ ?_⟩
      · rw [hrepos, Registered, releaseRepo, Table.lookup_erase_eq, List.mem_cons, not_or,
          Registered]
        by_cases hkey : repoId = key <;> simp [hkey]
      · rw [hwatching, releaseRepo, unwatch, List.mem_filter, List.mem_cons, not_or, and_assoc]
        simp only [ne_eq, decide_eq_true_eq]

end Discovery

section Calm

variable {s s' s'' : ScmRuntime}

structure Calm (s s' : ScmRuntime) : Prop where
  projectRepos : s'.projectRepos = s.projectRepos
  deleted : s'.deleted = s.deleted
  registered : ∀ repoId, s'.Registered repoId ↔ s.Registered repoId
  watching : ∀ repoId ∈ s'.watching, repoId ∈ s.watching ∨ s.Registered repoId

theorem Calm.refl (s : ScmRuntime) : s.Calm s := ⟨rfl, rfl, fun _ ↦ Iff.rfl, fun _ h ↦ .inl h⟩

theorem Calm.trans (h : s.Calm s') (h' : s'.Calm s'') : s.Calm s'' where
  projectRepos := h'.projectRepos.trans h.projectRepos
  deleted := h'.deleted.trans h.deleted
  registered repoId := (h'.registered repoId).trans (h.registered repoId)
  watching repoId hmem := by
    rcases h'.watching repoId hmem with hmem | hreg
    · exact h.watching repoId hmem
    · exact .inr ((h.registered repoId).mp hreg)

theorem Calm.modify (s : ScmRuntime) (key : String) (f : RepoState → RepoState) :
    s.Calm { s with repos := s.repos.modify key f } where
  projectRepos := rfl
  deleted := rfl
  registered repoId := by rw [Registered, registered_modify, Registered]
  watching _ h := .inl h

theorem Calm.unwatch (s : ScmRuntime) (key : String) : s.Calm (s.unwatch key) :=
  ⟨rfl, rfl, fun _ ↦ Iff.rfl, fun _ h ↦ .inl (List.mem_of_mem_filter h)⟩

theorem Calm.unwatches (keys : List String) (s : ScmRuntime) :
    s.Calm (keys.foldl ScmRuntime.unwatch s) := by
  induction keys generalizing s with
  | nil => exact .refl s
  | cons key keys ih => exact (Calm.unwatch s key).trans (ih (s.unwatch key))

theorem Calm.refresh (s : ScmRuntime) (key : String) (resources : Option (List String)) :
    s.Calm (s.refresh key resources) := by
  cases resources with
  | none => exact .refl s
  | some paths => exact .modify s key _

theorem Calm.subscribe (s : ScmRuntime) (session key : String) (armed : Bool)
    (resources : Option (List String)) : s.Calm (s.subscribe session key armed resources) := by
  rw [ScmRuntime.subscribe]
  split
  · exact .refl s
  · next state hstate =>
      split
      · refine Calm.trans ?_ (.refresh _ key resources)
        refine ⟨rfl, rfl, (Calm.modify s key _).registered, fun repoId hmem ↦ ?_⟩
        rcases List.mem_insert_iff.mp hmem with rfl | hmem
        · right
          rw [Registered, hstate]
          rfl
        · exact .inl hmem
      · exact (Calm.modify s key _).trans (.refresh _ key resources)

theorem Calm.unsubscribe (s : ScmRuntime) (session key : String) :
    s.Calm (s.unsubscribe session key) := by
  rw [ScmRuntime.unsubscribe]
  split
  · exact .refl s
  · simp only
    split
    · exact (Calm.modify s key _).trans (.unwatch _ key)
    · exact .modify s key _

theorem Calm.dropSession (s : ScmRuntime) (session : String) : s.Calm (s.dropSession session) := by
  have hleft : ∀ (f : String → RepoState → RepoState) (orphaned : List String),
      s.Calm (orphaned.foldl ScmRuntime.unwatch { s with repos := s.repos.mapValues f }) := by
    intro f orphaned
    have hmap : s.Calm { s with repos := s.repos.mapValues f } := by
      refine ⟨rfl, rfl, fun repoId ↦ ?_, fun _ h ↦ .inl h⟩
      rw [Registered, Table.lookup_mapValues, Option.isSome_map, Registered]
    exact hmap.trans (.unwatches orphaned _)
  rw [ScmRuntime.dropSession]
  exact ⟨(hleft _ _).projectRepos, (hleft _ _).deleted, (hleft _ _).registered,
    (hleft _ _).watching⟩

theorem Calm.registerInterest (s : ScmRuntime) (session projectId : String) :
    s.Calm (s.registerInterest session projectId) :=
  ⟨rfl, rfl, fun _ ↦ Iff.rfl, fun _ h ↦ .inl h⟩

theorem Calm.inSomeProject (h : s.Calm s') (repoId : String) :
    s'.InSomeProject repoId ↔ s.InSomeProject repoId := by
  simp only [InSomeProject, reposOf, h.projectRepos, h.deleted]

theorem Calm.watchesRegistered (h : s.Calm s') (hs : s.WatchesRegistered) :
    s'.WatchesRegistered := by
  intro repoId hmem
  rw [h.registered]
  rcases h.watching repoId hmem with hmem | hreg
  · exact hs repoId hmem
  · exact hreg

theorem Calm.rooted (h : s.Calm s') (hs : s.Rooted) (hwatch : s.WatchesRegistered) :
    s'.Rooted := by
  refine .of_registered (fun repoId hreg ↦ ?_) (h.watchesRegistered hwatch)
  exact (h.inSomeProject repoId).mpr (hs.repos repoId ((h.registered repoId).mp hreg))

theorem Calm.released {act : ScmAct} (h : s.Calm (s.step act)) : s.Released act := by
  intro projectId hlive repoId hmem hgone
  exact absurd ((h.inSomeProject repoId).mpr ⟨projectId, hlive, hmem⟩) hgone

end Calm

section Steps

variable {s : ScmRuntime}

theorem list_spec (s : ScmRuntime) (session projectId : String) (roots : List Discovery)
    (hlive : projectId ∉ s.deleted) :
    ∃ repos interest, s.perform (.listRepositories session projectId roots) =
        ({ s with
            repos
            projectInterest := interest
            projectRepos := s.projectRepos.insert projectId
              ((discovered roots).map (·.1.repoId)).dedup }, []) ∧
      ∀ repoId, (repos.lookup repoId).isSome = true ↔
        s.Registered repoId ∨ repoId ∈ (discovered roots).map (·.1.repoId) := by
  obtain ⟨repos, heq, hrepos⟩ := (s.registerInterest session projectId).discoverRoots_spec roots
  refine ⟨repos, (s.registerInterest session projectId).projectInterest, ?_, hrepos⟩
  have hlive' : projectId ∉ (s.registerInterest session projectId).deleted := hlive
  have hfound : ((s.registerInterest session projectId).discoverRoots roots).2.map (·.repoId) =
      (discovered roots).map (·.1.repoId) := by
    rw [discoverRoots, List.map_map]
    rfl
  simp only [perform, if_neg hlive', discover, heq, hfound]
  rfl

def Leaves (s : ScmRuntime) (projectId : String) (roots : List Discovery) (repoId : String) :
    Prop :=
  repoId ∈ s.reposOf projectId ∧ repoId ∉ (discovered roots).map (·.1.repoId)

theorem change_spec (s : ScmRuntime) (projectId : String) (roots : List Discovery)
    (hlive : projectId ∉ s.deleted) :
    ∃ repos watching, s.step (.rootsChanged projectId roots) =
        { s with
          repos
          watching
          projectRepos := s.projectRepos.insert projectId
            ((discovered roots).map (·.1.repoId)).dedup } ∧
      (∀ repoId, (repos.lookup repoId).isSome = true ↔
        (s.Registered repoId ∨ repoId ∈ (discovered roots).map (·.1.repoId)) ∧
          ¬ s.Leaves projectId roots repoId) ∧
      (∀ repoId, repoId ∈ watching ↔
        repoId ∈ s.watching ∧ ¬ s.Leaves projectId roots repoId) ∧
      ∀ repoId, s.Leaves projectId roots repoId →
        ∀ session ∈ s.projectSubscribersOf projectId, ∃ frame,
          (session, frame) ∈ (s.perform (.rootsChanged projectId roots)).2 ∧
            frame.projectId = projectId ∧ repoId ∈ frame.removed := by
  obtain ⟨found, hfound, hregistered⟩ := s.discoverRoots_spec roots
  have hnow : (s.discoverRoots roots).2.map (·.repoId) =
      (discovered roots).map (·.1.repoId) := by
    rw [discoverRoots, List.map_map]
    rfl
  obtain ⟨removed, hremoved⟩ : ∃ removed, removed = (s.reposOf projectId).filter
      (· ∉ ((discovered roots).map (·.1.repoId)).dedup) := ⟨_, rfl⟩
  have hleaves : ∀ repoId, repoId ∈ removed ↔ s.Leaves projectId roots repoId := by
    intro repoId
    rw [hremoved, List.mem_filter, decide_eq_true_iff, List.mem_dedup, Leaves]
  obtain ⟨repos, watching, hreleased, hrepos, hwatching⟩ :=
    releases_spec removed { s with
      repos := found
      projectRepos := s.projectRepos.insert projectId
        ((discovered roots).map (·.1.repoId)).dedup }
  have hprevious : ({ s with repos := found } : ScmRuntime).reposOf projectId =
      s.reposOf projectId := rfl
  have hstate : (s.recomputeProject projectId roots).1 =
      { s with
        repos
        watching
        projectRepos := s.projectRepos.insert projectId
          ((discovered roots).map (·.1.repoId)).dedup } := by
    rw [recomputeProject]
    simp only [hnow, hfound]
    rw [hprevious, ← hremoved, hreleased]
  have hgone : (s.recomputeProject projectId roots).2.2 = removed := by
    rw [recomputeProject]
    simp only [hnow, hfound]
    rw [hprevious, ← hremoved]
  have hperform : (s.perform (.rootsChanged projectId roots)).1 =
      (s.recomputeProject projectId roots).1 := by
    rw [perform, if_neg hlive]
    simp only
    split <;> rfl
  refine ⟨repos, watching, ?_, ?_, ?_, ?_⟩
  · rw [step, hperform, hstate]
  · intro repoId
    rw [hrepos, hleaves, Registered, hregistered]
  · intro repoId
    rw [hwatching, hleaves]
  · intro repoId hleave session hsession
    have hmem := (hleaves repoId).mpr hleave
    refine ⟨⟨projectId, (s.recomputeProject projectId roots).2.1, removed⟩, ?_, rfl, hmem⟩
    have hsome : removed.isEmpty = false := by
      rw [List.isEmpty_eq_false_iff]
      exact List.ne_nil_of_mem hmem
    have hinterest : (s.recomputeProject projectId roots).1.projectSubscribersOf projectId =
        s.projectSubscribersOf projectId := by
      rw [hstate]
      rfl
    rw [perform, if_neg hlive]
    simp only [hgone, hsome, hinterest, Bool.and_false, Bool.false_eq_true, if_false]
    exact List.mem_map.mpr ⟨session, hsession, rfl⟩

theorem Calm.list (s : ScmRuntime) (session projectId : String) (roots : List Discovery)
    (hgone : projectId ∈ s.deleted) :
    s.Calm (s.step (.listRepositories session projectId roots)) := by
  have hgone' : projectId ∈ (s.registerInterest session projectId).deleted := hgone
  simp only [step, perform, if_pos hgone']
  exact .registerInterest s session projectId

theorem Calm.change (s : ScmRuntime) (projectId : String) (roots : List Discovery)
    (hgone : projectId ∈ s.deleted) : s.Calm (s.step (.rootsChanged projectId roots)) := by
  rw [step, perform, if_pos hgone]
  exact .refl s

theorem Calm.subscribeIn (s : ScmRuntime) (session key : String) (scope : List String)
    (armed : Bool) (resources : Option (List String)) :
    s.Calm (s.step (.subscribe session key scope armed resources)) := by
  rw [step, perform]
  split
  · split
    · exact .subscribe s session key armed resources
    · exact .refl s
  · exact .refl s

theorem Calm.delete (s : ScmRuntime) (projectId : String) (hgone : projectId ∈ s.deleted) :
    s.Calm (s.step (.deleteProject projectId)) := by
  rw [step, perform, List.insert_of_mem hgone]
  exact .refl s

theorem watchesRegistered_step (s : ScmRuntime) (act : ScmAct) (hwatch : s.WatchesRegistered) :
    (s.step act).WatchesRegistered := by
  cases act with
  | listRepositories session projectId roots =>
      by_cases hlive : projectId ∈ s.deleted
      · exact (Calm.list s session projectId roots hlive).watchesRegistered hwatch
      · obtain ⟨repos, interest, heq, hrepos⟩ := s.list_spec session projectId roots hlive
        intro repoId hmem
        rw [step, heq] at hmem ⊢
        exact (hrepos repoId).mpr (.inl (hwatch repoId hmem))
  | rootsChanged projectId roots =>
      by_cases hlive : projectId ∈ s.deleted
      · exact (Calm.change s projectId roots hlive).watchesRegistered hwatch
      · obtain ⟨repos, watching, heq, hrepos, hwatching, -⟩ := s.change_spec projectId roots hlive
        intro repoId hmem
        rw [heq] at hmem ⊢
        obtain ⟨hmem, hstays⟩ := (hwatching repoId).mp hmem
        exact (hrepos repoId).mpr ⟨.inl (hwatch repoId hmem), hstays⟩
  | subscribe session key scope armed resources =>
      exact (Calm.subscribeIn s session key scope armed resources).watchesRegistered hwatch
  | unsubscribe session key => exact (Calm.unsubscribe s session key).watchesRegistered hwatch
  | disconnect session => exact (Calm.dropSession s session).watchesRegistered hwatch
  | deleteProject projectId => exact fun repoId hmem ↦ hwatch repoId hmem

theorem list_step_iff (session projectId : String) (roots : List Discovery) (hs : s.Rooted)
    (hwatch : s.WatchesRegistered) :
    (s.step (.listRepositories session projectId roots)).Rooted ∧
        s.Released (.listRepositories session projectId roots) ↔
      s.Kept (.listRepositories session projectId roots) := by
  by_cases hlive : projectId ∈ s.deleted
  · have hcalm := Calm.list s session projectId roots hlive
    exact iff_of_true ⟨hcalm.rooted hs hwatch, hcalm.released⟩ fun h ↦ absurd hlive h
  have hwatch' := watchesRegistered_step s (.listRepositories session projectId roots) hwatch
  obtain ⟨repos, interest, heq, hrepos⟩ := s.list_spec session projectId roots hlive
  have hstep : s.step (.listRepositories session projectId roots) = _ := congrArg Prod.fst heq
  have hin : ∀ repoId, (s.step (.listRepositories session projectId roots)).InSomeProject repoId ↔
      repoId ∈ (discovered roots).map (·.1.repoId) ∨ s.Elsewhere projectId repoId := by
    intro repoId
    rw [inSomeProject_insert hlive (congrArg projectRepos hstep) (by rw [hstep]), List.mem_dedup]
  have hreg : ∀ repoId, (s.step (.listRepositories session projectId roots)).Registered repoId ↔
      s.Registered repoId ∨ repoId ∈ (discovered roots).map (·.1.repoId) := by
    intro repoId
    rw [hstep]
    exact hrepos repoId
  constructor
  · rintro ⟨hrooted, hreleased⟩ _ repoId hmem hnot
    by_cases helse : s.Elsewhere projectId repoId
    · exact .inl helse
    · have hgone : ¬ (s.step (.listRepositories session projectId roots)).InSomeProject repoId := by
        rw [hin, not_or]
        exact ⟨hnot, helse⟩
      refine .inr ⟨fun hthere ↦ hgone (hrooted.repos repoId ((hreg repoId).mpr (.inl hthere))), ?_⟩
      obtain ⟨-, htold⟩ := hreleased projectId hlive repoId hmem hgone
      rw [heq] at htold
      refine List.eq_nil_iff_forall_not_mem.mpr fun session' hsession ↦ ?_
      obtain ⟨frame, hframe, -⟩ := htold session' hsession
      exact List.not_mem_nil hframe
  · intro hkept
    refine ⟨.of_registered (fun repoId hthere ↦ ?_) hwatch', ?_⟩
    · rw [hin]
      rcases (hreg repoId).mp hthere with hbefore | hfound
      · by_cases hfound : repoId ∈ (discovered roots).map (·.1.repoId)
        · exact .inl hfound
        · rcases (inSomeProject_iff hlive).mp (hs.repos repoId hbefore) with hmem | helse
          · rcases hkept hlive repoId hmem hfound with helse | ⟨hnot, -⟩
            · exact .inr helse
            · exact absurd hbefore hnot
          · exact .inr helse
      · exact .inl hfound
    · intro other hother repoId hmem hgone
      rw [hin, not_or] at hgone
      by_cases hsame : other = projectId
      · subst hsame
        rcases hkept hlive repoId hmem hgone.1 with helse | ⟨hnot, hnobody⟩
        · exact absurd helse hgone.2
        · refine ⟨fun hwatched ↦ ?_, fun session' hsession ↦ ?_⟩
          · rcases (hreg repoId).mp (hwatch' repoId hwatched) with hbefore | hfound
            · exact hnot hbefore
            · exact hgone.1 hfound
          · rw [hnobody] at hsession
            exact absurd hsession List.not_mem_nil
      · exact absurd ⟨other, hother, hsame, hmem⟩ hgone.2

theorem change_step (projectId : String) (roots : List Discovery) (hs : s.Rooted)
    (hwatch : s.WatchesRegistered) :
    (s.step (.rootsChanged projectId roots)).Rooted ∧
      s.Released (.rootsChanged projectId roots) := by
  by_cases hlive : projectId ∈ s.deleted
  · have hcalm := Calm.change s projectId roots hlive
    exact ⟨hcalm.rooted hs hwatch, hcalm.released⟩
  have hwatch' := watchesRegistered_step s (.rootsChanged projectId roots) hwatch
  obtain ⟨repos, watching, heq, hrepos, hwatching, htold⟩ := s.change_spec projectId roots hlive
  have hin : ∀ repoId, (s.step (.rootsChanged projectId roots)).InSomeProject repoId ↔
      repoId ∈ (discovered roots).map (·.1.repoId) ∨ s.Elsewhere projectId repoId := by
    intro repoId
    rw [inSomeProject_insert hlive (congrArg projectRepos heq) (by rw [heq]), List.mem_dedup]
  constructor
  · refine .of_registered (fun repoId hthere ↦ ?_) hwatch'
    rw [hin]
    rw [heq] at hthere
    obtain ⟨hthere, hstays⟩ := (hrepos repoId).mp hthere
    by_cases hfound : repoId ∈ (discovered roots).map (·.1.repoId)
    · exact .inl hfound
    · rcases (inSomeProject_iff hlive).mp (hs.repos repoId (hthere.resolve_right hfound)) with
        hmem | helse
      · exact absurd ⟨hmem, hfound⟩ hstays
      · exact .inr helse
  · intro other hother repoId hmem hgone
    rw [hin, not_or] at hgone
    by_cases hsame : other = projectId
    · subst hsame
      refine ⟨fun hwatched ↦ ?_, htold repoId ⟨hmem, hgone.1⟩⟩
      rw [heq] at hwatched
      exact ((hwatching repoId).mp hwatched).2 ⟨hmem, hgone.1⟩
    · exact absurd ⟨other, hother, hsame, hmem⟩ hgone.2

theorem delete_step_iff (projectId : String) (hs : s.Rooted) (hwatch : s.WatchesRegistered) :
    (s.step (.deleteProject projectId)).Rooted ∧ s.Released (.deleteProject projectId) ↔
      s.Kept (.deleteProject projectId) := by
  by_cases hlive : projectId ∈ s.deleted
  · have hcalm := Calm.delete s projectId hlive
    exact iff_of_true ⟨hcalm.rooted hs hwatch, hcalm.released⟩ fun h ↦ absurd hlive h
  have hin : ∀ repoId, (s.step (.deleteProject projectId)).InSomeProject repoId ↔
      s.Elsewhere projectId repoId := by
    intro repoId
    refine exists_congr fun other ↦ ?_
    rw [← and_assoc]
    refine and_congr ?_ Iff.rfl
    rw [step, perform, List.mem_insert_iff, not_or, and_comm]
  constructor
  · rintro ⟨hrooted, hreleased⟩ _ repoId hmem
    by_cases helse : s.Elsewhere projectId repoId
    · exact .inl helse
    · have hgone := fun h ↦ helse ((hin repoId).mp h)
      refine .inr ⟨fun hthere ↦ hgone (hrooted.repos repoId hthere), ?_⟩
      obtain ⟨-, htold⟩ := hreleased projectId hlive repoId hmem hgone
      refine List.eq_nil_iff_forall_not_mem.mpr fun session hsession ↦ ?_
      obtain ⟨frame, hframe, -⟩ := htold session hsession
      exact List.not_mem_nil hframe
  · intro hkept
    constructor
    · refine .of_registered (fun repoId hthere ↦ ?_) hwatch
      rw [hin]
      rcases (inSomeProject_iff hlive).mp (hs.repos repoId hthere) with hmem | helse
      · exact (hkept hlive repoId hmem).resolve_right fun h ↦ h.1 hthere
      · exact helse
    · intro other hother repoId hmem hgone
      rw [hin] at hgone
      by_cases hsame : other = projectId
      · subst hsame
        obtain ⟨hnot, hnobody⟩ := (hkept hlive repoId hmem).resolve_left hgone
        refine ⟨fun hwatched ↦ hnot (hwatch repoId hwatched), fun session hsession ↦ ?_⟩
        rw [hnobody] at hsession
        exact absurd hsession List.not_mem_nil
      · exact absurd ⟨other, hother, hsame, hmem⟩ hgone

theorem orphan_step_iff (s : ScmRuntime) (act : ScmAct) (hs : s.Rooted ∧ s.WatchesRegistered) :
    (s.step act).Rooted ∧ s.Released act ↔ s.Kept act := by
  obtain ⟨hrooted, hwatch⟩ := hs
  cases act with
  | listRepositories session projectId roots => exact list_step_iff _ _ _ hrooted hwatch
  | rootsChanged projectId roots => exact iff_of_true (change_step _ _ hrooted hwatch) trivial
  | subscribe session key scope armed resources =>
      have hcalm := Calm.subscribeIn s session key scope armed resources
      exact iff_of_true ⟨hcalm.rooted hrooted hwatch, hcalm.released⟩ trivial
  | unsubscribe session key =>
      have hcalm := Calm.unsubscribe s session key
      exact iff_of_true ⟨hcalm.rooted hrooted hwatch, Calm.released hcalm⟩ trivial
  | disconnect session =>
      have hcalm := Calm.dropSession s session
      exact iff_of_true ⟨hcalm.rooted hrooted hwatch, Calm.released hcalm⟩ trivial
  | deleteProject projectId => exact delete_step_iff projectId hrooted hwatch

theorem rooted_new : new.Rooted where
  repos _ h := by cases h
  watching _ h := by cases h

end Steps

section Runs

/-- Along a run every repository belongs to a project, and what leaves the last one is released
and reported, exactly if listings keep the repositories and deleted projects have none left. -/
theorem no_orphans_iff (acts : List ScmAct) :
    Throughout step Rooted new acts ∧ Meets step Released new acts ↔
      Meets step Kept new acts := by
  rw [throughout_and_meets, and_iff_right rooted_new]
  refine meets_iff_meets (Q := fun s ↦ s.Rooted ∧ s.WatchesRegistered) ?_ orphan_step_iff
    ⟨rooted_new, fun _ h ↦ (by cases h)⟩
  intro s act hs hkept
  exact ⟨((orphan_step_iff s act hs).mpr hkept).1, watchesRegistered_step s act hs.2⟩

def repository : ScmRepository := ⟨"r", ⟨"pe", ""⟩, none⟩

def relist : List ScmAct :=
  [.listRepositories "a" "p" [.ok [(repository, some "r/.git")]],
    .subscribe "a" "r" ["pe"] true (some []), .listRepositories "b" "p" [.ok []]]

def deleteListed : List ScmAct :=
  [.listRepositories "a" "p" [.ok [(repository, some "r/.git")]],
    .subscribe "a" "r" ["pe"] true (some []), .deleteProject "p", .rootsChanged "p" []]

/-- Both leave a repository registered and watched that is in no project, and nobody is told. -/
theorem repositories_orphaned :
    ¬ Throughout step Rooted new relist ∧ ¬ Throughout step Rooted new deleteListed ∧
      ¬ Meets step Released new relist ∧ ¬ Meets step Released new deleteListed := by
  have hrelist : ¬ (run step new relist).InSomeProject "r" := by
    rintro ⟨other, -, hmem⟩
    have hrepos : (run step new relist).projectRepos = (∅ : Table _ _).insert "p" [] := rfl
    rw [reposOf, hrepos, Table.lookup_insert_eq] at hmem
    split at hmem <;> exact absurd hmem List.not_mem_nil
  have hdelete : ¬ (run step new deleteListed).InSomeProject "r" := by
    rintro ⟨other, hother, hmem⟩
    have hrepos : (run step new deleteListed).projectRepos = (∅ : Table _ _).insert "p" ["r"] := rfl
    rw [reposOf, hrepos, Table.lookup_insert_eq] at hmem
    split at hmem
    · next heq =>
        subst heq
        exact hother (by decide)
    · exact absurd hmem List.not_mem_nil
  have hwatched : "r" ∈ (run step new relist).watching ∧
      "r" ∈ (run step new deleteListed).watching := by
    decide
  refine ⟨fun h ↦ ?_, fun h ↦ ?_, fun h ↦ ?_, fun h ↦ ?_⟩
  · exact hrelist (h.last.watching "r" hwatched.1)
  · exact hdelete (h.last.watching "r" hwatched.2)
  · exact (h.2.2.1 "p" (by decide) "r" (by decide) hrelist).1 hwatched.1
  · exact (h.2.2.1 "p" (by decide) "r" (by decide) hdelete).1 hwatched.2

end Runs

end ScmRuntime

end Zaowutai.Scm
