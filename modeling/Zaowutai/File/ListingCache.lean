import Zaowutai.File.Sandbox
import Zaowutai.Lib.Run

/-!
# The cache of workspace listings

A listing is kept under its canonical root.  A call that finds none walks the
files and inserts what it has found, in steps of their own.  A write drops the
listing of its workspace when it is done, a copy drops none.  A listing is right
when a walk at some moment since the last completed change would give it.
-/

namespace Zaowutai.File

open Zaowutai.Lib

structure WorkspaceFlatFile where
  name : String
  fullPath : String
  relativePath : String
  deriving DecidableEq, Repr

def maxWorkspaceFiles : ℕ := 20000

/-- What the walker of the `ignore` crate yields below a root; `none` is an entry it cannot read. -/
abbrev Walker := Disk → Place → List (Option Place)

def flatFile (root path : Place) : WorkspaceFlatFile where
  name := path.getLast?.getD ""
  fullPath := display path
  relativePath :=
    if root.isPrefixOf path then "/".intercalate (path.drop root.length) else display path

/-- The loop over the entries; links that lead to directories are skipped like these. -/
def collectFiles (disk : Disk) (root : Place) :
    List (Option Place) → List WorkspaceFlatFile → List WorkspaceFlatFile
  | [], files => files
  | none :: entries, files => collectFiles disk root entries files
  | some path :: entries, files =>
      match disk.canonicalize (.ofPlace path) with
      | .error _ => collectFiles disk root entries files
      | .ok target =>
          if disk.tree.isDir target then collectFiles disk root entries files
          else if files.length + 1 ≥ maxWorkspaceFiles then files ++ [flatFile root path]
          else collectFiles disk root entries (files ++ [flatFile root path])

def listWorkspaceFilesSync (walker : Walker) (disk : Disk) (root : Place) :
    List WorkspaceFlatFile :=
  collectFiles disk root (walker disk root) []

def Disk.withTree (disk : Disk) (tree : FileTree String ByteArray) : Disk where
  tree := tree
  currentDir := disk.currentDir.filter tree.isDir
  isDir_currentDir _ h := (Option.filter_eq_some_iff.mp h).2
  maxLinks := disk.maxLinks
  errorText := disk.errorText

/-- A listing call that found nothing cached; `seen` are the disks of all moments since the last
change that was completed before it started. -/
structure ListingCall where
  root : Place
  files : Option (List WorkspaceFlatFile)
  seen : List Disk

structure ReturnedListing where
  root : Place
  files : List WorkspaceFlatFile
  seen : List Disk

/-- The service with the calls that are under way: the listings, and the writes that have written
but not yet dropped the listing of their workspace. -/
structure ListingState where
  disk : Disk
  cache : Place → Option (List WorkspaceFlatFile)
  listings : ℕ → Option ListingCall
  writes : ℕ → Option String
  since : List Disk
  returned : List ReturnedListing

inductive ListingAction
  | start (id : ℕ) (root : String) (extraRoot : Option String)
  | walk (id : ℕ)
  | insert (id : ℕ)
  | write (id : ℕ) (path : String) (data : ByteArray) (workspace : String)
  | finishWrite (id : ℕ)
  | copy (disk : Disk)
  | finishCopy
  | invalidateCache (root : Place)

namespace ListingState

def new (disk : Disk) : ListingState :=
  ⟨disk, fun _ ↦ none, fun _ ↦ none, fun _ ↦ none, [disk], []⟩

def change (s : ListingState) (disk : Disk) : ListingState :=
  { s with
    disk := disk
    since := s.since ++ [disk]
    listings := fun id ↦ (s.listings id).map fun call ↦ { call with seen := call.seen ++ [disk] } }

def complete (s : ListingState) : ListingState := { s with since := [s.disk] }

def invalidateCache (s : ListingState) (root : Place) : ListingState :=
  { s with cache := Function.update s.cache root none }

def start (allowedRoots : List String) (s : ListingState) (id : ℕ) (root : String)
    (extraRoot : Option String) : ListingState :=
  match validatePathWithExtraRoot s.disk root allowedRoots extraRoot with
  | .error _ => s
  | .ok canonicalRoot =>
      match s.cache canonicalRoot with
      | some cached => { s with returned := s.returned ++ [⟨canonicalRoot, cached, s.since⟩] }
      | none =>
          { s with listings := Function.update s.listings id (some ⟨canonicalRoot, none, s.since⟩) }

def walk (walker : Walker) (s : ListingState) (id : ℕ) : ListingState :=
  match s.listings id with
  | some ⟨root, none, seen⟩ =>
      let files := listWorkspaceFilesSync walker s.disk root
      { s with listings := Function.update s.listings id (some ⟨root, some files, seen⟩) }
  | _ => s

def insert (s : ListingState) (id : ℕ) : ListingState :=
  match s.listings id with
  | some ⟨root, some files, seen⟩ =>
      { s with
        cache := Function.update s.cache root (some files)
        listings := Function.update s.listings id none
        returned := s.returned ++ [⟨root, files, seen⟩] }
  | _ => s

def write (allowedRoots : List String) (s : ListingState) (id : ℕ) (path : String)
    (data : ByteArray) (workspace : String) : ListingState :=
  match writeFileForUser s.disk allowedRoots path data workspace with
  | .error _ => s
  | .ok written =>
      let s := s.change (s.disk.withTree written.2)
      { s with writes := Function.update s.writes id (some workspace) }

def finishWrite (s : ListingState) (id : ℕ) : ListingState :=
  match s.writes id with
  | none => s
  | some workspace =>
      let s := { s with writes := Function.update s.writes id none }
      match s.disk.canonicalize (.ofText workspace) with
      | .ok canonicalWs => (s.invalidateCache canonicalWs).complete
      | .error _ => s.complete

/-- A call whose number is in use is not another one. -/
def step (walker : Walker) (allowedRoots : List String) (s : ListingState) :
    ListingAction → ListingState
  | .start id root extraRoot =>
      if (s.listings id).isSome then s else s.start allowedRoots id root extraRoot
  | .walk id => s.walk walker id
  | .insert id => s.insert id
  | .write id path data workspace =>
      if (s.writes id).isSome then s else s.write allowedRoots id path data workspace
  | .finishWrite id => s.finishWrite id
  | .copy disk => s.change disk
  | .finishCopy => s.complete
  | .invalidateCache root => s.invalidateCache root

end ListingState

def Right (walker : Walker) (root : Place) (files : List WorkspaceFlatFile) (seen : List Disk) :
    Prop :=
  ∃ disk ∈ seen, files = listWorkspaceFilesSync walker disk root

namespace ListingState

variable {walker : Walker} {allowedRoots : List String} {s : ListingState} {disk : Disk}

structure Coherent (walker : Walker) (s : ListingState) : Prop where
  returned : ∀ r ∈ s.returned, Right walker r.root r.files r.seen
  cached : ∀ root files, s.cache root = some files → Right walker root files s.since

structure Walked (walker : Walker) (s : ListingState) : Prop where
  now : s.disk ∈ s.since
  seen : ∀ id call, s.listings id = some call → s.disk ∈ call.seen
  files : ∀ id call files, s.listings id = some call → call.files = some files →
    Right walker call.root files call.seen

def UpToDate (walker : Walker) (s : ListingState) : Prop :=
  ∀ root files, s.cache root = some files → files = listWorkspaceFilesSync walker s.disk root

def InsertsRight (walker : Walker) (s : ListingState) (id : ℕ) : Prop :=
  ∀ root files seen, s.listings id = some ⟨root, some files, seen⟩ →
    Right walker root files s.since

/-- What is left in the cache when a change is completed is up to date, and nothing is inserted
that was walked before a change which has been completed and has touched it. -/
def LeavesNoneStale (walker : Walker) (s : ListingState) : ListingAction → Prop
  | .insert id => s.InsertsRight walker id
  | .finishWrite id => (s.writes id).isSome = true → (s.finishWrite id).UpToDate walker
  | .finishCopy => s.UpToDate walker
  | _ => True

theorem right_mono {root : Place} {files : List WorkspaceFlatFile} {seen seen' : List Disk}
    (h : Right walker root files seen) (hsub : seen ⊆ seen') : Right walker root files seen' := by
  obtain ⟨disk, hdisk, hfiles⟩ := h
  exact ⟨disk, hsub hdisk, hfiles⟩

theorem right_singleton {root : Place} {files : List WorkspaceFlatFile} :
    Right walker root files [disk] ↔ files = listWorkspaceFilesSync walker disk root := by
  simp [Right]

theorem update_eq_some {ι β : Type*} [DecidableEq ι] {f : ι → Option β} {i j : ι} {v : Option β}
    {x : β} (h : Function.update f i v j = some x) : j = i ∧ v = some x ∨ f j = some x := by
  by_cases hj : j = i
  · rw [hj, Function.update_self] at h
    exact .inl ⟨hj, h⟩
  · rw [Function.update_of_ne hj] at h
    exact .inr h

section Change

theorem walked_change (h : s.Walked walker) (disk : Disk) : (s.change disk).Walked walker := by
  refine ⟨by simp [change], fun id call hcall ↦ ?_, fun id call files hcall hfiles ↦ ?_⟩
  · obtain ⟨old, -, rfl⟩ := Option.map_eq_some_iff.mp hcall
    simp [change]
  · obtain ⟨old, hold, rfl⟩ := Option.map_eq_some_iff.mp hcall
    exact right_mono (h.files id old files hold hfiles) (List.subset_append_left _ _)

theorem Coherent.change (h : s.Coherent walker) (disk : Disk) :
    (s.change disk).Coherent walker where
  returned := h.returned
  cached root files hcached := right_mono (h.cached root files hcached)
    (List.subset_append_left _ _)

theorem walked_complete (h : s.Walked walker) : s.complete.Walked walker :=
  ⟨List.mem_singleton_self _, h.seen, h.files⟩

theorem coherent_complete (h : s.Coherent walker) :
    s.complete.Coherent walker ↔ s.UpToDate walker := by
  constructor
  · intro hcomplete root files hcached
    exact right_singleton.mp (hcomplete.cached root files hcached)
  · intro hfresh
    exact ⟨h.returned, fun root files hcached ↦ right_singleton.mpr (hfresh root files hcached)⟩

theorem Coherent.invalidateCache (h : s.Coherent walker) (root : Place) :
    (s.invalidateCache root).Coherent walker := by
  refine ⟨h.returned, fun other files hcached ↦ h.cached other files ?_⟩
  exact (update_eq_some hcached).resolve_left fun hnone ↦ (by cases hnone.2)

variable (walker) in
theorem finishWrite_eq {id : ℕ} (hid : (s.writes id).isSome = true) :
    ∃ s' : ListingState, s.finishWrite id = s'.complete ∧ (s.Coherent walker → s'.Coherent walker) ∧
      (s.Walked walker → s'.Walked walker) := by
  obtain ⟨workspace, hworkspace⟩ := Option.isSome_iff_exists.mp hid
  have hkeep : s.Coherent walker →
      { s with writes := Function.update s.writes id none }.Coherent walker :=
    fun h ↦ ⟨h.returned, h.cached⟩
  have hwalked : s.Walked walker →
      { s with writes := Function.update s.writes id none }.Walked walker :=
    fun h ↦ ⟨h.now, h.seen, h.files⟩
  rw [finishWrite, hworkspace]
  simp only
  split
  · next canonicalWs _ =>
      refine ⟨_, rfl, fun h ↦ (hkeep h).invalidateCache canonicalWs, fun h ↦ ?_⟩
      exact ⟨(hwalked h).now, (hwalked h).seen, (hwalked h).files⟩
  · exact ⟨_, rfl, hkeep, hwalked⟩

end Change

section Listings

variable {id : ℕ}

theorem walked_start {root : String} {extraRoot : Option String} (h : s.Walked walker) :
    (s.start allowedRoots id root extraRoot).Walked walker := by
  rw [start]
  split
  · exact h
  · split
    · exact ⟨h.now, h.seen, h.files⟩
    · refine ⟨h.now, fun other call hcall ↦ ?_, fun other call files hcall hfiles ↦ ?_⟩
      · obtain ⟨-, hnew⟩ | hold := update_eq_some hcall
        · obtain rfl := Option.some.inj hnew
          exact h.now
        · exact h.seen other call hold
      · obtain ⟨-, hnew⟩ | hold := update_eq_some hcall
        · obtain rfl := Option.some.inj hnew
          cases hfiles
        · exact h.files other call files hold hfiles

theorem coherent_start {root : String} {extraRoot : Option String} (h : s.Coherent walker) :
    (s.start allowedRoots id root extraRoot).Coherent walker := by
  rw [start]
  split
  · exact h
  · split
    · next hcached =>
        refine ⟨fun r hr ↦ ?_, h.cached⟩
        rcases List.mem_append.mp hr with hr | hr
        · exact h.returned r hr
        · rw [List.mem_singleton.mp hr]
          exact h.cached _ _ hcached
    · exact ⟨h.returned, h.cached⟩

theorem walked_walk (h : s.Walked walker) : (s.walk walker id).Walked walker := by
  rw [walk]
  split
  · next root seen hwaiting =>
      have hseen : s.disk ∈ seen := h.seen id _ hwaiting
      refine ⟨h.now, fun other call hcall ↦ ?_, fun other call files hcall hfiles ↦ ?_⟩
      · obtain ⟨-, hnew⟩ | hold := update_eq_some hcall
        · obtain rfl := Option.some.inj hnew
          exact hseen
        · exact h.seen other call hold
      · obtain ⟨-, hnew⟩ | hold := update_eq_some hcall
        · obtain rfl := Option.some.inj hnew
          obtain rfl := Option.some.inj hfiles
          exact ⟨s.disk, hseen, rfl⟩
        · exact h.files other call files hold hfiles
  · exact h

theorem coherent_walk (h : s.Coherent walker) : (s.walk walker id).Coherent walker := by
  rw [walk]
  split
  · exact ⟨h.returned, h.cached⟩
  · exact h

theorem walked_insert (h : s.Walked walker) : (s.insert id).Walked walker := by
  rw [insert]
  split
  · have hold : ∀ other call, Function.update s.listings id none other = some call →
        s.listings other = some call :=
      fun other call hcall ↦ (update_eq_some hcall).resolve_left fun hnone ↦ (by cases hnone.2)
    exact ⟨h.now, fun other call hcall ↦ h.seen other call (hold other call hcall),
      fun other call files hcall ↦ h.files other call files (hold other call hcall)⟩
  · exact h

theorem coherent_insert (h : s.Coherent walker) (hwalked : s.Walked walker) :
    (s.insert id).Coherent walker ↔ s.InsertsRight walker id := by
  rw [insert]
  split
  · next root files seen hcall =>
      constructor
      · intro hinsert root' files' seen' hcall'
        rw [hcall] at hcall'
        cases hcall'
        exact hinsert.cached root files (Function.update_self ..)
      · intro hright
        refine ⟨fun r hr ↦ ?_, fun other files' hcached ↦ ?_⟩
        · rcases List.mem_append.mp hr with hr | hr
          · exact h.returned r hr
          · rw [List.mem_singleton.mp hr]
            exact hwalked.files id _ files hcall rfl
        · obtain ⟨rfl, hnew⟩ | hold := update_eq_some hcached
          · obtain rfl := Option.some.inj hnew
            exact hright other files seen hcall
          · exact h.cached other files' hold
  · next hother =>
      exact iff_of_true h fun root files seen hcall ↦ absurd hcall (hother root files seen)

end Listings

theorem walked_step (a : ListingAction) (h : s.Walked walker) :
    (s.step walker allowedRoots a).Walked walker := by
  cases a with
  | start id root extraRoot =>
      rw [step]
      split
      · exact h
      · exact walked_start h
  | walk id => exact walked_walk h
  | insert id => exact walked_insert h
  | write id path data workspace =>
      rw [step]
      split
      · exact h
      · rw [write]
        split
        · exact h
        · have hchange := walked_change h
          exact ⟨(hchange _).now, (hchange _).seen, (hchange _).files⟩
  | finishWrite id =>
      by_cases hid : (s.writes id).isSome = true
      · obtain ⟨s', heq, -, hwalked⟩ := finishWrite_eq walker hid
        rw [step, heq]
        exact walked_complete (hwalked h)
      · rw [step, finishWrite, Option.not_isSome_iff_eq_none.mp hid]
        exact h
  | copy disk => exact walked_change h disk
  | finishCopy => exact walked_complete h
  | invalidateCache root => exact ⟨h.now, h.seen, h.files⟩

theorem coherent_step (a : ListingAction) (hwalked : s.Walked walker) (h : s.Coherent walker) :
    (s.step walker allowedRoots a).Coherent walker ↔ s.LeavesNoneStale walker a := by
  cases a with
  | start id root extraRoot =>
      refine iff_of_true ?_ trivial
      rw [step]
      split
      · exact h
      · exact coherent_start h
  | walk id => exact iff_of_true (coherent_walk h) trivial
  | insert id => exact coherent_insert h hwalked
  | write id path data workspace =>
      refine iff_of_true ?_ trivial
      rw [step]
      split
      · exact h
      · rw [write]
        split
        · exact h
        · next written _ =>
            have hchange := h.change (s.disk.withTree written.2)
            exact ⟨hchange.returned, hchange.cached⟩
  | finishWrite id =>
      rw [step, LeavesNoneStale]
      by_cases hid : (s.writes id).isSome = true
      · obtain ⟨s', heq, hcoherent, -⟩ := finishWrite_eq walker hid
        rw [heq, coherent_complete (hcoherent h)]
        exact ⟨fun hfresh _ ↦ hfresh, fun hfresh ↦ hfresh hid⟩
      · refine iff_of_true ?_ fun hsome ↦ absurd hsome hid
        rw [finishWrite, Option.not_isSome_iff_eq_none.mp hid]
        exact h
  | copy disk => exact iff_of_true (h.change disk) trivial
  | finishCopy => exact coherent_complete h
  | invalidateCache root => exact iff_of_true (h.invalidateCache root) trivial

end ListingState

section Stale

def plainWalker : Walker := fun disk root ↦ (disk.tree.places.filter root.isPrefixOf).map some

def emptyWorkspace : Disk where
  tree := FileTree.empty.set ["w"] .dir
  currentDir := none
  isDir_currentDir := by simp
  maxLinks := 40
  errorText _ := ""

def copiedInto : Disk :=
  emptyWorkspace.withTree (emptyWorkspace.tree.set ["w", "f"] (.file .empty))

/-- `/w` is listed, a file is copied into it, and it is listed again. -/
def listCopyList : List ListingAction :=
  [.start 0 "/w" (some "/w"), .walk 0, .insert 0, .copy copiedInto, .finishCopy,
    .start 1 "/w" (some "/w")]

theorem listCopyList_stale :
    ¬∀ r ∈ (run (ListingState.step plainWalker []) (.new emptyWorkspace) listCopyList).returned,
      r.files ∈ r.seen.map (listWorkspaceFilesSync plainWalker · r.root) := by
  decide

end Stale

end Zaowutai.File
