import Mathlib.Data.List.Dedup
import Zaowutai.Explorer.TreeModel

/-!
# The wanted directories

The client knows a directory by its entry and a path below it.  A directory is
wanted when it and every directory above it are expanded.  A path is the list
of its characters.
-/

namespace Zaowutai.Explorer

structure PeKey where
  peId : String
  relativePath : List Char
  deriving DecidableEq, Repr

def joinRel (parentRel name : List Char) : List Char :=
  if parentRel = [] then name else parentRel ++ '/' :: name

/-- From the immediate parent down to the root, which has none. -/
def ancestorRels (relativePath : List Char) : List (List Char) :=
  if relativePath = [] then []
  else
    let segs := relativePath.splitOn '/'
    ((List.range' 1 (segs.length - 1)).reverse.map fun i ↦
      List.intercalate ['/'] (segs.take i)) ++ [[]]

def deriveWant (expanded : List PeKey) : List PeKey :=
  expanded.filter fun key ↦
    (ancestorRels key.relativePath).all fun rel ↦ expanded.contains ⟨key.peId, rel⟩

/-- What to subscribe and what to unsubscribe. -/
def reconcileDiff (want current : List PeKey) : List PeKey × List PeKey :=
  (want.filter fun key ↦ !current.contains key, current.filter fun key ↦ !want.contains key)

def isDescendantOrSelf (key ancestorKey : PeKey) : Bool :=
  if ancestorKey.peId ≠ key.peId then false
  else if ancestorKey.relativePath = key.relativePath then true
  else
    let pre := if ancestorKey.relativePath = [] then [] else ancestorKey.relativePath ++ ['/']
    pre.isPrefixOf key.relativePath && (pre ≠ [] || key.relativePath ≠ [])

def subtreeKeys (keys : List PeKey) (rootKey : PeKey) : List PeKey :=
  keys.filter fun key ↦ isDescendantOrSelf key rootKey

def migrateKey (key source target : PeKey) : PeKey :=
  if key.peId ≠ source.peId then key
  else if key.relativePath = source.relativePath then target
  else
    let pre := if source.relativePath = [] then [] else source.relativePath ++ ['/']
    if pre ≠ [] && pre.isPrefixOf key.relativePath then
      ⟨target.peId, target.relativePath ++ key.relativePath.drop source.relativePath.length⟩
    else key

section Membership

variable {want current : List PeKey} {key : PeKey}

theorem mem_toAdd : key ∈ (reconcileDiff want current).1 ↔ key ∈ want ∧ key ∉ current := by
  simp [reconcileDiff]

theorem mem_toRemove : key ∈ (reconcileDiff want current).2 ↔ key ∈ current ∧ key ∉ want := by
  simp [reconcileDiff]

end Membership

example : deriveWant [⟨"pe", []⟩, ⟨"pe", "a".toList⟩, ⟨"pe", "b/c".toList⟩] =
    [⟨"pe", []⟩, ⟨"pe", "a".toList⟩] := by decide

/-!
## The local watcher

The system reports an event under the spelling of a directory that was watched,
or under its real path.  A table of both spellings leads back to the directory
as the file tree names it.
-/

open Zaowutai.Lib

/-- What the system reported, as a hint which children to check. -/
inductive RawEvent
  | changed (canonical : String) (paths : List String)
  | overflow (canonical : String)
  deriving DecidableEq, Repr

/-- A watched directory: `notifyPath` is the path that the system was given, `lexical` the name in
the file tree. -/
structure WatchEntry where
  lexical : String
  notifyPath : String
  deriving DecidableEq, Repr

/-- `inner` are the paths that the system watches; `watched` holds the entries by each canonical
that an event may be reported under. -/
structure LocalWatcher where
  inner : Finset String
  watched : Table String WatchEntry

structure EventPath where
  self : Option String
  parent : Option String
  deriving DecidableEq, Repr

def resolveOwner (watched : Table String WatchEntry) (path : EventPath) : List String :=
  let owners := ((path.self.bind watched.lookup).map WatchEntry.lexical).toList
  match path.parent.bind watched.lookup with
  | some entry => if entry.lexical ∈ owners then owners else owners ++ [entry.lexical]
  | none => owners

namespace LocalWatcher

-- `realpath` is the canonical of a path with its links resolved, if it can be resolved.
variable (urls : UrlCrate) (realpath : String → Option String) (w : LocalWatcher)

def new : LocalWatcher := ⟨∅, ∅⟩

/-- `answer` is what the system says to the watch. -/
def watch (answer : Except FsError Unit) (canonical : String) :
    LocalWatcher × Except FsError WatchHandle :=
  match urls.uriToPath canonical with
  | none => (w, .error (.io canonical "invalid file uri"))
  | some path =>
      match answer with
      | .error e => (w, .error e)
      | .ok _ =>
          let entry : WatchEntry := ⟨canonical, path⟩
          let watched := w.watched.insert canonical entry
          let watched := match realpath path with
            | none => watched
            | some real => if real ∈ watched then watched else watched.insert real entry
          (⟨insert path w.inner, watched⟩, .ok ⟨canonical⟩)

def unwatch (handle : WatchHandle) : LocalWatcher :=
  let watched := w.watched.retain fun _ entry ↦ entry.lexical ≠ handle.canonical
  match w.watched.values.find? fun entry ↦ entry.lexical = handle.canonical with
  | some entry => ⟨w.inner.erase entry.notifyPath, watched⟩
  | none => ⟨w.inner, watched⟩

end LocalWatcher

end Zaowutai.Explorer
