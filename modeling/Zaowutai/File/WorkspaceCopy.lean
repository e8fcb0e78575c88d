import Zaowutai.File.PathSafety
import Zaowutai.Lib.TreeGrowth

/-!
# Copying into a workspace

Files and directories are copied one after another, each under a name that
nothing is found under.  The disk changes as the copies are made, and what has
been created stays when a copy fails.  The recursive copy reads a directory after
it has created its destination, so it runs with a bound on the depth.
-/

namespace Zaowutai.File

open Zaowutai.Lib

namespace Disk

variable (disk : Disk)

def set (p : Place) (e : Entry String ByteArray) : Disk where
  tree := disk.tree.set p e
  currentDir := disk.currentDir
  isDir_currentDir dir h := FileTree.isDir_set (disk.isDir_currentDir dir h)
  maxLinks := disk.maxLinks
  errorText := disk.errorText

/-- Where an absolute path of plain names leads. -/
def resolve (path : Place) : Except FollowError Place :=
  disk.tree.find disk.maxLinks [] (path.map .down)

def opened (path : Place) : Except FollowError Place :=
  disk.tree.openForWrite disk.maxLinks [] (path.map .down)

/-- `Path::exists`, which follows links. -/
def existsAt (path : Place) : Bool := (disk.resolve path).isOk

/-- `Path::is_dir`, which follows links. -/
def isDirAt (path : Place) : Bool :=
  match disk.resolve path with
  | .ok p => disk.tree.isDir p
  | .error _ => false

def mkdir (dir : Place) (name : String) : Except FollowError Disk :=
  match disk.resolve dir with
  | .error e => .error e
  | .ok p =>
      if disk.tree.isDir p then
        if (disk.tree.entry (p ++ [name])).isSome then .error .alreadyExists
        else .ok (disk.set (p ++ [name]) .dir)
      else .error .notADirectory

/-- `std::fs::create_dir_all`, with the names of the path from the last one on. -/
def createDirAll (disk : Disk) : List String → Disk × Option FollowError
  | [] => (disk, none)
  | name :: above =>
      match disk.mkdir above.reverse name with
      | .ok disk => (disk, none)
      | .error .notFound =>
          match createDirAll disk above with
          | (disk, some e) => (disk, some e)
          | (disk, none) =>
              match disk.mkdir above.reverse name with
              | .ok disk => (disk, none)
              | .error e =>
                  (disk, if disk.isDirAt (name :: above).reverse then none else some e)
      | .error e => (disk, if disk.isDirAt (name :: above).reverse then none else some e)

/-- `std::fs::copy`; opening the destination empties a file that is there. -/
def copy (src dest : Place) : Except FollowError Disk :=
  match disk.resolve src with
  | .error e => .error e
  | .ok p =>
      match disk.tree.entry p with
      | some (.file content) =>
          match disk.opened dest with
          | .error e => .error e
          | .ok q => .ok (disk.set q (.file (if q = p then .empty else content)))
      | _ => .error .invalidInput

end Disk

def OsPath.text (p : OsPath) : String :=
  (if p.absolute then "/" else "") ++ "/".intercalate (p.moves.map fun
    | .stay => "."
    | .up => ".."
    | .down name => name)

/-- The last interior dot begins the extension. -/
def splitExt (name : String) : String × String :=
  let ext := (name.toList.reverse.takeWhile (· ≠ '.')).reverse
  let stem := name.toList.take (name.toList.length - (ext.length + 1))
  if '.' ∈ name.toList ∧ stem ≠ [] then (.ofList stem, .ofList ('.' :: ext)) else (name, "")

def candidateName (base : String) (attempt : ℕ) (isDir : Bool) : String :=
  if attempt = 0 then base
  else
    let (stem, ext) := if isDir then (base, "") else splitExt base
    if attempt = 1 then stem ++ " copy" ++ ext
    else stem ++ " copy " ++ toString attempt ++ ext

def freeDestFrom (disk : Disk) (parentDir : Place) (base : String) (isDir : Bool) :
    ℕ → ℕ → Option Place
  | 0, _ => none
  | left + 1, attempt =>
      let candidate := parentDir ++ [candidateName base attempt isDir]
      if disk.existsAt candidate then freeDestFrom disk parentDir base isDir left (attempt + 1)
      else some candidate

def maxAttempts : ℕ := 10000

def freeDestPath (disk : Disk) (parentDir : Place) (base : String) (isDir : Bool) :
    Option Place :=
  freeDestFrom disk parentDir base isDir maxAttempts 0

def copySingleFileSync (disk : Disk) (src dest : Place) : Disk × Bool :=
  match disk.createDirAll dest.dropLast.reverse with
  | (disk, some _) => (disk, false)
  | (disk, none) =>
      match disk.copy src dest with
      | .ok disk => (disk, true)
      | .error _ => (disk, false)

structure ListingOrder where
  order : Place → List String → List String
  perm : ∀ dir names, (order dir names).Perm names

/-- The entries of a directory, where a link is copied as the file it leads to. -/
def copyEntries (copyDir : Disk → Place → Place → Option (Disk × Bool)) (src dest : Place) :
    List String → Disk → Option (Disk × Bool)
  | [], disk => some (disk, true)
  | name :: names, disk =>
      if disk.tree.isDir (src ++ [name]) then
        match copyDir disk (src ++ [name]) (dest ++ [name]) with
        | some (disk, true) => copyEntries copyDir src dest names disk
        | stopped => stopped
      else
        match disk.copy (src ++ [name]) (dest ++ [name]) with
        | .ok disk => copyEntries copyDir src dest names disk
        | .error _ => some (disk, false)

/-- The source is a directory that is reached without links. -/
def copyDirRecursiveSync (listing : ListingOrder) : ℕ → Disk → Place → Place → Option (Disk × Bool)
  | 0, _, _, _ => none
  | fuel + 1, disk, src, dest =>
      match disk.createDirAll dest.reverse with
      | (disk, some _) => some (disk, false)
      | (disk, none) =>
          if disk.tree.isDir src then
            copyEntries (copyDirRecursiveSync listing fuel) src dest
              (listing.order src (disk.tree.children src)) disk
          else some (disk, false)

inductive Outcome
  | copied (dest : Place)
  | failed (reason : String)
  deriving DecidableEq, Repr

structure Report where
  path : String
  outcome : Outcome
  deriving DecidableEq, Repr

structure CopyFailure where
  path : String
  reason : String
  deriving DecidableEq, Repr

structure CopyCall where
  listing : ListingOrder
  roots : List String
  workspace : Place
  sourceRoot : Option Place

namespace CopyCall

variable (call : CopyCall)

def source (disk : Disk) (fp : String) : Except FileError Place :=
  validatePathWithExtraRoot disk fp call.roots
    (match call.sourceRoot with
    | some root => some (display root)
    | none => (OsPath.ofText fp).parent.map OsPath.text)

def relative (src : Place) : Place :=
  match call.sourceRoot with
  | some root => if root.isPrefixOf src then src.drop root.length else src.getLast?.toList
  | none => src.getLast?.toList

def parentDir (src : Place) : Place := call.workspace ++ (call.relative src).dropLast

def copyItem (fuel : ℕ) (disk : Disk) (src : Place) (isDir : Bool) : Option (Disk × Outcome) :=
  match (call.relative src).getLast? with
  | none => some (disk, .failed "source has no valid file name")
  | some base =>
      match disk.createDirAll (call.parentDir src).reverse with
      | (disk, some e) =>
          some (disk, .failed ("cannot create destination directory: " ++ disk.errorText e))
      | (disk, none) =>
          match freeDestPath disk (call.parentDir src) base isDir with
          | none => some (disk, .failed "too many name collisions at the destination")
          | some dest =>
              match if isDir then copyDirRecursiveSync call.listing fuel disk src dest
                else some (copySingleFileSync disk src dest) with
              | none => none
              | some (disk, true) => some (disk, .copied dest)
              | some (disk, false) => some (disk, .failed "copy failed")

def copyOne (fuel : ℕ) (disk : Disk) (fp : String) : Option (Disk × Outcome) :=
  match call.source disk fp with
  | .error _ => some (disk, .failed "source is not accessible or outside the allowed roots")
  | .ok src =>
      match disk.tree.entry src with
      | some .dir => call.copyItem fuel disk src true
      | some (.file _) => call.copyItem fuel disk src false
      | _ => some (disk, .failed "source is neither a file nor a directory")

def copyAll (fuel : ℕ) : Disk → List String → Option (Disk × List Report)
  | disk, [] => some (disk, [])
  | disk, fp :: fps =>
      match call.copyOne fuel disk fp with
      | none => none
      | some (disk, outcome) => (copyAll fuel disk fps).map (Prod.map id (⟨fp, outcome⟩ :: ·))

end CopyCall

section Service

variable (listing : ListingOrder) (disk : Disk) (allowedRoots : List String) (workspace : String)
  (sourceRoot : Option String)

def copyCall : Except FileError CopyCall :=
  match validatePathWithExtraRoot disk workspace allowedRoots (some workspace) with
  | .error e => .error e
  | .ok ws =>
      match sourceRoot with
      | none => .ok ⟨listing, allowedRoots ++ [display ws], ws, none⟩
      | some root =>
          match validatePathWithExtraRoot disk root allowedRoots (some root) with
          | .error e => .error e
          | .ok root => .ok
              ⟨listing, allowedRoots ++ [display ws] ++ [display root], ws, some root⟩

def copyFilesToWorkspace (fuel : ℕ) (filePaths : List String) :
    Except FileError (Option (Disk × List Report)) :=
  match copyCall listing disk allowedRoots workspace sourceRoot with
  | .error e => .error e
  | .ok call => .ok (call.copyAll fuel disk filePaths)

end Service

def copiedFiles (reports : List Report) : List String :=
  reports.filterMap fun report ↦
    match report.outcome with
    | .copied _ => some report.path
    | .failed _ => none

def failedFiles (reports : List Report) : List CopyFailure :=
  reports.filterMap fun report ↦
    match report.outcome with
    | .copied _ => none
    | .failed reason => some ⟨report.path, reason⟩

end Zaowutai.File
