import Mathlib.Data.List.SplitOn
import Zaowutai.Lib.FileTree

/-!
# The sandbox of the file service

A path from a request is resolved before it is compared with the allowed roots.
For reading the whole path is resolved; for writing, where the file need not be
there, only the parent is, and the file name is put behind it.  Paths are those of
Unix, and links are followed by the system.
-/

namespace Zaowutai.File

open Zaowutai.Lib

abbrev Place := List String

/-- A path as the system takes it apart: an empty name and `.` stay where they are. -/
structure OsPath where
  absolute : Bool
  moves : List (Move String)
  deriving DecidableEq, Repr

def moveOf (piece : String) : Move String :=
  if piece = "" ∨ piece = "." then .stay else if piece = ".." then .up else .down piece

namespace OsPath

def ofText (text : String) : OsPath :=
  if text = "" then ⟨false, []⟩
  else ⟨text.toList.head? = some '/',
    (text.toList.splitOnP (· = '/')).map fun piece ↦ moveOf (.ofList piece)⟩

def ofPlace (place : Place) : OsPath := ⟨true, place.map .down⟩

/-- The components after the root; a relative path that begins with `.` keeps it. -/
def components (p : OsPath) : List (Move String) :=
  (if p.absolute = false ∧ p.moves.head? = some .stay then [.stay] else []) ++
    p.moves.filter (· ≠ .stay)

def parent (p : OsPath) : Option OsPath :=
  if p.components = [] then none else some ⟨p.absolute, p.components.dropLast⟩

def fileName (p : OsPath) : Option String :=
  match p.components.getLast? with
  | some (.down name) => some name
  | _ => none

def hasNul (p : OsPath) : Bool :=
  p.moves.any fun
    | .down name => name.toList.contains '\x00'
    | _ => false

end OsPath

structure Disk where
  tree : FileTree String ByteArray
  currentDir : Option Place
  isDir_currentDir : ∀ dir, currentDir = some dir → tree.isDir dir = true
  maxLinks : ℕ
  errorText : FollowError → String

namespace Disk

def start (disk : Disk) (p : OsPath) : Except FollowError Place :=
  if p.hasNul then .error .invalidInput
  else if p.absolute then .ok []
  else if p.moves = [] then .error .notFound
  else
    match disk.currentDir with
    | some dir => .ok dir
    | none => .error .notFound

def canonicalize (disk : Disk) (p : OsPath) : Except FollowError Place :=
  match disk.start p with
  | .ok start => disk.tree.find disk.maxLinks start p.moves
  | .error e => .error e

def openForWrite (disk : Disk) (p : OsPath) : Except FollowError Place :=
  match disk.start p with
  | .ok start => disk.tree.openForWrite disk.maxLinks start p.moves
  | .error e => .error e

/-- The place lies below the canonical form of the root. -/
def isUnder (disk : Disk) (place : Place) (root : String) : Bool :=
  match disk.canonicalize (.ofText root) with
  | .ok root => root.isPrefixOf place
  | .error _ => false

end Disk

inductive FileError
  | badRequest (message : String)
  | pathOutsideSandbox (message : String) (field operation : Option String)
  | internal (message : String)
  deriving DecidableEq, Repr

def FileError.isBadRequest : FileError → Bool
  | .badRequest _ => true
  | _ => false

section PathSafety

variable (disk : Disk)

def outsideSandbox (path operation : String) : FileError :=
  .pathOutsideSandbox ("path '" ++ path ++ "' is outside the allowed sandbox") (some "path")
    (some operation)

def validatePath (path : String) (allowedRoots : List String) : Except FileError Place :=
  match disk.canonicalize (.ofText path) with
  | .error e => .error (.badRequest ("cannot resolve path '" ++ path ++ "': " ++ disk.errorText e))
  | .ok canonical =>
      if allowedRoots.any (disk.isUnder canonical) then .ok canonical
      else .error (outsideSandbox path "access")

def validatePathWithExtraRoot (path : String) (baseRoots : List String) (extra : Option String) :
    Except FileError Place :=
  validatePath disk path (baseRoots ++ extra.toList)

def validatePathForWrite (path : String) (allowedRoots : List String) :
    Except FileError OsPath :=
  match (OsPath.ofText path).parent with
  | none => .error (.badRequest ("path '" ++ path ++ "' has no parent directory"))
  | some parent =>
      match (OsPath.ofText path).fileName with
      | none => .error (.badRequest ("path '" ++ path ++ "' has no file name component"))
      | some fileName =>
          match disk.canonicalize parent with
          | .error e => .error
              (.badRequest ("cannot resolve parent of '" ++ path ++ "': " ++ disk.errorText e))
          | .ok canonicalParent =>
              if allowedRoots.any (disk.isUnder canonicalParent) then
                .ok (.ofPlace (canonicalParent ++ [fileName]))
              else .error (outsideSandbox path "write")

end PathSafety

def hasTraversal (path : String) : Bool :=
  path.toList.contains '\x00' || (OsPath.ofText path).moves.contains .up

def invalidTraversal (path : String) : FileError :=
  .badRequest ("path '" ++ path ++ "' contains invalid traversal patterns")

def maxFileSize : ℕ := 256 * 1024 * 1024

structure Opened where
  place : Place
  text : String

section Reading

variable (disk : Disk)

def display (place : Place) : String := "/" ++ "/".intercalate place

def validateFileForRead (path : Place) : Except FileError (Option Unit) :=
  match disk.canonicalize (.ofPlace path) with
  | .error .notFound => .ok none
  | .error e => .error
      (.internal ("cannot read metadata for '" ++ display path ++ "': " ++ disk.errorText e))
  | .ok place =>
      match disk.tree.entry place with
      | some (.file content) =>
          if content.size > maxFileSize then
            .error (.badRequest ("file '" ++ display path ++ "' exceeds 256 MB limit (" ++
              toString content.size ++ " bytes)"))
          else .ok (some ())
      | _ => .error
          (.badRequest ("path '" ++ display path ++ "' is a directory; expected a file"))

def readToString (path : Place) : Except FollowError Opened :=
  match disk.canonicalize (.ofPlace path) with
  | .error e => .error e
  | .ok place =>
      match disk.tree.entry place with
      | some (.file content) =>
          match String.fromUTF8? content with
          | some text => .ok ⟨place, text⟩
          | none => .error .invalidInput
      | _ => .error .isADirectory

def readFileSync (path : Place) : Except FileError (Option Opened) :=
  match validateFileForRead disk path with
  | .error e => .error e
  | .ok none => .ok none
  | .ok (some ()) =>
      match readToString disk path with
      | .ok opened => .ok (some opened)
      | .error e => .error
          (.internal ("cannot read file '" ++ display path ++ "': " ++ disk.errorText e))

def pathUsesAllowedRoot (path : OsPath) (roots : List String) : Bool :=
  let candidate : OsPath :=
    if path.absolute then path
    else
      match disk.currentDir with
      | some dir => ⟨true, dir.map .down ++ path.moves⟩
      | none => path
  roots.any fun root ↦
    match disk.canonicalize (.ofText root) with
    | .ok root => candidate.absolute && (root.map Move.down).isPrefixOf candidate.components
    | .error _ => false

/-- `FileService::read_file` with the service's roots; it returns the text of what it opened. -/
def readFile (allowedRoots : List String) (path : String) (extraRoot : Option String) :
    Except FileError (Option Opened) :=
  if hasTraversal path then .error (invalidTraversal path)
  else
    match validatePathWithExtraRoot disk path allowedRoots extraRoot with
    | .ok canonical => readFileSync disk canonical
    | .error e =>
        if e.isBadRequest &&
            (validatePathForWrite disk path (allowedRoots ++ extraRoot.toList)).isOk then .ok none
        else if e.isBadRequest &&
            pathUsesAllowedRoot disk (.ofText path) (allowedRoots ++ extraRoot.toList) then .ok none
        else .error e

end Reading

section Writing

variable (disk : Disk)

def writeFileSync (path : OsPath) (data : ByteArray) :
    Except FollowError (Place × FileTree String ByteArray) :=
  match disk.openForWrite path with
  | .ok place => .ok (place, disk.tree.set place (.file data))
  | .error e => .error e

/-- `FileService::write_file_for_user` up to the broadcast of the update. -/
def writeFileForUser (allowedRoots : List String) (path : String) (data : ByteArray)
    (workspace : String) : Except FileError (Place × FileTree String ByteArray) :=
  if hasTraversal path then .error (invalidTraversal path)
  else
    match validatePathForWrite disk path (allowedRoots ++ [workspace]) with
    | .error e => .error e
    | .ok canonical =>
        match writeFileSync disk canonical data with
        | .ok written => .ok written
        | .error e => .error (.internal ("cannot write file '" ++
            display (canonical.moves.filterMap fun
              | .down name => some name
              | _ => none) ++ "': " ++ disk.errorText e))

end Writing

end Zaowutai.File
