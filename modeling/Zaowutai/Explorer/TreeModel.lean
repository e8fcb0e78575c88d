import Mathlib.Data.Finset.Basic
import Mathlib.Data.Int.Notation
import Mathlib.Data.String.Basic
import Zaowutai.Lib.Table

/-!
# The file tree

Each node is the listing of one directory with the watch that keeps it live.
A watcher event is only a hint: the node is reconciled against a fresh read,
and the changes between the two listings go out as a delta.
-/

namespace Zaowutai.Explorer

open Zaowutai.Lib

inductive Kind
  | file
  | dir
  | symlink
  deriving DecidableEq, Repr

structure EntryFact where
  kind : Kind
  /-- Zero when the provider cannot supply one. -/
  inode : ℕ
  symlinkTarget : Option String
  mtimeMs : Option ℤ
  deriving DecidableEq, Repr

inductive FsError
  | notFound (uri : String)
  | alreadyExists (uri : String)
  | permissionDenied (uri : String)
  | notADirectory (uri : String)
  | unsupportedScheme (scheme : String)
  | io (uri message : String)
  deriving DecidableEq, Repr

abbrev Listing := Table String EntryFact

def inOrder (m : Listing) : List (String × EntryFact) :=
  (m.entries.map fun e ↦ (e.1, e.2)).insertionSort fun a b ↦ a.1 ≤ b.1

def collect (rows : List (String × EntryFact)) : Listing :=
  rows.foldl (fun m row ↦ m.insert row.1 row.2) ∅

structure Snapshot where
  canonical : String
  entries : List (String × EntryFact)
  deriving DecidableEq, Repr

inductive Change
  | added (name : String) (kind : Kind)
  | removed (name : String)
  | renamed (source target : String)
  /-- The content changed; the listing did not. -/
  | modified (name : String)
  deriving DecidableEq, Repr

structure DeltaBatch where
  canonical : String
  changes : List Change
  deriving DecidableEq, Repr

/-- What to check again: some children, or the whole level. -/
inductive Hint
  | childNames (names : List String)
  | all
  deriving DecidableEq, Repr

structure WatchHandle where
  canonical : String
  deriving DecidableEq, Repr

structure Node where
  entries : Listing
  watch : WatchHandle

/-- The runtimes by scheme; `armed` are the directories that the operating system watches. -/
structure FsRuntimes where
  schemes : List String
  armed : Finset String

structure TreeModel where
  nodes : Table String Node
  runtimes : FsRuntimes

structure UrlCrate where
  isFile : String → Bool
  uriToPath : String → Option String
  /-- The URI of the child of a directory. -/
  childToUri : (path name : String) → Option String

/-- What the watcher and the provider answer during one command; `stat` counts its calls. -/
structure FsAnswers where
  watch : Except FsError Unit
  readDir : Except FsError (List (String × EntryFact))
  stat : ℕ → Except FsError (Option EntryFact)

def hiddenExact : List String :=
  [".git", ".ds_store", ".spotlight-v100", ".trashes", ".fseventsd", ".appledouble", ".apdisk",
    "thumbs.db", "ehthumbs.db", "desktop.ini", "$recycle.bin", ".directory"]

def hiddenPrefix : List String := ["._", ".trash-"]

def shouldHide (name : String) : Bool :=
  let lower := name.toList.map Char.toLower
  hiddenExact.any (·.toList = lower) || hiddenPrefix.any (·.toList.isPrefixOf lower)

def isMtimeChange (old fresh : EntryFact) : Bool :=
  match old.mtimeMs, fresh.mtimeMs with
  | some a, some b => a ≠ b
  | _, _ => false

section Diff

def removedEntries (old fresh : Listing) : List (String × EntryFact) :=
  (inOrder old).filter fun e ↦ match fresh.lookup e.1 with
    | none => true
    | some nf => nf.kind ≠ e.2.kind

def addedEntries (old fresh : Listing) : List (String × EntryFact) :=
  ((inOrder old).filterMap fun e ↦ match fresh.lookup e.1 with
    | none => none
    | some nf => if nf.kind ≠ e.2.kind then some (e.1, nf) else none) ++
  (inOrder fresh).filter fun e ↦ (old.lookup e.1).isNone

def modifiedNames (old fresh : Listing) : List String :=
  ((inOrder old).filter fun e ↦ match fresh.lookup e.1 with
    | none => false
    | some nf => nf.kind = e.2.kind && (e.2.kind = .file && isMtimeChange e.2 nf)).map Prod.fst

structure AddedSlot where
  name : String
  fact : EntryFact
  used : Bool
  deriving DecidableEq, Repr

def useSlot (rf : EntryFact) : List AddedSlot → Option (String × List AddedSlot)
  | [] => none
  | slot :: rest =>
      if !slot.used && slot.fact.inode = rf.inode && slot.fact.kind = rf.kind then
        some (slot.name, { slot with used := true } :: rest)
      else (useSlot rf rest).map fun (name, rest) ↦ (name, slot :: rest)

structure Pairing where
  renames : List (String × String)
  removed : List (String × EntryFact)
  slots : List AddedSlot
  deriving DecidableEq, Repr

def pairRenames : List (String × EntryFact) → List AddedSlot → Pairing
  | [], slots => ⟨[], [], slots⟩
  | (name, rf) :: removed, slots =>
      match if rf.inode ≠ 0 then useSlot rf slots else none with
      | some (target, slots) =>
          let rest := pairRenames removed slots
          { rest with renames := (name, target) :: rest.renames }
      | none =>
          let rest := pairRenames removed slots
          { rest with removed := (name, rf) :: rest.removed }

def pairing (old fresh : Listing) : Pairing :=
  pairRenames (removedEntries old fresh)
    ((addedEntries old fresh).map fun e ↦ ⟨e.1, e.2, false⟩)

def diff (old fresh : Listing) : List Change :=
  let p := pairing old fresh
  (p.renames.map fun r ↦ .renamed r.1 r.2) ++
    ((p.slots.filter fun slot ↦ !slot.used).map fun slot ↦ .added slot.name slot.fact.kind) ++
    (p.removed.map fun e ↦ .removed e.1) ++
    ((modifiedNames old fresh).map .modified)

end Diff

namespace TreeModel

variable (urls : UrlCrate) (answers : FsAnswers) (t : TreeModel)

def new (schemes : List String) : TreeModel := ⟨∅, schemes, ∅⟩

def runtimeFor (canonical : String) : Except FsError Unit :=
  if !urls.isFile canonical then .error (.io canonical "cannot parse scheme")
  else if "file" ∈ t.runtimes.schemes then .ok ()
  else .error (.unsupportedScheme "file")

def childUri (canonical name : String) : Except FsError String :=
  match urls.uriToPath canonical with
  | none => .error (.io canonical "invalid canonical")
  | some dir =>
      match urls.childToUri dir name with
      | none => .error (.io canonical "cannot build child uri")
      | some uri => .ok uri

def snapshot (canonical : String) : Option Snapshot :=
  (t.nodes.lookup canonical).map fun node ↦ ⟨canonical, inOrder node.entries⟩

def watch (canonical : String) : TreeModel :=
  { t with runtimes.armed := insert canonical t.runtimes.armed }

def unwatch (handle : WatchHandle) : TreeModel :=
  { t with runtimes.armed := t.runtimes.armed.erase handle.canonical }

/-- The watch is armed before the listing is read, and stays armed when the read fails. -/
def mount (canonical : String) : TreeModel × Except FsError Snapshot :=
  match t.snapshot canonical with
  | some snapshot => (t, .ok snapshot)
  | none =>
      match t.runtimeFor urls canonical, answers.watch with
      | .error e, _ => (t, .error e)
      | .ok _, .error e => (t, .error e)
      | .ok _, .ok _ =>
          let t := t.watch canonical
          match answers.readDir with
          | .error e => (t, .error e)
          | .ok rows =>
              let entries := collect rows
              ({ t with nodes := t.nodes.insert canonical ⟨entries, ⟨canonical⟩⟩ },
                .ok ⟨canonical, inOrder entries⟩)

def unmount (canonical : String) : TreeModel :=
  match t.nodes.lookup canonical with
  | none => t
  | some node =>
      let t := { t with nodes := t.nodes.erase canonical }
      match t.runtimeFor urls canonical with
      | .ok _ => t.unwatch node.watch
      | .error _ => t

/-- Check the named children again, over the old listing; `calls` counts the calls of `stat`. -/
def statChildren (canonical : String) : ℕ → Listing → List String → Except FsError Listing
  | _, m, [] => .ok m
  | calls, m, name :: names =>
      if shouldHide name then statChildren canonical calls m names
      else match childUri urls canonical name, answers.stat calls with
        | .error e, _ => .error e
        | .ok _, .error e => .error e
        | .ok _, .ok (some fact) => statChildren canonical (calls + 1) (m.insert name fact) names
        | .ok _, .ok none => statChildren canonical (calls + 1) (m.erase name) names

def freshListing (canonical : String) (old : Listing) : Hint → Except FsError Listing
  | .all => answers.readDir.map collect
  | .childNames names => statChildren urls answers canonical 0 old names

/-- Nothing is returned for a directory that is not mounted or has not changed. -/
def apply (canonical : String) (hint : Hint) : TreeModel × Except FsError (Option DeltaBatch) :=
  match t.nodes.lookup canonical with
  | none => (t, .ok none)
  | some node =>
      match t.runtimeFor urls canonical, freshListing urls answers canonical node.entries hint with
      | .error e, _ => (t, .error e)
      | .ok _, .error e => (t, .error e)
      | .ok _, .ok fresh =>
          let changes := diff node.entries fresh
          if changes.isEmpty then (t, .ok none)
          else
            ({ t with nodes := t.nodes.modify canonical fun node ↦ { node with entries := fresh } },
              .ok (some ⟨canonical, changes⟩))

end TreeModel

end Zaowutai.Explorer
