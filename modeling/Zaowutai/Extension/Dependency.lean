import Mathlib.Data.String.Basic
import Mathlib.Data.List.Sort
import Mathlib.Data.Finset.Basic
import Mathlib.Logic.Function.Basic

/-!
# The dependencies of extensions

A set of extensions is checked for dependencies that are not installed or do not
have the version asked for, and put into an order to load them in: what has no
dependency left is emitted, and the extensions left over, which are searched for
cycles, follow alphabetically.  The iteration order of a dependency map is any:
it is that of its list.
-/

namespace Zaowutai.Extension

structure ExtensionManifest where
  name : String
  version : String
  dependencies : List (String × String)
  nodup_keys : (dependencies.map Prod.fst).Nodup

structure LoadedExtension where
  manifest : ExtensionManifest

def LoadedExtension.name (ext : LoadedExtension) : String := ext.manifest.name

def LoadedExtension.keys (ext : LoadedExtension) : List String :=
  ext.manifest.dependencies.map Prod.fst

inductive DependencyIssue
  | missing (extension dependency required : String)
  | versionMismatch (extension dependency required actual : String)
  | circular (cycle : List String)
  deriving DecidableEq, Repr

structure DependencyValidationResult where
  valid : Bool
  issues : List DependencyIssue
  loadOrder : List String
  deriving DecidableEq, Repr

/-- The parser and the comparison of versions that the program calls. -/
structure Semver (Version VersionReq : Type*) where
  parseVersion : String → Option Version
  parseReq : String → Option VersionReq
  matches_ : VersionReq → Version → Bool

section Versions

variable {Version VersionReq : Type*} (semver : Semver Version VersionReq)

def requirementText (requirement : String) : String :=
  if requirement.toList.head?.any Char.isDigit then "=" ++ requirement else requirement

def versionMatches (requirement actual : String) : Bool :=
  match semver.parseVersion actual with
  | none => false
  | some version =>
      match semver.parseReq (requirementText requirement) with
      | none => false
      | some req => semver.matches_ req version

def versions (extensions : List LoadedExtension) (name : String) : Option String :=
  (extensions.reverse.find? (·.name = name)).map (·.manifest.version)

def checkDependency (extensions : List LoadedExtension) (ext : LoadedExtension)
    (dep : String × String) : List DependencyIssue :=
  match versions extensions dep.1 with
  | none => [.missing ext.name dep.1 dep.2]
  | some actualVersion =>
      if versionMatches semver dep.2 actualVersion then []
      else [.versionMismatch ext.name dep.1 dep.2 actualVersion]

end Versions

/-- The two maps of the sort: to the dependents, and to the number of dependencies not emitted. -/
structure DependencyGraph where
  adj : String → List String
  inDegree : String → Option ℕ

namespace DependencyGraph

def empty : DependencyGraph := ⟨fun _ ↦ [], fun _ ↦ none⟩

def addDependency (known : List String) (name : String) (g : DependencyGraph) (dep : String) :
    DependencyGraph :=
  if dep ∈ known then
    { adj := Function.update g.adj dep (g.adj dep ++ [name])
      inDegree := Function.update g.inDegree name (some ((g.inDegree name).getD 0 + 1)) }
  else g

def addExtension (known : List String) (g : DependencyGraph) (ext : LoadedExtension) :
    DependencyGraph :=
  ext.keys.foldl (addDependency known ext.name)
    { g with inDegree := Function.update g.inDegree ext.name (some ((g.inDegree ext.name).getD 0)) }

end DependencyGraph

def sorted (names : List String) : List String := names.insertionSort (· ≤ ·)

/-- Takes one off the counter of a dependent; `none` is the panic on a counter that is missing or
zero already. -/
def release (counts : (String → Option ℕ) × List String) (dependent : String) :
    Option ((String → Option ℕ) × List String) :=
  match counts.1 dependent with
  | some (deg + 1) =>
      some (Function.update counts.1 dependent (some deg),
        if deg = 0 then counts.2 ++ [dependent] else counts.2)
  | _ => none

structure Emission where
  queue : List String
  inDegree : String → Option ℕ
  order : List String

/-- Emits what is queued; `none` also when there is still something queued after `rounds`. -/
def emit (adj : String → List String) : ℕ → Emission → Option (List String)
  | _, ⟨[], _, order⟩ => some order
  | 0, ⟨_ :: _, _, _⟩ => none
  | rounds + 1, ⟨node :: queue, inDegree, order⟩ =>
      ((adj node).foldlM release (inDegree, [])).bind fun counts ↦
        emit adj rounds ⟨queue ++ sorted counts.2, counts.1, order ++ [node]⟩

structure CycleSearch where
  visited : Finset String
  onStack : Finset String
  path : List String
  cycles : List (List String)

namespace CycleSearch

def empty : CycleSearch := ⟨∅, ∅, [], []⟩

def enter (s : CycleSearch) (node : String) : CycleSearch :=
  { s with visited := insert node s.visited, onStack := insert node s.onStack,
           path := s.path ++ [node] }

def leave (s : CycleSearch) (node : String) : CycleSearch :=
  { s with path := s.path.dropLast, onStack := s.onStack.erase node }

/-- The step from the top of the path back to a node on the stack. -/
def closeCycle (s : CycleSearch) (next : String) : CycleSearch :=
  if next ∈ s.path then
    { s with cycles := s.cycles ++ [s.path.drop (s.path.idxOf next) ++ [next]] }
  else s

/-- `none` when the recursion is deeper than `depth`. -/
def dfsFindCycles (adj : String → List String) :
    ℕ → String → CycleSearch → Option CycleSearch
  | 0, _, _ => none
  | depth + 1, node, s =>
      ((adj node).foldlM (fun s next ↦
          if next ∉ s.visited then dfsFindCycles adj depth next s
          else if next ∈ s.onStack then some (s.closeCycle next)
          else some s)
        (s.enter node)).map fun s ↦ s.leave node

end CycleSearch

def involvedDeps (extensions : List LoadedExtension) (involved : List String) (node : String) :
    List String :=
  if node ∈ involved then
    ((extensions.reverse.find? (·.name = node)).map fun ext ↦
      sorted (ext.keys.filter (· ∈ involved))).getD []
  else []

def findCycles (extensions : List LoadedExtension) (involved : List String) :
    Option (List (List String)) :=
  ((sorted involved).foldlM (fun s node ↦
      if node ∉ s.visited then
        s.dfsFindCycles (involvedDeps extensions involved) involved.length node
      else some s)
    CycleSearch.empty).map (·.cycles)

def knownNames (extensions : List LoadedExtension) : List String :=
  (extensions.map (·.name)).dedup

def dependencyGraph (extensions : List LoadedExtension) : DependencyGraph :=
  extensions.foldl (DependencyGraph.addExtension (knownNames extensions)) .empty

def emittedOrder (extensions : List LoadedExtension) : Option (List String) :=
  let known := knownNames extensions
  let g := dependencyGraph extensions
  emit g.adj known.length ⟨sorted (known.filter (g.inDegree · = some 0)), g.inDegree, []⟩

def computeTopologicalOrder (extensions : List LoadedExtension) :
    Option (List String × List (List String)) :=
  (emittedOrder extensions).bind fun order ↦
    let remaining := (knownNames extensions).filter (· ∉ order)
    (if remaining = [] then some [] else findCycles extensions remaining).map fun cycles ↦
      (order ++ sorted remaining, cycles)

def topologicalSort (extensions : List LoadedExtension) : Option (List String) :=
  (computeTopologicalOrder extensions).map Prod.fst

/-- `none` is a panic of the sort. -/
def validateDependencies {Version VersionReq : Type*} (semver : Semver Version VersionReq)
    (extensions : List LoadedExtension) : Option DependencyValidationResult :=
  (computeTopologicalOrder extensions).map fun sort ↦
    let issues := (extensions.flatMap fun ext ↦
        ext.manifest.dependencies.flatMap (checkDependency semver extensions ext)) ++
      sort.2.map .circular
    ⟨issues.isEmpty, issues, sort.1⟩

end Zaowutai.Extension
