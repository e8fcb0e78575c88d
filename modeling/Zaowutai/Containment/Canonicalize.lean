import Mathlib
import Zaowutai.Lib.LexicalPath
import Zaowutai.Lib.LossyText

/-!
# Paths by their components

A path is the list of its components, as the platform reads them.  A component
that is put at the end of a path is read as a path of its own, so that on
Windows one that begins with a drive replaces the path.
-/

namespace Zaowutai.Containment

open Zaowutai.Lib

inductive Platform
  | linux
  | macos
  | windows
  deriving DecidableEq, Repr

/-- A character of a name, or the bytes in place of one that are none. -/
inductive OsChar
  | char (c : Char)
  | broken (first : UInt8) (rest : List UInt8)
  deriving DecidableEq, Repr

abbrev OsStr := List OsChar

def OsStr.ofText (text : List Char) : OsStr := text.map .char

def toStringLossy (name : OsStr) : List Char :=
  name.map fun
    | .char c => c
    | .broken _ _ => replacementChar

inductive PathPrefix
  | disk (letter : Char)
  | unc (server share : OsStr)
  | device (name : OsStr)
  | verbatim
  deriving DecidableEq, Repr

inductive Component
  | prefixed (start : PathPrefix)
  | rootDir
  | curDir
  | parentDir
  | normal (name : OsStr)
  deriving DecidableEq, Repr

abbrev FsPath := List Component

/-- Drive letters are compared without their case. -/
def Component.parsed : Component → Component
  | .prefixed (.disk letter) => .prefixed (.disk letter.toUpper)
  | c => c

def startsWith (path base : FsPath) : Bool :=
  (base.map Component.parsed).isPrefixOf (path.map Component.parsed)

section Reading

variable (platform : Platform)

def isSeparator (c : Char) : Bool := c = '/' || platform = .windows && c = '\\'

/-- The component of a text between separators; `.` is none. -/
def partOf (text : List Char) : Option Component :=
  if text = [] ∨ text = ['.'] then none
  else if text = ['.', '.'] then some .parentDir
  else some (.normal (.ofText text))

def parts (text : List Char) : FsPath := (text.splitOnP (isSeparator platform)).filterMap partOf

/-- A path that begins with `.` keeps it. -/
def bodyComponents (text : List Char) : FsPath :=
  match text with
  | [] => []
  | c :: rest =>
      if isSeparator platform c then .rootDir :: parts platform rest
      else if (text.splitOnP (isSeparator platform)).head? = some ['.'] then
        .curDir :: parts platform text
      else parts platform text

def parseDrive : List Char → Option (Char × List Char)
  | letter :: ':' :: rest => if letter.isAlpha then some (letter, rest) else none
  | _ => none

def nextComponent (text : List Char) : List Char × List Char :=
  (text.takeWhile fun c ↦ !isSeparator .windows c,
    (text.dropWhile fun c ↦ !isSeparator .windows c).tail)

def parseNetwork (verbatim : Bool) (rest : List Char) : Option (PathPrefix × List Char) :=
  match rest with
  | '?' :: '\\' :: rest => if verbatim then some (.verbatim, rest) else none
  | '.' :: c :: rest =>
      if isSeparator .windows c then
        let (name, rest) := nextComponent rest
        some (.device (.ofText name), rest)
      else none
  | _ => none

def parseUnc (rest : List Char) : Option (PathPrefix × List Char) :=
  let (server, rest) := nextComponent rest
  let (share, rest) := nextComponent rest
  if server = [] ∨ share = [] then none else some (.unc (.ofText server) (.ofText share), rest)

def parsePrefix (text : List Char) : Option (PathPrefix × List Char) :=
  if platform = .windows then
    match text with
    | a :: b :: rest =>
        if isSeparator .windows a && isSeparator .windows b then
          (parseNetwork (a = '\\' && b = '\\') rest).or (parseUnc rest)
        else (parseDrive text).map fun e ↦ (.disk e.1, e.2)
    | _ => none
  else none

def components (text : List Char) : FsPath :=
  match parsePrefix platform text with
  | some (.disk letter, rest) => .prefixed (.disk letter) :: bodyComponents platform rest
  | some (start, rest) => .prefixed start :: .rootDir :: parts platform rest
  | none => bodyComponents platform text

def Component.asPath : Component → FsPath
  | .normal (.char letter :: .char ':' :: rest) =>
      if platform = .windows ∧ letter.isAlpha = true then
        .prefixed (.disk letter) ::
          (if rest = [] then []
          else if rest = OsStr.ofText ['.'] then [.curDir]
          else if rest = OsStr.ofText ['.', '.'] then [.parentDir]
          else [.normal rest])
      else [.normal (.char letter :: .char ':' :: rest)]
  | c => [c]

def push (path more : FsPath) : FsPath :=
  match more with
  | [] => path
  | .prefixed start :: rest => .prefixed start :: rest
  | .rootDir :: rest =>
      match path with
      | .prefixed start :: _ => .prefixed start :: .rootDir :: rest
      | _ => .rootDir :: rest
  | .curDir :: rest => if path = [] then .curDir :: rest else path ++ rest
  | more => path ++ more

def separator : Char := if platform = .windows then '\\' else '/'

def PathPrefix.text : PathPrefix → List Char
  | .disk letter => [letter, ':']
  | .unc server share => ['\\', '\\'] ++ toStringLossy server ++ ['\\'] ++ toStringLossy share
  | .device name => ['\\', '\\', '.', '\\'] ++ toStringLossy name
  | .verbatim => ['\\', '\\', '?', '\\']

def pathText : FsPath → List Char
  | [] => []
  | .prefixed start :: rest => start.text ++ pathText rest
  | .rootDir :: rest => separator platform :: pathText rest
  | .curDir :: rest => '.' :: (if rest = [] then [] else separator platform :: pathText rest)
  | .parentDir :: rest =>
      ['.', '.'] ++ (if rest = [] then [] else separator platform :: pathText rest)
  | .normal name :: rest =>
      toStringLossy name ++ (if rest = [] then [] else separator platform :: pathText rest)

def collect (path : FsPath) : FsPath := path.foldl (fun path c ↦ push path (c.asPath platform)) []

end Reading

/-!
## Canonical URIs

The identity of a folder is the URI of its path, made canonical lexically: `.`
and `..` are resolved without a look at the file system, and letter case is
folded where the platform does not tell it apart.
-/

inductive Root : Platform → FsPath → Prop
  | linux : Root .linux [.rootDir]
  | macos : Root .macos [.rootDir]
  | disk (letter) : Root .windows [.prefixed (.disk letter), .rootDir]
  | unc (server share) : Root .windows [.prefixed (.unc server share), .rootDir]

def Component.IsStep : Component → Prop
  | .parentDir | .normal _ => True
  | .prefixed _ | .rootDir | .curDir => False

instance Component.IsStep.decidable : DecidablePred Component.IsStep
  | .parentDir | .normal _ => isTrue trivial
  | .prefixed _ | .rootDir | .curDir => isFalse id

def Absolute (platform : Platform) (path : FsPath) : Prop :=
  ∃ root steps, Root platform root ∧ path = root ++ steps ∧ ∀ c ∈ steps, c.IsStep

/-- No component moves up or stays. -/
def Plain (path : FsPath) : Prop := .curDir ∉ path ∧ .parentDir ∉ path

/-- The `file:` URIs of the `url` crate.  Absolute paths have one, if on Windows the server has a
valid name, and a path without `.` and `..` is the path of its URI. -/
structure FileUrls (platform : Platform) where
  scheme : String → Option String
  toFilePath : String → Option FsPath
  fromFilePath : FsPath → Option String
  absolute_toFilePath : ∀ {uri path}, toFilePath uri = some path → Absolute platform path
  absolute_fromFilePath : ∀ {path uri}, path.head? ≠ some (.prefixed .verbatim) →
    fromFilePath path = some uri → Absolute platform path
  fromFilePath_isSome : ∀ {path}, Absolute platform path →
    (∀ server share, .prefixed (.unc server share) ∉ path) → ∃ uri, fromFilePath path = some uri
  inverse : ∀ {path uri}, Absolute platform path → Plain path → fromFilePath path = some uri →
    scheme uri = some "file" ∧ toFilePath uri = some path

inductive ProjectError
  | folderCanonicalizeFailed (uri : String)
  | unsupportedResourceScheme (scheme : String)
  | invalidRelativePath (relativePath : String)
  | resourceOutsideFolder (relativePath : String)
  deriving DecidableEq, Repr

def ignorePathCasing : Platform → Bool
  | .linux => false
  | .macos | .windows => true

section Canonicalize

variable (platform : Platform) (urls : FileUrls platform)

def parseScheme (uri : String) : Except ProjectError Unit :=
  match urls.scheme uri with
  | none => .error (.folderCanonicalizeFailed uri)
  | some scheme =>
      if scheme = "file" then .ok () else .error (.unsupportedResourceScheme scheme)

/-- One round of the loop: a move up ascends no further than to the root. -/
def normalizeStep (out : FsPath) : Component → FsPath
  | .curDir => out
  | .parentDir =>
      match out.getLast? with
      | some (.normal _) => out.dropLast
      | _ => out
  | c => out ++ [c]

def normalizedComponents (path : FsPath) : FsPath := path.foldl normalizeStep []

def normalizeLexical (path : FsPath) : FsPath := collect platform (normalizedComponents path)

def foldName (name : OsStr) : OsStr := .ofText ((toStringLossy name).map Char.toLower)

def foldComponent : Component → Component
  | .prefixed (.disk letter) => .prefixed (.disk letter.toLower)
  | .prefixed (.unc server share) => .prefixed (.unc (foldName server) (foldName share))
  | .prefixed (.device name) => .prefixed (.device (foldName name))
  | .normal name => .normal (foldName name)
  | c => c

def foldCasing (path : FsPath) : FsPath :=
  if ignorePathCasing platform then path.map foldComponent else path

def canonicalize (uri : String) : Except ProjectError String :=
  match parseScheme platform urls uri with
  | .error e => .error e
  | .ok _ =>
      match urls.toFilePath uri with
      | none => .error (.folderCanonicalizeFailed uri)
      | some path =>
          match urls.fromFilePath (foldCasing platform (normalizeLexical platform path)) with
          | none => .error (.folderCanonicalizeFailed uri)
          | some canonical => .ok canonical

/-- A canonical URI is only made by `canonicalize`. -/
structure Canonical where
  text : String
  produced : ∃ uri, canonicalize platform urls uri = .ok text

def toFileUri (path : FsPath) : Except ProjectError String :=
  match urls.fromFilePath path with
  | some uri => .ok uri
  | none => .error (.folderCanonicalizeFailed (.ofList (pathText platform path)))

def uriToPath (uri : String) : Except ProjectError FsPath :=
  match urls.toFilePath uri with
  | some path => .ok path
  | none => .error (.folderCanonicalizeFailed uri)

def fsPath (canonical : Canonical platform urls) : Except ProjectError FsPath :=
  uriToPath platform urls canonical.text

end Canonicalize

section Roots

variable {platform : Platform} {root steps : FsPath} {names : List OsStr}

def Component.move : Component → Move OsStr
  | .parentDir => .up
  | .normal name => .down name
  | .prefixed _ | .rootDir | .curDir => .stay

/-- A name that is read as a drive when it stands by itself. -/
def driveLike (platform : Platform) : OsStr → Bool
  | .char letter :: .char c :: _ => platform = .windows && c = ':' && letter.isAlpha
  | _ => false

theorem Root.getLast? (h : Root platform root) : root.getLast? = some .rootDir := by
  cases h <;> rfl

theorem Root.normalized (h : Root platform root) : normalizedComponents root = root := by
  cases h <;> rfl

theorem Root.collect (h : Root platform root) : collect platform root = root := by
  cases h <;> rfl

theorem foldl_normalizeStep (h : Root platform root) (names : List OsStr) (steps : FsPath)
    (hsteps : ∀ c ∈ steps, c.IsStep ∨ c = .curDir) :
    steps.foldl normalizeStep (root ++ names.map .normal) =
      root ++ (settle names (steps.map Component.move)).map .normal := by
  induction steps generalizing names with
  | nil => rfl
  | cons c steps ih =>
      have hrest := fun c hmem ↦ hsteps c (List.mem_cons_of_mem _ hmem)
      rw [List.foldl_cons, List.map_cons]
      cases c with
      | prefixed start => exact absurd (hsteps _ List.mem_cons_self) (by simp [Component.IsStep])
      | rootDir => exact absurd (hsteps _ List.mem_cons_self) (by simp [Component.IsStep])
      | curDir => exact ih names hrest
      | parentDir =>
          rw [Component.move, settle, ← ih names.dropLast hrest]
          congr 1
          rcases names.eq_nil_or_concat with rfl | ⟨init, last, rfl⟩
          · simp only [List.map_nil, List.append_nil, normalizeStep, h.getLast?, List.dropLast_nil]
          · simp [normalizeStep, List.getLast?_append]
      | normal name =>
          rw [Component.move, settle, ← ih (names ++ [name]) hrest]
          simp [normalizeStep]

theorem normalizedComponents_root (h : Root platform root)
    (hsteps : ∀ c ∈ steps, c.IsStep ∨ c = .curDir) :
    normalizedComponents (root ++ steps) =
      root ++ (settle [] (steps.map Component.move)).map .normal := by
  have hroot : root.foldl normalizeStep [] = root := h.normalized
  rw [normalizedComponents, List.foldl_append, hroot]
  have hloop := foldl_normalizeStep h [] steps hsteps
  rw [List.map_nil, List.append_nil] at hloop
  exact hloop

theorem settle_names (names : List OsStr) :
    settle [] ((names.map Component.normal).map Component.move) = names := by
  have hmoves : (names.map Component.normal).map Component.move = names.map .down := by
    rw [List.map_map]
    rfl
  have h : settle ([] ++ []) (names.map .down) = [] ++ ([] ++ names) :=
    settle_append_of_walk (walk_downs [] names)
  rw [hmoves]
  exact h

theorem push_asPath {name : OsStr} (h : driveLike platform name = false) (path : FsPath) :
    push path ((Component.normal name).asPath platform) = path ++ [.normal name] := by
  have hpath : (Component.normal name).asPath platform = [.normal name] := by
    unfold Component.asPath
    split
    · next letter rest heq =>
        cases heq
        rw [if_neg]
        simpa [driveLike] using h
    · rfl
  rw [hpath]
  rfl

def Loose (path : FsPath) : Prop :=
  ∃ letter rest, path = .prefixed (.disk letter) :: rest ∧ rest.head? ≠ some .rootDir

theorem loose_asPath {name : OsStr} (h : driveLike platform name = true) (path : FsPath) :
    Loose (push path ((Component.normal name).asPath platform)) := by
  unfold driveLike at h
  split at h
  · next letter c rest =>
      simp only [Bool.and_eq_true, decide_eq_true_eq] at h
      obtain ⟨⟨rfl, rfl⟩, halpha⟩ := h
      simp only [Component.asPath, halpha, and_self, if_true]
      refine ⟨letter, _, rfl, ?_⟩
      split
      · simp
      · split
        · simp
        · split <;> simp
  · cases h

theorem Loose.push_name {path : FsPath} (h : Loose path) (name : OsStr) :
    Loose (push path ((Component.normal name).asPath platform)) := by
  by_cases hdrive : driveLike platform name = true
  · exact loose_asPath hdrive path
  · rw [push_asPath (Bool.not_eq_true _ ▸ hdrive)]
    obtain ⟨letter, rest, rfl, hrest⟩ := h
    refine ⟨letter, rest ++ [.normal name], rfl, ?_⟩
    cases rest with
    | nil => simp
    | cons c rest => exact hrest

theorem foldl_push_of_not_drive (path : FsPath)
    (h : ∀ name ∈ names, driveLike platform name = false) :
    (names.map Component.normal).foldl (fun path c ↦ push path (c.asPath platform)) path =
      path ++ names.map .normal := by
  induction names generalizing path with
  | nil => rw [List.map_nil, List.foldl_nil, List.append_nil]
  | cons name names ih =>
      rw [List.map_cons, List.foldl_cons, push_asPath (h name List.mem_cons_self),
        ih _ fun other hmem ↦ h other (List.mem_cons_of_mem _ hmem), List.append_assoc,
        List.singleton_append]

theorem Loose.foldl_names {path : FsPath} (h : Loose path) (names : List OsStr) :
    Loose ((names.map Component.normal).foldl (fun path c ↦ push path (c.asPath platform))
      path) := by
  induction names generalizing path with
  | nil => exact h
  | cons name names ih => exact ih (h.push_name name)

theorem loose_foldl_push {name : OsStr} (hmem : name ∈ names)
    (hdrive : driveLike platform name = true) (path : FsPath) :
    Loose ((names.map Component.normal).foldl (fun path c ↦ push path (c.asPath platform))
      path) := by
  induction names generalizing path with
  | nil => cases hmem
  | cons first names ih =>
      obtain rfl | hmem := List.mem_cons.mp hmem
      · exact (loose_asPath hdrive path).foldl_names names
      · exact ih hmem _

theorem collect_root (h : Root platform root) (names : List OsStr) :
    collect platform (root ++ names.map .normal) =
      (names.map Component.normal).foldl (fun path c ↦ push path (c.asPath platform)) root := by
  have hroot : root.foldl (fun path c ↦ push path (c.asPath platform)) [] = root := h.collect
  rw [collect, List.foldl_append, hroot]

end Roots

section Folding

variable {platform : Platform} {path : FsPath}

theorem eq_colon_of_toLower {c : Char} (h : c.toLower = ':') : c = ':' := by
  have hupper : ¬c.isUpper = true := by
    intro hupper
    have halpha : c.toLower.isAlpha = true := by
      rw [Char.isAlpha_toLower_eq_isAlpha, Char.isAlpha, hupper, Bool.true_or]
    rw [h] at halpha
    cases halpha
  rwa [Char.toLower_eq_of_not_isUpper hupper] at h

theorem foldComponent_foldComponent (c : Component) :
    foldComponent (foldComponent c) = foldComponent c := by
  have hname : ∀ name : OsStr, foldName (foldName name) = foldName name := by
    intro name
    simp [foldName, toStringLossy, OsStr.ofText, Function.comp_def]
  cases c with
  | prefixed start => cases start <;> simp [foldComponent, hname]
  | normal name => simp [foldComponent, hname]
  | _ => rfl

theorem driveLike_foldName {name : OsStr} (h : driveLike platform name = false) :
    driveLike platform (foldName name) = false := by
  rw [← Bool.not_eq_true] at h ⊢
  intro hfold
  rcases name with - | ⟨first, - | ⟨second, rest⟩⟩
  · cases hfold
  · cases hfold
  · cases first with
    | broken b rest =>
        simp [driveLike, foldName, toStringLossy, OsStr.ofText, replacementChar, Char.isAlpha,
          Char.isUpper, Char.isLower] at hfold
    | char letter =>
        cases second with
        | broken b rest =>
            simp [driveLike, foldName, toStringLossy, OsStr.ofText, replacementChar] at hfold
        | char c =>
            simp only [driveLike, foldName, toStringLossy, OsStr.ofText, List.map_cons,
              Bool.and_eq_true, decide_eq_true_eq] at hfold h
            rw [Char.isAlpha_toLower_eq_isAlpha] at hfold
            exact h ⟨⟨hfold.1.1, eq_colon_of_toLower hfold.1.2⟩, hfold.2⟩

theorem foldCasing_foldCasing (platform : Platform) (path : FsPath) :
    foldCasing platform (foldCasing platform path) = foldCasing platform path := by
  unfold foldCasing
  split
  · rw [List.map_map]
    exact List.map_congr_left fun c _ ↦ foldComponent_foldComponent c
  · rfl

theorem Loose.fold (h : Loose path) : Loose (foldCasing platform path) := by
  unfold Containment.foldCasing
  split
  · obtain ⟨letter, rest, rfl, hrest⟩ := h
    refine ⟨letter.toLower, rest.map foldComponent, rfl, ?_⟩
    cases rest with
    | nil => simp
    | cons c rest =>
        cases c with
        | prefixed start => cases start <;> simp [foldComponent]
        | rootDir => exact absurd rfl hrest
        | _ => simp [foldComponent]
  · exact h

theorem Loose.not_absolute (h : Loose path) : ¬Absolute platform path := by
  rintro ⟨root, steps, hroot, heq, -⟩
  obtain ⟨letter, rest, rfl, hrest⟩ := h
  cases hroot <;> cases heq
  exact hrest rfl

theorem foldCasing_root {root : FsPath} (h : Root platform root) (names : List OsStr)
    (hnames : ∀ name ∈ names, driveLike platform name = false) :
    ∃ root', ∃ names' : List OsStr, Root platform root' ∧
      (∀ name ∈ names', driveLike platform name = false) ∧
        foldCasing platform (root ++ names.map .normal) = root' ++ names'.map .normal := by
  unfold foldCasing
  split
  · refine ⟨root.map foldComponent, names.map foldName, ?_, ?_, ?_⟩
    · cases h <;> constructor
    · intro _ hmem
      obtain ⟨name, hname, rfl⟩ := List.mem_map.mp hmem
      exact driveLike_foldName (hnames name hname)
    · rw [List.map_append, List.map_map, List.map_map]
      rfl
  · exact ⟨root, names, h, hnames, rfl⟩

end Folding

structure CanonicalPath (platform : Platform) (path : FsPath) : Prop where
  below : ∃ root, ∃ names : List OsStr, Root platform root ∧
    (∀ name ∈ names, driveLike platform name = false) ∧ path = root ++ names.map .normal
  folded : foldCasing platform path = path

section Canonical

variable {platform : Platform} {urls : FileUrls platform} {path : FsPath} {uri text : String}

theorem plain_root {root : FsPath} (h : Root platform root) (names : List OsStr) :
    Plain (root ++ names.map .normal) := by
  constructor <;> cases h <;> simp

theorem absolute_root {root : FsPath} (h : Root platform root) (names : List OsStr) :
    Absolute platform (root ++ names.map .normal) := by
  refine ⟨root, _, h, rfl, fun c hmem ↦ ?_⟩
  obtain ⟨name, -, rfl⟩ := List.mem_map.mp hmem
  trivial

theorem canonicalPath_of_uri (h : Absolute platform path)
    (huri : urls.fromFilePath (foldCasing platform (normalizeLexical platform path)) = some uri) :
    CanonicalPath platform (foldCasing platform (normalizeLexical platform path)) := by
  obtain ⟨root, steps, hroot, rfl, hsteps⟩ := h
  have hnormal := normalizedComponents_root hroot fun c hmem ↦ .inl (hsteps c hmem)
  generalize hnames : settle [] (steps.map Component.move) = names at hnormal
  have hcollect : normalizeLexical platform (root ++ steps) =
      (names.map Component.normal).foldl (fun path c ↦ push path (c.asPath platform)) root := by
    rw [normalizeLexical, hnormal, collect_root hroot]
  refine ⟨?_, foldCasing_foldCasing platform _⟩
  by_cases hdrives : ∀ name ∈ names, driveLike platform name = false
  · rw [hcollect, foldl_push_of_not_drive root hdrives]
    obtain ⟨root', names', hroot', hdrives', heq⟩ := foldCasing_root hroot names hdrives
    exact ⟨root', names', hroot', hdrives', heq⟩
  · -- a drive replaces the path, and what is left has no URI
    push Not at hdrives
    obtain ⟨name, hmem, hdrive⟩ := hdrives
    have hloose : Loose (foldCasing platform (normalizeLexical platform (root ++ steps))) := by
      rw [hcollect]
      exact (loose_foldl_push hmem (Bool.not_eq_false _ ▸ hdrive) root).fold
    refine absurd (urls.absolute_fromFilePath ?_ huri) hloose.not_absolute
    obtain ⟨letter, rest, heq, -⟩ := hloose
    simp [heq]

theorem canonicalize_eq_ok (h : canonicalize platform urls uri = .ok text) :
    ∃ path, CanonicalPath platform path ∧ urls.fromFilePath path = some text := by
  unfold canonicalize at h
  split at h
  · cases h
  · split at h
    · cases h
    · next path hpath =>
        split at h
        · cases h
        · next hfrom =>
            cases h
            exact ⟨_, canonicalPath_of_uri (urls.absolute_toFilePath hpath) hfrom, hfrom⟩

theorem CanonicalPath.absolute (h : CanonicalPath platform path) : Absolute platform path := by
  obtain ⟨root, names, hroot, -, rfl⟩ := h.below
  exact absolute_root hroot names

theorem CanonicalPath.plain (h : CanonicalPath platform path) : Plain path := by
  obtain ⟨root, names, hroot, -, rfl⟩ := h.below
  exact plain_root hroot names

theorem CanonicalPath.normalizeLexical (h : CanonicalPath platform path) :
    normalizeLexical platform path = path := by
  obtain ⟨root, names, hroot, hdrives, rfl⟩ := h.below
  have hsteps : ∀ c ∈ names.map Component.normal, c.IsStep ∨ c = .curDir := by
    intro c hmem
    obtain ⟨name, -, rfl⟩ := List.mem_map.mp hmem
    exact .inl trivial
  rw [Containment.normalizeLexical, normalizedComponents_root hroot hsteps, settle_names,
    collect_root hroot, foldl_push_of_not_drive root hdrives]

theorem canonicalize_of_path (h : CanonicalPath platform path)
    (huri : urls.fromFilePath path = some text) : canonicalize platform urls text = .ok text := by
  obtain ⟨hscheme, hpath⟩ := urls.inverse h.absolute h.plain huri
  simp only [canonicalize, parseScheme, hscheme, if_true, hpath, h.normalizeLexical, h.folded, huri]

theorem canonicalize_canonicalize (h : canonicalize platform urls uri = .ok text) :
    canonicalize platform urls text = .ok text := by
  obtain ⟨path, hcanonical, huri⟩ := canonicalize_eq_ok h
  exact canonicalize_of_path hcanonical huri

theorem fsPath_eq_ok (root : Canonical platform urls) :
    ∃ path, CanonicalPath platform path ∧ fsPath platform urls root = .ok path := by
  obtain ⟨uri, hproduced⟩ := root.produced
  obtain ⟨path, hcanonical, huri⟩ := canonicalize_eq_ok hproduced
  obtain ⟨-, hpath⟩ := urls.inverse hcanonical.absolute hcanonical.plain huri
  exact ⟨path, hcanonical, by rw [fsPath, uriToPath, hpath]⟩

end Canonical

end Zaowutai.Containment
