import Mathlib.Logic.Equiv.List
import Mathlib.Tactic.DeriveEncodable
import Zaowutai.Containment.Canonicalize
import Zaowutai.Lib.Framing

/-!
# Relative paths below a root

A client names a resource by a root and a path relative to it.  The path is
normalized lexically, joined to the path of the root, and refused where it
would leave the root.
-/

namespace Zaowutai.Containment

open Zaowutai.Lib

structure ResolvedRelative where
  relativePath : String
  resourceUri : String
  absolutePath : Option FsPath
  deriving DecidableEq, Repr

section Resolve

variable (platform : Platform) (urls : FileUrls platform)

def segments (relativePath : String) :
    List (List Char) → FsPath → Except ProjectError (List (List Char))
  | segs, [] => .ok segs
  | segs, c :: path =>
      match c with
      | .prefixed _ | .rootDir => .error (.invalidRelativePath relativePath)
      | .curDir => segments relativePath segs path
      | .parentDir =>
          if segs = [] then .error (.invalidRelativePath relativePath)
          else segments relativePath segs.dropLast path
      | .normal seg => segments relativePath (segs ++ [toStringLossy seg]) path

def joinSegments (segs : List (List Char)) : List Char := ['/'].intercalate segs

def resolveSegments (root : Canonical platform urls) (relativePath : String)
    (segs : List (List Char)) : Except ProjectError ResolvedRelative :=
  let normalized := joinSegments segs
  match fsPath platform urls root with
  | .error e => .error e
  | .ok rootPath =>
      let absolute := if normalized = [] then rootPath
        else push rootPath (components platform normalized)
      if !startsWith absolute rootPath then .error (.resourceOutsideFolder relativePath)
      else
        match toFileUri platform urls absolute with
        | .error e => .error e
        | .ok resourceUri => .ok ⟨.ofList normalized, resourceUri, some absolute⟩

def resolveRelative (root : Canonical platform urls) (relativePath : String) :
    Except ProjectError ResolvedRelative :=
  match segments relativePath [] (components platform relativePath.toList) with
  | .error e => .error e
  | .ok segs => resolveSegments platform urls root relativePath segs

end Resolve

section Texts

variable {platform : Platform} {text : List Char} {segs : List (List Char)}

structure Segment (platform : Platform) (text : List Char) : Prop where
  nonempty : text ≠ []
  notDot : text ≠ ['.']
  notDots : text ≠ ['.', '.']
  inner : ∀ c ∈ text, isSeparator platform c = false

theorem partOf_segment (h : Segment platform text) :
    partOf text = some (.normal (.ofText text)) := by
  rw [partOf, if_neg (not_or.mpr ⟨h.nonempty, h.notDot⟩), if_neg h.notDots]

theorem mem_parts {c : Component} (h : c ∈ parts platform text) :
    c = .parentDir ∨ ∃ seg, Segment platform seg ∧ c = .normal (.ofText seg) := by
  obtain ⟨seg, hmem, hpart⟩ := List.mem_filterMap.mp h
  rw [partOf] at hpart
  split at hpart
  · cases hpart
  · next hnot =>
      rw [not_or] at hnot
      split at hpart
      · exact .inl (Option.some.inj hpart).symm
      · next hdots =>
          exact .inr ⟨seg, ⟨hnot.1, hnot.2, hdots, not_separator_of_mem_splitOnP hmem⟩,
            (Option.some.inj hpart).symm⟩

theorem isStep_of_mem_parts {c : Component} (h : c ∈ parts platform text) : c.IsStep := by
  obtain rfl | ⟨seg, -, rfl⟩ := mem_parts h <;> trivial

def RelativeComponent (platform : Platform) (c : Component) : Prop :=
  c = .curDir ∨ c = .parentDir ∨ ∃ seg, Segment platform seg ∧ c = .normal (.ofText seg)

def Component.IsAnchor : Component → Prop
  | .prefixed _ | .rootDir => True
  | .curDir | .parentDir | .normal _ => False

theorem bodyComponents_cases (platform : Platform) (text : List Char) :
    (∃ rest, bodyComponents platform text = .rootDir :: parts platform rest) ∨
      ∀ c ∈ bodyComponents platform text, RelativeComponent platform c := by
  unfold bodyComponents
  split
  · exact .inr fun c hmem ↦ absurd hmem List.not_mem_nil
  · next first rest =>
      split
      · exact .inl ⟨rest, rfl⟩
      · split
        · refine .inr fun c hmem ↦ ?_
          obtain rfl | hmem := List.mem_cons.mp hmem
          · exact .inl rfl
          · exact .inr (mem_parts hmem)
        · exact .inr fun c hmem ↦ .inr (mem_parts hmem)

theorem components_cases (platform : Platform) (text : List Char) :
    (∃ first rest, components platform text = first :: rest ∧ first.IsAnchor) ∨
      ∀ c ∈ components platform text, RelativeComponent platform c := by
  unfold components
  split
  · exact .inl ⟨_, _, rfl, trivial⟩
  · exact .inl ⟨_, _, rfl, trivial⟩
  · obtain ⟨rest, hrest⟩ | hrelative := bodyComponents_cases platform text
    · exact .inl ⟨_, _, hrest, trivial⟩
    · exact .inr hrelative

theorem splitOnP_join (hne : segs ≠ []) (h : ∀ seg ∈ segs, Segment platform seg) :
    (joinSegments segs).splitOnP (isSeparator platform) = segs := by
  induction segs with
  | nil => exact absurd rfl hne
  | cons seg segs ih =>
      have hseg := h seg List.mem_cons_self
      cases segs with
      | nil =>
          rw [joinSegments, List.intercalate_singleton]
          exact List.splitOnP_eq_singleton hseg.inner
      | cons next segs =>
          have hjoin : joinSegments (seg :: next :: segs) =
              seg ++ '/' :: joinSegments (next :: segs) := by
            rw [joinSegments, List.intercalate_cons_cons, List.append_assoc, List.singleton_append]
            rfl
          rw [hjoin, List.splitOnP_append_cons_of_forall_mem hseg.inner '/' (by simp [isSeparator]),
            ih (List.cons_ne_nil _ _) fun other hmem ↦ h other (List.mem_cons_of_mem _ hmem)]

theorem parts_join (h : ∀ seg ∈ segs, Segment platform seg) :
    parts platform (joinSegments segs) = segs.map fun seg ↦ .normal (.ofText seg) := by
  by_cases hne : segs = []
  · subst hne
    rfl
  · rw [parts, splitOnP_join hne h]
    induction segs with
    | nil => rfl
    | cons seg segs ih =>
        rw [List.filterMap_cons_some (partOf_segment (h seg List.mem_cons_self)), List.map_cons]
        by_cases hsegs : segs = []
        · rw [hsegs]
          rfl
        · rw [ih (fun other hmem ↦ h other (List.mem_cons_of_mem _ hmem)) hsegs]

theorem joinSegments_cons (seg : List Char) (segs : List (List Char)) :
    ∃ rest, joinSegments (seg :: segs) = seg ++ rest ∧ rest.head? ≠ some ':' := by
  cases segs with
  | nil => exact ⟨[], by simp [joinSegments], by simp⟩
  | cons next segs =>
      refine ⟨'/' :: joinSegments (next :: segs), ?_, by simp⟩
      rw [joinSegments, List.intercalate_cons_cons, List.append_assoc, List.singleton_append]
      rfl

theorem bodyComponents_join (h : ∀ seg ∈ segs, Segment platform seg) :
    bodyComponents platform (joinSegments segs) = segs.map fun seg ↦ .normal (.ofText seg) := by
  cases segs with
  | nil => rfl
  | cons seg segs =>
      have hseg := h seg List.mem_cons_self
      have hsplit := splitOnP_join (List.cons_ne_nil seg segs) h
      obtain ⟨rest, hjoin, -⟩ := joinSegments_cons seg segs
      have hparts := parts_join h
      rw [hjoin] at hsplit hparts ⊢
      obtain ⟨c, tail, rfl⟩ := List.exists_cons_of_ne_nil hseg.nonempty
      rw [List.cons_append] at hsplit hparts ⊢
      have hfirst := hseg.inner c List.mem_cons_self
      rw [bodyComponents, if_neg (by simp [hfirst]), hsplit, if_neg, hparts]
      intro hdot
      exact hseg.notDot (Option.some.inj hdot)

theorem components_join (h : ∀ seg ∈ segs, Segment platform seg) :
    components platform (joinSegments segs) = segs.map (fun seg ↦ .normal (.ofText seg)) ∨
      ∃ letter rest, platform = .windows ∧ components platform (joinSegments segs) =
        .prefixed (.disk letter) :: bodyComponents platform rest := by
  cases hplatform : parsePrefix platform (joinSegments segs) with
  | none =>
      refine .inl ?_
      rw [components, hplatform]
      exact bodyComponents_join h
  | some found =>
      refine .inr ?_
      unfold parsePrefix at hplatform
      split at hplatform
      · next hwindows =>
          split at hplatform
          · next a b rest htext =>
              split at hplatform
              · next hseps =>
                  -- the text begins with no separator
                  cases segs with
                  | nil => cases htext
                  | cons seg segs =>
                      have hseg := h seg List.mem_cons_self
                      obtain ⟨tail, hjoin, -⟩ := joinSegments_cons seg segs
                      obtain ⟨c, seg, rfl⟩ := List.exists_cons_of_ne_nil hseg.nonempty
                      rw [hjoin, List.cons_append] at htext
                      obtain ⟨rfl, -⟩ := List.cons.inj htext
                      have hinner := hseg.inner c List.mem_cons_self
                      rw [hwindows] at hinner
                      rw [hinner] at hseps
                      cases hseps
              · next hseps =>
                  obtain ⟨⟨letter, rest'⟩, hdrive, rfl⟩ := Option.map_eq_some_iff.mp hplatform
                  refine ⟨letter, rest', hwindows, ?_⟩
                  rw [htext] at hdrive
                  have hparse : parsePrefix platform (joinSegments segs) =
                      some (.disk letter, rest') := by
                    unfold parsePrefix
                    rw [if_pos hwindows, htext]
                    simp only [hseps, Bool.false_eq_true, if_false, hdrive, Option.map_some]
                  rw [components, hparse]
          · cases hplatform
      · cases hplatform

end Texts

section Segments

variable {platform : Platform} {path : FsPath} {relativePath : String} {segs : List (List Char)}

def Component.textMove : Component → Move (List Char)
  | .parentDir => .up
  | .normal name => .down (toStringLossy name)
  | .prefixed _ | .rootDir | .curDir => .stay

theorem toStringLossy_ofText (text : List Char) : toStringLossy (.ofText text) = text := by
  simp [toStringLossy, OsStr.ofText, Function.comp_def]

theorem segments_anchor {first : Component} (h : first.IsAnchor) :
    segments relativePath segs (first :: path) = .error (.invalidRelativePath relativePath) := by
  cases first with
  | prefixed start => rfl
  | rootDir => rfl
  | _ => exact h.elim

theorem segments_relative (h : ∀ c ∈ path, RelativeComponent platform c) :
    segments relativePath segs path = match walk segs (path.map Component.textMove) with
      | some segs => .ok segs
      | none => .error (.invalidRelativePath relativePath) := by
  induction path generalizing segs with
  | nil => rfl
  | cons c path ih =>
      have hrest := fun c hmem ↦ h c (List.mem_cons_of_mem _ hmem)
      obtain rfl | rfl | ⟨seg, -, rfl⟩ := h c List.mem_cons_self
      · exact ih hrest
      · rw [segments, List.map_cons, Component.textMove, walk]
        split
        · rfl
        · exact ih hrest
      · exact ih hrest

theorem segment_of_walk (h : ∀ c ∈ path, RelativeComponent platform c)
    (hwalk : walk [] (path.map Component.textMove) = some segs) :
    ∀ seg ∈ segs, Segment platform seg := by
  intro seg hmem
  have hmove := (mem_walk hwalk hmem).resolve_left List.not_mem_nil
  obtain ⟨c, hc, hdown⟩ := List.mem_map.mp hmove
  obtain rfl | rfl | ⟨seg', hseg', rfl⟩ := h c hc
  · cases hdown
  · cases hdown
  · rw [Component.textMove, toStringLossy_ofText] at hdown
    cases hdown
    exact hseg'

theorem settle_of_walk {names : List OsStr} (h : ∀ c ∈ path, RelativeComponent platform c)
    (hwalk : walk [] (path.map Component.textMove) = some segs) :
    settle names (path.map Component.move) = names ++ segs.map .ofText := by
  have hmoves : path.map Component.move =
      (path.map Component.textMove).map (Move.map OsStr.ofText) := by
    rw [List.map_map]
    refine List.map_congr_left fun c hc ↦ ?_
    obtain rfl | rfl | ⟨seg, -, rfl⟩ := h c hc
    · rfl
    · rfl
    · simp only [Function.comp_apply, Component.textMove, toStringLossy_ofText, Component.move,
        Move.map]
  have hnames : walk ([] : List OsStr) (path.map Component.move) = some (segs.map .ofText) := by
    have hmap := walk_map OsStr.ofText [] (path.map Component.textMove)
    rw [hwalk, List.map_nil, ← hmoves] at hmap
    exact hmap
  have hsettle : settle (names ++ []) (path.map Component.move) = names ++ segs.map .ofText :=
    settle_append_of_walk hnames
  rw [List.append_nil] at hsettle
  exact hsettle

end Segments

section Claims

variable (platform : Platform) (urls : FileUrls platform)

structure Contained (root : Canonical platform urls) (relativePath : String)
    (resolved : ResolvedRelative) : Prop where
  path : ∃ rootPath path, fsPath platform urls root = .ok rootPath ∧
    uriToPath platform urls resolved.resourceUri = .ok path ∧ resolved.absolutePath = some path ∧
    path = normalizedComponents (push rootPath (components platform relativePath.toList)) ∧
    rootPath <+: path ∧ Plain path
  fixed : resolveRelative platform urls root resolved.relativePath = .ok resolved

def Respells (root : Canonical platform urls) (relativePath : String) : Prop :=
  ∃ rootPath segs, fsPath platform urls root = .ok rootPath ∧
    (∀ c ∈ components platform relativePath.toList, ¬c.IsAnchor) ∧
    walk [] ((components platform relativePath.toList).map Component.textMove) = some segs ∧
    startsWith (components platform (joinSegments segs)) rootPath = true

variable {platform urls} {root : Canonical platform urls} {relativePath : String}
  {rootPath : FsPath} {segs : List (List Char)} {resolved : ResolvedRelative}

theorem relative_of_not_anchor (h : ∀ c ∈ components platform relativePath.toList, ¬c.IsAnchor) :
    ∀ c ∈ components platform relativePath.toList, RelativeComponent platform c := by
  obtain ⟨first, rest, heq, hanchor⟩ | hrelative := components_cases platform relativePath.toList
  · exact absurd hanchor (h first (heq ▸ List.mem_cons_self))
  · exact hrelative

theorem walk_of_resolve (h : resolveRelative platform urls root relativePath = .ok resolved) :
    (∀ c ∈ components platform relativePath.toList, RelativeComponent platform c) ∧
    ∃ segs, walk [] ((components platform relativePath.toList).map Component.textMove) = some segs ∧
      resolveSegments platform urls root relativePath segs = .ok resolved := by
  unfold resolveRelative at h
  obtain ⟨first, rest, heq, hanchor⟩ | hrelative := components_cases platform relativePath.toList
  · rw [heq, segments_anchor hanchor] at h
    cases h
  · refine ⟨hrelative, ?_⟩
    rw [segments_relative hrelative] at h
    cases hwalk : walk [] ((components platform relativePath.toList).map Component.textMove) with
    | none => simp [hwalk] at h
    | some segs =>
        rw [hwalk] at h
        exact ⟨segs, rfl, h⟩

theorem resolve_of_walk (root : Canonical platform urls)
    (h : ∀ c ∈ components platform relativePath.toList, RelativeComponent platform c)
    (hwalk : walk [] ((components platform relativePath.toList).map Component.textMove) =
      some segs) :
    resolveRelative platform urls root relativePath =
      resolveSegments platform urls root relativePath segs := by
  unfold resolveRelative
  rw [segments_relative h, hwalk]

theorem startsWith_append (base more : FsPath) : startsWith (base ++ more) base = true := by
  rw [startsWith, List.map_append, List.isPrefixOf_iff_prefix]
  exact List.prefix_append _ _

theorem resolveSegments_of_names (hroot : fsPath platform urls root = .ok rootPath)
    (hsegs : components platform (joinSegments segs) =
      segs.map fun seg ↦ .normal (.ofText seg)) :
    resolveSegments platform urls root relativePath segs =
      match toFileUri platform urls (rootPath ++ segs.map fun seg ↦ .normal (.ofText seg)) with
      | .error e => .error e
      | .ok uri => .ok ⟨.ofList (joinSegments segs), uri,
          some (rootPath ++ segs.map fun seg ↦ .normal (.ofText seg))⟩ := by
  have habsolute : (if joinSegments segs = [] then rootPath
      else push rootPath (components platform (joinSegments segs))) =
        rootPath ++ segs.map fun seg ↦ .normal (.ofText seg) := by
    rw [hsegs]
    cases segs with
    | nil => simp [joinSegments]
    | cons seg segs =>
        split
        · next hnil =>
            have hempty : components platform [] = [] := by cases platform <;> rfl
            rw [hnil, hempty] at hsegs
            cases hsegs
        · rfl
  simp only [resolveSegments, hroot, habsolute, startsWith_append, Bool.not_true,
    Bool.false_eq_true, if_false]

theorem normalizedComponents_push {anchor path : FsPath} {names : List OsStr}
    (h : Root platform anchor) (hpath : ∀ c ∈ path, RelativeComponent platform c) :
    normalizedComponents (push (anchor ++ names.map .normal) path) =
      anchor ++ (settle names (path.map Component.move)).map .normal := by
  have hnormal : (anchor ++ names.map Component.normal).foldl normalizeStep [] =
      anchor ++ names.map .normal := by
    have hsteps : ∀ c ∈ names.map Component.normal, c.IsStep ∨ c = .curDir := by
      intro c hmem
      obtain ⟨name, -, rfl⟩ := List.mem_map.mp hmem
      exact .inl trivial
    have hroot := normalizedComponents_root h hsteps
    rw [settle_names] at hroot
    exact hroot
  have hloop : ∀ path, (∀ c ∈ path, RelativeComponent platform c) →
      normalizedComponents (anchor ++ names.map .normal ++ path) =
        anchor ++ (settle names (path.map Component.move)).map .normal := by
    intro path hpath
    rw [normalizedComponents, List.foldl_append, hnormal, foldl_normalizeStep h]
    intro c hmem
    obtain rfl | rfl | ⟨seg, -, rfl⟩ := hpath c hmem
    · exact .inr rfl
    · exact .inl trivial
    · exact .inl trivial
  have hne : anchor ++ names.map Component.normal ≠ [] := by cases h <;> simp
  cases path with
  | nil =>
      have hnil := hloop [] hpath
      rw [List.append_nil] at hnil
      exact hnil
  | cons c path =>
      obtain rfl | rfl | ⟨seg, -, rfl⟩ := hpath c List.mem_cons_self
      · rw [push, if_neg hne]
        exact hloop path fun c hmem ↦ hpath c (List.mem_cons_of_mem _ hmem)
      · exact hloop _ hpath
      · exact hloop _ hpath

theorem contained_of_names
    (hrelative : ∀ c ∈ components platform relativePath.toList, RelativeComponent platform c)
    (hwalk : walk [] ((components platform relativePath.toList).map Component.textMove) =
      some segs)
    (hsegs : components platform (joinSegments segs) = segs.map fun seg ↦ .normal (.ofText seg))
    (h : resolveSegments platform urls root relativePath segs = .ok resolved) :
    Contained platform urls root relativePath resolved := by
  obtain ⟨rootPath, hcanonical, hroot⟩ := fsPath_eq_ok root
  obtain ⟨anchor, names, hanchor, -, rfl⟩ := hcanonical.below
  have hpath : anchor ++ names.map .normal ++ segs.map (fun seg ↦ Component.normal (.ofText seg)) =
      anchor ++ (names ++ segs.map OsStr.ofText).map .normal := by
    simp [Function.comp_def]
  rw [resolveSegments_of_names hroot hsegs] at h
  split at h
  · cases h
  · next uri huri =>
      cases h
      have hfrom : urls.fromFilePath (anchor ++ (names ++ segs.map OsStr.ofText).map .normal) =
          some uri := by
        rw [toFileUri, hpath] at huri
        split at huri
        · next hfrom =>
            cases huri
            exact hfrom
        · cases huri
      have hto := (urls.inverse (absolute_root hanchor _) (plain_root hanchor _) hfrom).2
      constructor
      · refine ⟨_, _, hroot, by rw [uriToPath, hto], ?_, ?_, ?_, plain_root hanchor _⟩
        · rw [hpath]
        · rw [normalizedComponents_push hanchor hrelative, settle_of_walk hrelative hwalk]
        · rw [← hpath]
          exact List.prefix_append _ _
      · have hagain : ∀ c ∈ components platform (String.ofList (joinSegments segs)).toList,
            RelativeComponent platform c := by
          intro c hmem
          rw [String.toList_ofList, hsegs] at hmem
          obtain ⟨seg, hseg, rfl⟩ := List.mem_map.mp hmem
          exact .inr (.inr ⟨seg, segment_of_walk hrelative hwalk seg hseg, rfl⟩)
        have hwalk' : walk [] ((components platform
            (String.ofList (joinSegments segs)).toList).map Component.textMove) = some segs := by
          rw [String.toList_ofList, hsegs, List.map_map]
          have hmoves : segs.map (Component.textMove ∘ fun seg ↦ .normal (.ofText seg)) =
              segs.map .down :=
            List.map_congr_left fun seg _ ↦ congrArg Move.down (toStringLossy_ofText seg)
          rw [hmoves]
          exact walk_downs [] segs
        rw [resolve_of_walk root hagain hwalk', resolveSegments_of_names hroot hsegs, huri]

theorem resolveSegments_of_drive {letter : Char} {rest : FsPath}
    (hroot : fsPath platform urls root = .ok rootPath)
    (hsegs : components platform (joinSegments segs) = .prefixed (.disk letter) :: rest) :
    resolveSegments platform urls root relativePath segs =
      if startsWith (components platform (joinSegments segs)) rootPath then
        match toFileUri platform urls (components platform (joinSegments segs)) with
        | .error e => .error e
        | .ok uri => .ok ⟨.ofList (joinSegments segs), uri,
            some (components platform (joinSegments segs))⟩
      else .error (.resourceOutsideFolder relativePath) := by
  have habsolute : (if joinSegments segs = [] then rootPath
      else push rootPath (components platform (joinSegments segs))) =
        components platform (joinSegments segs) := by
    rw [if_neg, hsegs]
    · rfl
    · intro hnil
      have hempty : components platform [] = [] := by cases platform <;> rfl
      rw [hnil, hempty] at hsegs
      cases hsegs
  simp only [resolveSegments, hroot, habsolute]
  cases startsWith (components platform (joinSegments segs)) rootPath <;> rfl

theorem startsWith_names {anchor : FsPath} (h : Root platform anchor) (names : List OsStr)
    (segs : List (List Char)) :
    startsWith (segs.map fun seg ↦ .normal (.ofText seg)) (anchor ++ names.map .normal) =
      false := by
  cases segs with
  | nil => cases h <;> rfl
  | cons seg segs => cases h <;> rfl

theorem toFileUri_of_drive (urls : FileUrls platform) {letter : Char} {rest : List Char}
    (hcanonical : CanonicalPath platform rootPath) (hwindows : platform = .windows)
    (hstarts : startsWith (.prefixed (.disk letter) :: bodyComponents platform rest) rootPath =
      true) :
    ∃ uri, toFileUri platform urls (.prefixed (.disk letter) :: bodyComponents platform rest) =
      .ok uri := by
  obtain ⟨anchor, names, hanchor, -, rfl⟩ := hcanonical.below
  obtain ⟨rest', hbody⟩ | hrelative := bodyComponents_cases platform rest
  · have habsolute : Absolute platform
        (.prefixed (.disk letter) :: bodyComponents platform rest) := by
      subst hwindows
      rw [hbody]
      exact ⟨_, parts .windows rest', .disk letter, rfl, fun c hmem ↦ isStep_of_mem_parts hmem⟩
    obtain ⟨uri, huri⟩ := urls.fromFilePath_isSome habsolute (by
      intro server share hmem
      rw [hbody] at hmem
      simp only [List.mem_cons, reduceCtorEq, false_or, Component.prefixed.injEq] at hmem
      exact isStep_of_mem_parts hmem)
    exact ⟨uri, by rw [toFileUri, huri]⟩
  · exfalso
    rw [startsWith, List.isPrefixOf_iff_prefix] at hstarts
    subst hwindows
    cases hbody : bodyComponents .windows rest with
    | nil =>
        rw [hbody] at hstarts
        cases hanchor <;> simp at hstarts
    | cons c more =>
        rw [hbody] at hstarts hrelative
        have hc : c.parsed = .rootDir := by
          cases hanchor <;>
            simp only [List.cons_append, List.map_cons, List.cons_prefix_cons] at hstarts <;>
            exact hstarts.2.1.symm
        obtain rfl | rfl | ⟨seg, -, rfl⟩ := hrelative c List.mem_cons_self <;> cases hc

/-- Every accepted path is resolved inside the root exactly when the relative path does not respell
it, and canonical URIs stay as they are. -/
theorem contained_iff_not_respells (urls : FileUrls platform) (root : Canonical platform urls)
    (relativePath : String) :
    ((∀ resolved, resolveRelative platform urls root relativePath = .ok resolved →
        Contained platform urls root relativePath resolved) ↔
      ¬Respells platform urls root relativePath) ∧
    ∀ uri canonical, canonicalize platform urls uri = .ok canonical →
      canonicalize platform urls canonical = .ok canonical := by
  refine ⟨⟨?_, ?_⟩, fun _ _ h ↦ canonicalize_canonicalize h⟩
  · rintro hcontained ⟨rootPath, segs, hroot, hanchors, hwalk, hstarts⟩
    have hrelative := relative_of_not_anchor hanchors
    obtain ⟨rootPath', hcanonical, hroot'⟩ := fsPath_eq_ok root
    obtain rfl := Except.ok.inj (hroot.symm.trans hroot')
    obtain hsegs | ⟨letter, rest, hwindows, hsegs⟩ :=
      components_join (segment_of_walk hrelative hwalk)
    · obtain ⟨anchor, names, hanchor, -, rfl⟩ := hcanonical.below
      rw [hsegs, startsWith_names hanchor] at hstarts
      cases hstarts
    · obtain ⟨uri, huri⟩ := toFileUri_of_drive urls hcanonical hwindows (hsegs ▸ hstarts)
      have hresolve := resolve_of_walk root hrelative hwalk
      rw [resolveSegments_of_drive hroot hsegs, if_pos hstarts, hsegs, huri] at hresolve
      -- the resolved path is refused as a relative one
      have hfixed := (hcontained _ hresolve).fixed
      have hanchor : (Component.prefixed (.disk letter)).IsAnchor := trivial
      rw [resolveRelative, String.toList_ofList, hsegs, segments_anchor hanchor] at hfixed
      cases hfixed
  · intro hnot resolved hresolved
    obtain ⟨hrelative, segs, hwalk, hsegments⟩ := walk_of_resolve hresolved
    obtain hsegs | ⟨letter, rest, -, hsegs⟩ := components_join (segment_of_walk hrelative hwalk)
    · exact contained_of_names hrelative hwalk hsegs hsegments
    · obtain ⟨rootPath, -, hroot⟩ := fsPath_eq_ok root
      rw [resolveSegments_of_drive hroot hsegs] at hsegments
      split at hsegments
      · next hstarts =>
          refine absurd ⟨rootPath, segs, hroot, fun c hmem ↦ ?_, hwalk, hstarts⟩ hnot
          obtain rfl | rfl | ⟨seg, -, rfl⟩ := hrelative c hmem <;> exact id
      · cases hsegments

end Claims

section Respelling

instance encodableChar : Encodable Char :=
  .ofLeftInverse Char.toNat Char.ofNat Char.ofNat_toNat

instance encodableUInt8 : Encodable UInt8 :=
  .ofLeftInverse UInt8.toNat UInt8.ofNat fun _ ↦ UInt8.ofNat_toNat

deriving instance Encodable for OsChar
deriving instance Encodable for PathPrefix
deriving instance Encodable for Component

def isAbsolute : FsPath → Bool
  | .prefixed (.disk _) :: .rootDir :: steps | .prefixed (.unc _ _) :: .rootDir :: steps =>
      steps.all fun c ↦ decide c.IsStep
  | _ => false

theorem isAbsolute_iff {path : FsPath} : isAbsolute path = true ↔ Absolute .windows path := by
  have hall : ∀ steps : FsPath,
      (steps.all fun c ↦ decide c.IsStep) = true ↔ ∀ c ∈ steps, c.IsStep := by simp
  constructor
  · intro h
    unfold isAbsolute at h
    split at h
    · next letter steps => exact ⟨_, steps, .disk letter, rfl, (hall steps).mp h⟩
    · next server share steps => exact ⟨_, steps, .unc server share, rfl, (hall steps).mp h⟩
    · cases h
  · rintro ⟨root, steps, hroot, rfl, hsteps⟩
    cases hroot <;> exact (hall steps).mpr hsteps

def named (text : String) : Component := .normal (.ofText text.toList)

def sampleRootPath : FsPath := [.prefixed (.disk 'c'), .rootDir, named "work"]

def sampleChildPath : FsPath := [.prefixed (.disk 'C'), .rootDir, named "work", named "x"]

def sampleUrls : FileUrls .windows where
  scheme _ := some "file"
  toFilePath uri :=
    if uri = "file:///c:/work" then some sampleRootPath
    else if uri = "file:///C:/work/x" then some sampleChildPath
    else ((Encodable.decode uri.toList.length : Option FsPath)).filter isAbsolute
  fromFilePath path :=
    if path = sampleRootPath then some "file:///c:/work"
    else if path = sampleChildPath then some "file:///C:/work/x"
    else if isAbsolute path then
      some (.ofList (List.replicate (Encodable.encode path) 'a'))
    else none
  absolute_toFilePath {uri path} h := by
    rw [← isAbsolute_iff]
    split at h
    · cases h
      rfl
    · split at h
      · cases h
        rfl
      · exact (Option.filter_eq_some_iff.mp h).2
  absolute_fromFilePath {path uri} _ h := by
    rw [← isAbsolute_iff]
    split at h
    · next heq =>
        rw [heq]
        rfl
    · split at h
      · next heq =>
          rw [heq]
          rfl
      · split at h
        · next habsolute => exact habsolute
        · cases h
  fromFilePath_isSome {path} h _ := by
    rw [← isAbsolute_iff] at h
    split
    · exact ⟨_, rfl⟩
    · split
      · exact ⟨_, rfl⟩
      · exact ⟨_, rfl⟩
  inverse {path uri} h _ huri := by
    rw [← isAbsolute_iff] at h
    refine ⟨rfl, ?_⟩
    split at huri
    · next heq =>
        cases huri
        rw [if_pos rfl, heq]
    · split at huri
      · next heq =>
          cases huri
          rw [if_neg (by decide), if_pos rfl, heq]
      · cases huri
        have hnot : ∀ text : String, 'f' ∈ text.toList →
            String.ofList (List.replicate (Encodable.encode path) 'a') ≠ text := by
          rintro _ hmem rfl
          rw [String.toList_ofList] at hmem
          exact absurd (List.eq_of_mem_replicate hmem) (by decide)
        rw [if_neg (hnot _ (by decide)), if_neg (hnot _ (by decide)), String.toList_ofList,
          List.length_replicate, Encodable.encodek, Option.filter_some, if_pos h]

def sampleRoot : Canonical .windows sampleUrls := ⟨"file:///c:/work", "file:///c:/work", rfl⟩

/-- A path that respells the root is accepted, and what it is normalized to is refused. -/
theorem respelled_not_contained :
    resolveRelative .windows sampleUrls sampleRoot "./C:/work/x" =
        .ok ⟨"C:/work/x", "file:///C:/work/x", some sampleChildPath⟩ ∧
      resolveRelative .windows sampleUrls sampleRoot "C:/work/x" =
        .error (.invalidRelativePath "C:/work/x") ∧
      normalizedComponents (push sampleRootPath (components .windows "./C:/work/x".toList)) =
        sampleRootPath ++ [named "C:", named "work", named "x"] ∧
      ¬∀ resolved, resolveRelative .windows sampleUrls sampleRoot "./C:/work/x" = .ok resolved →
        Contained .windows sampleUrls sampleRoot "./C:/work/x" resolved := by
  refine ⟨rfl, rfl, rfl, fun h ↦ ?_⟩
  have hfixed := (h _ rfl).fixed
  cases hfixed

end Respelling

end Zaowutai.Containment
