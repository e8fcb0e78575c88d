import Zaowutai.File.PathSafety

/-!
# What stays in the sandbox

A path that has been resolved has no links, so what is read is what was compared
with the roots.  A path for writing has none but perhaps in its last component,
and the file that a link there leads to is compared with nothing.
-/

namespace Zaowutai.File

open Zaowutai.Lib

variable {disk : Disk} {path root workspace : String} {allowedRoots : List String}
  {extraRoot : Option String} {place dir : Place}

def Inside (disk : Disk) (roots : List String) (place : Place) : Prop :=
  ∃ root ∈ roots, ∃ canonical, disk.canonicalize (.ofText root) = .ok canonical ∧
    canonical <+: place

structure Sandboxed (disk : Disk) (allowedRoots : List String) (path workspace : String) :
    Prop where
  read : ∀ extraRoot opened, readFile disk allowedRoots path extraRoot = .ok (some opened) →
    Inside disk (allowedRoots ++ extraRoot.toList) opened.place
  written : ∀ data place tree,
    writeFileForUser disk allowedRoots path data workspace = .ok (place, tree) →
    Inside disk (allowedRoots ++ [workspace]) place

def NoLinkOut (disk : Disk) (allowedRoots : List String) (path workspace : String) : Prop :=
  ∀ parent name dir target place, hasTraversal path = false →
    (OsPath.ofText path).parent = some parent → (OsPath.ofText path).fileName = some name →
    disk.canonicalize parent = .ok dir → Inside disk (allowedRoots ++ [workspace]) dir →
    disk.tree.entry (dir ++ [name]) = some (.link target) →
    disk.openForWrite (.ofPlace (dir ++ [name])) = .ok place →
    Inside disk (allowedRoots ++ [workspace]) place

theorem isUnder_iff : disk.isUnder place root = true ↔
    ∃ canonical, disk.canonicalize (.ofText root) = .ok canonical ∧ canonical <+: place := by
  rw [Disk.isUnder]
  cases disk.canonicalize (.ofText root) with
  | ok canonical => simp
  | error e => simp

theorem any_isUnder {roots : List String} :
    roots.any (disk.isUnder place) = true ↔ Inside disk roots place := by
  rw [List.any_eq_true, Inside]
  exact exists_congr fun root ↦ and_congr_right fun _ ↦ isUnder_iff

theorem Inside.child {roots : List String} (h : Inside disk roots dir) (name : String) :
    Inside disk roots (dir ++ [name]) := by
  obtain ⟨root, hroot, canonical, hcanonical, hbelow⟩ := h
  exact ⟨root, hroot, canonical, hcanonical, hbelow.trans (List.prefix_append dir [name])⟩

section Canonical

theorem canonicalize_cases {p : OsPath} (h : disk.canonicalize p = .ok place) :
    p.hasNul = false ∧ disk.tree.Real place := by
  rw [Disk.canonicalize, Disk.start] at h
  by_cases hnul : p.hasNul = true
  · rw [if_pos hnul] at h
    cases h
  · rw [if_neg hnul] at h
    refine ⟨by simpa using hnul, ?_⟩
    by_cases habsolute : p.absolute = true
    · rw [if_pos habsolute] at h
      exact FileTree.real_of_find (FileTree.real_of_isDir (FileTree.isDir_iff.mpr disk.tree.root)) h
    · rw [if_neg habsolute] at h
      by_cases hempty : p.moves = []
      · rw [if_pos hempty] at h
        cases h
      · rw [if_neg hempty] at h
        cases hdir : disk.currentDir with
        | none =>
            rw [hdir] at h
            cases h
        | some start =>
            rw [hdir] at h
            exact FileTree.real_of_find
              (FileTree.real_of_isDir (disk.isDir_currentDir start hdir)) h

theorem canonicalize_ofPlace (hreal : disk.tree.Real dir)
    (h : disk.canonicalize (.ofPlace dir) = .ok place) : place = dir := by
  rw [Disk.canonicalize, Disk.start] at h
  by_cases hnul : (OsPath.ofPlace dir).hasNul = true
  · rw [if_pos hnul] at h
    cases h
  · rw [if_neg hnul, if_pos (by rfl)] at h
    have hself : disk.tree.find disk.maxLinks [] (dir.map .down) = .ok dir :=
      FileTree.find_self hreal
    exact Except.ok.inj (h.symm.trans hself)

theorem openForWrite_ofPlace {name : String} (hreal : disk.tree.Real dir)
    (hlink : ∀ target, disk.tree.entry (dir ++ [name]) ≠ some (.link target))
    (h : disk.openForWrite (.ofPlace (dir ++ [name])) = .ok place) : place = dir ++ [name] := by
  rw [Disk.openForWrite, Disk.start] at h
  by_cases hnul : (OsPath.ofPlace (dir ++ [name])).hasNul = true
  · rw [if_pos hnul] at h
    cases h
  · rw [if_neg hnul, if_pos (by rfl)] at h
    exact FileTree.openForWrite_child hreal hlink h

end Canonical

section Read

theorem validatePath_spec {roots : List String} (h : validatePath disk path roots = .ok place) :
    disk.tree.Real place ∧ Inside disk roots place := by
  rw [validatePath] at h
  split at h
  · cases h
  · next canonical hcanonical =>
      split at h
      · next hinside =>
          obtain rfl := Except.ok.inj h
          exact ⟨(canonicalize_cases hcanonical).2, any_isUnder.mp hinside⟩
      · cases h

theorem readFileSync_ok_iff {opened : Opened} :
    readFileSync disk dir = .ok (some opened) ↔
      disk.canonicalize (.ofPlace dir) = .ok opened.place ∧
        ∃ content, disk.tree.entry opened.place = some (.file content) ∧
          content.size ≤ maxFileSize ∧ String.fromUTF8? content = some opened.text := by
  constructor
  · intro h
    rw [readFileSync] at h
    split at h
    · cases h
    · cases h
    · next hvalid =>
        split at h
        · next read hread =>
            obtain rfl : read = opened := Option.some.inj (Except.ok.inj h)
            rw [readToString] at hread
            split at hread
            · cases hread
            · next place hplace =>
                split at hread
                · next content hfile =>
                    split at hread
                    · next text htext =>
                        obtain rfl := Except.ok.inj hread
                        refine ⟨hplace, content, hfile, ?_, htext⟩
                        rw [validateFileForRead, hplace] at hvalid
                        simp only [hfile] at hvalid
                        by_contra hlarge
                        rw [if_pos (not_le.mp hlarge)] at hvalid
                        cases hvalid
                    · cases hread
                · cases hread
        · cases h
  · rintro ⟨hplace, content, hfile, hsize, htext⟩
    rw [readFileSync, validateFileForRead, readToString, hplace]
    simp only [hfile, if_neg hsize.not_gt, htext]

theorem readFileSync_place {opened : Opened} (hreal : disk.tree.Real dir)
    (h : readFileSync disk dir = .ok (some opened)) : opened.place = dir :=
  canonicalize_ofPlace hreal (readFileSync_ok_iff.mp h).1

theorem readFile_ok_some {opened : Opened}
    (h : readFile disk allowedRoots path extraRoot = .ok (some opened)) :
    hasTraversal path = false ∧
      ∃ canonical, validatePath disk path (allowedRoots ++ extraRoot.toList) = .ok canonical ∧
        readFileSync disk canonical = .ok (some opened) := by
  rw [readFile] at h
  split at h
  · cases h
  · next htraversal =>
      split at h
      · next canonical hcanonical => exact ⟨by simpa using htraversal, canonical, hcanonical, h⟩
      · split at h
        · cases h
        · split at h
          · cases h
          · cases h

theorem readFile_inside {opened : Opened}
    (h : readFile disk allowedRoots path extraRoot = .ok (some opened)) :
    Inside disk (allowedRoots ++ extraRoot.toList) opened.place := by
  obtain ⟨-, canonical, hcanonical, hread⟩ := readFile_ok_some h
  obtain ⟨hreal, hinside⟩ := validatePath_spec hcanonical
  rw [readFileSync_place hreal hread]
  exact hinside

end Read

section Write

theorem validatePathForWrite_spec {roots : List String} {canonical : OsPath}
    (h : validatePathForWrite disk path roots = .ok canonical) :
    ∃ parent name dir, (OsPath.ofText path).parent = some parent ∧
      (OsPath.ofText path).fileName = some name ∧ disk.canonicalize parent = .ok dir ∧
      Inside disk roots dir ∧ canonical = .ofPlace (dir ++ [name]) := by
  rw [validatePathForWrite] at h
  split at h
  · cases h
  · next parent hparent =>
      split at h
      · cases h
      · next name hname =>
          split at h
          · cases h
          · next dir hdir =>
              split at h
              · next hinside =>
                  exact ⟨parent, name, dir, hparent, hname, hdir, any_isUnder.mp hinside,
                    (Except.ok.inj h).symm⟩
              · cases h

theorem validatePathForWrite_ok {roots : List String} {parent : OsPath} {name : String}
    (hparent : (OsPath.ofText path).parent = some parent)
    (hname : (OsPath.ofText path).fileName = some name)
    (hdir : disk.canonicalize parent = .ok dir) (hinside : Inside disk roots dir) :
    validatePathForWrite disk path roots = .ok (.ofPlace (dir ++ [name])) := by
  rw [validatePathForWrite, hparent, hname]
  simp only [hdir]
  rw [if_pos (any_isUnder.mpr hinside)]

theorem writeFileForUser_ok_iff {data : ByteArray} {place : Place}
    {tree : FileTree String ByteArray} :
    writeFileForUser disk allowedRoots path data workspace = .ok (place, tree) ↔
      hasTraversal path = false ∧
        ∃ canonical, validatePathForWrite disk path (allowedRoots ++ [workspace]) = .ok canonical ∧
          disk.openForWrite canonical = .ok place ∧ tree = disk.tree.set place (.file data) := by
  rw [writeFileForUser]
  by_cases htraversal : hasTraversal path = true
  · simp [htraversal]
  · rw [if_neg htraversal]
    cases validatePathForWrite disk path (allowedRoots ++ [workspace]) with
    | error e => simp
    | ok canonical =>
        cases hopen : disk.openForWrite canonical with
        | error e => simp [writeFileSync, hopen]
        | ok opened =>
            simp only [writeFileSync, hopen, Except.ok.injEq, Prod.mk.injEq, exists_eq_left']
            constructor
            · rintro ⟨rfl, rfl⟩
              exact ⟨by simpa using htraversal, rfl, rfl⟩
            · rintro ⟨-, rfl, rfl⟩
              exact ⟨rfl, rfl⟩

end Write

/-- Only a link in the place of the file that is written leads out of the sandbox. -/
theorem sandboxed_iff_noLinkOut (disk : Disk) (allowedRoots : List String)
    (path workspace : String) :
    Sandboxed disk allowedRoots path workspace ↔ NoLinkOut disk allowedRoots path workspace := by
  constructor
  · intro h parent name dir target place htraversal hparent hname hdir hinside _ hopen
    exact h.written .empty place _ (writeFileForUser_ok_iff.mpr
      ⟨htraversal, _, validatePathForWrite_ok hparent hname hdir hinside, hopen, rfl⟩)
  · intro h
    refine ⟨fun extraRoot opened hread ↦ readFile_inside hread, fun data place tree hwrite ↦ ?_⟩
    obtain ⟨htraversal, canonical, hcanonical, hopen, -⟩ := writeFileForUser_ok_iff.mp hwrite
    obtain ⟨parent, name, dir, hparent, hname, hdir, hinside, rfl⟩ :=
      validatePathForWrite_spec hcanonical
    by_cases hlink : ∃ target, disk.tree.entry (dir ++ [name]) = some (.link target)
    · obtain ⟨target, hlink⟩ := hlink
      exact h parent name dir target place htraversal hparent hname hdir hinside hlink hopen
    · have hfree : ∀ target, disk.tree.entry (dir ++ [name]) ≠ some (.link target) :=
        fun target he ↦ hlink ⟨target, he⟩
      rw [openForWrite_ofPlace (canonicalize_cases hdir).2 hfree hopen]
      exact hinside.child name

section LinkOut

def linkedDisk : Disk where
  tree := ((FileTree.empty.set ["secret"] (.file .empty)).set ["w"] .dir).set ["w", "l"]
    (.link ⟨true, [.down "secret"]⟩)
  currentDir := none
  isDir_currentDir := by simp
  maxLinks := 40
  errorText _ := ""

theorem linkedDisk_not_sandboxed : ¬Sandboxed linkedDisk [] "/w/l" "/w" := by
  intro h
  have hplace : (writeFileForUser linkedDisk [] "/w/l" .empty "/w").map Prod.fst =
      .ok ["secret"] := by decide
  cases hwrite : writeFileForUser linkedDisk [] "/w/l" .empty "/w" with
  | error e =>
      rw [hwrite] at hplace
      cases hplace
  | ok written =>
      rw [hwrite] at hplace
      obtain ⟨place, tree⟩ := written
      obtain rfl : place = ["secret"] := Except.ok.inj hplace
      have hinside := any_isUnder.mpr (h.written .empty _ _ hwrite)
      exact absurd hinside (by decide)

end LinkOut

end Zaowutai.File
