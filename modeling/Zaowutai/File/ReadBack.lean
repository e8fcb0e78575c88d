import Zaowutai.File.CopyRun
import Zaowutai.File.Sandbox
import Zaowutai.Lib.Run

/-!
# Reading what was written

A write sets one file, and every path leads where it led before.  So a file is
read as it was written last, and what is read of the other files stays.
-/

namespace Zaowutai.File

open Zaowutai.Lib

structure WriteCall where
  path : String
  data : ByteArray
  workspace : String

namespace Disk

variable (allowedRoots : List String) (disk : Disk) (call : WriteCall)

/-- The place that the call writes to, if it succeeds. -/
def writtenPlace : Option Place :=
  match writeFileForUser disk allowedRoots call.path call.data call.workspace with
  | .ok (place, _) => some place
  | .error _ => none

def write : Disk :=
  match writtenPlace allowedRoots disk call with
  | some place => disk.set place (.file call.data)
  | none => disk

end Disk

variable {disk : Disk} {path : String} {roots allowedRoots : List String} {call : WriteCall}
  {extraRoot : Option String} {place : Place} {opened : Opened}
  {content : ByteArray}

theorem writtenPlace_eq_some {place : Place} :
    disk.writtenPlace allowedRoots call = some place ↔
      ∃ tree, writeFileForUser disk allowedRoots call.path call.data call.workspace =
        .ok (place, tree) := by
  rw [Disk.writtenPlace]
  split
  · next written tree h => simp [h]
  · next e h => simp [h]

theorem write_cases (h : disk.writtenPlace allowedRoots call = some place) :
    disk.tree.Free place ∧ (∀ target, disk.tree.entry place ≠ some (.link target)) ∧
      disk.write allowedRoots call = disk.set place (.file call.data) := by
  obtain ⟨tree, hwrite⟩ := writtenPlace_eq_some.mp h
  obtain ⟨-, canonical, hcanonical, hopen, -⟩ := writeFileForUser_ok_iff.mp hwrite
  obtain ⟨-, name, dir, -, -, -, -, rfl⟩ := validatePathForWrite_spec hcanonical
  rw [Disk.openForWrite] at hopen
  split at hopen
  · next start hstart =>
      rw [Disk.start] at hstart
      split at hstart
      · cases hstart
      · obtain rfl := Except.ok.inj hstart
        obtain ⟨hfree, hlink⟩ := FileTree.free_of_openForWrite disk.real_root hopen
        exact ⟨hfree, hlink, by rw [Disk.write, h]⟩
  · cases hopen

theorem canonicalize_write {p : OsPath} (h : disk.canonicalize p = .ok place) :
    (disk.write allowedRoots call).canonicalize p = .ok place := by
  cases hwritten : disk.writtenPlace allowedRoots call with
  | none => rwa [Disk.write, hwritten]
  | some written =>
      obtain ⟨-, hlink, hset⟩ := write_cases hwritten
      rw [hset]
      exact Disk.canonicalize_of_keeps (FileTree.keeps_set hlink) rfl rfl h

theorem entry_write (hfile : disk.tree.entry place = some (.file content))
    (hplace : disk.writtenPlace allowedRoots call ≠ some place) :
    (disk.write allowedRoots call).tree.entry place = some (.file content) := by
  cases hwritten : disk.writtenPlace allowedRoots call with
  | none => rwa [Disk.write, hwritten]
  | some written =>
      obtain ⟨hfree, -, hset⟩ := write_cases hwritten
      have hne : place ≠ written := by
        rintro rfl
        exact hplace hwritten
      have hentry : (disk.set written (.file call.data)).tree.entry =
          Function.update disk.tree.entry written _ := FileTree.entry_set hfree
      rw [hset, hentry, Function.update_of_ne hne, hfile]

theorem readFile_write (hread : readFile disk roots path extraRoot = .ok (some opened))
    (hplace : disk.writtenPlace allowedRoots call ≠ some opened.place) :
    readFile (disk.write allowedRoots call) roots path extraRoot = .ok (some opened) := by
  obtain ⟨htraversal, canonical, hcanonical, hsync⟩ := readFile_ok_some hread
  obtain ⟨hreal, root, hroot, resolved, hresolved, hbelow⟩ := validatePath_spec hcanonical
  obtain rfl := readFileSync_place hreal hsync
  obtain ⟨hself, content, hfile, hsize, htext⟩ := readFileSync_ok_iff.mp hsync
  have hvalid : validatePath (disk.write allowedRoots call) path (roots ++ extraRoot.toList) =
      .ok opened.place := by
    rw [validatePath, canonicalize_write (validatePath_canonicalize hcanonical)]
    exact if_pos (any_isUnder.mpr ⟨root, hroot, resolved, canonicalize_write hresolved, hbelow⟩)
  rw [readFile, if_neg (by simp [htraversal]), validatePathWithExtraRoot, hvalid]
  exact readFileSync_ok_iff.mpr
    ⟨canonicalize_write hself, content, entry_write hfile hplace, hsize, htext⟩

/-- Over every run of writes, what is read through a path stays as long as nobody writes to the
file that the path leads to. -/
theorem readFile_undisturbed {calls : List WriteCall}
    (hread : readFile disk roots path extraRoot = .ok (some opened))
    (hcalls : Meets (Disk.write allowedRoots)
      (fun disk call ↦ disk.writtenPlace allowedRoots call ≠ some opened.place) disk calls) :
    readFile (run (Disk.write allowedRoots) disk calls) roots path extraRoot = .ok (some opened) :=
  run_of_meets (P := fun disk ↦ readFile disk roots path extraRoot = .ok (some opened))
    (fun _ _ hread hplace ↦ readFile_write hread hplace) hread hcalls

theorem readFile_plainDisk :
    readFile (run (Disk.write []) plainDisk [⟨"/w/f", .empty, "/w"⟩]) ["/s"] "/s/f" none =
      .ok (some ⟨["s", "f"], ""⟩) :=
  readFile_undisturbed rfl ⟨by decide, trivial⟩

end Zaowutai.File
