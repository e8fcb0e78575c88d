import Mathlib.Algebra.Order.BigOperators.Group.List
import Mathlib.Algebra.Order.Group.Nat
import Zaowutai.File.Sandbox
import Zaowutai.File.WorkspaceCopy

/-!
# What the copies create

Nothing that is there changes.  New places lie below the place that the parent of
the destination leads to, but for a file whose destination is a link: it is
created where the link leads.  A directory that its own copy does not lie in is
copied in as many steps as it is deep.
-/

namespace Zaowutai.File

open Zaowutai.Lib

variable {disk disk' disk'' : Disk} {path place dir p q src dest : Place} {name : String}

section Growth

structure Disk.Grows (disk disk' : Disk) (new : Place → Prop) : Prop where
  tree : disk.tree.Grows disk'.tree new
  maxLinks : disk'.maxLinks = disk.maxLinks
  currentDir : disk'.currentDir = disk.currentDir

namespace Disk

variable {new new' : Place → Prop}

theorem Grows.refl (disk : Disk) (new : Place → Prop) : disk.Grows disk new :=
  ⟨.refl disk.tree new, rfl, rfl⟩

theorem Grows.mono (h : disk.Grows disk' new) (hnew : ∀ p, new p → new' p) :
    disk.Grows disk' new' := ⟨h.tree.mono hnew, h.maxLinks, h.currentDir⟩

theorem Grows.trans (h : disk.Grows disk' new) (h' : disk'.Grows disk'' new) :
    disk.Grows disk'' new :=
  ⟨h.tree.trans h'.tree, h'.maxLinks.trans h.maxLinks, h'.currentDir.trans h.currentDir⟩

theorem Grows.resolve (h : disk.Grows disk' new) (hpath : disk.resolve path = .ok p) :
    disk'.resolve path = .ok p := by
  rw [Disk.resolve, h.maxLinks]
  exact h.tree.keeps.find hpath

theorem canonicalize_of_keeps {text : OsPath} (h : disk.tree.Keeps disk'.tree)
    (hlinks : disk'.maxLinks = disk.maxLinks) (hcurrent : disk'.currentDir = disk.currentDir)
    (htext : disk.canonicalize text = .ok p) : disk'.canonicalize text = .ok p := by
  have hstart : disk'.start text = disk.start text := by rw [start, start, hcurrent]
  rw [Disk.canonicalize] at htext ⊢
  rw [hstart]
  cases hstart : disk.start text with
  | error e =>
      rw [hstart] at htext
      cases htext
  | ok start =>
      rw [hstart] at htext
      simp only [hlinks]
      exact h.find htext

theorem Grows.canonicalize {text : OsPath} (h : disk.Grows disk' new)
    (htext : disk.canonicalize text = .ok p) : disk'.canonicalize text = .ok p :=
  canonicalize_of_keeps h.tree.keeps h.maxLinks h.currentDir htext

theorem grows_set {e : Entry String ByteArray} (hdir : disk.tree.isDir dir = true)
    (hnone : disk.tree.entry (dir ++ [name]) = none) :
    disk.Grows (disk.set (dir ++ [name]) e) (· = dir ++ [name]) :=
  ⟨FileTree.grows_set (FileTree.free_child hdir hnone) hnone, rfl, rfl⟩

theorem entry_set {e : Entry String ByteArray} (hdir : disk.tree.isDir dir = true)
    (hnone : disk.tree.entry (dir ++ [name]) = none) :
    (disk.set (dir ++ [name]) e).tree.entry (dir ++ [name]) = some e :=
  FileTree.entry_set_self (FileTree.free_child hdir hnone)

end Disk

end Growth

section Paths

namespace Disk

theorem real_root (disk : Disk) : disk.tree.Real [] :=
  FileTree.real_of_isDir (FileTree.isDir_iff.mpr disk.tree.root)

theorem resolve_self (h : disk.tree.Real p) : disk.resolve p = .ok p := FileTree.find_self h

theorem resolve_child (hpath : disk.resolve path = .ok p) (hdir : disk.tree.isDir p = true)
    (h : disk.tree.Real (p ++ [name])) : disk.resolve (path ++ [name]) = .ok (p ++ [name]) := by
  rw [resolve, List.map_append]
  exact FileTree.find_child hpath hdir h

theorem follow_missing (hpath : disk.resolve path = .ok p) (hdir : disk.tree.isDir p = true)
    (h : disk.tree.entry (p ++ [name]) = none) :
    disk.tree.follow disk.maxLinks [] ((path ++ [name]).map .down) = .ok (.missing p name) := by
  rw [List.map_append]
  exact FileTree.follow_missing_child hpath hdir h

theorem exists_resolve_of_child (h : disk.resolve (path ++ [name]) = .ok p) :
    ∃ dir, disk.resolve path = .ok dir ∧ disk.tree.isDir dir = true := by
  rw [resolve, List.map_append] at h
  exact FileTree.exists_find_of_append h

theorem isDirAt_iff : disk.isDirAt path = true ↔
    ∃ p, disk.resolve path = .ok p ∧ disk.tree.isDir p = true := by
  rw [isDirAt]
  split
  · next p hp => simp [hp]
  · next e he => simp [he]

end Disk

end Paths

section Directories

/-- The place of a directory when the names of its path that are missing have been created. -/
def LeadsTo (disk : Disk) (path place : Place) : Prop :=
  ∃ above below p, path = above ++ below ∧ disk.resolve above = .ok p ∧
    disk.tree.isDir p = true ∧
    (∀ name, below.head? = some name → disk.tree.entry (p ++ [name]) = none) ∧
    place = p ++ below

/-- The directory of the path is there, and only what it needed is new. -/
structure Prepared (disk disk' : Disk) (path place : Place) : Prop where
  leads : LeadsTo disk path place
  resolve : disk'.resolve path = .ok place
  isDir : disk'.tree.isDir place = true
  grows : disk.Grows disk' (· <+: place)
  fresh : disk' = disk ∨
    disk.tree.entry place = none ∧ ∀ name, disk'.tree.entry (place ++ [name]) = none

theorem LeadsTo.self (hpath : disk.resolve path = .ok p) (hdir : disk.tree.isDir p = true) :
    LeadsTo disk path p :=
  ⟨path, [], p, (List.append_nil path).symm, hpath, hdir, by simp, (List.append_nil p).symm⟩

theorem LeadsTo.child {e : FollowError} (h : LeadsTo disk path place)
    (hmissing : disk.resolve path = .error e) (name : String) :
    LeadsTo disk (path ++ [name]) (place ++ [name]) := by
  obtain ⟨above, below, p, rfl, hp, hdir, hnone, rfl⟩ := h
  refine ⟨above, below ++ [name], p, List.append_assoc .., hp, hdir, ?_, List.append_assoc ..⟩
  cases below with
  | nil =>
      rw [List.append_nil, hp] at hmissing
      cases hmissing
  | cons first below => exact hnone

theorem Prepared.self (hpath : disk.resolve path = .ok p) (hdir : disk.tree.isDir p = true) :
    Prepared disk disk path p := ⟨.self hpath hdir, hpath, hdir, .refl disk _, .inl rfl⟩

theorem mkdir_ok (h : disk.mkdir dir name = .ok disk') :
    ∃ p, disk.resolve dir = .ok p ∧ disk.tree.isDir p = true ∧
      disk.tree.entry (p ++ [name]) = none ∧ disk' = disk.set (p ++ [name]) .dir := by
  rw [Disk.mkdir] at h
  split at h
  · cases h
  · next p hp =>
      split at h
      · next hdir =>
          split at h
          · cases h
          · next hnone => exact ⟨p, hp, hdir, by simpa using hnone, (Except.ok.inj h).symm⟩
      · cases h

theorem mkdir_of_resolve (hdir : disk.resolve dir = .ok p) (hisDir : disk.tree.isDir p = true) :
    disk.mkdir dir name = if (disk.tree.entry (p ++ [name])).isSome then .error .alreadyExists
      else .ok (disk.set (p ++ [name]) .dir) := by
  rw [Disk.mkdir, hdir]
  exact if_pos hisDir

theorem mkdir_notFound (h : disk.mkdir dir name = .error .notFound) :
    disk.resolve dir = .error .notFound := by
  rw [Disk.mkdir] at h
  split at h
  · next e he => rw [he, Except.error.inj h]
  · split at h
    · split at h
      · cases h
      · cases h
    · cases h

theorem Prepared.child {disk₁ : Disk} (h : Prepared disk disk₁ path p)
    (hleads : LeadsTo disk (path ++ [name]) (p ++ [name]))
    (hnone : disk₁.tree.entry (p ++ [name]) = none) :
    Prepared disk (disk₁.set (p ++ [name]) .dir) (path ++ [name]) (p ++ [name]) := by
  have hset := Disk.grows_set (e := .dir) h.isDir hnone
  have hentry := Disk.entry_set (e := .dir) h.isDir hnone
  have hisDir := FileTree.isDir_iff.mpr hentry
  refine ⟨hleads, ?_, hisDir, ?_, .inr ⟨?_, fun below ↦ ?_⟩⟩
  · exact Disk.resolve_child (hset.resolve h.resolve) (hset.tree.isDir h.isDir)
      (FileTree.real_of_isDir hisDir)
  · refine (h.grows.mono fun q hq ↦ hq.trans (List.prefix_append p [name])).trans ?_
    exact hset.mono fun q hq ↦ hq ▸ List.prefix_rfl
  · cases hentry : disk.tree.entry (p ++ [name]) with
    | none => rfl
    | some e =>
        rw [h.grows.tree.kept _ e hentry] at hnone
        cases hnone
  · rw [hset.tree.entry_eq (by simp)]
    exact FileTree.entry_append_none hnone [below]

theorem createDirAll_cases (disk : Disk) (names : List String) :
    (∃ e, disk.createDirAll names = (disk, some e)) ∨
      ∃ disk' place, disk.createDirAll names = (disk', none) ∧
        Prepared disk disk' names.reverse place := by
  induction names with
  | nil =>
      refine .inr ⟨disk, [], rfl, .self ?_ ?_⟩
      · exact Disk.resolve_self disk.real_root
      · exact FileTree.isDir_iff.mpr disk.tree.root
  | cons name above ih =>
      rw [Disk.createDirAll, List.reverse_cons]
      split
      · next disk' hmkdir =>
          obtain ⟨p, hp, hdir, hnone, rfl⟩ := mkdir_ok hmkdir
          refine .inr ⟨_, p ++ [name], rfl, (Prepared.self hp hdir).child ?_ hnone⟩
          exact ⟨above.reverse, [name], p, rfl, hp, hdir, by simpa using hnone, rfl⟩
      · next hmkdir =>
          have hmissing := mkdir_notFound hmkdir
          rcases ih with ⟨e, hfail⟩ | ⟨disk', place, hcreated, hprepared⟩
          · rw [hfail]
            exact .inl ⟨e, rfl⟩
          · rw [hcreated]
            have hnone : disk'.tree.entry (place ++ [name]) = none := by
              rcases hprepared.fresh with rfl | ⟨-, hempty⟩
              · rw [hprepared.resolve] at hmissing
                cases hmissing
              · exact hempty name
            have hmkdir' : disk'.mkdir above.reverse name =
                .ok (disk'.set (place ++ [name]) .dir) := by
              rw [mkdir_of_resolve hprepared.resolve hprepared.isDir, hnone]
              rfl
            simp only [hmkdir']
            exact .inr ⟨_, _, rfl, hprepared.child (hprepared.leads.child hmissing name) hnone⟩
      · next e _ hmkdir =>
          split
          · next hisDirAt =>
              obtain ⟨p, hp, hdir⟩ := Disk.isDirAt_iff.mp hisDirAt
              exact .inr ⟨disk, p, rfl, .self hp hdir⟩
          · exact .inl ⟨e, rfl⟩

theorem createDirAll_of_isDir (hpath : disk.resolve path = .ok p)
    (hdir : disk.tree.isDir p = true) : disk.createDirAll path.reverse = (disk, none) := by
  rcases List.eq_nil_or_concat' path with rfl | ⟨above, name, rfl⟩
  · rfl
  · obtain ⟨dir, habove, hisDir⟩ := Disk.exists_resolve_of_child hpath
    have hsome : (disk.tree.entry (dir ++ [name])).isSome := by
      by_contra hnone
      have hmissing := Disk.follow_missing habove hisDir (Option.not_isSome_iff_eq_none.mp hnone)
      rw [Disk.resolve, FileTree.find, hmissing] at hpath
      cases hpath
    have hisDirAt : disk.isDirAt (above ++ [name]) = true := Disk.isDirAt_iff.mpr ⟨p, hpath, hdir⟩
    have hmkdir : disk.mkdir above name = .error .alreadyExists := by
      rw [mkdir_of_resolve habove hisDir, if_pos hsome]
    rw [List.reverse_concat, Disk.createDirAll, List.reverse_reverse, hmkdir]
    simp [hisDirAt]

end Directories

section Copies

/-- What is a directory or a file at or below the source is the same at or below the copy. -/
def CopyOf (tree tree' : FileTree String ByteArray) (src dest : Place) : Prop :=
  ∀ rest, (tree.isDir (src ++ rest) = true → tree'.isDir (dest ++ rest) = true) ∧
    ∀ content, tree.entry (src ++ rest) = some (.file content) →
      tree'.entry (dest ++ rest) = some (.file content)

variable {tree tree' tree'' : FileTree String ByteArray} {new : Place → Prop} {content : ByteArray}

theorem CopyOf.later (h : CopyOf tree tree' src dest) (hgrows : tree'.Grows tree'' new) :
    CopyOf tree tree'' src dest := fun rest ↦
  ⟨fun hdir ↦ hgrows.isDir ((h rest).1 hdir),
    fun content hfile ↦ hgrows.kept _ _ ((h rest).2 content hfile)⟩

theorem CopyOf.earlier (hgrows : tree.Grows tree' new) (h : CopyOf tree' tree'' src dest) :
    CopyOf tree tree'' src dest := fun rest ↦
  ⟨fun hdir ↦ (h rest).1 (hgrows.isDir hdir),
    fun content hfile ↦ (h rest).2 content (hgrows.kept _ _ hfile)⟩

theorem CopyOf.of_not_isDir (hdir : tree.isDir src = false)
    (hfile : ∀ content, tree.entry src = some (.file content) →
      tree'.entry dest = some (.file content)) : CopyOf tree tree' src dest := by
  intro rest
  cases rest with
  | nil =>
      rw [List.append_nil, List.append_nil, hdir]
      exact ⟨fun h ↦ absurd h (by simp), hfile⟩
  | cons name rest =>
      have hnone := FileTree.entry_append_none_of_not_isDir hdir name rest
      rw [FileTree.isDir_iff, hnone]
      exact ⟨fun h ↦ absurd h (by simp), fun content h ↦ absurd h (by simp)⟩

theorem CopyOf.of_children (hdir : tree'.isDir dest = true)
    (h : ∀ name ∈ tree.children src, CopyOf tree tree' (src ++ [name]) (dest ++ [name]))
    (hsrc : tree.isDir src = true) : CopyOf tree tree' src dest := by
  intro rest
  cases rest with
  | nil =>
      rw [List.append_nil, List.append_nil]
      refine ⟨fun _ ↦ hdir, fun content hfile ↦ ?_⟩
      rw [FileTree.isDir_iff.mp hsrc] at hfile
      cases hfile
  | cons name rest =>
      have hsplit : ∀ p : Place, p ++ name :: rest = p ++ [name] ++ rest := by simp
      by_cases hname : name ∈ tree.children src
      · rw [hsplit, hsplit]
        exact h name hname rest
      · have hchild : tree.entry (src ++ [name]) = none := by
          rwa [FileTree.mem_children, Option.not_isSome_iff_eq_none] at hname
        have hnone := FileTree.entry_append_none hchild rest
        rw [hsplit, FileTree.isDir_iff, hnone]
        exact ⟨fun h ↦ absurd h (by simp), fun content h ↦ absurd h (by simp)⟩

theorem copy_fresh (src : Place) (hopen : disk.opened dest = .ok (dir ++ [name]))
    (hnone : disk.tree.entry (dir ++ [name]) = none) :
    (∃ e, disk.copy src dest = .error e) ∨
      ∃ content p, disk.copy src dest = .ok (disk.set (dir ++ [name]) (.file content)) ∧
        disk.resolve src = .ok p ∧ disk.tree.entry p = some (.file content) := by
  rw [Disk.copy]
  split
  · next e _ => exact .inl ⟨e, rfl⟩
  · next p hp =>
      split
      · next content hcontent =>
          have hne : dir ++ [name] ≠ p := by
            rintro rfl
            rw [hnone] at hcontent
            cases hcontent
          rw [hopen]
          simp only [if_neg hne]
          exact .inr ⟨content, p, rfl, hp, hcontent⟩
      · exact .inl ⟨_, rfl⟩

end Copies

section Entries

variable {listing : ListingOrder} {depth : ℕ} {names : List String} {parent : Place}

/-- Less than `depth` names lead from the place to what is there below it. -/
def Deep (disk : Disk) (src : Place) (depth : ℕ) : Prop :=
  ∀ rest, (disk.tree.entry (src ++ rest)).isSome → rest.length < depth

theorem exists_deep (disk : Disk) (src : Place) : ∃ depth, Deep disk src depth := by
  refine ⟨(disk.tree.places.map List.length).sum + 1, fun rest hsome ↦ ?_⟩
  have hmem := (disk.tree.mem_places _).mpr hsome
  have hlength := List.le_sum_of_mem (List.mem_map_of_mem (f := List.length) hmem)
  rw [List.length_append] at hlength
  omega

theorem not_below_source (hsrc : disk.tree.isDir src = true) (hapart : ¬src <+: dir)
    (hnone : disk.tree.entry (dir ++ [name]) = none) (rest : Place) :
    ¬dir ++ [name] <+: src ++ rest := by
  intro hbelow
  rcases List.prefix_or_prefix_of_prefix hbelow (List.prefix_append src rest) with h | h
  · obtain ⟨more, rfl⟩ := h
    rw [FileTree.isDir_iff, FileTree.entry_append_none hnone more] at hsrc
    cases hsrc
  · rcases List.prefix_concat_iff.mp h with rfl | h
    · rw [FileTree.isDir_iff, hnone] at hsrc
      cases hsrc
    · exact hapart h

/-- A directory is copied to a place where nothing is, apart from itself. -/
def DirCopied (listing : ListingOrder) (depth : ℕ) : Prop :=
  ∀ disk src parent dir name, Deep disk src depth → disk.tree.isDir src = true →
    disk.resolve parent = .ok dir → disk.tree.isDir dir = true → ¬src <+: dir →
    disk.tree.entry (dir ++ [name]) = none → ∃ disk' ok,
      (∀ fuel ≥ depth, copyDirRecursiveSync listing fuel disk src (parent ++ [name]) =
        some (disk', ok)) ∧
      disk.Grows disk' (dir ++ [name] <+: ·) ∧
      (ok = true → CopyOf disk.tree disk'.tree src (dir ++ [name]))

theorem copyEntry_spec (ih : DirCopied listing depth) (hdest : disk.resolve dest = .ok dir)
    (hdir : disk.tree.isDir dir = true) (hapart : ¬src <+: dir)
    (hnone : disk.tree.entry (dir ++ [name]) = none)
    (hdeep : Deep disk (src ++ [name]) depth) (names : List String) :
    ∃ disk' ok, disk.Grows disk' (dir ++ [name] <+: ·) ∧
      (ok = true → CopyOf disk.tree disk'.tree (src ++ [name]) (dir ++ [name])) ∧
      ∀ fuel ≥ depth, copyEntries (copyDirRecursiveSync listing fuel) src dest (name :: names)
          disk =
        if ok then copyEntries (copyDirRecursiveSync listing fuel) src dest names disk'
        else some (disk', false) := by
  by_cases hisDir : disk.tree.isDir (src ++ [name]) = true
  · have hapart' : ¬src ++ [name] <+: dir := fun h ↦ hapart ((List.prefix_append ..).trans h)
    obtain ⟨disk', ok, hrun, hgrows, hcopy⟩ :=
      ih disk (src ++ [name]) dest dir name hdeep hisDir hdest hdir hapart' hnone
    refine ⟨disk', ok, hgrows, hcopy, fun fuel hfuel ↦ ?_⟩
    rw [copyEntries, if_pos hisDir, hrun fuel hfuel]
    cases ok with
    | true => rfl
    | false => rfl
  · have hopen : disk.opened (dest ++ [name]) = .ok (dir ++ [name]) := by
      rw [Disk.opened, FileTree.openForWrite, Disk.follow_missing hdest hdir hnone]
    obtain ⟨e, hfail⟩ | ⟨content, p, hcopied, hp, hcontent⟩ :=
      copy_fresh (src ++ [name]) hopen hnone
    · refine ⟨disk, false, .refl disk _, by simp, fun fuel _ ↦ ?_⟩
      rw [copyEntries, if_neg hisDir, hfail]
      rfl
    · have hgrows := Disk.grows_set (e := .file content) hdir hnone
      refine ⟨_, true, hgrows.mono fun q hq ↦ hq ▸ List.prefix_rfl, ?_, ?_⟩
      · intro _
        apply CopyOf.of_not_isDir (by simpa using hisDir)
        intro content' hfile
        have hreal : disk.tree.Real (src ++ [name]) := ⟨_, hfile, by simp⟩
        rw [Disk.resolve_self hreal] at hp
        rw [Except.ok.inj hp, hcontent] at hfile
        rw [Disk.entry_set hdir hnone, hfile]
      · intro fuel _
        rw [copyEntries, if_neg hisDir, hcopied]
        rfl

theorem Deep.later {new : Place → Prop} (h : Deep disk src depth) (hgrows : disk.Grows disk' new)
    (hnew : ∀ rest, ¬new (src ++ rest)) : Deep disk' src depth := fun rest hsome ↦
  h rest (by rwa [hgrows.tree.entry_eq (hnew rest)] at hsome)

theorem copyEntries_spec (ih : DirCopied listing depth) (hnodup : names.Nodup)
    (hdest : disk.resolve dest = .ok dir) (hdir : disk.tree.isDir dir = true)
    (hsrc : disk.tree.isDir src = true) (hapart : ¬src <+: dir)
    (hnone : ∀ name ∈ names, disk.tree.entry (dir ++ [name]) = none)
    (hdeep : ∀ name ∈ names, Deep disk (src ++ [name]) depth) :
    ∃ disk' ok, (∀ fuel ≥ depth,
        copyEntries (copyDirRecursiveSync listing fuel) src dest names disk = some (disk', ok)) ∧
      disk.Grows disk' (dir <+: ·) ∧ (ok = true → ∀ name ∈ names,
        CopyOf disk.tree disk'.tree (src ++ [name]) (dir ++ [name])) := by
  induction names generalizing disk with
  | nil => exact ⟨disk, true, fun fuel _ ↦ rfl, .refl disk _, by simp⟩
  | cons name names ih' =>
      obtain ⟨hname, hnodup⟩ := List.nodup_cons.mp hnodup
      obtain ⟨disk₁, ok, hgrows, hcopy, hrun⟩ := copyEntry_spec ih hdest hdir hapart
        (hnone name List.mem_cons_self) (hdeep name List.mem_cons_self) names
      have hbelow : disk.Grows disk₁ (dir <+: ·) :=
        hgrows.mono fun q hq ↦ (List.prefix_append dir [name]).trans hq
      cases ok with
      | false => exact ⟨disk₁, false, fun fuel hfuel ↦ hrun fuel hfuel, hbelow, by simp⟩
      | true =>
          have hnone' : ∀ other ∈ names, disk₁.tree.entry (dir ++ [other]) = none := by
            intro other hother
            rw [hgrows.tree.entry_eq]
            · exact hnone other (List.mem_cons_of_mem _ hother)
            · intro hsame
              have heq := List.append_cancel_left (hsame.eq_of_length (by simp))
              obtain rfl : name = other := by simpa using heq
              exact hname hother
          have hdeep' : ∀ other ∈ names, Deep disk₁ (src ++ [other]) depth := by
            intro other hother
            apply (hdeep other (List.mem_cons_of_mem _ hother)).later hgrows
            intro rest
            rw [List.append_assoc]
            exact not_below_source hsrc hapart (hnone name List.mem_cons_self) _
          obtain ⟨disk', ok, hrest, hgrows', hcopies⟩ := ih' hnodup (hgrows.resolve hdest)
            (hgrows.tree.isDir hdir) (hgrows.tree.isDir hsrc) hnone' hdeep'
          refine ⟨disk', ok, fun fuel hfuel ↦ ?_, hbelow.trans hgrows', fun hok other hother ↦ ?_⟩
          · rw [hrun fuel hfuel]
            exact hrest fuel hfuel
          · rcases List.mem_cons.mp hother with rfl | hother
            · exact (hcopy rfl).later hgrows'.tree
            · exact (hcopies hok other hother).earlier hgrows.tree

theorem dirCopied (listing : ListingOrder) (depth : ℕ) : DirCopied listing depth := by
  induction depth with
  | zero =>
      intro disk src parent dir name hdeep hsrc
      have hsome : (disk.tree.entry (src ++ [])).isSome := by
        rw [List.append_nil, FileTree.isDir_iff.mp hsrc, Option.isSome_some]
      exact absurd (hdeep [] hsome) (by simp)
  | succ depth ih =>
      intro disk src parent dir name hdeep hsrc hparent hdir hapart hnone
      have hgrows := Disk.grows_set (e := .dir) hdir hnone
      have hisDir := FileTree.isDir_iff.mpr (Disk.entry_set (e := .dir) hdir hnone)
      have hcreate : disk.createDirAll (parent ++ [name]).reverse =
          (disk.set (dir ++ [name]) .dir, none) := by
        rw [List.reverse_concat, Disk.createDirAll, List.reverse_reverse,
          mkdir_of_resolve hparent hdir, hnone]
        rfl
      have hnew : ∀ rest, ¬src ++ rest = dir ++ [name] := fun rest heq ↦
        not_below_source hsrc hapart hnone rest (heq ▸ List.prefix_rfl)
      have hdest := Disk.resolve_child (hgrows.resolve hparent) (hgrows.tree.isDir hdir)
        (FileTree.real_of_isDir hisDir)
      have hapart' : ¬src <+: dir ++ [name] := by
        rintro ⟨rest, heq⟩
        exact hnew rest heq
      have hperm := listing.perm src ((disk.set (dir ++ [name]) .dir).tree.children src)
      have hempty : ∀ other ∈ listing.order src ((disk.set (dir ++ [name]) .dir).tree.children src),
          (disk.set (dir ++ [name]) .dir).tree.entry (dir ++ [name] ++ [other]) = none := by
        intro other _
        rw [hgrows.tree.entry_eq (by simp)]
        exact FileTree.entry_append_none hnone [other]
      obtain ⟨disk', ok, hrest, hgrows', hcopies⟩ := copyEntries_spec ih
        (hperm.nodup_iff.mpr (List.nodup_dedup _)) hdest hisDir (hgrows.tree.isDir hsrc) hapart'
        hempty fun other _ rest hsome ↦ by
          rw [List.append_assoc, hgrows.tree.entry_eq (hnew _)] at hsome
          exact Nat.lt_of_succ_lt_succ (hdeep (other :: rest) hsome)
      refine ⟨disk', ok, fun fuel hfuel ↦ ?_, ?_, fun hok ↦ ?_⟩
      · obtain ⟨fuel, rfl⟩ := Nat.exists_eq_add_of_lt hfuel
        rw [copyDirRecursiveSync, hcreate]
        simp only
        rw [if_pos (hgrows.tree.isDir hsrc)]
        exact hrest _ (by omega)
      · exact (hgrows.mono fun q hq ↦ hq ▸ List.prefix_rfl).trans hgrows'
      · apply CopyOf.earlier hgrows.tree
        apply CopyOf.of_children (hgrows'.tree.isDir hisDir) ?_ (hgrows.tree.isDir hsrc)
        intro other hother
        exact hcopies hok other (hperm.mem_iff.mpr hother)

end Entries

end Zaowutai.File
