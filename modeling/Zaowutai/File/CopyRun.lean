import Zaowutai.File.CopySafety

/-!
# Copying is safe

A call is safe when each of its sources is harmless on the disk as it is then: what
is created on the way to the destination and at it lies in the workspace, also where
links lead, and a directory is not copied to a place in itself.
-/

namespace Zaowutai.File

open Zaowutai.Lib

variable {disk disk' disk₁ : Disk} {call : CopyCall} {src dest place q : Place} {fp base : String}
  {isDir : Bool}

structure CopiedSafely (disk disk' : Disk) (workspace : Place) (filePaths : List String)
    (reports : List Report) : Prop where
  inside : disk.tree.Grows disk'.tree (workspace <+: ·)
  reported : (copiedFiles reports ++ (failedFiles reports).map (·.path)).Perm filePaths
  complete : ∀ report ∈ reports, ∀ dest src, report.outcome = .copied dest →
    disk.canonicalize (.ofText report.path) = .ok src →
    ∃ place, disk'.resolve dest = .ok place ∧ CopyOf disk.tree disk'.tree src place

def CopiesSafely (listing : ListingOrder) (disk : Disk) (allowedRoots : List String)
    (workspace : String) (sourceRoot : Option String) (filePaths : List String) : Prop :=
  (∃ e, ∀ fuel, copyFilesToWorkspace listing disk allowedRoots workspace sourceRoot fuel
      filePaths = .error e) ∨
    ∃ ws depth disk' reports, disk.canonicalize (.ofText workspace) = .ok ws ∧
      (∀ fuel ≥ depth, copyFilesToWorkspace listing disk allowedRoots workspace sourceRoot fuel
        filePaths = .ok (some (disk', reports))) ∧
      CopiedSafely disk disk' ws filePaths reports

/-- What is created for a source lies in the workspace, and no directory in its own copy. -/
structure CopyCall.Apart (call : CopyCall) (disk : Disk) (src : Place) (base : String)
    (place : Place) : Prop where
  parent : disk.tree.entry place = none → call.workspace <+: place
  dir : disk.tree.isDir src = true → ∀ name,
    freeDestPath disk (call.parentDir src) base true = some (call.parentDir src ++ [name]) →
    disk.tree.entry (place ++ [name]) = none → call.workspace <+: place ∧ ¬src <+: place
  file : disk.tree.isDir src = false → ∀ dest q,
    freeDestPath disk (call.parentDir src) base false = some dest →
    disk.opened dest = .ok q → call.workspace <+: q

def CopyCall.Harmless (call : CopyCall) (disk : Disk) (fp : String) : Prop :=
  ∀ src base place, call.source disk fp = .ok src → (call.relative src).getLast? = some base →
    LeadsTo disk (call.parentDir src) place → call.Apart disk src base place

def CopyCall.HarmlessRun (call : CopyCall) : Disk → List String → Prop
  | _, [] => True
  | disk, fp :: fps => call.Harmless disk fp ∧
      ∀ fuel disk' outcome, call.copyOne fuel disk fp = some (disk', outcome) →
        HarmlessRun call disk' fps

section Item

theorem freeDestFrom_spec {parentDir : Place} {left attempt : ℕ}
    (h : freeDestFrom disk parentDir base isDir left attempt = some dest) :
    (∃ name, dest = parentDir ++ [name]) ∧ disk.existsAt dest = false := by
  induction left generalizing attempt with
  | zero => cases h
  | succ left ih =>
      rw [freeDestFrom] at h
      split at h
      · exact ih h
      · next hfree =>
          obtain rfl := Option.some.inj h
          exact ⟨⟨_, rfl⟩, by simpa using hfree⟩

theorem opened_missing (hopen : disk.opened dest = .ok q) (hfree : disk.existsAt dest = false) :
    ∃ dir name, q = dir ++ [name] ∧ disk.tree.isDir dir = true ∧ disk.tree.entry q = none ∧
      disk.tree.follow disk.maxLinks [] (dest.map .down) = .ok (.missing dir name) := by
  rw [Disk.opened, FileTree.openForWrite] at hopen
  split at hopen
  · next p hstop =>
      rw [Disk.existsAt, Disk.resolve, FileTree.find_eq_ok_iff.mpr hstop] at hfree
      cases hfree
  · next dir name hstop =>
      obtain rfl := Except.ok.inj hopen
      have hsound := FileTree.sound_follow disk.real_root hstop
      exact ⟨dir, name, rfl, hsound.1, hsound.2, hstop⟩
  · cases hopen
  · cases hopen

theorem Prepared.inside {path : Place} (h : Prepared disk disk₁ path place)
    (hws : disk.tree.Real call.workspace)
    (hinside : disk.tree.entry place = none → call.workspace <+: place) :
    disk.Grows disk₁ (call.workspace <+: ·) := by
  obtain rfl | ⟨hnone, -⟩ := h.fresh
  · exact .refl _ _
  · refine ⟨⟨h.grows.tree.kept, fun q hq hsome ↦ ?_⟩, h.grows.maxLinks, h.grows.currentDir⟩
    have hplace := h.grows.tree.only_new q hq hsome
    rcases List.prefix_or_prefix_of_prefix hplace (hinside hnone) with ⟨rest, hrest⟩ | hbelow
    · obtain ⟨e, he, -⟩ := hws
      rw [← hrest, FileTree.entry_append_none hq] at he
      cases he
    · exact hbelow

theorem Prepared.freeDestPath {path : Place} (h : Prepared disk disk₁ path place)
    (hnone : disk.tree.entry place = none) (base : String) (isDir : Bool) :
    freeDestPath disk path base isDir = some (path ++ [base]) := by
  have hfree : disk.existsAt (path ++ [base]) = false := by
    rw [Disk.existsAt]
    cases hdest : disk.resolve (path ++ [base]) with
    | error e => rfl
    | ok p =>
        obtain ⟨dir, hdir, hisDir⟩ := Disk.exists_resolve_of_child hdest
        obtain rfl := Except.ok.inj ((h.grows.resolve hdir).symm.trans h.resolve)
        rw [FileTree.isDir_iff, hnone] at hisDir
        cases hisDir
  rw [File.freeDestPath, maxAttempts, freeDestFrom]
  simp [candidateName, hfree]

def Copied (call : CopyCall) (disk : Disk) (src dest : Place) (isDir : Bool) : Prop :=
  ∃ depth disk' ok,
    (∀ fuel ≥ depth, (if isDir then copyDirRecursiveSync call.listing fuel disk src dest
      else some (copySingleFileSync disk src dest)) = some (disk', ok)) ∧
    disk.Grows disk' (call.workspace <+: ·) ∧
    (ok = true → ∃ place, disk'.resolve dest = .ok place ∧
      CopyOf disk.tree disk'.tree src place)

theorem copied_dir {parent : Place} {name : String} (hparent : disk.resolve parent = .ok place)
    (hdir : disk.tree.isDir place = true) (hfree : disk.existsAt (parent ++ [name]) = false)
    (hsrc : disk.tree.isDir src = true)
    (hapart : disk.tree.entry (place ++ [name]) = none →
      call.workspace <+: place ∧ ¬src <+: place) :
    Copied call disk src (parent ++ [name]) true := by
  cases hentry : disk.tree.entry (place ++ [name]) with
  | none =>
      obtain ⟨hinside, hself⟩ := hapart hentry
      obtain ⟨depth, hdeep⟩ := exists_deep disk src
      obtain ⟨disk', ok, hrun, hgrows, hcopy⟩ := dirCopied call.listing depth disk src parent
        place name hdeep hsrc hparent hdir hself hentry
      have hwithin : disk.Grows disk' (call.workspace <+: ·) :=
        hgrows.mono fun q hq ↦ (hinside.trans (List.prefix_append place [name])).trans hq
      refine ⟨depth, disk', ok, hrun, hwithin, fun hok ↦ ⟨place ++ [name], ?_, hcopy hok⟩⟩
      apply Disk.resolve_child (hgrows.resolve hparent) (hgrows.tree.isDir hdir)
      have hroot := (hcopy hok []).1 (by rwa [List.append_nil])
      rw [List.append_nil] at hroot
      exact FileTree.real_of_isDir hroot
  | some e =>
      have hmkdir : disk.mkdir parent name = .error .alreadyExists := by
        rw [mkdir_of_resolve hparent hdir, hentry]
        rfl
      have hnoDir : disk.isDirAt (parent ++ [name]) = false := by
        by_contra hne
        obtain ⟨p, hp, -⟩ := Disk.isDirAt_iff.mp (by simpa using hne)
        rw [Disk.existsAt, hp] at hfree
        cases hfree
      have hcreate : disk.createDirAll (parent ++ [name]).reverse =
          (disk, some .alreadyExists) := by
        rw [List.reverse_concat, Disk.createDirAll, List.reverse_reverse, hmkdir]
        simp [hnoDir]
      refine ⟨1, disk, false, fun fuel hfuel ↦ ?_, .refl disk _, by simp⟩
      obtain ⟨fuel, rfl⟩ := Nat.exists_eq_add_of_lt hfuel
      rw [if_pos rfl, copyDirRecursiveSync, hcreate]

theorem copied_file {parent : Place} {name : String} {content : ByteArray}
    (hparent : disk.resolve parent = .ok place) (hdir : disk.tree.isDir place = true)
    (hfree : disk.existsAt (parent ++ [name]) = false)
    (hsrc : disk.tree.entry src = some (.file content))
    (hinside : ∀ q, disk.opened (parent ++ [name]) = .ok q → call.workspace <+: q) :
    Copied call disk src (parent ++ [name]) false := by
  have hcreate : disk.createDirAll (parent ++ [name]).dropLast.reverse = (disk, none) := by
    rw [List.dropLast_concat]
    exact createDirAll_of_isDir hparent hdir
  have hself : disk.resolve src = .ok src := Disk.resolve_self ⟨_, hsrc, by simp⟩
  cases hopen : disk.opened (parent ++ [name]) with
  | error e =>
      have hcopy : disk.copy src (parent ++ [name]) = .error e := by
        rw [Disk.copy, hself]
        simp only [hsrc, hopen]
      refine ⟨0, disk, false, fun fuel _ ↦ ?_, .refl disk _, by simp⟩
      rw [if_neg (by simp), copySingleFileSync, hcreate]
      simp only [hcopy]
  | ok q =>
      obtain ⟨dir, last, rfl, hisDir, hnone, hstop⟩ := opened_missing hopen hfree
      obtain ⟨e, hfail⟩ | ⟨content', p, hcopy, hp, hcontent⟩ := copy_fresh src hopen hnone
      · refine ⟨0, disk, false, fun fuel _ ↦ ?_, .refl disk _, by simp⟩
        rw [if_neg (by simp), copySingleFileSync, hcreate]
        simp only [hfail]
      · have hgrows := Disk.grows_set (e := .file content') hisDir hnone
        have hentry := Disk.entry_set (e := .file content') hisDir hnone
        have hwithin : disk.Grows (disk.set (dir ++ [last]) (.file content'))
            (call.workspace <+: ·) := hgrows.mono fun q hq ↦ hq ▸ hinside _ hopen
        refine ⟨0, _, true, fun fuel _ ↦ ?_, hwithin, fun _ ↦ ⟨dir ++ [last], ?_, ?_⟩⟩
        · rw [if_neg (by simp), copySingleFileSync, hcreate]
          simp only [hcopy]
        · apply FileTree.find_eq_ok_iff.mpr
          apply hgrows.tree.keeps.follow hstop
          intro dir' name' hmissing
          cases hmissing
          exact ⟨_, hentry, by simp⟩
        · have hnoDir : disk.tree.isDir src = false := by rw [FileTree.isDir, hsrc]
          apply CopyOf.of_not_isDir hnoDir
          intro content'' hfile
          obtain rfl := Except.ok.inj (hself.symm.trans hp)
          rw [hentry, ← hcontent, hfile]

def Done (call : CopyCall) (disk : Disk) (src : Place) (run : ℕ → Option (Disk × Outcome)) : Prop :=
  ∃ depth disk' outcome, (∀ fuel ≥ depth, run fuel = some (disk', outcome)) ∧
    disk.Grows disk' (call.workspace <+: ·) ∧
    ∀ dest, outcome = .copied dest → ∃ place, disk'.resolve dest = .ok place ∧
      CopyOf disk.tree disk'.tree src place

theorem Done.of_failed {reason : String} {run : ℕ → Option (Disk × Outcome)}
    (hgrows : disk.Grows disk' (call.workspace <+: ·))
    (h : ∀ fuel, run fuel = some (disk', .failed reason)) : Done call disk src run :=
  ⟨0, disk', .failed reason, fun fuel _ ↦ h fuel, hgrows, fun dest hdest ↦ by cases hdest⟩

theorem copyItem_spec (hws : disk.tree.Real call.workspace)
    (hsrc : if isDir then disk.tree.isDir src = true
      else ∃ content, disk.tree.entry src = some (.file content))
    (hapart : ∀ base place, (call.relative src).getLast? = some base →
      LeadsTo disk (call.parentDir src) place → call.Apart disk src base place) :
    Done call disk src fun fuel ↦ call.copyItem fuel disk src isDir := by
  cases hbase : (call.relative src).getLast? with
  | none =>
      apply Done.of_failed (.refl disk _)
      intro fuel
      rw [CopyCall.copyItem, hbase]
  | some base =>
      rcases createDirAll_cases disk (call.parentDir src).reverse with
        ⟨e, hfail⟩ | ⟨disk₁, place, hcreated, hprepared⟩
      · apply Done.of_failed (.refl disk _)
        intro fuel
        rw [CopyCall.copyItem, hbase]
        simp only [hfail]
        rfl
      · rw [List.reverse_reverse] at hprepared
        have hharmless := hapart base place hbase hprepared.leads
        have hgrows := hprepared.inside hws hharmless.parent
        cases hdest : freeDestPath disk₁ (call.parentDir src) base isDir with
        | none =>
            apply Done.of_failed hgrows
            intro fuel
            rw [CopyCall.copyItem, hbase]
            simp only [hcreated, hdest]
            rfl
        | some dest =>
            obtain ⟨⟨name, rfl⟩, hfree⟩ := freeDestFrom_spec hdest
            have hcopied : Copied call disk₁ src (call.parentDir src ++ [name]) isDir := by
              cases isDir with
              | true =>
                  apply copied_dir hprepared.resolve hprepared.isDir hfree
                    (hgrows.tree.isDir hsrc)
                  intro hnone
                  obtain rfl | ⟨hplace, -⟩ := hprepared.fresh
                  · exact hharmless.dir hsrc name hdest hnone
                  · exact hharmless.dir hsrc base (hprepared.freeDestPath hplace base true)
                      (FileTree.entry_append_none hplace [base])
              | false =>
                  obtain ⟨content, hcontent⟩ := hsrc
                  apply copied_file hprepared.resolve hprepared.isDir hfree
                    (hgrows.tree.kept _ _ hcontent)
                  intro q hopen
                  obtain rfl | ⟨hplace, hempty⟩ := hprepared.fresh
                  · apply hharmless.file ?_ _ q hdest hopen
                    rw [FileTree.isDir, hcontent]
                  · rw [Disk.opened, FileTree.openForWrite, Disk.follow_missing hprepared.resolve
                      hprepared.isDir (hempty name)] at hopen
                    obtain rfl := Except.ok.inj hopen
                    exact (hharmless.parent hplace).trans (List.prefix_append place [name])
            obtain ⟨depth, disk', ok, hrun, hgrows', hcopy⟩ := hcopied
            have hitem : ∀ fuel ≥ depth, call.copyItem fuel disk src isDir = some (disk',
                if ok then .copied (call.parentDir src ++ [name]) else .failed "copy failed") := by
              intro fuel hfuel
              rw [CopyCall.copyItem, hbase]
              simp only [hcreated, hdest, hrun fuel hfuel]
              cases ok with
              | true => rfl
              | false => rfl
            refine ⟨depth, disk', _, hitem, hgrows.trans hgrows', fun dest houtcome ↦ ?_⟩
            cases ok with
            | false => cases houtcome
            | true =>
                obtain rfl := Outcome.copied.inj houtcome
                obtain ⟨place, hplace, hsame⟩ := hcopy rfl
                exact ⟨place, hplace, hsame.earlier hgrows.tree⟩

end Item

section Run

theorem validatePath_canonicalize {path : String} {roots : List String}
    (h : validatePath disk path roots = .ok place) :
    disk.canonicalize (.ofText path) = .ok place := by
  rw [validatePath] at h
  split at h
  · cases h
  · next canonical hcanonical =>
      split at h
      · rwa [← Except.ok.inj h]
      · cases h

theorem canonicalize_source (h : call.source disk fp = .ok src) :
    disk.canonicalize (.ofText fp) = .ok src := validatePath_canonicalize h

theorem copyOne_spec (hws : disk.tree.Real call.workspace) (h : call.Harmless disk fp) :
    ∃ depth disk' outcome, (∀ fuel ≥ depth, call.copyOne fuel disk fp = some (disk', outcome)) ∧
      disk.Grows disk' (call.workspace <+: ·) ∧
      ∀ dest src, outcome = .copied dest → disk.canonicalize (.ofText fp) = .ok src →
        ∃ place, disk'.resolve dest = .ok place ∧ CopyOf disk.tree disk'.tree src place := by
  cases hsource : call.source disk fp with
  | error e =>
      refine ⟨0, disk, _, fun fuel _ ↦ by rw [CopyCall.copyOne, hsource], .refl disk _, ?_⟩
      intro dest src hdest
      cases hdest
  | ok src =>
      have hcanonical := canonicalize_source hsource
      have hdone : Done call disk src fun fuel ↦ call.copyOne fuel disk fp := by
        simp only [CopyCall.copyOne, hsource]
        split
        · next hdir =>
            apply copyItem_spec hws (by simpa using FileTree.isDir_iff.mpr hdir)
            exact fun base place ↦ h src base place hsource
        · next content hfile =>
            apply copyItem_spec hws (by simpa using ⟨content, hfile⟩)
            exact fun base place ↦ h src base place hsource
        · exact Done.of_failed (.refl disk _) fun fuel ↦ rfl
      obtain ⟨depth, disk', outcome, hrun, hgrows, hcopy⟩ := hdone
      refine ⟨depth, disk', outcome, hrun, hgrows, fun dest src' hdest hsrc' ↦ ?_⟩
      obtain rfl := Except.ok.inj (hcanonical.symm.trans hsrc')
      exact hcopy dest hdest

theorem copyAll_spec {fps : List String} (hws : disk.tree.Real call.workspace)
    (h : call.HarmlessRun disk fps) :
    ∃ depth disk' reports, (∀ fuel ≥ depth, call.copyAll fuel disk fps = some (disk', reports)) ∧
      disk.Grows disk' (call.workspace <+: ·) ∧ reports.map (·.path) = fps ∧
      ∀ report ∈ reports, ∀ dest src, report.outcome = .copied dest →
        disk.canonicalize (.ofText report.path) = .ok src →
        ∃ place, disk'.resolve dest = .ok place ∧ CopyOf disk.tree disk'.tree src place := by
  induction fps generalizing disk with
  | nil => exact ⟨0, disk, [], fun fuel _ ↦ rfl, .refl disk _, rfl, by simp⟩
  | cons fp fps ih =>
      obtain ⟨depth₁, disk₁, outcome, hone, hgrows₁, hcopy₁⟩ := copyOne_spec hws h.1
      obtain ⟨depth₂, disk', reports, hrest, hgrows, hpaths, hcopies⟩ :=
        ih (hgrows₁.tree.real hws) (h.2 depth₁ disk₁ outcome (hone depth₁ le_rfl))
      refine ⟨max depth₁ depth₂, disk', ⟨fp, outcome⟩ :: reports, fun fuel hfuel ↦ ?_,
        hgrows₁.trans hgrows, by rw [List.map_cons, hpaths], ?_⟩
      · rw [CopyCall.copyAll, hone fuel (by omega)]
        simp only [hrest fuel (by omega)]
        rfl
      · intro report hreport dest src hdest hsrc
        rcases List.mem_cons.mp hreport with rfl | hreport
        · obtain ⟨place, hplace, hsame⟩ := hcopy₁ dest src hdest hsrc
          exact ⟨place, hgrows.resolve hplace, hsame.later hgrows.tree⟩
        · obtain ⟨place, hplace, hsame⟩ :=
            hcopies report hreport dest src hdest (hgrows₁.canonicalize hsrc)
          exact ⟨place, hplace, hsame.earlier hgrows₁.tree⟩

theorem reported_perm (reports : List Report) :
    (copiedFiles reports ++ (failedFiles reports).map (·.path)).Perm (reports.map (·.path)) := by
  induction reports with
  | nil => exact .refl []
  | cons report reports ih =>
      obtain ⟨path, outcome⟩ := report
      cases outcome with
      | copied dest => exact ih.cons path
      | failed reason => exact List.perm_middle.trans (ih.cons path)

theorem copyCall_workspace {listing : ListingOrder} {allowedRoots : List String}
    {workspace : String} {sourceRoot : Option String}
    (h : copyCall listing disk allowedRoots workspace sourceRoot = .ok call) :
    disk.canonicalize (.ofText workspace) = .ok call.workspace := by
  rw [copyCall] at h
  split at h
  · cases h
  · next ws hws =>
      have hcanonical := validatePath_canonicalize hws
      split at h
      · rwa [← Except.ok.inj h]
      · split at h
        · cases h
        · rwa [← Except.ok.inj h]

end Run

theorem copiesSafely_of_harmlessRun (listing : ListingOrder) (disk : Disk)
    (allowedRoots : List String) (workspace : String) (sourceRoot : Option String)
    (filePaths : List String)
    (h : ∀ call, copyCall listing disk allowedRoots workspace sourceRoot = .ok call →
      call.HarmlessRun disk filePaths) :
    CopiesSafely listing disk allowedRoots workspace sourceRoot filePaths := by
  cases hcall : copyCall listing disk allowedRoots workspace sourceRoot with
  | error e => exact .inl ⟨e, fun fuel ↦ by rw [copyFilesToWorkspace, hcall]⟩
  | ok call =>
      have hws := copyCall_workspace hcall
      obtain ⟨depth, disk', reports, hrun, hgrows, hpaths, hcopies⟩ :=
        copyAll_spec (canonicalize_cases hws).2 (h call hcall)
      refine .inr ⟨call.workspace, depth, disk', reports, hws, fun fuel hfuel ↦ ?_, hgrows.tree,
        hpaths ▸ reported_perm reports, hcopies⟩
      rw [copyFilesToWorkspace, hcall]
      simp only [hrun fuel hfuel]

section Dangling

def asListed : ListingOrder where
  order _ names := names
  perm _ names := .refl names

/-- `/s/f` is a file, and `/w` is empty. -/
def plainDisk : Disk where
  tree := ((FileTree.empty.set ["s"] .dir).set ["s", "f"] (.file .empty)).set ["w"] .dir
  currentDir := none
  isDir_currentDir := by simp
  maxLinks := 40
  errorText _ := ""

theorem copiesSafely_plainDisk : CopiesSafely asListed plainDisk [] "/w" none ["/s/f"] := by
  apply copiesSafely_of_harmlessRun
  intro call hcall
  have hplain : copyCall asListed plainDisk [] "/w" none =
      .ok ⟨asListed, ["/w"], ["w"], none⟩ := rfl
  obtain rfl := Except.ok.inj (hplain.symm.trans hcall)
  refine ⟨?_, fun _ _ _ _ ↦ trivial⟩
  intro src base place hsource hbase hplace
  have hfile : plainDisk.canonicalize (.ofText "/s/f") = .ok ["s", "f"] := rfl
  obtain rfl := Except.ok.inj (hfile.symm.trans (canonicalize_source hsource))
  obtain rfl : "f" = base := Option.some.inj hbase
  refine ⟨fun hnone ↦ ?_, fun hdir ↦ absurd hdir (by decide), fun _ dest q hdest hopen ↦ ?_⟩
  · obtain ⟨above, below, p, hpath, hp, -, hmissing, rfl⟩ := hplace
    cases above with
    | nil =>
        obtain rfl : [] = p := Except.ok.inj hp
        obtain rfl : ["w"] = below := hpath
        exact absurd (hmissing "w" rfl) (by decide)
    | cons first above =>
        obtain ⟨rfl, hrest⟩ := List.cons.inj hpath
        obtain ⟨rfl, rfl⟩ := List.append_eq_nil_iff.mp hrest.symm
        obtain rfl : ["w"] = p := Except.ok.inj hp
        cases hnone
  · have hfree : freeDestPath plainDisk ["w"] "f" false = some ["w", "f"] := rfl
    obtain rfl := Option.some.inj (hfree.symm.trans hdest)
    have hplace : plainDisk.opened ["w", "f"] = .ok ["w", "f"] := rfl
    obtain rfl := Except.ok.inj (hplace.symm.trans hopen)
    exact List.prefix_append ["w"] ["f"]

/-- `/w/f` is a link to `/out`, where nothing is. -/
def danglingDisk : Disk := plainDisk.set ["w", "f"] (.link ⟨true, [.down "out"]⟩)

theorem danglingDisk_not_copiesSafely :
    ¬CopiesSafely asListed danglingDisk [] "/w" none ["/s/f"] := by
  have hout : ∀ fuel, (copyFilesToWorkspace asListed danglingDisk [] "/w" none fuel ["/s/f"]).map
      (Option.map fun run ↦ (run.1.tree.entry ["out"]).isSome) = .ok (some true) := fun _ ↦ rfl
  rintro (⟨e, herror⟩ | ⟨ws, depth, disk', reports, hws, hrun, hsafe⟩)
  · have h := hout 0
    rw [herror] at h
    cases h
  · have h := hout depth
    rw [hrun depth le_rfl] at h
    have hsome : (disk'.tree.entry ["out"]).isSome = true := Option.some.inj (Except.ok.inj h)
    have hcanonical : danglingDisk.canonicalize (.ofText "/w") = .ok ["w"] := rfl
    obtain rfl := Except.ok.inj (hcanonical.symm.trans hws)
    exact absurd (hsafe.inside.only_new ["out"] rfl hsome) (by decide)

end Dangling

end Zaowutai.File
