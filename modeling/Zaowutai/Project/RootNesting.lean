import Mathlib.Data.List.Infix
import Mathlib.Data.List.Sort
import Zaowutai.Lib.Run
import Zaowutai.Lib.Table

/-!
# The entries of a project

A project has a workspace entry and attached ones, each on a folder.  A folder
is attached after the entries have been listed and checked; other calls run
between the listing and the insertion.
-/

namespace Zaowutai.Project

open Zaowutai.Lib

abbrev Canonical := List String

inductive Role
  | workspace
  | attached
  deriving DecidableEq, Repr

structure ProjectExplorerRow where
  peId : ℕ
  folderId : ℕ
  role : Role
  displayName : Option String
  orderIndex : ℕ
  deriving DecidableEq, Repr

/-- A call of `attachFolder` between two awaits; the entries are those that passed the checks. -/
structure Attaching where
  canonical : Canonical
  folderId : ℕ
  displayName : Option String
  entries : Option (List ProjectExplorerRow)
  deriving DecidableEq, Repr

structure ProjectStore where
  created : Bool
  folders : List Canonical
  rows : List ProjectExplorerRow
  nextPeId : ℕ
  attaching : Table ℕ Attaching
  /-- The entries that a call of `removeAttached` has found and may remove. -/
  removing : List ℕ

inductive AttachCheck
  | duplicate
  /-- The folder lies in this entry, which is shown instead. -/
  | focus (entry : ProjectExplorerRow)
  | overlap
  | clear
  deriving DecidableEq, Repr

inductive ProjectAct
  | create (workspace : Canonical)
  | attach (call : ℕ) (canonical : Canonical) (displayName : Option String)
  | list (call : ℕ)
  | insert (call : ℕ)
  | find (peId : ℕ)
  | remove (peId : ℕ)
  deriving DecidableEq, Repr

namespace ProjectStore

variable (p : ProjectStore)

def new : ProjectStore := ⟨false, [], [], 0, ∅, []⟩

def upsertFolder (canonical : Canonical) : ProjectStore × ℕ :=
  match p.folders.findIdx? (· = canonical) with
  | some folderId => (p, folderId)
  | none => ({ p with folders := p.folders ++ [canonical] }, p.folders.length)

def root (row : ProjectExplorerRow) : Option Canonical := p.folders[row.folderId]?

def listEntries : List (ProjectExplorerRow × Canonical) :=
  (p.rows.insertionSort fun a b ↦ a.orderIndex ≤ b.orderIndex).filterMap fun row ↦
    (p.root row).map fun canonical ↦ (row, canonical)

/-- The first entry that contains the folder, or lies in it, decides. -/
def checkOverlap (canonical : Canonical) : List (ProjectExplorerRow × Canonical) → AttachCheck
  | [] => .clear
  | (entry, existing) :: entries =>
      if existing.isPrefixOf canonical then .focus entry
      else if canonical.isPrefixOf existing then .overlap
      else checkOverlap canonical entries

def checkAttach (canonical : Canonical) (folderId : ℕ)
    (entries : List (ProjectExplorerRow × Canonical)) : AttachCheck :=
  if entries.any fun e ↦ e.1.folderId = folderId then .duplicate
  else checkOverlap canonical entries

def insertAttachedEntry (folderId : ℕ) (displayName : Option String) (orderIndex : ℕ) :
    ProjectStore :=
  if p.rows.any fun row ↦ row.folderId = folderId then p
  else
    { p with
      rows := p.rows ++ [⟨p.nextPeId, folderId, .attached, displayName, orderIndex⟩]
      nextPeId := p.nextPeId + 1 }

def removeEntry (peId : ℕ) : ProjectStore :=
  { p with rows := p.rows.filter fun row ↦ row.peId ≠ peId }

def createProjectWithWorkspaceEntry (folderId : ℕ) : ProjectStore :=
  { p with
    created := true
    rows := p.rows ++ [⟨p.nextPeId, folderId, .workspace, none, 0⟩]
    nextPeId := p.nextPeId + 1 }

def step : ProjectAct → ProjectStore
  | .create workspace =>
      if p.created then p
      else
        let (p, folderId) := p.upsertFolder workspace
        p.createProjectWithWorkspaceEntry folderId
  | .attach call canonical displayName =>
      if !p.created || (p.attaching.lookup call).isSome then p
      else
        let (p, folderId) := p.upsertFolder canonical
        { p with attaching := p.attaching.insert call ⟨canonical, folderId, displayName, none⟩ }
  | .list call =>
      match p.attaching.lookup call with
      | some ⟨canonical, folderId, displayName, none⟩ =>
          match checkAttach canonical folderId p.listEntries with
          | .clear =>
              let entries := p.listEntries.map Prod.fst
              { p with attaching :=
                  p.attaching.insert call ⟨canonical, folderId, displayName, some entries⟩ }
          | .duplicate | .focus _ | .overlap => { p with attaching := p.attaching.erase call }
      | _ => p
  | .insert call =>
      match p.attaching.lookup call with
      | some ⟨_, folderId, displayName, some entries⟩ =>
          { p with attaching := p.attaching.erase call }.insertAttachedEntry folderId displayName
            entries.length
      | _ => p
  | .find peId =>
      -- the workspace entry cannot be removed
      if p.rows.any fun row ↦ row.peId = peId ∧ row.role = .attached then
        { p with removing := p.removing.insert peId }
      else p
  | .remove peId =>
      if peId ∈ p.removing then { p with removing := p.removing.erase peId }.removeEntry peId
      else p

/-- The first entry whose real path contains the file, with the path below it; `realpath`
resolves symbolic links and fails where there is no such folder. -/
def findOwningEntry (realpath : Canonical → Option Canonical) (target : Canonical) :
    Option (ℕ × List String) :=
  p.listEntries.findSome? fun e ↦
    match realpath e.2 with
    | none => none
    | some rootPath =>
        if rootPath.isPrefixOf target then some (e.1.peId, target.drop rootPath.length) else none

end ProjectStore

/-!
## Project roots never nest

The checks of an attachment keep its folder apart from the entries that were
listed.  What was inserted since then, and the number of the entries as an
order index, are not checked.
-/

/-- Neither path contains the other. -/
def Apart (a b : Canonical) : Prop := ¬ a <+: b ∧ ¬ b <+: a

theorem Apart.symm {a b : Canonical} (h : Apart a b) : Apart b a := ⟨h.2, h.1⟩

theorem not_apart_of_common {a b file : Canonical} (ha : a <+: file) (hb : b <+: file) :
    ¬ Apart a b :=
  fun h ↦ (List.prefix_or_prefix_of_prefix ha hb).elim h.1 h.2

namespace ProjectStore

section Laws

variable (p : ProjectStore)

/-- Two entries with their folders, neither in the other. -/
def RowsApart (row row' : ProjectExplorerRow) : Prop :=
  ∀ a b, p.root row = some a → p.root row' = some b → Apart a b

structure Separate : Prop where
  roots : p.rows.Pairwise p.RowsApart
  orders : (p.rows.map ProjectExplorerRow.orderIndex).Nodup
  owner : ∀ file, ∀ e ∈ p.listEntries, ∀ e' ∈ p.listEntries,
    e.2 <+: file → e'.2 <+: file → e = e'

def Undisturbed : ProjectAct → Prop
  | .insert call => ∀ a entries, p.attaching.lookup call = some a → a.entries = some entries →
      (∀ row ∈ p.rows, row.folderId ≠ a.folderId) → ∀ row ∈ p.rows,
        row.orderIndex ≠ entries.length ∧
          (row ∉ entries → ∀ path, p.root row = some path → Apart path a.canonical)
  | .create _ | .attach _ _ _ | .list _ | .find _ | .remove _ => True

structure CallSound (a : Attaching) : Prop where
  folder : p.folders[a.folderId]? = some a.canonical
  checked : ∀ entries, a.entries = some entries → ∀ row ∈ entries,
    ∃ path, p.root row = some path ∧ Apart path a.canonical

structure Sound : Prop where
  rows : ∀ row ∈ p.rows, (p.root row).isSome = true
  calls : ∀ call a, p.attaching.lookup call = some a → p.CallSound a
  uncreated : p.created = false → p.rows = [] ∧ ∀ call, p.attaching.lookup call = none

end Laws

section Folders

variable {p p' : ProjectStore} {canonical : Canonical} {row : ProjectExplorerRow}

theorem mem_listEntries {e : ProjectExplorerRow × Canonical} :
    e ∈ p.listEntries ↔ e.1 ∈ p.rows ∧ p.root e.1 = some e.2 := by
  rw [listEntries, List.mem_filterMap]
  constructor
  · rintro ⟨row, hrow, he⟩
    obtain ⟨canonical, hroot, rfl⟩ := Option.map_eq_some_iff.mp he
    exact ⟨(List.mem_insertionSort _).mp hrow, hroot⟩
  · rintro ⟨hrow, hroot⟩
    exact ⟨e.1, (List.mem_insertionSort _).mpr hrow, by rw [hroot]; rfl⟩

theorem upsertFolder_spec (p : ProjectStore) (canonical : Canonical) :
    ∃ folders folderId, p.upsertFolder canonical = ({ p with folders := folders }, folderId) ∧
      p.folders <+: folders ∧ folders[folderId]? = some canonical := by
  rw [upsertFolder]
  split
  · next folderId hfound =>
      obtain ⟨hlt, hat, -⟩ := List.findIdx?_eq_some_iff_getElem.mp hfound
      refine ⟨p.folders, folderId, rfl, List.prefix_rfl, ?_⟩
      rw [List.getElem?_eq_getElem hlt, of_decide_eq_true hat]
  · exact ⟨_, _, rfl, List.prefix_append _ _, List.getElem?_concat_length⟩

theorem folder_of_extends {folderId : ℕ} {path : Canonical} (h : p.folders <+: p'.folders)
    (hpath : p.folders[folderId]? = some path) : p'.folders[folderId]? = some path := by
  obtain ⟨more, hmore⟩ := h
  obtain ⟨hlt, hat⟩ := List.getElem?_eq_some_iff.mp hpath
  rw [← hmore, List.getElem?_append_left hlt, List.getElem?_eq_getElem hlt, hat]

theorem CallSound.of_extends {a : Attaching} (h : p.CallSound a)
    (hfolders : p.folders <+: p'.folders) : p'.CallSound a where
  folder := folder_of_extends hfolders h.folder
  checked entries hentries row hrow := by
    obtain ⟨path, hpath, hapart⟩ := h.checked entries hentries row hrow
    exact ⟨path, folder_of_extends hfolders hpath, hapart⟩

theorem checkOverlap_clear {entries : List (ProjectExplorerRow × Canonical)}
    (h : checkOverlap canonical entries = .clear) : ∀ e ∈ entries, Apart e.2 canonical := by
  induction entries with
  | nil => exact fun e he ↦ by cases he
  | cons e entries ih =>
      rw [checkOverlap] at h
      split at h
      · cases h
      · next hbelow =>
          split at h
          · cases h
          · next habove =>
              intro e' he'
              rcases List.mem_cons.mp he' with rfl | he'
              · rw [List.isPrefixOf_iff_prefix] at hbelow habove
                exact ⟨hbelow, habove⟩
              · exact ih h e' he'

end Folders

section Separation

variable {p p' : ProjectStore}

theorem RowsApart.symm {row row' : ProjectExplorerRow} (h : p.RowsApart row row') :
    p.RowsApart row' row :=
  fun a b ha hb ↦ (h b a hb ha).symm

instance : Std.Symm p.RowsApart := ⟨fun _ _ ↦ RowsApart.symm⟩

theorem separate_iff :
    p.Separate ↔
      p.rows.Pairwise p.RowsApart ∧ (p.rows.map ProjectExplorerRow.orderIndex).Nodup := by
  refine ⟨fun h ↦ ⟨h.roots, h.orders⟩, fun ⟨hroots, horders⟩ ↦ ⟨hroots, horders, ?_⟩⟩
  intro file e he e' he' hfile hfile'
  obtain ⟨hrow, hroot⟩ := mem_listEntries.mp he
  obtain ⟨hrow', hroot'⟩ := mem_listEntries.mp he'
  by_cases heq : e.1 = e'.1
  · rw [← heq, hroot] at hroot'
    exact Prod.ext heq (Option.some.inj hroot')
  · exact absurd (hroots.forall hrow hrow' heq _ _ hroot hroot') (not_apart_of_common hfile hfile')

theorem Separate.findOwningEntry_eq (h : p.Separate) {e : ProjectExplorerRow × Canonical}
    {realpath : Canonical → Option Canonical} {target : Canonical}
    (hreal : ∀ e' ∈ p.listEntries, ∀ path, realpath e'.2 = some path → path = e'.2)
    (he : e ∈ p.listEntries) (hpath : realpath e.2 = some e.2) (htarget : e.2 <+: target) :
    p.findOwningEntry realpath target = some (e.1.peId, target.drop e.2.length) := by
  rw [findOwningEntry]
  rcases hfound : p.listEntries.findSome? _ with - | found
  · have hnone := List.findSome?_eq_none_iff.mp hfound e he
    simp only [hpath, List.isPrefixOf_iff_prefix, htarget, if_true] at hnone
    cases hnone
  · obtain ⟨e', he', hfound'⟩ := List.exists_of_findSome?_eq_some hfound
    simp only [List.isPrefixOf_iff_prefix] at hfound'
    split at hfound'
    · cases hfound'
    · next path hpath' =>
        obtain rfl := hreal e' he' path hpath'
        split at hfound'
        · next hprefix =>
            cases h.owner target e he e' he' htarget hprefix
            exact hfound'.symm
        · cases hfound'

theorem Separate.congr (h : p.Separate) (hrows : p'.rows.Sublist p.rows)
    (hroots : ∀ row ∈ p'.rows, p'.root row = p.root row) : p'.Separate := by
  rw [separate_iff] at h ⊢
  refine ⟨?_, h.2.sublist (hrows.map _)⟩
  refine (h.1.sublist hrows).imp_of_mem ?_
  intro row row' hrow hrow' hapart a b ha hb
  exact hapart a b (hroots row hrow ▸ ha) (hroots row' hrow' ▸ hb)

theorem separate_concat_iff (h : p.Separate) {row : ProjectExplorerRow} {path : Canonical}
    (hrow : p.root row = some path) (hp' : p'.rows = p.rows ++ [row])
    (hfolders : p'.folders = p.folders) :
    p'.Separate ↔ ∀ other ∈ p.rows, other.orderIndex ≠ row.orderIndex ∧
      ∀ b, p.root other = some b → Apart b path := by
  have hroot : p'.root = p.root := by
    funext other
    rw [root, hfolders, root]
  have hapart : p'.RowsApart = p.RowsApart := by
    funext other other'
    rw [RowsApart, hroot, RowsApart]
  rw [separate_iff] at h ⊢
  rw [hp', hapart, List.pairwise_append, List.map_append, List.nodup_append]
  simp only [List.pairwise_singleton, List.map_cons, List.map_nil, List.nodup_singleton,
    List.mem_singleton, List.mem_map, h.1, h.2, true_and, forall_eq]
  constructor
  · rintro ⟨hroots, horders⟩ other hother
    exact ⟨horders _ ⟨other, hother, rfl⟩, fun b hb ↦ hroots other hother b path hb hrow⟩
  · intro hall
    constructor
    · intro other hother b c hb hc
      cases hrow.symm.trans hc
      exact (hall other hother).2 b hb
    · rintro _ ⟨other, hother, rfl⟩
      exact (hall other hother).1

end Separation

section Steps

variable {p p' : ProjectStore}

structure Quiet (p p' : ProjectStore) : Prop where
  rows : p'.rows.Sublist p.rows
  folders : p.folders <+: p'.folders
  created : p'.created = p.created
  calls : ∀ call a, p'.attaching.lookup call = some a →
    p.attaching.lookup call = some a ∨ p.created = true ∧ p'.CallSound a

theorem Quiet.refl (p : ProjectStore) : p.Quiet p where
  rows := List.Sublist.refl _
  folders := List.prefix_rfl
  created := rfl
  calls _ _ ha := .inl ha

theorem Sound.created_of_call (h : p.Sound) {call : ℕ} {a : Attaching}
    (hcall : p.attaching.lookup call = some a) : p.created = true := by
  rcases hp : p.created with - | -
  · rw [(h.uncreated hp).2 call] at hcall
    cases hcall
  · rfl

theorem Quiet.finish (p : ProjectStore) (call : ℕ) :
    p.Quiet { p with attaching := p.attaching.erase call } where
  rows := List.Sublist.refl _
  folders := List.prefix_rfl
  created := rfl
  calls call' a ha := by
    simp only [Table.lookup_erase_eq] at ha
    split at ha
    · cases ha
    · exact .inl ha

theorem Quiet.attach (p : ProjectStore) (call : ℕ) (canonical : Canonical)
    (displayName : Option String) : p.Quiet (p.step (.attach call canonical displayName)) := by
  rw [step]
  split
  · exact .refl p
  · next hopen =>
      obtain ⟨folders, folderId, hupsert, hfolders, hfolder⟩ := p.upsertFolder_spec canonical
      have hcreated : p.created = true := by
        rcases hp : p.created with - | -
        · rw [hp] at hopen
          exact absurd rfl hopen
        · rfl
      rw [hupsert]
      refine ⟨List.Sublist.refl _, hfolders, rfl, ?_⟩
      intro call' a ha
      simp only [Table.lookup_insert_eq] at ha
      split at ha
      · cases ha
        exact .inr ⟨hcreated, hfolder, fun entries hentries ↦ (by cases hentries)⟩
      · exact .inl ha

theorem Quiet.list (h : p.Sound) (call : ℕ) : p.Quiet (p.step (.list call)) := by
  rw [step]
  split
  · next canonical folderId displayName hcall =>
      split
      · next hcheck =>
          rw [checkAttach] at hcheck
          split at hcheck
          · cases hcheck
          · refine ⟨List.Sublist.refl _, List.prefix_rfl, rfl, ?_⟩
            intro call' a ha
            simp only [Table.lookup_insert_eq] at ha
            split at ha
            · cases ha
              refine .inr ⟨h.created_of_call hcall, (h.calls _ _ hcall).folder, ?_⟩
              intro entries hentries row hrow
              cases hentries
              obtain ⟨e, he, rfl⟩ := List.mem_map.mp hrow
              exact ⟨e.2, (mem_listEntries.mp he).2, checkOverlap_clear hcheck e he⟩
            · exact .inl ha
      · exact .finish p call
      · exact .finish p call
      · exact .finish p call
  · exact .refl p

theorem Quiet.find (p : ProjectStore) (peId : ℕ) : p.Quiet (p.step (.find peId)) := by
  rw [step]
  split <;> exact ⟨List.Sublist.refl _, List.prefix_rfl, rfl, fun _ _ ha ↦ .inl ha⟩

theorem Quiet.remove (p : ProjectStore) (peId : ℕ) : p.Quiet (p.step (.remove peId)) := by
  rw [step]
  split
  · exact ⟨List.filter_sublist, List.prefix_rfl, rfl, fun _ _ ha ↦ .inl ha⟩
  · exact .refl p

theorem insert_cases (p : ProjectStore) (call : ℕ) :
    (p.Quiet (p.step (.insert call)) ∧ p.Undisturbed (.insert call)) ∨
      ∃ a entries, p.attaching.lookup call = some a ∧ a.entries = some entries ∧
        (∀ row ∈ p.rows, row.folderId ≠ a.folderId) ∧
        p.step (.insert call) =
          { p with
            attaching := p.attaching.erase call
            rows := p.rows ++ [⟨p.nextPeId, a.folderId, .attached, a.displayName, entries.length⟩]
            nextPeId := p.nextPeId + 1 } := by
  rw [step]
  split
  · next canonical folderId displayName entries hcall =>
      rw [insertAttachedEntry]
      split
      · next hthere =>
          left
          refine ⟨.finish p call, ?_⟩
          intro a entries' ha _ hnone
          cases hcall.symm.trans ha
          obtain ⟨row, hrow, hfolder⟩ := List.any_eq_true.mp hthere
          exact absurd (of_decide_eq_true hfolder) (hnone row hrow)
      · next hnew =>
          right
          refine ⟨_, entries, hcall, rfl, ?_, rfl⟩
          intro row hrow hfolder
          exact hnew (List.any_eq_true.mpr ⟨row, hrow, decide_eq_true hfolder⟩)
  · next hother =>
      left
      refine ⟨.refl p, ?_⟩
      rintro ⟨canonical, folderId, displayName, listed⟩ entries ha rfl
      exact absurd ha (hother canonical folderId displayName entries)

theorem Sound.quiet (h : p.Sound) (hquiet : p.Quiet p') : p'.Sound := by
  refine ⟨?_, ?_, ?_⟩
  · intro row hrow
    obtain ⟨path, hpath⟩ := Option.isSome_iff_exists.mp (h.rows row (hquiet.rows.subset hrow))
    have hpath' : p'.root row = some path := folder_of_extends hquiet.folders hpath
    rw [hpath']
    rfl
  · intro call a ha
    rcases hquiet.calls call a ha with hbefore | ⟨-, hsound⟩
    · exact (h.calls call a hbefore).of_extends hquiet.folders
    · exact hsound
  · intro hnot
    rw [hquiet.created] at hnot
    obtain ⟨hnil, hnone⟩ := h.uncreated hnot
    have hrows := hquiet.rows
    rw [hnil] at hrows
    refine ⟨List.sublist_nil.mp hrows, fun call ↦ ?_⟩
    rcases hcall : p'.attaching.lookup call with - | a
    · rfl
    · rcases hquiet.calls call a hcall with hbefore | ⟨htrue, -⟩
      · rw [hnone call] at hbefore
        cases hbefore
      · rw [hnot] at htrue
        cases htrue

theorem Separate.quiet (h : p.Separate) (hsound : p.Sound) (hquiet : p.Quiet p') : p'.Separate := by
  refine h.congr hquiet.rows ?_
  intro row hrow
  obtain ⟨path, hpath⟩ := Option.isSome_iff_exists.mp (hsound.rows row (hquiet.rows.subset hrow))
  rw [hpath]
  exact folder_of_extends hquiet.folders hpath

theorem Sound.concat (h : p.Sound) {row : ProjectExplorerRow}
    (hp' : p'.rows = p.rows ++ [row]) (hfolders : p.folders <+: p'.folders)
    (hcreated : p'.created = true) (hrow : (p'.root row).isSome = true)
    (hcalls : ∀ call a, p'.attaching.lookup call = some a → p.attaching.lookup call = some a) :
    p'.Sound := by
  refine ⟨?_, ?_, ?_⟩
  · intro other hother
    rw [hp', List.mem_append, List.mem_singleton] at hother
    rcases hother with hother | rfl
    · obtain ⟨path, hpath⟩ := Option.isSome_iff_exists.mp (h.rows other hother)
      have hpath' : p'.root other = some path := folder_of_extends hfolders hpath
      rw [hpath']
      rfl
    · exact hrow
  · intro call a ha
    exact (h.calls call a (hcalls call a ha)).of_extends hfolders
  · intro hnot
    rw [hcreated] at hnot
    cases hnot

theorem create_spec (h : p.Sound) (workspace : Canonical) :
    (p.step (.create workspace)).Sound ∧
      (p.Separate → (p.step (.create workspace)).Separate) := by
  rw [step]
  split
  · exact ⟨h, id⟩
  · next hnot =>
      obtain ⟨folders, folderId, hupsert, hfolders, hfolder⟩ := p.upsertFolder_spec workspace
      have hnil := (h.uncreated (Bool.eq_false_iff.mpr hnot)).1
      rw [hupsert]
      constructor
      · exact h.concat rfl hfolders rfl (Option.isSome_of_mem hfolder) fun _ _ ha ↦ ha
      · intro _
        rw [separate_iff]
        simp only [createProjectWithWorkspaceEntry, hnil, List.nil_append]
        exact ⟨List.pairwise_singleton _ _, List.nodup_singleton _⟩

theorem sound_step (p : ProjectStore) (act : ProjectAct) (h : p.Sound) : (p.step act).Sound := by
  cases act with
  | create workspace => exact (create_spec h workspace).1
  | attach call canonical displayName => exact h.quiet (.attach p call canonical displayName)
  | list call => exact h.quiet (.list h call)
  | insert call =>
      rcases p.insert_cases call with ⟨hquiet, -⟩ | ⟨a, entries, hcall, -, -, heq⟩
      · exact h.quiet hquiet
      · rw [heq]
        refine h.concat rfl List.prefix_rfl ?_ ?_ ?_
        · exact h.created_of_call hcall
        · exact Option.isSome_of_mem (h.calls call a hcall).folder
        · intro call' a' ha'
          simp only [Table.lookup_erase_eq] at ha'
          split at ha'
          · cases ha'
          · exact ha'
  | find peId => exact h.quiet (.find p peId)
  | remove peId => exact h.quiet (.remove p peId)

theorem separate_step_iff (p : ProjectStore) (act : ProjectAct) (hsound : p.Sound)
    (h : p.Separate) : (p.step act).Separate ↔ p.Undisturbed act := by
  cases act with
  | create workspace => exact iff_of_true ((create_spec hsound workspace).2 h) trivial
  | attach call canonical displayName =>
      exact iff_of_true (h.quiet hsound (.attach p call canonical displayName)) trivial
  | list call => exact iff_of_true (h.quiet hsound (.list hsound call)) trivial
  | insert call =>
      rcases p.insert_cases call with ⟨hquiet, hguard⟩ | ⟨a, entries, hcall, hentries, hnew, heq⟩
      · exact iff_of_true (h.quiet hsound hquiet) hguard
      · have hcallSound := hsound.calls call a hcall
        have hroot : p.root ⟨p.nextPeId, a.folderId, .attached, a.displayName, entries.length⟩ =
            some a.canonical := hcallSound.folder
        have hrows := congrArg rows heq
        rw [separate_concat_iff h hroot hrows (by rw [heq])]
        constructor
        · intro hall b entries' hb hentries' _ row hrow
          cases hcall.symm.trans hb
          cases hentries.symm.trans hentries'
          exact ⟨(hall row hrow).1, fun _ ↦ (hall row hrow).2⟩
        · intro hguard row hrow
          obtain ⟨horder, hapart⟩ := hguard a entries hcall hentries hnew row hrow
          refine ⟨horder, fun b hb ↦ ?_⟩
          by_cases hlisted : row ∈ entries
          · obtain ⟨path, hpath, hfar⟩ := hcallSound.checked entries hentries row hlisted
            cases hb.symm.trans hpath
            exact hfar
          · exact hapart hlisted b hb
  | find peId => exact iff_of_true (h.quiet hsound (.find p peId)) trivial
  | remove peId => exact iff_of_true (h.quiet hsound (.remove p peId)) trivial

theorem sound_new : new.Sound where
  rows _ h := by cases h
  calls _ _ h := by cases h
  uncreated _ := ⟨rfl, fun _ ↦ rfl⟩

theorem separate_new : new.Separate :=
  separate_iff.mpr ⟨List.Pairwise.nil, List.nodup_nil⟩

end Steps

section Runs

/-- Along a run the roots are apart, with distinct order indexes and one owner for each file,
exactly if every insertion is undisturbed. -/
theorem roots_never_nest_iff (acts : List ProjectAct) :
    Throughout step Separate new acts ↔ Meets step Undisturbed new acts :=
  throughout_iff_meets sound_step separate_step_iff sound_new separate_new

/-- Two attachments, of a folder and of one inside it, that both list the entries before either
inserts its own. -/
def attachBoth : List ProjectAct :=
  [.create ["w"], .attach 0 ["a"] none, .attach 1 ["a", "b"] none, .list 0, .list 1,
    .insert 0, .insert 1]

def attachAfterDetach : List ProjectAct :=
  [.create ["w"], .attach 0 ["a"] none, .list 0, .insert 0, .attach 1 ["b"] none, .list 1,
    .insert 1, .find 1, .remove 1, .attach 2 ["c"] none, .list 2, .insert 2]

/-- The file `a/b/f` has two owners after the first run, and after the second two entries have
the order index 2. -/
theorem roots_nest :
    ¬ Throughout step Separate new attachBoth ∧
      ¬ Throughout step Separate new attachAfterDetach ∧
      ((run step new attachBoth).listEntries.filter fun e ↦ e.2 <+: ["a", "b", "f"]).length = 2 ∧
      (run step new attachAfterDetach).rows.map ProjectExplorerRow.orderIndex = [0, 2, 2] := by
  refine ⟨?_, ?_, by decide, by decide⟩
  · intro h
    have hrow : (⟨1, 1, .attached, none, 1⟩, ["a"]) ∈ (run step new attachBoth).listEntries := by
      decide
    have hrow' : (⟨2, 2, .attached, none, 1⟩, ["a", "b"]) ∈
        (run step new attachBoth).listEntries := by
      decide
    have hsame := h.last.owner ["a", "b"] _ hrow _ hrow' (by decide) (by decide)
    exact absurd hsame (by decide)
  · intro h
    exact absurd h.last.orders (by decide)

end Runs

end ProjectStore

end Zaowutai.Project
