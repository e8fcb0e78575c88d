import Zaowutai.Lib.Table

/-!
# The task board of a team

A dependency is stored at both ends: the waiting task lists it in `blockedBy`
and the task it waits for lists the waiting one in `blocks`.  A call of the board
is a sequence of row updates of the repository, each of them atomic; where one
fails, the ones before it stay.
-/

namespace Zaowutai.Team

open Zaowutai.Lib

inductive TaskStatus
  | pending
  | inProgress
  | completed
  | deleted
  deriving DecidableEq, Repr

structure TeamTaskRow where
  id : String
  subject : String
  description : Option String
  status : TaskStatus
  owner : Option String
  blockedBy : List String
  blocks : List String
  metadata : Option String
  deriving DecidableEq, Repr

structure TaskUpdate where
  status : Option TaskStatus := none
  description : Option String := none
  owner : Option String := none
  blockedBy : Option (List String) := none
  metadata : Option String := none

inductive DbError
  | query (message : String)
  | notFound (message : String)
  deriving DecidableEq, Repr

inductive TaskError
  | taskNotFound (taskId : String)
  | blockedTaskNotFound (taskId : String)
  | database (error : DbError)
  deriving DecidableEq, Repr

namespace TeamTaskRow

def new (taskId subject : String) (description owner : Option String) (blockedBy : List String) :
    TeamTaskRow where
  id := taskId
  subject := subject
  description := description
  status := .pending
  owner := owner
  blockedBy := blockedBy
  blocks := []
  metadata := none

variable (row : TeamTaskRow)

def apply (update : TaskUpdate) : TeamTaskRow :=
  { row with
    status := update.status.getD row.status
    description := update.description.or row.description
    owner := update.owner.or row.owner
    blockedBy := update.blockedBy.getD row.blockedBy
    metadata := update.metadata.or row.metadata }

def addBlocked (blockedTaskId : String) : TeamTaskRow :=
  if row.blocks.contains blockedTaskId then row
  else { row with blocks := row.blocks ++ [blockedTaskId] }

def unblock (unblockedTaskId : String) : TeamTaskRow :=
  { row with blockedBy := row.blockedBy.filter (· ≠ unblockedTaskId) }

end TeamTaskRow

abbrev TaskRows := Table String TeamTaskRow

namespace TaskRows

variable (rows : TaskRows)

def findTaskById (taskId : String) : Option TeamTaskRow := rows.lookup taskId

def insertTask (row : TeamTaskRow) : Except DbError TaskRows :=
  match rows.findTaskById row.id with
  | some _ => .error (.query "UNIQUE constraint failed: team_tasks.id")
  | none => .ok (rows.insert row.id row)

/-- Read a row, change it and write it back in one transaction. -/
def rewriteTask (f : TeamTaskRow → TeamTaskRow) (taskId : String) : Except DbError TaskRows :=
  match rows.findTaskById taskId with
  | none => .error (.notFound ("task " ++ taskId))
  | some _ => .ok (rows.modify taskId f)

def updateRow (taskId : String) (update : TaskUpdate) : Except DbError TaskRows :=
  rows.rewriteTask (·.apply update) taskId

def appendToBlocks (blockedTaskId taskId : String) : Except DbError TaskRows :=
  rows.rewriteTask (·.addBlocked blockedTaskId) taskId

def removeFromBlockedBy (unblockedTaskId taskId : String) : Except DbError TaskRows :=
  rows.rewriteTask (·.unblock unblockedTaskId) taskId

/-- Update the rows one after the other, up to the first that fails. -/
def forEach (f : TaskRows → String → Except DbError TaskRows) :
    TaskRows → List String → TaskRows × Except DbError Unit
  | rows, [] => (rows, .ok ())
  | rows, taskId :: taskIds =>
      match f rows taskId with
      | .error error => (rows, .error error)
      | .ok rows => forEach f rows taskIds

end TaskRows

namespace TaskBoard

open TaskRows

variable (rows : TaskRows)

def createTask (taskId subject : String) (description owner : Option String)
    (blockedBy : List String) : TaskRows × Except TaskError TeamTaskRow :=
  match blockedBy.find? fun depId ↦ (rows.findTaskById depId).isNone with
  | some depId => (rows, .error (.blockedTaskNotFound depId))
  | none =>
      let row := TeamTaskRow.new taskId subject description owner blockedBy
      match rows.insertTask row with
      | .error error => (rows, .error (.database error))
      | .ok rows =>
          match forEach (·.appendToBlocks taskId) rows blockedBy with
          | (rows, .error error) => (rows, .error (.database error))
          | (rows, .ok ()) => (rows, .ok row)

def checkUnblocks (completedTaskId : String) (completedRow : TeamTaskRow) :
    TaskRows × Except DbError Unit :=
  forEach (·.removeFromBlockedBy completedTaskId) rows completedRow.blocks

/-- A completion walks the dependents of the row as it was read before the update. -/
def updateTask (taskId : String) (update : TaskUpdate) :
    TaskRows × Except TaskError TeamTaskRow :=
  match rows.findTaskById taskId with
  | none => (rows, .error (.taskNotFound taskId))
  | some existing =>
      match rows.updateRow taskId update with
      | .error error => (rows, .error (.database error))
      | .ok rows =>
          let (rows, unblocked) :=
            if update.status = some .completed then checkUnblocks rows taskId existing
            else (rows, .ok ())
          match unblocked with
          | .error error => (rows, .error (.database error))
          | .ok () =>
              match rows.findTaskById taskId with
              | none => (rows, .error (.taskNotFound taskId))
              | some updated => (rows, .ok updated)

end TaskBoard

section Rows

variable {rows : TaskRows}

@[simp] theorem apply_blocks (row : TeamTaskRow) (update : TaskUpdate) :
    (row.apply update).blocks = row.blocks := rfl

@[simp] theorem apply_status (row : TeamTaskRow) (update : TaskUpdate) :
    (row.apply update).status = update.status.getD row.status := rfl

@[simp] theorem apply_blockedBy (row : TeamTaskRow) (update : TaskUpdate) :
    (row.apply update).blockedBy = update.blockedBy.getD row.blockedBy := rfl

@[simp] theorem addBlocked_status (row : TeamTaskRow) (taskId : String) :
    (row.addBlocked taskId).status = row.status := by
  unfold TeamTaskRow.addBlocked
  split <;> rfl

@[simp] theorem addBlocked_blockedBy (row : TeamTaskRow) (taskId : String) :
    (row.addBlocked taskId).blockedBy = row.blockedBy := by
  unfold TeamTaskRow.addBlocked
  split <;> rfl

@[simp] theorem mem_addBlocked {row : TeamTaskRow} {taskId other : String} :
    other ∈ (row.addBlocked taskId).blocks ↔ other ∈ row.blocks ∨ other = taskId := by
  by_cases h : taskId ∈ row.blocks
  · have hmem : other = taskId → other ∈ row.blocks := by
      rintro rfl
      exact h
    simpa [TeamTaskRow.addBlocked, h] using hmem
  · simp [TeamTaskRow.addBlocked, h]

theorem addBlocked_twice (row : TeamTaskRow) (taskId : String) :
    (row.addBlocked taskId).addBlocked taskId = row.addBlocked taskId := by
  by_cases h : taskId ∈ row.blocks <;> simp [TeamTaskRow.addBlocked, h]

@[simp] theorem unblock_status (row : TeamTaskRow) (taskId : String) :
    (row.unblock taskId).status = row.status := rfl

@[simp] theorem unblock_blocks (row : TeamTaskRow) (taskId : String) :
    (row.unblock taskId).blocks = row.blocks := rfl

@[simp] theorem mem_unblock {row : TeamTaskRow} {taskId other : String} :
    other ∈ (row.unblock taskId).blockedBy ↔ other ∈ row.blockedBy ∧ other ≠ taskId := by
  simp [TeamTaskRow.unblock]

theorem unblock_twice (row : TeamTaskRow) (taskId : String) :
    (row.unblock taskId).unblock taskId = row.unblock taskId := by
  simp [TeamTaskRow.unblock]

theorem forEach_rewriteTask (f : TeamTaskRow → TeamTaskRow) (hf : ∀ row, f (f row) = f row)
    (taskIds : List String) (hfound : ∀ taskId ∈ taskIds, (rows.lookup taskId).isSome) :
    ∃ rows', TaskRows.forEach (TaskRows.rewriteTask · f) rows taskIds = (rows', .ok ()) ∧
      ∀ other, rows'.lookup other =
        (rows.lookup other).map fun row ↦ if other ∈ taskIds then f row else row := by
  induction taskIds generalizing rows with
  | nil => exact ⟨rows, rfl, fun other ↦ by simp⟩
  | cons taskId taskIds ih =>
      obtain ⟨row, hrow⟩ := Option.isSome_iff_exists.mp (hfound taskId List.mem_cons_self)
      have hfound' : ∀ other ∈ taskIds, ((rows.modify taskId f).lookup other).isSome := by
        intro other hother
        have hold := hfound other (List.mem_cons_of_mem _ hother)
        rw [Table.lookup_modify]
        split
        · simpa using hold
        · exact hold
      obtain ⟨rows', hrows', hlookup⟩ := ih hfound'
      refine ⟨rows', ?_, fun other ↦ ?_⟩
      · rw [TaskRows.forEach, TaskRows.rewriteTask, TaskRows.findTaskById, hrow]
        exact hrows'
      · rw [hlookup, Table.lookup_modify]
        by_cases heq : other = taskId
        · subst heq
          by_cases hmem : other ∈ taskIds <;> simp [hrow, hmem, hf]
        · simp [heq]

theorem appendToBlocks_each (blockedTaskId : String) (taskIds : List String)
    (hfound : ∀ taskId ∈ taskIds, (rows.lookup taskId).isSome) :
    ∃ rows', TaskRows.forEach (·.appendToBlocks blockedTaskId) rows taskIds = (rows', .ok ()) ∧
      ∀ other, rows'.lookup other = (rows.lookup other).map fun row ↦
        if other ∈ taskIds then row.addBlocked blockedTaskId else row :=
  forEach_rewriteTask (·.addBlocked blockedTaskId) (addBlocked_twice · blockedTaskId) taskIds hfound

theorem removeFromBlockedBy_each (unblockedTaskId : String) (taskIds : List String)
    (hfound : ∀ taskId ∈ taskIds, (rows.lookup taskId).isSome) :
    ∃ rows', TaskRows.forEach (·.removeFromBlockedBy unblockedTaskId) rows taskIds =
        (rows', .ok ()) ∧
      ∀ other, rows'.lookup other = (rows.lookup other).map fun row ↦
        if other ∈ taskIds then row.unblock unblockedTaskId else row :=
  forEach_rewriteTask (·.unblock unblockedTaskId) (unblock_twice · unblockedTaskId) taskIds hfound

theorem createTask_cases (rows : TaskRows) (taskId subject : String)
    (description owner : Option String) (blockedBy : List String) :
    (¬ (rows.lookup taskId = none ∧ ∀ dep ∈ blockedBy, (rows.lookup dep).isSome) ∧
      ∃ error, TaskBoard.createTask rows taskId subject description owner blockedBy =
        (rows, .error error)) ∨
    (rows.lookup taskId = none ∧ (∀ dep ∈ blockedBy, (rows.lookup dep).isSome) ∧
      ∃ rows', TaskBoard.createTask rows taskId subject description owner blockedBy =
          (rows', .ok (.new taskId subject description owner blockedBy)) ∧
        ∀ other, rows'.lookup other =
          if other = taskId then some (.new taskId subject description owner blockedBy)
          else (rows.lookup other).map fun row ↦
            if other ∈ blockedBy then row.addBlocked taskId else row) := by
  unfold TaskBoard.createTask
  split
  · next dep hdep =>
      have hnone := List.find?_some hdep
      refine Or.inl ⟨fun h ↦ ?_, _, rfl⟩
      have hsome := h.2 dep (List.mem_of_find?_eq_some hdep)
      rw [Option.isNone_iff_eq_none] at hnone
      rw [← TaskRows.findTaskById, hnone] at hsome
      cases hsome
  · next hdeps =>
      have hfound : ∀ dep ∈ blockedBy, (rows.lookup dep).isSome := by
        simpa [TaskRows.findTaskById, Option.isSome_iff_ne_none] using hdeps
      cases hid : rows.lookup taskId with
      | some row =>
          left
          simp [TaskRows.insertTask, TaskRows.findTaskById, TeamTaskRow.new, hid]
      | none =>
          right
          have hinsert : rows.insertTask (.new taskId subject description owner blockedBy) =
              .ok (rows.insert taskId (.new taskId subject description owner blockedBy)) := by
            simp [TaskRows.insertTask, TaskRows.findTaskById, TeamTaskRow.new, hid]
          have hne : ∀ dep ∈ blockedBy, dep ≠ taskId := by
            rintro dep hdep rfl
            have hsome := hfound dep hdep
            rw [hid] at hsome
            cases hsome
          have hfound' : ∀ dep ∈ blockedBy, (AList.lookup dep (rows.insert taskId
              (.new taskId subject description owner blockedBy))).isSome := by
            intro dep hdep
            rw [AList.lookup_insert_ne (hne dep hdep)]
            exact hfound dep hdep
          obtain ⟨rows', hrows', hlookup⟩ := appendToBlocks_each taskId blockedBy hfound'
          refine ⟨rfl, hfound, rows', ?_, fun other ↦ ?_⟩
          · simp only [hinsert, hrows']
          · rw [hlookup, Table.lookup_insert_eq]
            by_cases heq : other = taskId
            · have hnot : other ∉ blockedBy := fun hmem ↦ hne other hmem heq
              simp [heq, heq ▸ hnot]
            · rw [if_neg heq, if_neg heq]

theorem updateTask_cases (rows : TaskRows) (taskId : String) (update : TaskUpdate)
    (hdependents : ∀ row, rows.lookup taskId = some row → ∀ other ∈ row.blocks,
      (rows.lookup other).isSome) :
    (rows.lookup taskId = none ∧
      TaskBoard.updateTask rows taskId update = (rows, .error (.taskNotFound taskId))) ∨
    (∃ row rows' updated, rows.lookup taskId = some row ∧
      TaskBoard.updateTask rows taskId update = (rows', .ok updated) ∧
      ∀ other, rows'.lookup other =
        (if other = taskId then some (row.apply update) else rows.lookup other).map fun r ↦
          if update.status = some .completed ∧ other ∈ row.blocks then r.unblock taskId else r) := by
  unfold TaskBoard.updateTask
  cases hid : rows.lookup taskId with
  | none =>
      left
      simp [TaskRows.findTaskById, hid]
  | some row =>
      right
      have hupdate : rows.updateRow taskId update = .ok (rows.modify taskId (·.apply update)) := by
        simp [TaskRows.updateRow, TaskRows.rewriteTask, TaskRows.findTaskById, hid]
      have hlookup : ∀ other, (rows.modify taskId (·.apply update)).lookup other =
          if other = taskId then some (row.apply update) else rows.lookup other := by
        intro other
        rw [Table.lookup_modify]
        split
        · next heq => rw [heq, hid, Option.map_some]
        · rfl
      have hdependents' : ∀ other ∈ row.blocks,
          ((rows.modify taskId (·.apply update)).lookup other).isSome := by
        intro other hother
        rw [hlookup]
        split
        · rfl
        · exact hdependents row hid other hother
      by_cases hstatus : update.status = some .completed
      · obtain ⟨rows', hrows', hlookup'⟩ :=
          removeFromBlockedBy_each taskId row.blocks hdependents'
        have hself : rows'.lookup taskId = some (if taskId ∈ row.blocks then
            (row.apply update).unblock taskId else row.apply update) := by
          rw [hlookup', hlookup, if_pos rfl, Option.map_some]
        refine ⟨row, rows', if taskId ∈ row.blocks then (row.apply update).unblock taskId
          else row.apply update, rfl, ?_, fun other ↦ ?_⟩
        · simp only [TaskRows.findTaskById, hid, hupdate, hstatus, if_true,
            TaskBoard.checkUnblocks, hrows', hself]
        · simp only [hlookup', hlookup, hstatus, true_and]
      · refine ⟨row, rows.modify taskId (·.apply update), row.apply update, rfl, ?_, fun other ↦ ?_⟩
        · simp only [TaskRows.findTaskById, hid, hupdate, hstatus, if_false, hlookup, if_true]
        · simp only [hstatus, false_and, if_false, hlookup, Option.map_id']

end Rows

end Zaowutai.Team
