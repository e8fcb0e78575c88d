import Mathlib.Data.Nat.Notation
import Mathlib.Data.Int.Notation

/-!
# The process registry

The rows of the processes that runs of the program have spawned.  A row is
recorded and unregistered under its full identity: pid, start time and the run
that recorded it.
-/

namespace Zaowutai.Process

abbrev Uuid := BitVec 128

structure ProcessIdentity where
  pid : UInt32
  startTimeTicks : Option UInt64
  instanceEpoch : Uuid
  deriving DecidableEq, Repr

structure RegisteredProcess where
  pid : UInt32
  pgid : Option UInt32
  startTimeTicks : Option UInt64
  instanceEpoch : Uuid
  machineId : String
  containmentId : Option String
  deriving DecidableEq, Repr

def RegisteredProcess.identity (row : RegisteredProcess) : ProcessIdentity :=
  ⟨row.pid, row.startTimeTicks, row.instanceEpoch⟩

abbrev Rows := List RegisteredProcess

namespace Rows

def record (rows : Rows) (entry : RegisteredProcess) : Rows :=
  rows.filter (·.identity ≠ entry.identity) ++ [entry]

def unregister (rows : Rows) (id : ProcessIdentity) : Rows := rows.filter (·.identity ≠ id)

theorem mem_record {rows : Rows} {entry row : RegisteredProcess} :
    row ∈ rows.record entry ↔ row ∈ rows ∧ row.identity ≠ entry.identity ∨ row = entry := by
  simp [record]

theorem mem_unregister {rows : Rows} {id : ProcessIdentity} {row : RegisteredProcess} :
    row ∈ rows.unregister id ↔ row ∈ rows ∧ row.identity ≠ id := by
  simp [unregister]

end Rows

inductive StoreCall
  | record (entry : RegisteredProcess)
  | unregister (id : ProcessIdentity)
  deriving DecidableEq, Repr

def StoreCall.perform (rows : Rows) : StoreCall → Rows
  | .record entry => rows.record entry
  | .unregister id => rows.unregister id

end Zaowutai.Process
