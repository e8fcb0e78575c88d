import Zaowutai.Process.ProcControl

/-!
# The startup reap

The registry is read and every row is probed; a pure kernel decides from these
observations; and its actions are executed one after another, each kill after a
second probe.
-/

namespace Zaowutai.Process

inductive LockState
  | acquired
  | heldBySibling
  deriving DecidableEq, Repr

structure ObservedState where
  rows : Rows
  liveness : List Liveness
  lockState : LockState
  currentEpoch : Uuid
  currentMachine : String

inductive Action
  | reapOrphanGroup (pid : UInt32) (pgid : Option UInt32) (recordedStartTicks : Option UInt64)
  | reapContainment (containmentId : String)
  | pruneRegistryEntry (pid : UInt32)
  deriving DecidableEq, Repr

def rowActions (canKill : Bool) (currentMachine : String) (row : RegisteredProcess)
    (live : Liveness) : List Action :=
  -- a group id of another machine means nothing here
  if row.machineId ≠ currentMachine then [.pruneRegistryEntry row.pid]
  else
    match live with
    | .isMatch =>
        if canKill then
          row.containmentId.toList.map .reapContainment ++
            [.reapOrphanGroup row.pid row.pgid row.startTimeTicks, .pruneRegistryEntry row.pid]
        else [.pruneRegistryEntry row.pid]
    | .recycledPid | .diffEpoch | .gone | .unknown | .epermAlive => [.pruneRegistryEntry row.pid]

def reconcileWithCapability (observed : ObservedState) (canKill : Bool) : List Action :=
  if observed.lockState ≠ .acquired then []
  else
    (observed.rows.zip observed.liveness).flatMap fun observation ↦
      rowActions canKill observed.currentMachine observation.1 observation.2

variable (os : Os)

def reconcile (observed : ObservedState) : List Action :=
  reconcileWithCapability observed os.canKill

/-- The other tasks make their calls before the store is asked again. -/
def interleave (w : World) : World :=
  { w with rows := (os.calls w.trace).foldl StoreCall.perform w.rows }

def readAll (w : World) : Except ProcessError Rows × World :=
  let w := interleave os w
  if os.readFails w.trace then (.error .io, w) else (.ok w.rows, w.log (.read w.rows))

def unregister (w : World) (id : ProcessIdentity) : Except ProcessError Unit × World :=
  let w := interleave os w
  if os.readFails w.trace then (.error .io, w)
  else
    let kept := w.rows.unregister id
    if kept.length = w.rows.length then (.ok (), w)
    else if os.writeFails w.trace then (.error .io, w)
    else (.ok (), { w with rows := kept }.log (.unregistered id))

def probeRows (currentEpoch : Uuid) (w : World) : Rows → List Liveness × World
  | [] => ([], w)
  | row :: rows =>
      let probed := probe os w row.pid
      let rest := probeRows currentEpoch probed.2 rows
      (classifyLiveness row.startTimeTicks probed.1 row.instanceEpoch currentEpoch :: rest.1, rest.2)

def gatherObserved (w : World) (lockState : LockState) (currentEpoch : Uuid)
    (currentMachine : String) : Except ProcessError ObservedState × World :=
  match readAll os w with
  | (.error e, w) => (.error e, w)
  | (.ok rows, w) =>
      let probed := probeRows os currentEpoch w rows
      (.ok ⟨rows, probed.1, lockState, currentEpoch, currentMachine⟩, probed.2)

def pruneRows (pid : UInt32) (w : World) : Rows → Except ProcessError Unit × World
  | [] => (.ok (), w)
  | row :: rows =>
      if row.pid = pid then
        match unregister os w row.identity with
        | (.error e, w) => (.error e, w)
        | (.ok (), w) => pruneRows pid w rows
      else pruneRows pid w rows

def prunePid (w : World) (pid : UInt32) : Except ProcessError Unit × World :=
  match readAll os w with
  | (.error e, w) => (.error e, w)
  | (.ok rows, w) => pruneRows os pid w rows

def stillOurs (recordedStartTicks : Option UInt64) : ObservedLiveness → Bool
  | .alive startTicks => startTicks = recordedStartTicks ∧ startTicks.isSome
  | _ => false

def targetsOwnGroup : Option UInt32 → Option UInt32 → Bool
  | some p, some o => p = o
  | _, _ => false

def executeReap (w : World) (pid : UInt32) (pgid : Option UInt32)
    (recordedStartTicks : Option UInt64) : World :=
  let probed := probe os w pid
  let group := currentProcessGroup os probed.2
  if stillOurs recordedStartTicks probed.1 = false then group.2.log (.skipped pid)
  else if targetsOwnGroup pgid group.1 then group.2.log (.refused pid pgid recordedStartTicks)
  else
    match forceKill os group.2 pid pgid with
    | (.error _, w) => w.log (.reapFailed pid pgid recordedStartTicks)
    -- whether the group is gone is only logged
    | (.ok (), w) => w

def executeAction (w : World) : Action → World
  | .reapOrphanGroup pid pgid recordedStartTicks => executeReap os w pid pgid recordedStartTicks
  | .reapContainment _ => w
  | .pruneRegistryEntry pid => (prunePid os w pid).2

def executeActions (w : World) (actions : List Action) : World :=
  actions.foldl (executeAction os) w

def runStartupReap (w : World) (lockState : LockState) (currentEpoch : Uuid)
    (currentMachine : String) : Except ProcessError (List Action) × World :=
  match gatherObserved os w lockState currentEpoch currentMachine with
  | (.error e, w) => (.error e, w)
  | (.ok observed, w) =>
      let actions := reconcile os observed
      (.ok actions, executeActions os w actions)

end Zaowutai.Process
