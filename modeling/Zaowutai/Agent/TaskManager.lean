import Zaowutai.Lib.Table

/-!
# The worker task manager

Each conversation has a slot whose cell is initialised once by the agent
factory.  A caller keeps the slot it found in the map, so that a slot which
was removed may still be filled.  The factory takes any number of steps, while
every operation of the map is one step, and killing an agent goes with the
removal of its slot.
-/

namespace Zaowutai.Agent

open Zaowutai.Lib

structure RuntimeCapabilities where
  conversationRuntimeContextVersion : Option ℕ
  deriving DecidableEq, Repr

namespace RuntimeCapabilities

def satisfies (actual requested : RuntimeCapabilities) : Bool :=
  match requested.conversationRuntimeContextVersion with
  | some version => actual.conversationRuntimeContextVersion.any (version ≤ ·)
  | none => true

end RuntimeCapabilities

inductive TaskSlot
  | empty
  | building (call : ℕ)
  | ready (agent : ℕ) (capabilities : RuntimeCapabilities)
  deriving DecidableEq, Repr

structure AgentInstance where
  conversationId : String
  killed : Bool
  deriving DecidableEq, Repr

inductive GetPhase
  | entered
  | rebuilding
  | inserting
  | waiting (slot : ℕ)
  | building (slot : ℕ)
  | returned (agent : Option ℕ)
  deriving DecidableEq, Repr

inductive KillPhase
  | entered
  | waiting (slot : ℕ)
  | done
  deriving DecidableEq, Repr

inductive ClearPhase
  | entered
  | removing (conversationIds : List String)
  | done
  deriving DecidableEq, Repr

/-- `kill` and `kill_and_wait` differ in whether they wait for a cell that is not ready. -/
inductive TaskCall
  | getOrBuildTask (conversationId : String) (capabilities : RuntimeCapabilities) (phase : GetPhase)
  | kill (conversationId : String) (waits : Bool) (phase : KillPhase)
  | clear (phase : ClearPhase)
  deriving DecidableEq, Repr

structure StartedCall where
  startedAt : ℕ
  call : TaskCall
  deriving DecidableEq, Repr

/-- The slots of the conversations and their cells; the agents by the call that built them, the
calls since the beginning, and when each conversation was last asked for. -/
structure WorkerTaskManager where
  tasks : Table String ℕ
  slots : Table ℕ TaskSlot
  nextSlot : ℕ
  agents : Table ℕ AgentInstance
  calls : Table ℕ StartedCall
  asked : Table String ℕ
  clock : ℕ

namespace TaskCall

def isEntered : TaskCall → Bool
  | .getOrBuildTask _ _ phase => phase = .entered
  | .kill _ _ phase => phase = .entered
  | .clear phase => phase = .entered

def isDone : TaskCall → Bool
  | .getOrBuildTask _ _ (.returned _) | .kill _ _ .done | .clear .done => true
  | .getOrBuildTask _ _ _ | .kill _ _ _ | .clear _ => false

def gets (conversationId : String) : TaskCall → Bool
  | .getOrBuildTask other _ _ => other = conversationId
  | .kill _ _ _ | .clear _ => false

def kills (conversationId : String) : TaskCall → Bool
  | .kill other _ _ => other = conversationId
  | .clear _ => true
  | .getOrBuildTask _ _ _ => false

end TaskCall

namespace WorkerTaskManager

def new : WorkerTaskManager := ⟨∅, ∅, 0, ∅, ∅, ∅, 0⟩

variable (s : WorkerTaskManager)

def cell (slot : ℕ) : TaskSlot := (s.slots.lookup slot).getD .empty

def setCell (slot : ℕ) (cell : TaskSlot) : WorkerTaskManager :=
  { s with slots := s.slots.insert slot cell }

def killAgent (agent : ℕ) : WorkerTaskManager :=
  { s with agents := s.agents.modify agent ({ · with killed := true }) }

def removeTask (conversationId : String) : WorkerTaskManager :=
  match s.tasks.lookup conversationId with
  | none => s
  | some slot =>
      let removed := { s with tasks := s.tasks.erase conversationId }
      match s.cell slot with
      | .ready agent _ => removed.killAgent agent
      | .empty | .building _ => removed

/-- The agent of the conversation is ready but lacks what is asked for. -/
def needsRebuild (conversationId : String) (requested : RuntimeCapabilities) : Bool :=
  (s.tasks.lookup conversationId).any fun slot ↦
    match s.cell slot with
    | .ready _ actual => !actual.satisfies requested
    | .empty | .building _ => false

/-- `ok` is the answer of the factory, or of the kill of the agent that is replaced. -/
def advanceGet (call : ℕ) (conversationId : String) (capabilities : RuntimeCapabilities)
    (ok : Bool) : GetPhase → WorkerTaskManager × GetPhase
  | .entered => (s, if s.needsRebuild conversationId capabilities then .rebuilding else .inserting)
  | .rebuilding => (s.removeTask conversationId, if ok then .inserting else .returned none)
  | .inserting =>
      match s.tasks.lookup conversationId with
      | some slot => (s, .waiting slot)
      | none =>
          ({ s with
              tasks := s.tasks.insert conversationId s.nextSlot
              nextSlot := s.nextSlot + 1 }, .waiting s.nextSlot)
  | .waiting slot =>
      match s.cell slot with
      | .ready agent _ => (s, .returned (some agent))
      | .building _ => (s, .waiting slot)
      | .empty => (s.setCell slot (.building call), .building slot)
  | .building slot =>
      if ok then
        ({ s.setCell slot (.ready call capabilities) with
            agents := s.agents.insert call ⟨conversationId, false⟩ }, .returned (some call))
      else (s.setCell slot .empty, .returned none)
  | .returned agent => (s, .returned agent)

def advanceKill (conversationId : String) (waits : Bool) : KillPhase → WorkerTaskManager × KillPhase
  | .entered =>
      match s.tasks.lookup conversationId with
      | none => (s, .done)
      | some slot =>
          let phase := match s.cell slot with
            | .ready _ _ => .done
            | .empty | .building _ => if waits then .waiting slot else .done
          (s.removeTask conversationId, phase)
  | .waiting slot =>
      match s.cell slot with
      | .ready agent _ => (s.killAgent agent, .done)
      | .building _ => (s, .waiting slot)
      -- The initialiser of the waiting kill fails, and leaves the cell empty.
      | .empty => (s, .done)
  | .done => (s, .done)

def advanceClear : ClearPhase → WorkerTaskManager × ClearPhase
  | .entered => (s, .removing s.tasks.keys)
  | .removing [] => (s, .done)
  | .removing (conversationId :: rest) => (s.removeTask conversationId, .removing rest)
  | .done => (s, .done)

def advance (call : ℕ) (ok : Bool) : TaskCall → WorkerTaskManager × TaskCall
  | .getOrBuildTask conversationId capabilities phase =>
      let out := s.advanceGet call conversationId capabilities ok phase
      (out.1, .getOrBuildTask conversationId capabilities out.2)
  | .kill conversationId waits phase =>
      let out := s.advanceKill conversationId waits phase
      (out.1, .kill conversationId waits out.2)
  | .clear phase =>
      let out := s.advanceClear phase
      (out.1, .clear out.2)

def start (call : ℕ) (request : TaskCall) : WorkerTaskManager where
  tasks := s.tasks
  slots := s.slots
  nextSlot := s.nextSlot
  agents := s.agents
  calls := s.calls.insert call ⟨s.clock, request⟩
  asked := match request with
    | .getOrBuildTask conversationId _ _ => s.asked.insert conversationId s.clock
    | .kill _ _ _ | .clear _ => s.asked
  clock := s.clock + 1

end WorkerTaskManager

/-- A call is named by a number.  The map may be iterated in any order. -/
inductive TaskAction
  | start (call : ℕ) (request : TaskCall)
  | advance (call : ℕ) (ok : Bool)
  | reorder (rank : String → ℕ)

/-- A step that is not enabled changes nothing. -/
def WorkerTaskManager.step (s : WorkerTaskManager) : TaskAction → WorkerTaskManager
  | .start call request =>
      if (s.calls.lookup call).isNone && request.isEntered then s.start call request else s
  | .advance call ok =>
      match s.calls.lookup call with
      | none => s
      | some started =>
          let out := s.advance call ok started.call
          { out.1 with calls := s.calls.insert call ⟨started.startedAt, out.2⟩ }
  | .reorder rank => { s with tasks := s.tasks.reorder rank }

end Zaowutai.Agent
