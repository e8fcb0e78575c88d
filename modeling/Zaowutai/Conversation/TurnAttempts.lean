import Zaowutai.Conversation.TurnClaims

/-!
# Calls of the conversation service

`cancel_with_cause`, `restart_runtime` and `delete` take the lock of the
runtime state for one operation at a time and look up the task table in
between.  A call is therefore a program counter that advances from one such
section to the next, and any other call may run in between.
-/

namespace Zaowutai.Conversation

open Zaowutai.Lib

/-- The registered task of each conversation; a task that is built anew gets a new number. -/
abbrev TaskTable := Table String ℕ

inductive CancelPhase
  /-- About to load the conversation and compare the active turn with the requested one. -/
  | entered
  /-- The turn ids matched; about to look up the task. -/
  | matched
  /-- No task was registered; about to defer the cancel. -/
  | absent
  /-- A task was registered; about to mark the conversation. -/
  | found (agent : ℕ)
  /-- The conversation is marked; the agent is being cancelled. -/
  | marked (agent : ℕ)
  deriving DecidableEq, Repr

structure CancelCall where
  conversationId : String
  turnId : String
  phase : CancelPhase
  deriving DecidableEq, Repr

inductive CancelResult
  /-- Another turn is active: the request is answered and has no effect. -/
  | ignored
  | deferred
  | cancelled (agent : ℕ)
  | failed
  deriving DecidableEq, Repr

namespace CancelCall

variable (call : CancelCall)

/-- One section of `cancel_with_cause`; `ok` is whether the conversation was found, and then the
answer of `agent.cancel`. -/
def advance (runtime : ConversationRuntimeState) (tasks : TaskTable) (ok : Bool) :
    ConversationRuntimeState × (CancelCall ⊕ CancelResult) :=
  match call.phase with
  | .entered =>
      if !ok then (runtime, .inr .failed)
      else if runtime.activeTurnIdFor call.conversationId ≠ some call.turnId then
        (runtime, .inr .ignored)
      else (runtime, .inl { call with phase := .matched })
  | .matched =>
      match tasks.lookup call.conversationId with
      | none => (runtime, .inl { call with phase := .absent })
      | some agent => (runtime, .inl { call with phase := .found agent })
  | .absent => (runtime.deferCancel call.conversationId call.turnId, .inr .deferred)
  | .found agent =>
      (runtime.markCancelling call.conversationId, .inl { call with phase := .marked agent })
  | .marked agent =>
      if ok then (runtime, .inr (.cancelled agent))
      else (runtime.clearCancelling call.conversationId, .inr .failed)

end CancelCall

def CancelResult.isAccepted : CancelResult → Bool
  | .deferred | .cancelled _ => true
  | .ignored | .failed => false

inductive RestartPhase
  | entered
  | findTask
  | beginRestart
  | readTurn
  | cancelling (turnId : String) (phase : CancelPhase)
  | killing
  | clearing
  | rebuilding
  /-- About to release the restart gate. -/
  | ending
  deriving DecidableEq, Repr

inductive DeletePhase
  | entered
  | marked (hadActiveTurn : Bool)
  | clearing
  deriving DecidableEq, Repr

inductive ServiceCall
  | cancel (call : CancelCall)
  | restart (conversationId : String) (phase : RestartPhase)
  | delete (conversationId : String) (phase : DeletePhase)
  deriving DecidableEq, Repr

/-- The `cancel_with_cause` that the call is, or is in the middle of. -/
def ServiceCall.cancelCall : ServiceCall → Option CancelCall
  | .cancel call => some call
  | .restart conversationId (.cancelling turnId phase) => some ⟨conversationId, turnId, phase⟩
  | _ => none

structure Progress where
  runtime : ConversationRuntimeState
  tasks : TaskTable
  next : Option ServiceCall
  accepted : Option (String × String)

namespace ServiceCall

variable (runtime : ConversationRuntimeState) (tasks : TaskTable)

/-- Advance an inner cancel; `resume` is what its caller does with the result. -/
def advanceCancel (call : CancelCall) (ok : Bool) (running : CancelCall → ServiceCall)
    (resume : CancelResult → Option ServiceCall) : Progress :=
  match call.advance runtime tasks ok with
  | (runtime, .inl call) => ⟨runtime, tasks, some (running call), none⟩
  | (runtime, .inr result) =>
      ⟨runtime, tasks, resume result,
        if result.isAccepted then some (call.conversationId, call.turnId) else none⟩

def afterCancel (conversationId : String) : CancelResult → Option ServiceCall
  | .failed => some (.restart conversationId .ending)
  | _ => some (.restart conversationId .killing)

def advanceRestart (conversationId : String) (ok : Bool) : RestartPhase → Progress
  | .entered =>
      if conversationId ∈ runtime.restartingConversations then ⟨runtime, tasks, none, none⟩
      else ⟨runtime, tasks, some (.restart conversationId .findTask), none⟩
  | .findTask =>
      if (tasks.lookup conversationId).isNone then ⟨runtime, tasks, none, none⟩
      else ⟨runtime, tasks, some (.restart conversationId .beginRestart), none⟩
  | .beginRestart =>
      match runtime.beginRestart conversationId with
      | (runtime, .ok ()) => ⟨runtime, tasks, some (.restart conversationId .readTurn), none⟩
      | (runtime, .error _) => ⟨runtime, tasks, none, none⟩
  | .readTurn =>
      match runtime.activeTurnIdFor conversationId with
      | some turnId =>
          ⟨runtime, tasks, some (.restart conversationId (.cancelling turnId .entered)), none⟩
      | none => ⟨runtime, tasks, some (.restart conversationId .killing), none⟩
  | .cancelling turnId phase =>
      advanceCancel runtime tasks ⟨conversationId, turnId, phase⟩ ok
        (fun call ↦ .restart conversationId (.cancelling turnId call.phase))
        (afterCancel conversationId)
  | .killing =>
      ⟨runtime, tasks.erase conversationId, some (.restart conversationId .clearing), none⟩
  | .clearing =>
      ⟨runtime.clearTurnStateForRestart conversationId, tasks,
        some (.restart conversationId .rebuilding), none⟩
  | .rebuilding =>
      -- the new task registers itself while it is built
      ⟨runtime, tasks, some (.restart conversationId .ending), none⟩
  | .ending => ⟨runtime.clearRestarting conversationId, tasks, none, none⟩

def advanceDelete (conversationId : String) (ok : Bool) : DeletePhase → Progress
  | .entered =>
      let (runtime, hadActiveTurn) := runtime.markDeleting conversationId
      ⟨runtime, tasks, some (.delete conversationId (.marked hadActiveTurn)), none⟩
  | .marked hadActiveTurn =>
      -- a turn that was active clears the flag when it is released
      if ok && hadActiveTurn then ⟨runtime, tasks, none, none⟩
      else ⟨runtime, tasks, some (.delete conversationId .clearing), none⟩
  | .clearing => ⟨runtime.clearDeleting conversationId, tasks, none, none⟩

/-- One section of the call; `ok` is the answer of the agent or the repository. -/
def advance (ok : Bool) : ServiceCall → Progress
  | .cancel call => advanceCancel runtime tasks call ok .cancel fun _ ↦ none
  | .restart conversationId phase => advanceRestart runtime tasks conversationId ok phase
  | .delete conversationId phase => advanceDelete runtime tasks conversationId ok phase

end ServiceCall

/-!
## The attempt of a turn

`run_attempt` gets or builds the task of the conversation, consumes a deferred
cancel at one single point, subscribes to the agent and sends the prompt.  It
looks at no flag after that point, so a cancel that arrives between the two
has to go through the agent.
-/

open Zaowutai.Lib

inductive AttemptPhase
  /-- The turn is claimed and `get_or_build_task` has not returned. -/
  | building
  /-- The agent is there; the deferred cancel is not consumed yet. -/
  | built (agent : ℕ)
  /-- No cancel was deferred; the prompt goes out next. -/
  | subscribed (agent : ℕ)
  | sent (agent : ℕ)
  /-- The attempt has returned; the agent that the prompt was sent to, if it was. -/
  | ended (sentTo : Option ℕ)
  deriving DecidableEq, Repr

structure Attempt where
  conversationId : String
  phase : AttemptPhase
  deriving DecidableEq, Repr

inductive DeliveryEvent
  | promptSent (turnId : String) (agent : ℕ)
  | agentCancelled (agent : ℕ)
  /-- A cancel that matched the active turn has returned `Ok`. -/
  | cancelAccepted (turnId : String)
  deriving DecidableEq, Repr

structure TurnAttempts where
  runtime : ConversationRuntimeState
  tasks : TaskTable
  nextAgent : ℕ
  attempts : Table String Attempt
  calls : Table ℕ CancelCall
  events : List DeliveryEvent

inductive AttemptAction
  | tryClaimTurn (conversationId turnId : String)
  | getOrBuildTask (turnId : String)
  /-- The task is not built, the workspace not persisted, or the required mode not applied. -/
  | fail (turnId : String)
  | takeDeferredCancel (turnId : String)
  | sendMessage (turnId : String)
  | settle (turnId : String)
  | release (turnId : String)
  | enter (call : ℕ) (conversationId turnId : String)
  | advance (call : ℕ) (ok : Bool)
  | register (conversationId : String)
  | evict (conversationId : String)
  deriving DecidableEq, Repr

namespace TurnAttempts

def new : TurnAttempts := ⟨.new, ∅, 0, ∅, ∅, []⟩

variable (s : TurnAttempts)

def tryClaimTurn (conversationId turnId : String) : TurnAttempts :=
  if (s.attempts.lookup turnId).isSome then s
  else match s.runtime.tryClaimTurn conversationId turnId with
    | (runtime, .ok _) =>
        { s with
          runtime := runtime
          attempts := s.attempts.insert turnId ⟨conversationId, .building⟩ }
    | (runtime, .error _) => { s with runtime := runtime }

def getOrBuildTask (conversationId : String) : ℕ × TurnAttempts :=
  match s.tasks.lookup conversationId with
  | some agent => (agent, s)
  | none =>
      (s.nextAgent, { s with
        tasks := s.tasks.insert conversationId s.nextAgent
        nextAgent := s.nextAgent + 1 })

def moveTo (turnId conversationId : String) (phase : AttemptPhase) : TurnAttempts :=
  { s with attempts := s.attempts.insert turnId ⟨conversationId, phase⟩ }

/-- One section of the cancel; what it does to the agent and its answer are recorded. -/
def advance (call : ℕ) (ok : Bool) : TurnAttempts :=
  match s.calls.lookup call with
  | none => s
  | some c =>
      match c.advance s.runtime s.tasks ok with
      | (runtime, .inl c) => { s with runtime := runtime, calls := s.calls.insert call c }
      | (runtime, .inr result) =>
          { s with
            runtime := runtime
            calls := s.calls.erase call
            events := s.events ++ match result with
              | .cancelled agent => [.agentCancelled agent, .cancelAccepted c.turnId]
              | .deferred => [.cancelAccepted c.turnId]
              | .ignored | .failed => [] }

def step (s : TurnAttempts) : AttemptAction → TurnAttempts
  | .tryClaimTurn conversationId turnId => s.tryClaimTurn conversationId turnId
  | .getOrBuildTask turnId =>
      match s.attempts.lookup turnId with
      | some ⟨conversationId, .building⟩ =>
          let (agent, s) := s.getOrBuildTask conversationId
          s.moveTo turnId conversationId (.built agent)
      | _ => s
  | .fail turnId =>
      match s.attempts.lookup turnId with
      | some ⟨conversationId, .building⟩ => s.moveTo turnId conversationId (.ended none)
      | some ⟨conversationId, .built _⟩ => s.moveTo turnId conversationId (.ended none)
      | some ⟨conversationId, .subscribed _⟩ => s.moveTo turnId conversationId (.ended none)
      | _ => s
  | .takeDeferredCancel turnId =>
      match s.attempts.lookup turnId with
      | some ⟨conversationId, .built agent⟩ =>
          match s.runtime.takeDeferredCancel conversationId turnId with
          | (runtime, true) =>
              { s.moveTo turnId conversationId (.ended none) with runtime := runtime }
          | (runtime, false) =>
              { s.moveTo turnId conversationId (.subscribed agent) with runtime := runtime }
      | _ => s
  | .sendMessage turnId =>
      match s.attempts.lookup turnId with
      | some ⟨conversationId, .subscribed agent⟩ =>
          { s.moveTo turnId conversationId (.sent agent) with
            events := s.events ++ [.promptSent turnId agent] }
      | _ => s
  | .settle turnId =>
      match s.attempts.lookup turnId with
      | some ⟨conversationId, .sent agent⟩ => s.moveTo turnId conversationId (.ended (some agent))
      | _ => s
  | .release turnId =>
      match s.attempts.lookup turnId with
      | some ⟨conversationId, .ended _⟩ =>
          { s with runtime := (s.runtime.release conversationId turnId).1 }
      | _ => s
  | .enter call conversationId turnId =>
      if (s.calls.lookup call).isNone then
        { s with calls := s.calls.insert call ⟨conversationId, turnId, .entered⟩ }
      else s
  | .advance call ok => s.advance call ok
  | .register conversationId => (s.getOrBuildTask conversationId).2
  | .evict conversationId => { s with tasks := s.tasks.erase conversationId }

end TurnAttempts

end Zaowutai.Conversation
