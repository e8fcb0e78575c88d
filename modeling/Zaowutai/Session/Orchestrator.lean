import Zaowutai.Lib.Run
import Zaowutai.Session.Reducer

/-!
# The fold loop of the orchestrator

`foldOne` folds one envelope into the session it is addressed to: it stamps
the live epoch on an unstamped result, updates the background roster, calls
the reducer, prunes the terminal subagents and, on a phase transition or an
activity edge, caches and pushes a full snapshot.  The raw envelopes that the
loop forwards are part of its output.
-/

namespace Zaowutai.Session

open Zaowutai.Lib

structure SessionEnvelope where
  sessionId : String
  turnGen : ℕ
  event : SessionEvent
  deriving DecidableEq, Repr

inductive TransitionReason
  | started
  | completed (stopReason : StopReason)
  | errored (reason : ErrorReason)
  | cancelled (reason : CancelReason)
  | permissionRequested (kind : PermissionKind)
  | permissionResolved
  deriving DecidableEq, Repr

structure StateSnapshot where
  sessionId : String
  state : SessionState
  canSend : Bool
  hasActivity : Bool
  canQueue : Bool
  canCancel : Bool
  turnGen : ℕ
  lastReason : Option TransitionReason
  deriving DecidableEq, Repr

/-- The maps owned by the fold loop and the two caches it shares with its readers. -/
structure Orchestrator where
  fsms : Table String SessionState
  rosters : Table String WorkflowRoster
  latest : Table String StateSnapshot
  lastTerminal : Table String (ℕ × TransitionReason)

def Orchestrator.new : Orchestrator := ⟨∅, ∅, ∅, ∅⟩

structure Broadcast where
  events : List SessionEnvelope
  states : List StateSnapshot

def restampEpoch (env : SessionEnvelope) : SessionEnvelope :=
  match env.event with
  | .turnResult isError apiErrorStatus resultText epoch outcome =>
      if epoch = 0 then
        { env with event := .turnResult isError apiErrorStatus resultText env.turnGen outcome }
      else env
  | _ => env

def pruneTerminalSubagents (state : SessionState) : SessionState :=
  match state with
  | .running turn =>
      .running { turn with subagents := turn.subagents.filter fun s ↦
        !(s.status == .completed || s.status == .errored || s.status == .shutdown) }
  | state => state

/-- The roster entry a `SubagentDetail` enriches; without a lifecycle signal it starts as a
detail-only entry. -/
def WorkflowAgentState.enrich (detail : SubagentDetail) (slot : WorkflowAgentState) :
    WorkflowAgentState :=
  { slot with
    label := detail.label.or slot.label
    state := detail.loopState.or slot.state
    model := detail.model.or slot.model
    tokens := detail.tokens.or slot.tokens
    toolCalls := detail.toolCalls.or slot.toolCalls
    lastToolName := detail.lastToolName.or slot.lastToolName }

def WorkflowAgentState.new (refId : String) (taskStatus : WorkflowTaskStatus)
    (hasLifecycle : Bool) (label : Option String) : WorkflowAgentState where
  refId := refId
  taskStatus := taskStatus
  hasLifecycle := hasLifecycle
  retain := none
  label := label
  state := none
  model := none
  lastToolName := none
  tokens := none
  toolCalls := none

def taskStatusOf : SubagentStatus → WorkflowTaskStatus
  | .pendingInit | .running => .running
  | .completed => .completed
  | .errored => .failed
  | .interrupted | .shutdown => .stopped

def updateRoster (roster : WorkflowRoster) (event : SessionEvent) : WorkflowRoster :=
  match event with
  | .subagentDetail detail =>
      match roster.lookup detail.ref with
      | some _ => roster.modify detail.ref (·.enrich detail)
      | none =>
          roster.insert detail.ref ((WorkflowAgentState.new detail.ref .running false none).enrich
            detail)
  | .subagentUpdate ref label status _ =>
      let taskStatus := taskStatusOf status
      match roster.lookup ref with
      | some slot =>
          -- a terminal entry ignores a late non-terminal update
          if slot.taskStatus.isTerminal && !taskStatus.isTerminal then roster
          else roster.modify ref fun slot ↦
            { slot with
              taskStatus := taskStatus
              hasLifecycle := true
              label := label.or slot.label }
      | none => roster.insert ref (WorkflowAgentState.new ref taskStatus true label)
  | _ => roster

def rosterAfter (roster : WorkflowRoster) (event : SessionEvent) : WorkflowRoster :=
  match event with
  | .backendSuspended | .detached _ => ∅
  | event => updateRoster roster event

def transitionReason (t : Transition) (event : SessionEvent) : TransitionReason :=
  match t.target with
  | .running _ =>
      match event with
      | .permissionResolved _ _ => .permissionResolved
      | _ => .started
  | .idle =>
      match event with
      | .cancel => .cancelled .userCancel
      | .turnResult _ _ _ _ (.cancelled reason) => .cancelled reason
      | .turnResult _ _ _ _ (.completed stopReason) => .completed stopReason
      | _ => .completed .endTurn
  | .error reason => .errored reason
  | .starting => .started

def deriveReason (t : Option Transition) (event : SessionEvent) : Option TransitionReason :=
  t.map fun t ↦
    match event with
    | .permission _ kind =>
        if isRequiresAction t.target && !isRequiresAction t.source then .permissionRequested kind
        else transitionReason t event
    | _ => transitionReason t event

def isTerminalPhase : SessionState → Bool
  | .idle | .error _ => true
  | _ => false

namespace Orchestrator

def stateOf (o : Orchestrator) (sessionId : String) : SessionState :=
  (o.fsms.lookup sessionId).getD .idle

def rosterOf (o : Orchestrator) (sessionId : String) : WorkflowRoster :=
  (o.rosters.lookup sessionId).getD ∅

def lostAnchor : SessionState → Bool
  | .error reason => isUnrecoverableResumeError reason
  | _ => false

def foldOne (o : Orchestrator) (env : SessionEnvelope) (acceptsProactiveInput : Bool) :
    Orchestrator × Broadcast :=
  let env := restampEpoch env
  let roster := o.rosterOf env.sessionId
  let roster' := rosterAfter roster env.event
  let prev := o.stateOf env.sessionId
  let (stepped, transitions) := step prev env.event
  let next := pruneTerminalSubagents stepped
  let folded : Orchestrator :=
    { o with
      fsms := o.fsms.insert env.sessionId next
      rosters := o.rosters.insert env.sessionId roster' }
  let hasActivity := hasForegroundActivity next || backgroundActive roster'
  let prevHasActivity := hasForegroundActivity prev || backgroundActive roster
  if transitions ≠ [] ∨ prevHasActivity ≠ hasActivity then
    let lastReason := deriveReason transitions.getLast? env.event
    let snap : StateSnapshot :=
      { sessionId := env.sessionId
        state := next
        canSend := canSendMessage next
        hasActivity := hasActivity
        canQueue := canQueueMessage next acceptsProactiveInput
        canCancel := canCancel next
        turnGen := env.turnGen
        lastReason := lastReason }
    let lastTerminal :=
      match isTerminalPhase next, lastReason with
      | true, some reason => folded.lastTerminal.insert env.sessionId (env.turnGen, reason)
      | _, _ => folded.lastTerminal
    -- a dead resume anchor tells the conversation to clear its stored binding
    let cleared : List SessionEnvelope :=
      if lostAnchor next then [⟨env.sessionId, env.turnGen, .backendBound none⟩] else []
    ({ folded with
        latest := folded.latest.insert env.sessionId snap
        lastTerminal := lastTerminal },
      ⟨env :: cleared, [snap]⟩)
  else (folded, ⟨[env], []⟩)

def fold (acceptsProactiveInput : Bool) (o : Orchestrator) (env : SessionEnvelope) :
    Orchestrator :=
  (o.foldOne env acceptsProactiveInput).1

end Orchestrator

@[simp] theorem restampEpoch_sessionId (env : SessionEnvelope) :
    (restampEpoch env).sessionId = env.sessionId := by
  unfold restampEpoch
  split
  · split <;> rfl
  · rfl

theorem restampEpoch_event_of_ne {env : SessionEnvelope}
    (h : ∀ isError status text epoch outcome,
      env.event ≠ .turnResult isError status text epoch outcome) :
    (restampEpoch env).event = env.event := by
  unfold restampEpoch
  split
  · next heq => exact (h _ _ _ _ _ heq).elim
  · rfl

def foldState (state : SessionState) (env : SessionEnvelope) : SessionState :=
  pruneTerminalSubagents (step state (restampEpoch env).event).1

theorem Orchestrator.fsms_fold (o : Orchestrator) (acceptsProactiveInput : Bool)
    (env : SessionEnvelope) :
    (o.fold acceptsProactiveInput env).fsms =
      o.fsms.insert env.sessionId (foldState (o.stateOf env.sessionId) env) := by
  simp only [fold, foldOne, foldState, restampEpoch_sessionId]
  split <;> rfl

theorem Orchestrator.stateOf_fold (o : Orchestrator) (acceptsProactiveInput : Bool)
    (env : SessionEnvelope) (sessionId : String) :
    (o.fold acceptsProactiveInput env).stateOf sessionId =
      if sessionId = env.sessionId then foldState (o.stateOf sessionId) env
      else o.stateOf sessionId := by
  simp only [stateOf, fsms_fold, Table.lookup_insert_eq]
  split
  · next h => subst h; rfl
  · rfl

end Zaowutai.Session
