import Zaowutai.Session.State

/-!
# The session reducer

`step` is the only place where a session state is computed from an event.  It
is written with one function for each state that reads events: a terminal
state absorbs everything except `TurnStarted`, `Starting` reacts to a cancel
and to the two ways a startup fails, and `Running` to everything else.
-/

namespace Zaowutai.Session

structure Transition where
  source : SessionState
  target : SessionState
  epoch : ℕ
  deriving DecidableEq, Repr

/-- The externally meaningful category of a state. -/
inductive ExternalPhase
  | starting
  | running
  | requiresAction
  | error
  | idle
  deriving DecidableEq, Repr

def externalPhase (state : SessionState) : ExternalPhase :=
  match state with
  | .starting => .starting
  | .running _ => if isRequiresAction state then .requiresAction else .running
  | .error _ => .error
  | .idle => .idle

def settle (source target : SessionState) (epoch : ℕ) : SessionState × List Transition :=
  (target, if externalPhase source ≠ externalPhase target then [⟨source, target, epoch⟩] else [])

def anchorEpoch : SessionState → ℕ
  | .running turn => turn.sinceEpoch
  | _ => 0

def crashOutcome (terminalResultSeen : Bool) (exit : Option ExitStatusLite) : Outcome :=
  if terminalResultSeen then .followResult
  else match exit with
    | some ⟨some 0, none⟩ => .cleanNoResult
    | _ => .crashed

def saturatingSucc (n : ℕ) : ℕ := min (n + 1) u32Max

def saturatingPred (n : ℕ) : ℕ := n - 1

def RequiresActionSet.raise (set : RequiresActionSet) : PermissionKind → RequiresActionSet
  | .tool => { set with waitingOnApproval := saturatingSucc set.waitingOnApproval }
  | .auth => { set with waitingOnAuth := saturatingSucc set.waitingOnAuth }

def RequiresActionSet.resolve (set : RequiresActionSet) : PermissionKind → RequiresActionSet
  | .tool => { set with waitingOnApproval := saturatingPred set.waitingOnApproval }
  | .auth => { set with waitingOnAuth := saturatingPred set.waitingOnAuth }

/-- The roster upsert of `SubagentUpdate`: the first entry with the same ref is replaced,
except that a terminal entry absorbs a non-terminal update; a new ref is pushed. -/
def upsertSubagent (next : SubagentState) : List SubagentState → List SubagentState
  | [] => [next]
  | slot :: rest =>
      if slot.ref = next.ref then
        if slot.status.isTerminal && !next.status.isTerminal then slot :: rest
        else next :: rest
      else slot :: upsertSubagent next rest

def isRefused : TurnOutcome → Bool
  | .completed (.refused _) => true
  | _ => false

def resultTarget (turn : RunningTurn) (isError : Bool) (apiErrorStatus : Option ℕ)
    (resultText : String) (outcome : TurnOutcome) : SessionState :=
  if isError then .error (.backend apiErrorStatus resultText)
  else if !turn.sawSubstantiveOutput && resultText.isEmpty && !isRefused outcome then
    .error .emptyTurn
  else .idle

def stepStarting (event : SessionEvent) : SessionState × List Transition :=
  match event with
  | .cancel => settle .starting .idle 0
  | .detached _ => settle .starting (.error .crashed) 0
  | .turnResult true apiErrorStatus resultText _ _ =>
      settle .starting (.error (.backend apiErrorStatus resultText)) 0
  | _ => (.starting, [])

def stepRunning (turn : RunningTurn) (event : SessionEvent) : SessionState × List Transition :=
  let state := SessionState.running turn
  match event with
  | .cancel => settle state .idle turn.sinceEpoch
  | .messageDelta text =>
      if text.isEmpty then (state, [])
      else (.running { turn with sawSubstantiveOutput := true }, [])
  | .toolResult => (.running { turn with sawSubstantiveOutput := true }, [])
  | .turnResult isError apiErrorStatus resultText epoch outcome =>
      if epoch ≠ 0 ∧ epoch < turn.sinceEpoch then (state, [])
      else
        settle state (resultTarget turn isError apiErrorStatus resultText outcome) turn.sinceEpoch
  | .detached exit =>
      match crashOutcome turn.terminalResultSeen exit with
      | .crashed => settle state (.error .crashed) turn.sinceEpoch
      | .cleanNoResult => settle state (.error .emptyTurn) turn.sinceEpoch
      | .followResult => (state, [])
  | .permission _ kind =>
      settle state (.running { turn with requiresAction := turn.requiresAction.raise kind })
        turn.sinceEpoch
  | .permissionResolved _ kind =>
      settle state (.running { turn with requiresAction := turn.requiresAction.resolve kind })
        turn.sinceEpoch
  | .ask _ =>
      let waiting := saturatingSucc turn.requiresAction.waitingOnQuestion
      let set := { turn.requiresAction with waitingOnQuestion := waiting }
      settle state (.running { turn with requiresAction := set }) turn.sinceEpoch
  | .askResolved _ =>
      let waiting := saturatingPred turn.requiresAction.waitingOnQuestion
      let set := { turn.requiresAction with waitingOnQuestion := waiting }
      settle state (.running { turn with requiresAction := set }) turn.sinceEpoch
  | .subagentUpdate ref label status parentRef =>
      let next : SubagentState := ⟨ref, label, status, parentRef⟩
      (.running { turn with subagents := upsertSubagent next turn.subagents }, [])
  | _ => (state, [])

/-- A `TurnStarted` is dropped while a turn with the same or a later epoch is running. -/
def stepTurnStarted (state : SessionState) (epoch : ℕ) : SessionState × List Transition :=
  match state with
  | .running turn =>
      if epoch ≤ turn.sinceEpoch then (state, [])
      else settle state (.running (.fresh epoch)) epoch
  | _ => settle state (.running (.fresh epoch)) epoch

def step (state : SessionState) (event : SessionEvent) : SessionState × List Transition :=
  match event with
  | .turnStarted epoch => stepTurnStarted state epoch
  | event =>
      match state with
      -- terminal states absorb every event except `TurnStarted`
      | .idle | .error _ => (state, [])
      | .starting => stepStarting event
      | .running turn => stepRunning turn event

@[simp] theorem settle_fst (source target : SessionState) (epoch : ℕ) :
    (settle source target epoch).1 = target := rfl

theorem step_idle {event : SessionEvent} (h : ∀ epoch, event ≠ .turnStarted epoch) :
    step .idle event = (.idle, []) := by
  cases event <;> first | rfl | exact (h _ rfl).elim

theorem step_error {event : SessionEvent} (reason : ErrorReason)
    (h : ∀ epoch, event ≠ .turnStarted epoch) :
    step (.error reason) event = (.error reason, []) := by
  cases event <;> first | rfl | exact (h _ rfl).elim

theorem step_starting {event : SessionEvent} (h : ∀ epoch, event ≠ .turnStarted epoch) :
    step .starting event = stepStarting event := by
  cases event <;> first | rfl | exact (h _ rfl).elim

theorem step_running {event : SessionEvent} (turn : RunningTurn)
    (h : ∀ epoch, event ≠ .turnStarted epoch) :
    step (.running turn) event = stepRunning turn event := by
  cases event <;> first | rfl | exact (h _ rfl).elim

def turnAfter (turn : RunningTurn) : SessionEvent → RunningTurn
  | .messageDelta text =>
      if text.isEmpty then turn else { turn with sawSubstantiveOutput := true }
  | .toolResult => { turn with sawSubstantiveOutput := true }
  | .permission _ kind => { turn with requiresAction := turn.requiresAction.raise kind }
  | .permissionResolved _ kind => { turn with requiresAction := turn.requiresAction.resolve kind }
  | .ask _ =>
      let waiting := saturatingSucc turn.requiresAction.waitingOnQuestion
      { turn with requiresAction := { turn.requiresAction with waitingOnQuestion := waiting } }
  | .askResolved _ =>
      let waiting := saturatingPred turn.requiresAction.waitingOnQuestion
      { turn with requiresAction := { turn.requiresAction with waitingOnQuestion := waiting } }
  | .subagentUpdate ref label status parentRef =>
      { turn with subagents := upsertSubagent ⟨ref, label, status, parentRef⟩ turn.subagents }
  | _ => turn

theorem eq_turnAfter {turn turn' : RunningTurn} {event : SessionEvent}
    (h : (stepRunning turn event).1 = .running turn') : turn' = turnAfter turn event := by
  cases event with
  | cancel => simp [stepRunning] at h
  | messageDelta text =>
      simp only [stepRunning] at h
      simp only [turnAfter]
      split at h <;> simp only [SessionState.running.injEq] at h <;> simp_all
  | turnResult isError status text epoch outcome =>
      simp only [stepRunning] at h
      split at h
      · simp only [SessionState.running.injEq] at h
        exact h.symm
      · rw [settle_fst, resultTarget] at h
        split_ifs at h
  | detached exit =>
      simp only [stepRunning] at h
      split at h
      · simp at h
      · simp at h
      · simp only [SessionState.running.injEq] at h
        exact h.symm
  | _ =>
      simp only [stepRunning, settle_fst, SessionState.running.injEq] at h
      exact h.symm

theorem stepStarting_cases (event : SessionEvent) :
    (stepStarting event).1 = .starting ∨ (stepStarting event).1 = .idle ∨
      ∃ reason, (stepStarting event).1 = .error reason := by
  unfold stepStarting
  split <;> simp

end Zaowutai.Session
