import Zaowutai.Lib.Framing
import Zaowutai.Session.Orchestrator
import Zaowutai.Session.TransitionChain

/-!
# The cached snapshot is fresh

The fold loop pushes a snapshot only on a phase transition or an activity
edge.  The four bits that the UI gates on are functions of the phase and the
activity of the session, so that a fold which pushes nothing moves none of
them.
-/

namespace Zaowutai.Session

open Zaowutai.Lib

structure Gates where
  canSend : Bool
  hasActivity : Bool
  canQueue : Bool
  canCancel : Bool
  deriving DecidableEq, Repr

def StateSnapshot.gates (snap : StateSnapshot) : Gates where
  canSend := snap.canSend
  hasActivity := snap.hasActivity
  canQueue := snap.canQueue
  canCancel := snap.canCancel

def Gates.initial : Gates where
  canSend := true
  hasActivity := false
  canQueue := false
  canCancel := false

def activityOf (state : SessionState) (roster : WorkflowRoster) : Bool :=
  hasForegroundActivity state || backgroundActive roster

def gatesOf (acceptsProactiveInput : Bool) (state : SessionState) (roster : WorkflowRoster) :
    Gates where
  canSend := canSendMessage state
  hasActivity := activityOf state roster
  canQueue := canQueueMessage state acceptsProactiveInput
  canCancel := canCancel state

def Orchestrator.publishedGates (o : Orchestrator) (sessionId : String) : Gates :=
  ((o.latest.lookup sessionId).map StateSnapshot.gates).getD .initial

def Orchestrator.derivedGates (o : Orchestrator) (acceptsProactiveInput : Bool)
    (sessionId : String) : Gates :=
  gatesOf acceptsProactiveInput (o.stateOf sessionId) (o.rosterOf sessionId)

def SnapshotsFresh (acceptsProactiveInput : Bool) (o : Orchestrator) : Prop :=
  ∀ sessionId, o.publishedGates sessionId = o.derivedGates acceptsProactiveInput sessionId

section Phase

theorem canSendMessage_eq (state : SessionState) :
    canSendMessage state = (externalPhase state == .idle) := by
  cases state with
  | running turn => cases h : isRequiresAction (.running turn) <;> simp [externalPhase, h] <;> rfl
  | _ => rfl

theorem canCancel_eq (state : SessionState) :
    canCancel state = !(externalPhase state).isTerminal := by
  cases state with
  | running turn => cases h : isRequiresAction (.running turn) <;> simp [externalPhase, h] <;> rfl
  | _ => rfl

theorem canQueueMessage_eq (state : SessionState) (acceptsProactiveInput : Bool) :
    canQueueMessage state acceptsProactiveInput =
      (acceptsProactiveInput && (externalPhase state == .running)) := by
  cases state with
  | running turn =>
      cases h : isRequiresAction (.running turn) <;>
        simp [canQueueMessage, externalPhase, h]
  | _ => simp [canQueueMessage, externalPhase]

theorem gatesOf_eq_of_phase {state state' : SessionState} {roster roster' : WorkflowRoster}
    (acceptsProactiveInput : Bool) (hphase : externalPhase state = externalPhase state')
    (hactivity : activityOf state roster = activityOf state' roster') :
    gatesOf acceptsProactiveInput state roster = gatesOf acceptsProactiveInput state' roster' := by
  simp only [gatesOf, canSendMessage_eq, canCancel_eq, canQueueMessage_eq, hphase, hactivity]

@[simp] theorem externalPhase_prune (state : SessionState) :
    externalPhase (pruneTerminalSubagents state) = externalPhase state := by
  cases state with
  | running turn => exact externalPhase_running rfl
  | _ => rfl

end Phase

namespace Orchestrator

variable (o : Orchestrator) (acceptsProactiveInput : Bool) (env : SessionEnvelope)

theorem rosters_fold :
    (o.fold acceptsProactiveInput env).rosters =
      o.rosters.insert env.sessionId
        (rosterAfter (o.rosterOf env.sessionId) (restampEpoch env).event) := by
  simp only [fold, foldOne, restampEpoch_sessionId]
  split <;> rfl

theorem rosterOf_fold (sessionId : String) :
    (o.fold acceptsProactiveInput env).rosterOf sessionId =
      if sessionId = env.sessionId then
        rosterAfter (o.rosterOf sessionId) (restampEpoch env).event
      else o.rosterOf sessionId := by
  simp only [rosterOf, rosters_fold, Table.lookup_insert_eq]
  split
  · next h => subst h; rfl
  · rfl

theorem latest_fold :
    (∃ snap, (o.fold acceptsProactiveInput env).latest = o.latest.insert env.sessionId snap ∧
        snap.gates =
          (o.fold acceptsProactiveInput env).derivedGates acceptsProactiveInput env.sessionId) ∨
      (o.fold acceptsProactiveInput env).latest = o.latest ∧
        (step (o.stateOf env.sessionId) (restampEpoch env).event).2 = [] ∧
          activityOf (o.stateOf env.sessionId) (o.rosterOf env.sessionId) =
            activityOf ((o.fold acceptsProactiveInput env).stateOf env.sessionId)
              ((o.fold acceptsProactiveInput env).rosterOf env.sessionId) := by
  simp only [derivedGates, stateOf_fold, rosterOf_fold, if_true, foldState]
  simp only [fold, foldOne, restampEpoch_sessionId]
  split
  · left
    exact ⟨_, rfl, rfl⟩
  · next h =>
      right
      rw [not_or, not_not, not_not] at h
      exact ⟨rfl, h.1, h.2⟩

theorem publishedGates_of_latest {o' : Orchestrator} {snap : StateSnapshot} {sessionId : String}
    (h : o'.latest = o.latest.insert sessionId snap) (other : String) :
    o'.publishedGates other = if other = sessionId then snap.gates else o.publishedGates other := by
  simp only [publishedGates, h, Table.lookup_insert_eq]
  split <;> rfl

theorem phase_fold (h : (step (o.stateOf env.sessionId) (restampEpoch env).event).2 = []) :
    externalPhase ((o.fold acceptsProactiveInput env).stateOf env.sessionId) =
      externalPhase (o.stateOf env.sessionId) := by
  have hpath := path_step (o.stateOf env.sessionId) (restampEpoch env).event
  rw [h, path_nil] at hpath
  rw [stateOf_fold, if_pos rfl, foldState, externalPhase_prune]
  exact hpath.symm

theorem derivedGates_fold_of_ne {sessionId : String} (hne : sessionId ≠ env.sessionId) :
    (o.fold acceptsProactiveInput env).derivedGates acceptsProactiveInput sessionId =
      o.derivedGates acceptsProactiveInput sessionId := by
  simp only [derivedGates, stateOf_fold, rosterOf_fold, if_neg hne]

theorem snapshotsFresh_fold (h : SnapshotsFresh acceptsProactiveInput o) :
    SnapshotsFresh acceptsProactiveInput (o.fold acceptsProactiveInput env) := by
  intro sessionId
  rcases o.latest_fold acceptsProactiveInput env with
    ⟨snap, hlatest, hgates⟩ | ⟨hlatest, hquiet, hactivity⟩
  · rw [publishedGates_of_latest o hlatest]
    by_cases heq : sessionId = env.sessionId
    · rw [if_pos heq, heq, hgates]
    · rw [if_neg heq, derivedGates_fold_of_ne o acceptsProactiveInput env heq]
      exact h sessionId
  · -- nothing was pushed, so the cached bits are those of the state before the fold
    have hcached : (o.fold acceptsProactiveInput env).publishedGates sessionId =
        o.publishedGates sessionId := by
      simp only [publishedGates, hlatest]
    rw [hcached, h sessionId]
    by_cases heq : sessionId = env.sessionId
    · subst heq
      apply gatesOf_eq_of_phase acceptsProactiveInput _ hactivity
      exact (o.phase_fold acceptsProactiveInput env hquiet).symm
    · exact (derivedGates_fold_of_ne o acceptsProactiveInput env heq).symm

end Orchestrator

theorem snapshotsFresh_new (acceptsProactiveInput : Bool) :
    SnapshotsFresh acceptsProactiveInput .new := by
  intro sessionId
  cases acceptsProactiveInput <;> rfl

/-- After each fold of any run, the latest snapshot of each session says of the four bits what
the state and the roster of the session say. -/
theorem snapshots_never_stale (acceptsProactiveInput : Bool) (envs : List SessionEnvelope) :
    Throughout (Orchestrator.fold acceptsProactiveInput) (SnapshotsFresh acceptsProactiveInput)
      .new envs := by
  rw [throughout_iff_prefixes]
  intro pre _
  apply run_invariant _ (snapshotsFresh_new acceptsProactiveInput)
  intro o env h
  exact o.snapshotsFresh_fold acceptsProactiveInput env h

section Sessions

namespace Orchestrator

variable (acceptsProactiveInput : Bool) (sessionId : String) (o : Orchestrator)
  (env : SessionEnvelope)

/-- What the loop keeps of a session and what it has cached of it. -/
def view : SessionState × WorkflowRoster × Option StateSnapshot × Option (ℕ × TransitionReason) :=
  (o.stateOf sessionId, o.rosterOf sessionId, o.latest.lookup sessionId,
    o.lastTerminal.lookup sessionId)

/-- A fold with all that it broadcasts on its two channels. -/
def broadcast : Orchestrator × List (SessionEnvelope ⊕ StateSnapshot) :=
  ((o.foldOne env acceptsProactiveInput).1,
    (o.foldOne env acceptsProactiveInput).2.events.map .inl ++
      (o.foldOne env acceptsProactiveInput).2.states.map .inr)

def about : SessionEnvelope ⊕ StateSnapshot → Bool :=
  Sum.elim (fun env ↦ env.sessionId = sessionId) fun snap ↦ snap.sessionId = sessionId

theorem separates_broadcast :
    Separates (broadcast acceptsProactiveInput) (view sessionId)
      (fun env ↦ env.sessionId = sessionId) (about sessionId) := by
  constructor
  · intro o env told htold
    have hrestamp := restampEpoch_sessionId env
    simp only [broadcast, foldOne] at htold
    split at htold
    · simp only [List.map_cons, List.map_nil, List.cons_append, List.mem_cons, List.mem_append,
        List.mem_map, List.not_mem_nil, or_false] at htold
      obtain rfl | ⟨cleared, hcleared, rfl⟩ | rfl := htold
      · simp only [about, Sum.elim_inl, hrestamp]
      · split at hcleared
        · simp only [about, Sum.elim_inl, List.mem_singleton.mp hcleared, hrestamp]
        · cases hcleared
      · simp only [about, Sum.elim_inr, hrestamp]
    · simp only [List.map_cons, List.map_nil, List.append_nil, List.mem_singleton] at htold
      simp only [htold, about, Sum.elim_inl, hrestamp]
  · intro o env henv
    have hne : sessionId ≠ env.sessionId := Ne.symm (of_decide_eq_false henv)
    simp only [view, broadcast, foldOne, restampEpoch_sessionId]
    split
    · split
      · simp only [stateOf, rosterOf, Table.lookup_insert_eq, if_neg hne]
      · simp only [stateOf, rosterOf, Table.lookup_insert_eq, if_neg hne]
    · simp only [stateOf, rosterOf, Table.lookup_insert_eq, if_neg hne]
  · intro o o' env henv hview
    obtain rfl := of_decide_eq_true henv
    simp only [view, Prod.mk.injEq] at hview
    obtain ⟨hstate, hroster, hlatest, hterminal⟩ := hview
    simp only [broadcast, foldOne, restampEpoch_sessionId, hstate, hroster]
    split
    · refine ⟨?_, rfl⟩
      simp only [view, stateOf, rosterOf, Table.lookup_insert_eq, if_pos]
      split
      · simp only [Table.lookup_insert_eq, if_pos]
      · simp only [hterminal]
    · refine ⟨?_, rfl⟩
      simp only [view, stateOf, rosterOf, Table.lookup_insert_eq, if_pos, hlatest, hterminal]

end Orchestrator

/-- Whatever other sessions do in between, a session is told and left with what its own envelopes
alone would give. -/
theorem sessions_independent (acceptsProactiveInput : Bool) (sessionId : String)
    (envs : List SessionEnvelope) :
    (thread (Orchestrator.broadcast acceptsProactiveInput) .new envs).1.view sessionId =
        (thread (Orchestrator.broadcast acceptsProactiveInput) .new
          (envs.filter fun env ↦ env.sessionId = sessionId)).1.view sessionId ∧
      (thread (Orchestrator.broadcast acceptsProactiveInput) .new envs).2.filter
          (Orchestrator.about sessionId) =
        (thread (Orchestrator.broadcast acceptsProactiveInput) .new
          (envs.filter fun env ↦ env.sessionId = sessionId)).2 :=
  (Orchestrator.separates_broadcast acceptsProactiveInput sessionId).thread rfl envs

end Sessions

end Zaowutai.Session
