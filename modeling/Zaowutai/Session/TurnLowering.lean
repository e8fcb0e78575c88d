import Mathlib.Data.List.Basic
import Zaowutai.Session.FoldLoop

/-!
# Turns and the order of lowering

A turn that runs is settled by its result.  The result may be folded before
the `TurnStarted` of its turn, and is then absorbed, so that the turn starts
with nothing left to settle it.  As long as each turn starts while its result
is still to come, no turn is stranded.
-/

namespace Zaowutai.Session

open Zaowutai.Lib

def IsResultOf (sessionId : String) (turnGen : ℕ) (env : SessionEnvelope) : Prop :=
  env.sessionId = sessionId ∧ ∃ isError apiErrorStatus resultText outcome,
    (restampEpoch env).event = .turnResult isError apiErrorStatus resultText turnGen outcome

/-- The result of the turn is still to come: not emitted, or waiting in the channel. -/
def FoldLoop.ResultPending (l : FoldLoop) (sessionId : String) (turnGen : ℕ) : Prop :=
  (sessionId, turnGen) ∈ l.openTurns ∨ ∃ env ∈ l.events, IsResultOf sessionId turnGen env

/-- A `TurnStarted` starts a turn unless one with the same or a later epoch is running. -/
def Starts (state : SessionState) (epoch : ℕ) : Prop :=
  ∀ turn, state = .running turn → turn.sinceEpoch < epoch

structure FoldLoop.Drained (l : FoldLoop) : Prop where
  lowered : l.lowered = []
  events : l.events = []
  unlowered : l.unlowered = []
  openTurns : l.openTurns = []

def FoldLoop.NotStranded (l : FoldLoop) : Prop :=
  l.Drained → ∀ sessionId turn, l.orchestrator.stateOf sessionId ≠ .running turn

def FoldLoop.Tracked (l : FoldLoop) : Prop :=
  ∀ sessionId turn, l.orchestrator.stateOf sessionId = .running turn →
    l.ResultPending sessionId turn.sinceEpoch

/-- A lowered `TurnStarted` that starts its turn is folded while the result of the turn is
still to come. -/
def FoldLoop.StartsInTime (l : FoldLoop) (a : LoopAction) : Prop :=
  a = .foldLowered → ∀ env epoch, l.lowered.head? = some env → env.event = .turnStarted epoch →
    Starts (l.orchestrator.stateOf env.sessionId) epoch → l.ResultPending env.sessionId epoch

theorem FoldLoop.Tracked.notStranded {l : FoldLoop} (h : l.Tracked) : l.NotStranded := by
  intro hdrained sessionId turn hrunning
  rcases h sessionId turn hrunning with hopen | ⟨env, henv, -⟩
  · rw [hdrained.openTurns] at hopen
    cases hopen
  · rw [hdrained.events] at henv
    cases henv

section Fold

theorem sinceEpoch_stepRunning {turn turn' : RunningTurn} {event : SessionEvent}
    (h : (stepRunning turn event).1 = .running turn') : turn'.sinceEpoch = turn.sinceEpoch := by
  rw [eq_turnAfter h]
  cases event with
  | messageDelta text =>
      simp only [turnAfter]
      split <;> rfl
  | _ => rfl

theorem running_prune {state : SessionState} {turn' : RunningTurn}
    (h : pruneTerminalSubagents state = .running turn') :
    ∃ turn, state = .running turn ∧ turn'.sinceEpoch = turn.sinceEpoch := by
  cases state with
  | running turn =>
      simp only [pruneTerminalSubagents, SessionState.running.injEq] at h
      subst h
      exact ⟨turn, rfl, rfl⟩
  | _ => simp [pruneTerminalSubagents] at h

theorem isTurnStarted_restampEpoch (env : SessionEnvelope) :
    (restampEpoch env).event.isTurnStarted = env.event.isTurnStarted := by
  simp only [restampEpoch]
  split
  · next h =>
      split
      · rw [h]
        rfl
      · rfl
  · rfl

theorem ne_turnStarted {event : SessionEvent} (h : event.isTurnStarted = false) (epoch : ℕ) :
    event ≠ .turnStarted epoch := by
  rintro rfl
  cases h

theorem exists_turnStarted {event : SessionEvent} (h : event.isTurnStarted = true) :
    ∃ epoch, event = .turnStarted epoch := by
  cases event with
  | turnStarted epoch => exact ⟨epoch, rfl⟩
  | _ => cases h

theorem foldState_same_turn {state : SessionState} {env : SessionEnvelope} {turn' : RunningTurn}
    (hstart : env.event.isTurnStarted = false) (h : foldState state env = .running turn') :
    ∃ turn, state = .running turn ∧ turn'.sinceEpoch = turn.sinceEpoch := by
  obtain ⟨stepped, hstepped, hepoch⟩ := running_prune h
  have hne : ∀ epoch, (restampEpoch env).event ≠ .turnStarted epoch := by
    apply ne_turnStarted
    rw [isTurnStarted_restampEpoch, hstart]
  cases state with
  | idle =>
      rw [step_idle hne] at hstepped
      cases hstepped
  | error reason =>
      rw [step_error reason hne] at hstepped
      cases hstepped
  | starting =>
      rw [step_starting hne] at hstepped
      rcases stepStarting_cases (restampEpoch env).event with hs | hs | ⟨reason, hs⟩ <;>
        rw [hs] at hstepped <;> cases hstepped
  | running turn =>
      rw [step_running turn hne] at hstepped
      exact ⟨turn, rfl, hepoch.trans (sinceEpoch_stepRunning hstepped)⟩

theorem foldState_result {sessionId : String} {turn : RunningTurn} {env : SessionEnvelope}
    (h : IsResultOf sessionId turn.sinceEpoch env) (turn' : RunningTurn) :
    foldState (.running turn) env ≠ .running turn' := by
  obtain ⟨-, isError, status, text, outcome, hevent⟩ := h
  intro hfold
  obtain ⟨stepped, hstepped, -⟩ := running_prune hfold
  rw [hevent, step_running turn (by simp)] at hstepped
  simp only [stepRunning, lt_irrefl, and_false, if_false, settle_fst, resultTarget] at hstepped
  split_ifs at hstepped

theorem foldState_started (state : SessionState) {env : SessionEnvelope} {epoch : ℕ}
    (hevent : env.event = .turnStarted epoch) :
    Starts state epoch ∧ foldState state env = .running (.fresh epoch) ∨
      ¬ Starts state epoch ∧ foldState state env = pruneTerminalSubagents state := by
  have hsame : (restampEpoch env).event = .turnStarted epoch := by
    rw [restampEpoch_event_of_ne (by simp [hevent]), hevent]
  simp only [foldState, hsame, step]
  cases state with
  | running turn =>
      by_cases hle : epoch ≤ turn.sinceEpoch
      · right
        refine ⟨fun h ↦ ?_, by simp [stepTurnStarted, hle]⟩
        have hlt := h turn rfl
        omega
      · left
        refine ⟨?_, by simp [stepTurnStarted, hle, pruneTerminalSubagents, RunningTurn.fresh]⟩
        intro turn' hturn'
        cases hturn'
        omega
  | _ =>
      left
      exact ⟨by simp [Starts], rfl⟩

end Fold

section Steps

variable {l : FoldLoop} {acceptsProactiveInput : Bool}

def FoldLoop.BackendEvents (l : FoldLoop) : Prop :=
  ∀ env ∈ l.events, env.event.isTurnStarted = false

theorem isResultOf_resultEnvelope (sessionId : String) {turnGen : ℕ} (stamped isError : Bool)
    (apiErrorStatus : Option ℕ) (resultText : String) (outcome : TurnOutcome) :
    IsResultOf sessionId turnGen
      (resultEnvelope sessionId turnGen stamped isError apiErrorStatus resultText outcome) := by
  refine ⟨rfl, isError, apiErrorStatus, resultText, outcome, ?_⟩
  cases stamped with
  | false => rfl
  | true =>
      simp only [resultEnvelope, restampEpoch, if_true]
      split <;> rfl

variable (acceptsProactiveInput) in
theorem backendEvents_step (h : l.BackendEvents) (a : LoopAction) :
    (l.step acceptsProactiveInput a).BackendEvents := by
  cases a with
  | dispatchSend sessionId => exact h
  | dispatchCancel sessionId => exact h
  | lower env =>
      rcases l.lower_cases acceptsProactiveInput env with ⟨-, heq⟩ | heq <;> rw [heq] <;> exact h
  | emit env =>
      simp only [FoldLoop.step]
      split
      · exact h
      · next hstart =>
          intro env' henv'
          rcases List.mem_append.mp henv' with henv' | henv'
          · exact h env' henv'
          · rw [List.mem_singleton.mp henv']
            exact eq_false_of_ne_true hstart
  | emitResult sessionId turnGen stamped isError apiErrorStatus resultText outcome =>
      simp only [FoldLoop.step]
      split
      · intro env' henv'
        rcases List.mem_append.mp henv' with henv' | henv'
        · exact h env' henv'
        · rw [List.mem_singleton.mp henv']
          rfl
      · exact h
  | foldLowered =>
      rcases l.foldLowered_cases acceptsProactiveInput with ⟨_, _, -, heq⟩ | ⟨-, heq⟩ <;>
        rw [heq] <;> exact h
  | foldEvent =>
      rcases l.foldEvent_cases acceptsProactiveInput with ⟨_, _, -, hevents, heq⟩ | heq <;>
        rw [heq]
      · intro env' henv'
        exact h env' (hevents ▸ List.mem_cons_of_mem _ henv')
      · exact h

theorem tracked_of_pending (h : l.Tracked) {l' : FoldLoop}
    (horch : l'.orchestrator = l.orchestrator)
    (hpending : ∀ sessionId turnGen, l.ResultPending sessionId turnGen →
      l'.ResultPending sessionId turnGen) : l'.Tracked := by
  intro sessionId turn hturn
  rw [horch] at hturn
  exact hpending _ _ (h sessionId turn hturn)

theorem tracked_emitResult (h : l.Tracked) (sessionId : String) (turnGen : ℕ)
    (stamped isError : Bool) (apiErrorStatus : Option ℕ) (resultText : String)
    (outcome : TurnOutcome) :
    (l.step acceptsProactiveInput
      (.emitResult sessionId turnGen stamped isError apiErrorStatus resultText outcome)).Tracked := by
  simp only [FoldLoop.step]
  split
  · refine tracked_of_pending h rfl ?_
    rintro other otherGen (hopen | ⟨env, henv, hresult⟩)
    · by_cases heq : (other, otherGen) = (sessionId, turnGen)
      · obtain ⟨rfl, rfl⟩ := Prod.mk.injEq _ _ _ _ ▸ heq
        right
        exact ⟨_, List.mem_append_right _ (List.mem_singleton.mpr rfl),
          isResultOf_resultEnvelope _ _ _ _ _ _⟩
      · exact .inl ((List.mem_erase_of_ne heq).mpr hopen)
    · exact .inr ⟨env, List.mem_append_left _ henv, hresult⟩
  · exact h

theorem stateOf_foldEnvelope (l : FoldLoop) (env : SessionEnvelope) (sessionId : String) :
    (l.foldEnvelope acceptsProactiveInput env).orchestrator.stateOf sessionId =
      if sessionId = env.sessionId then foldState (l.orchestrator.stateOf sessionId) env
      else l.orchestrator.stateOf sessionId := by
  rw [FoldLoop.orchestrator_foldEnvelope, Orchestrator.stateOf_fold]

theorem tracked_fold_event (h : l.Tracked) {l' : FoldLoop} {env : SessionEnvelope}
    (horch : l'.orchestrator = l.orchestrator) (hstart : env.event.isTurnStarted = false)
    (hpending : ∀ sessionId turnGen, l.ResultPending sessionId turnGen →
      IsResultOf sessionId turnGen env ∨ l'.ResultPending sessionId turnGen) :
    (l'.foldEnvelope acceptsProactiveInput env).Tracked := by
  intro sessionId turn' hturn'
  rw [stateOf_foldEnvelope, horch] at hturn'
  by_cases hsession : sessionId = env.sessionId
  · rw [if_pos hsession] at hturn'
    obtain ⟨turn, hturn, hepoch⟩ := foldState_same_turn hstart hturn'
    rw [hepoch]
    rcases hpending _ _ (h sessionId turn hturn) with hresult | hpend
    · rw [hturn] at hturn'
      exact (foldState_result hresult turn' hturn').elim
    · exact hpend
  · rw [if_neg hsession] at hturn'
    rcases hpending _ _ (h sessionId turn' hturn') with hresult | hpend
    · exact (hsession hresult.1.symm).elim
    · exact hpend

theorem tracked_foldEvent (hback : l.BackendEvents) (h : l.Tracked) :
    (l.step acceptsProactiveInput .foldEvent).Tracked := by
  rcases l.foldEvent_cases acceptsProactiveInput with ⟨env, rest, -, hevents, heq⟩ | heq <;>
    rw [heq]
  · have hstart : env.event.isTurnStarted = false :=
      hback env (hevents ▸ List.mem_cons_self)
    refine tracked_fold_event h rfl hstart ?_
    rintro sessionId turnGen (hopen | ⟨env', henv', hresult⟩)
    · exact .inr (.inl hopen)
    · rw [hevents] at henv'
      rcases List.mem_cons.mp henv' with rfl | hrest
      · exact .inl hresult
      · exact .inr (.inr ⟨env', hrest, hresult⟩)
  · exact h

theorem tracked_fold_started {env : SessionEnvelope} {epoch : ℕ} {rest : List SessionEnvelope}
    (hevent : env.event = .turnStarted epoch) (h : l.Tracked) :
    ({ l with lowered := rest }.foldEnvelope acceptsProactiveInput env).Tracked ↔
      (Starts (l.orchestrator.stateOf env.sessionId) epoch →
        l.ResultPending env.sessionId epoch) := by
  rcases foldState_started (l.orchestrator.stateOf env.sessionId) hevent with
    ⟨hstarts, hfold⟩ | ⟨hstays, hfold⟩
  · constructor
    · intro hafter _
      apply hafter env.sessionId (.fresh epoch)
      rw [stateOf_foldEnvelope, if_pos rfl]
      exact hfold
    · intro hpend sessionId turn hturn
      rw [stateOf_foldEnvelope] at hturn
      split at hturn
      · next heq =>
          subst heq
          cases hfold.symm.trans hturn
          exact hpend hstarts
      · exact h sessionId turn hturn
  · refine iff_of_true ?_ fun hstarts ↦ (hstays hstarts).elim
    intro sessionId turn hturn
    rw [stateOf_foldEnvelope] at hturn
    split at hturn
    · next heq =>
        subst heq
        obtain ⟨turn₀, hturn₀, hepoch⟩ := running_prune (hfold.symm.trans hturn)
        rw [hepoch]
        exact h _ _ hturn₀
    · exact h sessionId turn hturn

theorem tracked_step_iff (hback : l.BackendEvents) (h : l.Tracked) (a : LoopAction) :
    (l.step acceptsProactiveInput a).Tracked ↔ l.StartsInTime a := by
  cases a with
  | dispatchSend sessionId =>
      refine iff_of_true ?_ (by simp [FoldLoop.StartsInTime])
      refine tracked_of_pending h rfl ?_
      exact fun _ _ hpend ↦ hpend.imp (List.mem_cons_of_mem _) id
  | dispatchCancel sessionId => exact iff_of_true h (by simp [FoldLoop.StartsInTime])
  | lower env =>
      refine iff_of_true ?_ (by simp [FoldLoop.StartsInTime])
      rcases l.lower_cases acceptsProactiveInput env with ⟨-, heq⟩ | heq <;> rw [heq] <;> exact h
  | emit env =>
      refine iff_of_true ?_ (by simp [FoldLoop.StartsInTime])
      simp only [FoldLoop.step]
      split
      · exact h
      · refine tracked_of_pending h rfl ?_
        rintro sessionId turnGen (hopen | ⟨env', henv', hresult⟩)
        · exact .inl hopen
        · exact .inr ⟨env', List.mem_append_left _ henv', hresult⟩
  | emitResult sessionId turnGen stamped isError apiErrorStatus resultText outcome =>
      exact iff_of_true (tracked_emitResult h _ _ _ _ _ _ _) (by simp [FoldLoop.StartsInTime])
  | foldEvent => exact iff_of_true (tracked_foldEvent hback h) (by simp [FoldLoop.StartsInTime])
  | foldLowered =>
      rcases l.foldLowered_cases acceptsProactiveInput with
        ⟨env, rest, hlowered, heq⟩ | ⟨hempty, heq⟩ <;> rw [heq]
      · cases hstart : env.event.isTurnStarted with
        | false =>
            refine iff_of_true (tracked_fold_event h rfl hstart fun _ _ ↦ .inr) ?_
            intro _ env' epoch hhead hevent
            rw [hlowered] at hhead
            cases hhead
            rw [hevent] at hstart
            cases hstart
        | true =>
            obtain ⟨epoch, hevent⟩ := exists_turnStarted hstart
            rw [tracked_fold_started hevent h]
            constructor
            · intro hpend _ env' epoch' hhead hevent' hstarts
              rw [hlowered] at hhead
              cases hhead
              cases hevent.symm.trans hevent'
              exact hpend hstarts
            · intro hguard
              exact hguard rfl env epoch (by rw [hlowered]; rfl) hevent
      · refine iff_of_true h ?_
        intro _ env epoch hhead
        simp [hempty] at hhead

theorem tracked_iff_startsInTime (acceptsProactiveInput : Bool) (acts : List LoopAction) :
    Throughout (fun l a ↦ l.step acceptsProactiveInput a) FoldLoop.Tracked .new acts ↔
      Meets (fun l a ↦ l.step acceptsProactiveInput a) FoldLoop.StartsInTime .new acts := by
  apply throughout_iff_meets
    (fun l a h ↦ backendEvents_step acceptsProactiveInput h a)
    (fun l a hback h ↦ tracked_step_iff hback h a)
  · intro env henv
    cases henv
  · intro sessionId turn hturn
    simp [FoldLoop.new, Orchestrator.new, Orchestrator.stateOf] at hturn

/-- In every run that starts each turn in time, no turn is stranded. -/
theorem no_turn_stranded (acceptsProactiveInput : Bool) (acts : List LoopAction)
    (h : Meets (fun l a ↦ l.step acceptsProactiveInput a) FoldLoop.StartsInTime .new acts) :
    Throughout (fun l a ↦ l.step acceptsProactiveInput a) FoldLoop.NotStranded .new acts :=
  ((tracked_iff_startsInTime acceptsProactiveInput acts).mpr h).mono fun _ ↦
    FoldLoop.Tracked.notStranded

end Steps

def shortResult (turnGen : ℕ) : LoopAction :=
  .emitResult "s" turnGen false false none "done" (.completed .endTurn)

/-- A turn whose `TurnStarted` is lowered and folded before its result is emitted. -/
def slowTurn : List LoopAction :=
  [.dispatchSend "s", .lower (startedEnvelope "s" 1), .foldLowered, shortResult 1, .foldEvent]

theorem slowTurn_not_stranded :
    Throughout (fun l a ↦ l.step true a) FoldLoop.NotStranded .new slowTurn := by
  apply no_turn_stranded
  refine ⟨?_, ?_, ?_, ?_, ?_, trivial⟩
  · rintro ⟨⟩
  · rintro ⟨⟩
  · rintro - env epoch hhead hevent -
    cases hhead
    cases hevent
    left
    decide
  · rintro ⟨⟩
  · rintro ⟨⟩

def fastResult : List LoopAction :=
  [.dispatchSend "s", shortResult 1, .foldEvent, .lower (startedEnvelope "s" 1), .foldLowered]

/-- The result is absorbed by the idle session, and the turn that starts after it runs on with
both channels drained. -/
theorem fastResult_stranded :
    ¬ Throughout (fun l a ↦ l.step true a) FoldLoop.NotStranded .new fastResult := by
  intro h
  have hdrained : (run (fun l a ↦ l.step true a) FoldLoop.new fastResult).Drained := by
    constructor <;> decide
  exact h.last hdrained "s" (.fresh 1) rfl

end Zaowutai.Session
