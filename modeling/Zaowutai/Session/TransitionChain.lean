import Zaowutai.Lib.Path
import Zaowutai.Session.Reducer

/-!
# The chain of transitions

A consumer of a session sees its transitions and not its states.  The
transitions that the reducer emits over a sequence of events lead from the
phase of the initial state to the phase of the final one, and each turn is
settled once.
-/

namespace Zaowutai.Session

open Zaowutai.Lib

def ExternalPhase.isTerminal : ExternalPhase → Bool
  | .error | .idle => true
  | .starting | .running | .requiresAction => false

def Transition.sourcePhase (t : Transition) : ExternalPhase := externalPhase t.source

def Transition.targetPhase (t : Transition) : ExternalPhase := externalPhase t.target

def foldEvents (state : SessionState) : List SessionEvent → SessionState × List Transition
  | [] => (state, [])
  | event :: events =>
      let (next, emitted) := step state event
      let (final, later) := foldEvents next events
      (final, emitted ++ later)

/-- Whatever its arm, a result emits what `settle` emits for the state it leads to. -/
def Settles (source : SessionState) (result : SessionState × List Transition) : Prop :=
  ∃ epoch, result = settle source result.1 epoch

theorem settles_settle (source target : SessionState) (epoch : ℕ) :
    Settles source (settle source target epoch) := ⟨epoch, rfl⟩

theorem settles_of_phase {source target : SessionState}
    (h : externalPhase target = externalPhase source) : Settles source (target, []) :=
  ⟨0, by simp [settle, h]⟩

theorem externalPhase_running {turn turn' : RunningTurn}
    (h : turn'.requiresAction = turn.requiresAction) :
    externalPhase (.running turn') = externalPhase (.running turn) := by
  simp [externalPhase, isRequiresAction, h]

theorem settles_stepStarting (event : SessionEvent) :
    Settles .starting (stepStarting event) := by
  cases event with
  | cancel => exact settles_settle _ _ _
  | detached exit => exact settles_settle _ _ _
  | turnResult isError status text epoch outcome =>
      cases isError with
      | false => exact settles_of_phase rfl
      | true => exact settles_settle _ _ _
  | _ => exact settles_of_phase rfl

theorem settles_stepRunning (turn : RunningTurn) (event : SessionEvent) :
    Settles (.running turn) (stepRunning turn event) := by
  cases event with
  | cancel => exact settles_settle _ _ _
  | messageDelta text =>
      simp only [stepRunning]
      split
      · exact settles_of_phase rfl
      · exact settles_of_phase (externalPhase_running rfl)
  | toolResult => exact settles_of_phase (externalPhase_running rfl)
  | turnResult isError status text epoch outcome =>
      simp only [stepRunning]
      split
      · exact settles_of_phase rfl
      · exact settles_settle _ _ _
  | detached exit =>
      simp only [stepRunning]
      split
      · exact settles_settle _ _ _
      · exact settles_settle _ _ _
      · exact settles_of_phase rfl
  | permission requestId kind => exact settles_settle _ _ _
  | permissionResolved requestId kind => exact settles_settle _ _ _
  | ask requestId => exact settles_settle _ _ _
  | askResolved requestId => exact settles_settle _ _ _
  | subagentUpdate ref label status parentRef => exact settles_of_phase (externalPhase_running rfl)
  | _ => exact settles_of_phase rfl

theorem settles_stepTurnStarted (state : SessionState) (epoch : ℕ) :
    Settles state (stepTurnStarted state epoch) := by
  cases state with
  | running turn =>
      simp only [stepTurnStarted]
      split
      · exact settles_of_phase rfl
      · exact settles_settle _ _ _
  | _ => exact settles_settle _ _ _

theorem step_terminal {state : SessionState} {event : SessionEvent}
    (hstate : (externalPhase state).isTerminal = true)
    (hevent : ∀ epoch, event ≠ .turnStarted epoch) : step state event = (state, []) := by
  cases state with
  | idle => exact step_idle hevent
  | error reason => exact step_error reason hevent
  | starting => cases hstate
  | running turn =>
      simp only [externalPhase] at hstate
      split at hstate <;> cases hstate

theorem settles_step (state : SessionState) (event : SessionEvent) :
    Settles state (step state event) := by
  by_cases hstart : ∃ epoch, event = .turnStarted epoch
  · obtain ⟨epoch, rfl⟩ := hstart
    exact settles_stepTurnStarted state epoch
  have hne : ∀ epoch, event ≠ .turnStarted epoch := fun epoch he ↦ hstart ⟨epoch, he⟩
  cases state with
  | starting =>
      rw [step_starting hne]
      exact settles_stepStarting event
  | running turn =>
      rw [step_running turn hne]
      exact settles_stepRunning turn event
  | error reason =>
      rw [step_terminal rfl hne]
      exact settles_of_phase rfl
  | idle =>
      rw [step_terminal rfl hne]
      exact settles_of_phase rfl

theorem emitted_step {state : SessionState} {event : SessionEvent} {t : Transition}
    (h : t ∈ (step state event).2) : t.source = state ∧ t.target = (step state event).1 := by
  obtain ⟨epoch, hsettles⟩ := settles_step state event
  rw [hsettles] at h ⊢
  simp only [settle] at h ⊢
  split at h
  · rw [List.mem_singleton] at h
    subst h
    exact ⟨rfl, rfl⟩
  · simp at h

theorem path_step (state : SessionState) (event : SessionEvent) :
    Path Transition.sourcePhase Transition.targetPhase (externalPhase state)
      (step state event).2 (externalPhase (step state event).1) := by
  obtain ⟨epoch, hsettles⟩ := settles_step state event
  rw [hsettles]
  simp only [settle]
  split
  · exact ⟨rfl, rfl⟩
  · next h => exact not_not.mp h

theorem emitted_step_region {state : SessionState} {event : SessionEvent} {t : Transition}
    (h : t ∈ (step state event).2) (hsource : t.sourcePhase.isTerminal = true) :
    t.targetPhase.isTerminal = false := by
  obtain ⟨rfl, htarget⟩ := emitted_step h
  have hstart : ∃ epoch, event = .turnStarted epoch := by
    by_contra hne
    rw [step_terminal hsource fun epoch he ↦ hne ⟨epoch, he⟩] at h
    simp at h
  obtain ⟨epoch, rfl⟩ := hstart
  have hrunning : t.target = .running (.fresh epoch) := by
    rw [htarget, step]
    cases hs : t.source with
    | running turn =>
        simp only [Transition.sourcePhase, hs, externalPhase] at hsource
        split at hsource <;> cases hsource
    | _ => rfl
  rw [Transition.targetPhase, hrunning]
  rfl

section Fold

variable (initial : SessionState) (events : List SessionEvent)

theorem path_foldEvents :
    Path Transition.sourcePhase Transition.targetPhase (externalPhase initial)
      (foldEvents initial events).2 (externalPhase (foldEvents initial events).1) := by
  induction events generalizing initial with
  | nil => exact path_nil.mpr rfl
  | cons event events ih =>
      simp only [foldEvents]
      exact path_append.mpr ⟨_, path_step initial event, ih (step initial event).1⟩

theorem emitted_foldEvents {t : Transition} (h : t ∈ (foldEvents initial events).2) :
    ∃ state event, t ∈ (step state event).2 := by
  induction events generalizing initial with
  | nil => simp [foldEvents] at h
  | cons event events ih =>
      simp only [foldEvents, List.mem_append] at h
      rcases h with h | h
      · exact ⟨initial, event, h⟩
      · exact ih (step initial event).1 h

def SettlesOnce (ts : List Transition) : Prop :=
  ∀ pre x mid y post, ts = pre ++ x :: (mid ++ y :: post) →
    x.sourcePhase.isTerminal = true → y.sourcePhase.isTerminal = true →
      (∀ t ∈ mid, t.sourcePhase.isTerminal = false) →
        mid.countP (fun t ↦ t.targetPhase.isTerminal) = 1

theorem settlesOnce_foldEvents : SettlesOnce (foldEvents initial events).2 := by
  intro pre x mid y post hts hx hy hmid
  have hleaves : ∀ t ∈ (foldEvents initial events).2, t.sourcePhase.isTerminal = true →
      Leaves Transition.sourcePhase Transition.targetPhase ExternalPhase.isTerminal t = true := by
    intro t ht hsource
    obtain ⟨state, event, hstep⟩ := emitted_foldEvents initial events ht
    simp [Leaves, hsource, emitted_step_region hstep hsource]
  have hpath := path_foldEvents initial events
  have hxl := hleaves x (by simp [hts]) hx
  have hyl := hleaves y (by simp [hts]) hy
  rw [hts] at hpath
  have hbetween := hpath.enters_between hxl hyl
  have hnone : mid.countP (Leaves Transition.sourcePhase Transition.targetPhase
      ExternalPhase.isTerminal) = 0 := by
    rw [List.countP_eq_zero]
    intro t ht
    simp [Leaves, hmid t ht]
  have hsame : mid.countP (fun t ↦ t.targetPhase.isTerminal) =
      mid.countP (Enters Transition.sourcePhase Transition.targetPhase
        ExternalPhase.isTerminal) := by
    apply List.countP_congr
    intro t ht
    simp [Enters, hmid t ht]
  omega

end Fold

structure TransitionLaws : Prop where
  chain : ∀ initial events,
    Path Transition.sourcePhase Transition.targetPhase (externalPhase initial)
      (foldEvents initial events).2 (externalPhase (foldEvents initial events).1)
  leftByTurnStarted : ∀ state event, (externalPhase state).isTerminal = true →
    (step state event).1 ≠ state → ∃ epoch, event = .turnStarted epoch
  settlesOnce : ∀ initial events, SettlesOnce (foldEvents initial events).2
  staleResult : ∀ (turn : RunningTurn) isError status text epoch outcome,
    0 < epoch → epoch < turn.sinceEpoch →
      step (.running turn) (.turnResult isError status text epoch outcome) = (.running turn, [])

/-- The transitions alone tell the phase of the session, and each turn settles at most once. -/
theorem transitions_tell_session : TransitionLaws where
  chain := path_foldEvents
  leftByTurnStarted := by
    intro state event hstate hleft
    by_contra hne
    exact hleft (congrArg Prod.fst (step_terminal hstate fun epoch he ↦ hne ⟨epoch, he⟩))
  settlesOnce := settlesOnce_foldEvents
  staleResult := by
    intro turn isError status text epoch outcome hpos hlt
    have hstale : epoch ≠ 0 ∧ epoch < turn.sinceEpoch := ⟨hpos.ne', hlt⟩
    rw [step_running turn (by simp)]
    simp [stepRunning, hstale]

end Zaowutai.Session
