import Zaowutai.Session.Orchestrator

/-!
# The fold loop and its channels

`send` and `cancel` dispatch to the backend first and enqueue the lowered
event when the dispatch has returned.  The loop takes a lowered event
whenever there is one and an event of the backend otherwise.  The backend
assigns a fresh generation to each send and emits its events at any time
after that; only `TurnStarted` is never produced by it.
-/

namespace Zaowutai.Session

open Zaowutai.Lib

structure FoldLoop where
  orchestrator : Orchestrator
  lowered : List SessionEnvelope
  events : List SessionEnvelope
  /-- The snapshots that were broadcast, oldest first. -/
  states : List StateSnapshot
  turnGen : ℕ
  /-- The started turns for which no result was emitted. -/
  openTurns : List (String × ℕ)
  /-- What the commands still in their dispatch are going to lower. -/
  unlowered : List SessionEnvelope

def FoldLoop.new : FoldLoop := ⟨.new, [], [], [], 0, [], []⟩

def startedEnvelope (sessionId : String) (turnGen : ℕ) : SessionEnvelope :=
  ⟨sessionId, turnGen, .turnStarted turnGen⟩

def cancelEnvelope (sessionId : String) (turnGen : ℕ) : SessionEnvelope :=
  ⟨sessionId, turnGen, .cancel⟩

/-- The terminal result of a turn; an adapter without turn context leaves the epoch at 0. -/
def resultEnvelope (sessionId : String) (turnGen : ℕ) (stamped isError : Bool)
    (apiErrorStatus : Option ℕ) (resultText : String) (outcome : TurnOutcome) : SessionEnvelope :=
  ⟨sessionId, turnGen,
    .turnResult isError apiErrorStatus resultText (if stamped then turnGen else 0) outcome⟩

/-- `TurnStarted` is lowered by the orchestration and never produced by a backend. -/
def SessionEvent.isTurnStarted : SessionEvent → Bool
  | .turnStarted _ => true
  | _ => false

inductive LoopAction
  | dispatchSend (sessionId : String)
  | dispatchCancel (sessionId : String)
  | lower (env : SessionEnvelope)
  | emit (env : SessionEnvelope)
  | emitResult (sessionId : String) (turnGen : ℕ) (stamped isError : Bool)
      (apiErrorStatus : Option ℕ) (resultText : String) (outcome : TurnOutcome)
  | foldLowered
  | foldEvent
  deriving DecidableEq, Repr

namespace FoldLoop

variable (l : FoldLoop)

/-- The backend admits a send: `turn_gen.fetch_add(1) + 1`. -/
def startTurn (sessionId : String) : FoldLoop :=
  { l with
    turnGen := l.turnGen + 1
    openTurns := (sessionId, l.turnGen + 1) :: l.openTurns }

def foldEnvelope (acceptsProactiveInput : Bool) (env : SessionEnvelope) : FoldLoop :=
  { l with
    orchestrator := l.orchestrator.fold acceptsProactiveInput env
    states := l.states ++ (l.orchestrator.foldOne env acceptsProactiveInput).2.states }

def step (acceptsProactiveInput : Bool) : LoopAction → FoldLoop
  | .dispatchSend sessionId =>
      let started := l.startTurn sessionId
      { started with
        unlowered := l.unlowered ++ [startedEnvelope sessionId started.turnGen] }
  | .dispatchCancel sessionId =>
      { l with unlowered := l.unlowered ++ [cancelEnvelope sessionId l.turnGen] }
  | .lower env =>
      if env ∈ l.unlowered then
        { l with unlowered := l.unlowered.erase env, lowered := l.lowered ++ [env] }
      else l
  | .emit env =>
      if env.event.isTurnStarted then l else { l with events := l.events ++ [env] }
  | .emitResult sessionId turnGen stamped isError apiErrorStatus resultText outcome =>
      if (sessionId, turnGen) ∈ l.openTurns then
        { l with
          openTurns := l.openTurns.erase (sessionId, turnGen)
          events := l.events ++
            [resultEnvelope sessionId turnGen stamped isError apiErrorStatus resultText outcome] }
      else l
  | .foldLowered =>
      match l.lowered with
      | [] => l
      | env :: rest => { l with lowered := rest }.foldEnvelope acceptsProactiveInput env
  | .foldEvent =>
      -- the select is biased: an event is taken only while nothing lowered is waiting
      match l.lowered, l.events with
      | [], env :: rest => { l with events := rest }.foldEnvelope acceptsProactiveInput env
      | _, _ => l

@[simp] theorem orchestrator_foldEnvelope (acceptsProactiveInput : Bool) (env : SessionEnvelope) :
    (l.foldEnvelope acceptsProactiveInput env).orchestrator =
      l.orchestrator.fold acceptsProactiveInput env := rfl

@[simp] theorem lowered_foldEnvelope (acceptsProactiveInput : Bool) (env : SessionEnvelope) :
    (l.foldEnvelope acceptsProactiveInput env).lowered = l.lowered := rfl

@[simp] theorem events_foldEnvelope (acceptsProactiveInput : Bool) (env : SessionEnvelope) :
    (l.foldEnvelope acceptsProactiveInput env).events = l.events := rfl

@[simp] theorem openTurns_foldEnvelope (acceptsProactiveInput : Bool) (env : SessionEnvelope) :
    (l.foldEnvelope acceptsProactiveInput env).openTurns = l.openTurns := rfl

theorem lower_cases (acceptsProactiveInput : Bool) (env : SessionEnvelope) :
    (env ∈ l.unlowered ∧ l.step acceptsProactiveInput (.lower env) =
        { l with unlowered := l.unlowered.erase env, lowered := l.lowered ++ [env] }) ∨
      l.step acceptsProactiveInput (.lower env) = l := by
  by_cases h : env ∈ l.unlowered
  · left
    exact ⟨h, if_pos h⟩
  · right
    exact if_neg h

theorem foldLowered_cases (acceptsProactiveInput : Bool) :
    (∃ env rest, l.lowered = env :: rest ∧ l.step acceptsProactiveInput .foldLowered =
        { l with lowered := rest }.foldEnvelope acceptsProactiveInput env) ∨
      l.lowered = [] ∧ l.step acceptsProactiveInput .foldLowered = l := by
  cases h : l.lowered with
  | nil =>
      right
      exact ⟨rfl, by rw [step, h]⟩
  | cons env rest =>
      left
      exact ⟨env, rest, rfl, by rw [step, h]⟩

theorem foldEvent_cases (acceptsProactiveInput : Bool) :
    (∃ env rest, l.lowered = [] ∧ l.events = env :: rest ∧
        l.step acceptsProactiveInput .foldEvent =
          { l with events := rest }.foldEnvelope acceptsProactiveInput env) ∨
      l.step acceptsProactiveInput .foldEvent = l := by
  rw [step]
  split
  · next env rest hlowered hevents =>
      left
      exact ⟨env, rest, hlowered, hevents, rfl⟩
  · exact .inr rfl

theorem step_cases (acceptsProactiveInput : Bool) (a : LoopAction) :
    (l.step acceptsProactiveInput a).orchestrator = l.orchestrator ∧
        (l.step acceptsProactiveInput a).states = l.states ∧
          (∀ env ∈ l.lowered, env ∈ (l.step acceptsProactiveInput a).lowered) ∨
      ∃ (l' : FoldLoop) (env : SessionEnvelope),
        l'.orchestrator = l.orchestrator ∧ l'.states = l.states ∧
          (∀ other ∈ l.lowered, other = env ∨ other ∈ l'.lowered) ∧
            l.step acceptsProactiveInput a = l'.foldEnvelope acceptsProactiveInput env := by
  cases a with
  | dispatchSend sessionId => exact .inl ⟨rfl, rfl, fun _ ↦ id⟩
  | dispatchCancel sessionId => exact .inl ⟨rfl, rfl, fun _ ↦ id⟩
  | lower env =>
      left
      rcases l.lower_cases acceptsProactiveInput env with ⟨-, heq⟩ | heq <;> rw [heq]
      · exact ⟨rfl, rfl, fun _ ↦ List.mem_append_left _⟩
      · exact ⟨rfl, rfl, fun _ ↦ id⟩
  | emit env =>
      simp only [step]
      split <;> exact .inl ⟨rfl, rfl, fun _ ↦ id⟩
  | emitResult sessionId turnGen stamped isError apiErrorStatus resultText outcome =>
      simp only [step]
      split <;> exact .inl ⟨rfl, rfl, fun _ ↦ id⟩
  | foldLowered =>
      rcases l.foldLowered_cases acceptsProactiveInput with ⟨env, rest, h, heq⟩ | ⟨-, heq⟩ <;>
        rw [heq]
      · refine .inr ⟨{ l with lowered := rest }, env, rfl, rfl, ?_, rfl⟩
        rw [h]
        exact fun _ ↦ List.mem_cons.mp
      · exact .inl ⟨rfl, rfl, fun _ ↦ id⟩
  | foldEvent =>
      rcases l.foldEvent_cases acceptsProactiveInput with ⟨env, rest, -, -, heq⟩ | heq <;> rw [heq]
      · exact .inr ⟨{ l with events := rest }, env, rfl, rfl, fun _ ↦ .inr, rfl⟩
      · exact .inl ⟨rfl, rfl, fun _ ↦ id⟩

end FoldLoop

end Zaowutai.Session
