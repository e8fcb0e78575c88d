import Mathlib.Data.Finset.Basic
import Zaowutai.Lib.Table

/-!
# The runtime state of the conversations

Every operation runs under one lock, so it is a function of the state.  The
turn, the flags and the deferred cancel of a conversation are kept apart, each
keyed by the conversation.
-/

namespace Zaowutai.Conversation

open Zaowutai.Lib

inductive ConversationError
  | busy (reason : String)
  | runtimeRestarting (conversationId : String)
  deriving DecidableEq, Repr

inductive OncePerTurn
  | claimRejected
  | midturnRefusal
  deriving DecidableEq, Repr

/-- The right to run a turn; it gives the turn back once, at the latest when it is dropped. -/
structure TurnClaim where
  conversationId : String
  turnId : String
  released : Bool
  deriving DecidableEq, Repr

inductive RuntimeLifecycleState
  | active
  | deleting
  | cancelling
  | shuttingDown
  deriving DecidableEq, Repr

structure ConversationRuntimeState where
  activeTurns : Table String String
  deletingConversations : Finset String
  cancellingConversations : Finset String
  restartingConversations : Finset String
  /-- The turns whose cancel arrived before their agent was registered. -/
  deferredCancels : Table String String
  loggedOncePerTurn : Table (OncePerTurn × String) String
  shuttingDown : Bool

namespace ConversationRuntimeState

def new : ConversationRuntimeState := ⟨∅, ∅, ∅, ∅, ∅, ∅, false⟩

variable (s : ConversationRuntimeState)

/-- Whether the event is still worth a line for the turn; a first report is recorded. -/
def shouldLogOnceForTurn (event : OncePerTurn) (conversationId turnId : String) :
    ConversationRuntimeState × Bool :=
  if s.loggedOncePerTurn.lookup (event, conversationId) = some turnId then (s, false)
  else ({ s with
    loggedOncePerTurn := s.loggedOncePerTurn.insert (event, conversationId) turnId }, true)

def tryClaimTurn (conversationId turnId : String) :
    ConversationRuntimeState × Except ConversationError TurnClaim :=
  if s.shuttingDown then (s, .error (.busy "conversation runtime is shutting down"))
  else if conversationId ∈ s.deletingConversations then
    (s, .error (.busy s!"conversation {conversationId} is being deleted"))
  else if conversationId ∈ s.restartingConversations then
    (s, .error (.runtimeRestarting conversationId))
  else match s.activeTurns.lookup conversationId with
    | some activeTurnId =>
        -- keyed on the active turn: the rejected id is minted anew on each retry
        ((s.shouldLogOnceForTurn .claimRejected conversationId activeTurnId).1,
          .error (.busy s!"conversation {conversationId} is already running"))
    | none =>
        ({ s with activeTurns := s.activeTurns.insert conversationId turnId },
          .ok ⟨conversationId, turnId, false⟩)

def activeTurnIdFor (conversationId : String) : Option String :=
  s.activeTurns.lookup conversationId

def markDeleting (conversationId : String) : ConversationRuntimeState × Bool :=
  ({ s with deletingConversations := insert conversationId s.deletingConversations },
    (s.activeTurns.lookup conversationId).isSome)

def clearDeleting (conversationId : String) : ConversationRuntimeState :=
  { s with deletingConversations := s.deletingConversations.erase conversationId }

def markCancelling (conversationId : String) : ConversationRuntimeState :=
  { s with cancellingConversations := insert conversationId s.cancellingConversations }

def clearCancelling (conversationId : String) : ConversationRuntimeState :=
  { s with cancellingConversations := s.cancellingConversations.erase conversationId }

def deferCancel (conversationId turnId : String) : ConversationRuntimeState :=
  { s with deferredCancels := s.deferredCancels.insert conversationId turnId }

/-- A record of another turn is left where it is. -/
def takeDeferredCancel (conversationId turnId : String) : ConversationRuntimeState × Bool :=
  if s.deferredCancels.lookup conversationId = some turnId then
    ({ s with deferredCancels := s.deferredCancels.erase conversationId }, true)
  else (s, false)

def beginRestart (conversationId : String) :
    ConversationRuntimeState × Except ConversationError Unit :=
  if s.shuttingDown then (s, .error (.busy "conversation runtime is shutting down"))
  else if conversationId ∈ s.deletingConversations then
    (s, .error (.busy s!"conversation {conversationId} is being deleted"))
  else if conversationId ∈ s.restartingConversations then
    (s, .error (.runtimeRestarting conversationId))
  else
    ({ s with restartingConversations := insert conversationId s.restartingConversations }, .ok ())

def clearRestarting (conversationId : String) : ConversationRuntimeState :=
  { s with restartingConversations := s.restartingConversations.erase conversationId }

/-- The restart gate stays until the replacement runtime is ready. -/
def clearTurnStateForRestart (conversationId : String) : ConversationRuntimeState :=
  { s with
    activeTurns := s.activeTurns.erase conversationId
    cancellingConversations := s.cancellingConversations.erase conversationId
    deferredCancels := s.deferredCancels.erase conversationId }

def clearConversation (conversationId : String) : ConversationRuntimeState :=
  { s with
    activeTurns := s.activeTurns.erase conversationId
    deletingConversations := s.deletingConversations.erase conversationId
    cancellingConversations := s.cancellingConversations.erase conversationId
    restartingConversations := s.restartingConversations.erase conversationId
    deferredCancels := s.deferredCancels.erase conversationId
    loggedOncePerTurn := s.loggedOncePerTurn.retain fun key _ ↦ key.2 != conversationId }

def markShuttingDown : ConversationRuntimeState := { s with shuttingDown := true }

def lifecycleFor (conversationId : String) : RuntimeLifecycleState :=
  if s.shuttingDown then .shuttingDown
  else if conversationId ∈ s.deletingConversations then .deleting
  else if conversationId ∈ s.cancellingConversations then .cancelling
  else .active

def release (conversationId turnId : String) : ConversationRuntimeState × Bool :=
  if s.activeTurns.lookup conversationId = some turnId then
    ({ s with
      activeTurns := s.activeTurns.erase conversationId
      deletingConversations := s.deletingConversations.erase conversationId
      cancellingConversations := s.cancellingConversations.erase conversationId },
      decide (conversationId ∈ s.deletingConversations))
  else (s, false)

end ConversationRuntimeState

namespace TurnClaim

variable (claim : TurnClaim) (s : ConversationRuntimeState)

def releaseInner : TurnClaim × ConversationRuntimeState × Bool :=
  if claim.released then (claim, s, false)
  else ({ claim with released := true }, s.release claim.conversationId claim.turnId)

def release : TurnClaim × ConversationRuntimeState × Bool := claim.releaseInner s

def releaseForTurn (turnId : String) : TurnClaim × ConversationRuntimeState × Bool :=
  if claim.turnId ≠ turnId then (claim, s, false) else claim.releaseInner s

def drop : TurnClaim × ConversationRuntimeState × Bool := claim.releaseInner s

end TurnClaim

inductive RuntimeWriteKind
  | userMessage
  | assistantTextCreate
  | assistantTextFlush
  | assistantTextFinalize
  | assistantThinkingFinalize
  | toolCallPersist
  | acpToolCallPersist
  | toolGroupPersist
  | terminalFinalize
  | conversationFinished
  | sendFailureTip
  | sessionKey
  | acpRecoveryCleanup
  | resolvedWorkspace
  | startupRecovery
  deriving DecidableEq, Repr

inductive RuntimeWriteDecision
  | allow
  | skip (lifecycle : RuntimeLifecycleState)
  deriving DecidableEq, Repr

def RuntimeLifecycleState.allows : RuntimeLifecycleState → RuntimeWriteKind → Bool
  | .active, _ => true
  | .deleting, kind => kind = .userMessage
  | .cancelling, kind =>
      kind = .assistantTextCreate || kind = .assistantTextFlush || kind = .assistantTextFinalize ||
        kind = .assistantThinkingFinalize || kind = .toolCallPersist ||
          kind = .acpToolCallPersist || kind = .toolGroupPersist || kind = .terminalFinalize ||
            kind = .conversationFinished
  | .shuttingDown, kind => kind = .userMessage

/-- `RuntimePersistenceCoordinator::decide`: whether the write may go ahead. -/
def ConversationRuntimeState.decide (s : ConversationRuntimeState) (conversationId : String)
    (kind : RuntimeWriteKind) : RuntimeWriteDecision :=
  let lifecycle := s.lifecycleFor conversationId
  if lifecycle.allows kind then .allow else .skip lifecycle

namespace ConversationRuntimeState

theorem tryClaimTurn_cases (s : ConversationRuntimeState) (conversationId turnId : String) :
    (s.shuttingDown = false ∧ conversationId ∉ s.deletingConversations ∧
        conversationId ∉ s.restartingConversations ∧
          s.activeTurns.lookup conversationId = none) ∧
        s.tryClaimTurn conversationId turnId =
          ({ s with activeTurns := s.activeTurns.insert conversationId turnId },
            .ok ⟨conversationId, turnId, false⟩) ∨
      ¬ (s.shuttingDown = false ∧ conversationId ∉ s.deletingConversations ∧
          conversationId ∉ s.restartingConversations ∧
            s.activeTurns.lookup conversationId = none) ∧
        ∃ logged error, s.tryClaimTurn conversationId turnId =
          ({ s with loggedOncePerTurn := logged }, .error error) := by
  by_cases hshutting : s.shuttingDown = true
  · exact .inr ⟨by simp [hshutting], _, _, by rw [tryClaimTurn, if_pos hshutting]⟩
  by_cases hdeleting : conversationId ∈ s.deletingConversations
  · exact .inr ⟨by simp [hdeleting], _, _, by
      rw [tryClaimTurn, if_neg hshutting, if_pos hdeleting]⟩
  by_cases hrestarting : conversationId ∈ s.restartingConversations
  · exact .inr ⟨by simp [hrestarting], _, _, by
      rw [tryClaimTurn, if_neg hshutting, if_neg hdeleting, if_pos hrestarting]⟩
  cases hactive : s.activeTurns.lookup conversationId with
  | none =>
      left
      refine ⟨⟨eq_false_of_ne_true hshutting, hdeleting, hrestarting, rfl⟩, ?_⟩
      rw [tryClaimTurn, if_neg hshutting, if_neg hdeleting, if_neg hrestarting, hactive]
  | some activeTurnId =>
      right
      refine ⟨by simp, ?_⟩
      rw [tryClaimTurn, if_neg hshutting, if_neg hdeleting, if_neg hrestarting, hactive]
      simp only [shouldLogOnceForTurn]
      split
      · exact ⟨_, _, rfl⟩
      · exact ⟨_, _, rfl⟩

theorem release_cases (s : ConversationRuntimeState) (conversationId turnId : String) :
    s.activeTurns.lookup conversationId = some turnId ∧
        (s.release conversationId turnId).1 =
          { s with
            activeTurns := s.activeTurns.erase conversationId
            deletingConversations := s.deletingConversations.erase conversationId
            cancellingConversations := s.cancellingConversations.erase conversationId } ∨
      s.activeTurns.lookup conversationId ≠ some turnId ∧
        (s.release conversationId turnId).1 = s := by
  by_cases h : s.activeTurns.lookup conversationId = some turnId
  · exact .inl ⟨h, by rw [release, if_pos h]⟩
  · exact .inr ⟨h, by rw [release, if_neg h]⟩

theorem takeDeferredCancel_cases (s : ConversationRuntimeState)
    (conversationId turnId : String) :
    s.deferredCancels.lookup conversationId = some turnId ∧
        s.takeDeferredCancel conversationId turnId =
          ({ s with deferredCancels := s.deferredCancels.erase conversationId }, true) ∨
      s.deferredCancels.lookup conversationId ≠ some turnId ∧
        s.takeDeferredCancel conversationId turnId = (s, false) := by
  by_cases h : s.deferredCancels.lookup conversationId = some turnId
  · exact .inl ⟨h, by rw [takeDeferredCancel, if_pos h]⟩
  · exact .inr ⟨h, by rw [takeDeferredCancel, if_neg h]⟩

theorem beginRestart_cases (s : ConversationRuntimeState) (conversationId : String) :
    s.beginRestart conversationId =
        ({ s with restartingConversations := insert conversationId s.restartingConversations },
          .ok ()) ∨
      ∃ error, s.beginRestart conversationId = (s, .error error) := by
  simp only [beginRestart]
  split
  · exact .inr ⟨_, rfl⟩
  split
  · exact .inr ⟨_, rfl⟩
  split
  · exact .inr ⟨_, rfl⟩
  · exact .inl rfl

end ConversationRuntimeState

end Zaowutai.Conversation
