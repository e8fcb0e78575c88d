import Mathlib.Logic.Function.Basic
import Zaowutai.CommandQueue.QueueState
import Zaowutai.Lib.Run

/-!
# The background runner of a command queue

While a conversation is not mounted, its runner starts the queued commands, one
after the turn of the other.  A runner is an object: the registry and an
execution that is under way refer to it, and mounting the conversation again
registers a new one.
-/

namespace Zaowutai.CommandQueue

open Zaowutai.Lib

structure RuntimeView where
  hydrated : Bool
  canSendMessage : Bool
  isProcessing : Bool
  deriving DecidableEq, Repr

def RuntimeView.sendable (view : RuntimeView) : Bool :=
  view.hydrated && view.canSendMessage && !view.isProcessing

structure BackgroundCommandQueueRunner where
  conversationId : String
  active : Bool
  executing : Bool
  deriving DecidableEq, Repr

/-- A call of `onExecute` that has not settled, by the runner that has started it. -/
structure Execution where
  runner : ℕ
  command : ConversationCommandQueueItem
  deriving DecidableEq, Repr

inductive Settlement where
  | resolved
  | busy
  | rejected
  deriving DecidableEq, Repr

/-- The runner objects by reference, of which `created` exist, and the registry. -/
structure BackgroundQueues where
  store : QueueStore
  views : String → RuntimeView
  objects : ℕ → BackgroundCommandQueueRunner
  created : ℕ
  backgroundRunners : Table String ℕ
  listening : Bool
  pending : List Execution

inductive RunnerAction where
  | register (conversationId : String)
  | detach (conversationId : String)
  | turnCompleted (conversationId : String) (view : RuntimeView)
  | settle (index : ℕ) (result : Settlement)
  | persist (conversationId : String) (state : ConversationCommandQueueState)
  | setView (conversationId : String) (view : RuntimeView)

namespace BackgroundQueues

/-- Nothing is registered yet; queues may be left from an earlier session. -/
def new (store : QueueStore) (views : String → RuntimeView) : BackgroundQueues :=
  ⟨store, views, fun _ ↦ ⟨"", false, false⟩, 0, ∅, false, []⟩

variable (s : BackgroundQueues)

def queue (conversationId : String) : ConversationCommandQueueState :=
  readPersistedQueueState s.store conversationId

/-- `releaseBackgroundTurnCompletedListener` after the runner has been deleted. -/
def deleteRunner (conversationId : String) : BackgroundQueues :=
  let backgroundRunners := s.backgroundRunners.erase conversationId
  { s with
    backgroundRunners
    listening := if backgroundRunners.entries = [] then false else s.listening }

def setExecuting (runner : ℕ) (executing : Bool) : BackgroundQueues :=
  { s with objects := Function.update s.objects runner { s.objects runner with executing } }

/-- `drainBackgroundCommandQueue` up to its `await`. -/
def drain (runner : ℕ) : BackgroundQueues :=
  let conversationId := (s.objects runner).conversationId
  if (s.objects runner).active ∨ (s.objects runner).executing then s
  else
    let state := s.queue conversationId
    match state.items with
    | [] => s.deleteRunner conversationId
    | nextCommand :: remainingCommands =>
        if state.isPaused ∨ state.mode = .manual then s
        else if !(s.views conversationId).sendable then s
        else
          { s.setExecuting runner true with
            store := persistQueueState s.store conversationId
              { state with
                items := remainingCommands
                isPaused := false }
            pending := s.pending ++ [⟨runner, nextCommand⟩] }

def register (conversationId : String) : BackgroundQueues :=
  let executing := match s.backgroundRunners.lookup conversationId with
    | none => false
    | some existing => (s.objects existing).executing
  { s with
    objects := Function.update s.objects s.created ⟨conversationId, true, executing⟩
    created := s.created + 1
    backgroundRunners := s.backgroundRunners.insert conversationId s.created
    listening := true }

def detach (conversationId : String) : BackgroundQueues :=
  match s.backgroundRunners.lookup conversationId with
  | none => s
  | some runner =>
      let state := s.queue conversationId
      if state.items = [] ∨ state.isPaused ∨ state.mode = .manual then
        s.deleteRunner conversationId
      else
        let detached := { s.objects runner with active := false }
        { s with objects := Function.update s.objects runner detached }.drain runner

def turnCompleted (conversationId : String) (view : RuntimeView) : BackgroundQueues :=
  if !s.listening then s
  else match s.backgroundRunners.lookup conversationId with
    | none => s
    | some runner =>
        if (s.objects runner).active then s
        else { s with views := Function.update s.views conversationId view }.drain runner

def restore (conversationId : String) (command : ConversationCommandQueueItem) (isPaused : Bool) :
    BackgroundQueues :=
  let failedState := s.queue conversationId
  { s with
    store := persistQueueState s.store conversationId
      { failedState with
        items := restoreQueuedCommand failedState.items command
        isPaused } }

/-- `drainBackgroundCommandQueue` after its `await`. -/
def settled (execution : Execution) (result : Settlement) : BackgroundQueues :=
  let conversationId := (s.objects execution.runner).conversationId
  match result with
  | .resolved => (s.setExecuting execution.runner false).drain execution.runner
  | .busy => (s.restore conversationId execution.command false).setExecuting execution.runner false
  | .rejected =>
      let restored := s.restore conversationId execution.command true
      (restored.setExecuting execution.runner false).drain execution.runner

def settle (index : ℕ) (result : Settlement) : BackgroundQueues :=
  match s.pending[index]? with
  | none => s
  | some execution => { s with pending := s.pending.eraseIdx index }.settled execution result

def step : RunnerAction → BackgroundQueues
  | .register conversationId => s.register conversationId
  | .detach conversationId => s.detach conversationId
  | .turnCompleted conversationId view => s.turnCompleted conversationId view
  | .settle index result => s.settle index result
  | .persist conversationId state =>
      { s with store := persistQueueState s.store conversationId state }
  | .setView conversationId view =>
      { s with views := Function.update s.views conversationId view }

end BackgroundQueues

end Zaowutai.CommandQueue
