import Zaowutai.CommandQueue.BackgroundRunner

/-!
# The draft queue of a conversation

The hook of a mounted conversation works on three copies of the queue: the
state of the last render, a reference that the calls of the user read, and the
shared cache whose content an update is applied to.  Every update is persisted;
the background runner works on the persisted queue alone, which the cache takes
over when it fetches.
-/

namespace Zaowutai.CommandQueue

open Zaowutai.Lib

/-- The reasons to reject a command, in the order in which they are checked. -/
inductive QueueValidationFailureReason where
  | emptyInput
  | inputTooLong
  | tooManyFiles
  | queueFull
  | queueTooLarge
  deriving DecidableEq, Repr

def getQueueValidationFailureReason (state : ConversationCommandQueueState) :
    Option QueueValidationFailureReason :=
  if state.items.length > maxQueuedCommands then some .queueFull
  else if state.items.any fun item ↦ isInputEmpty item.input then some .emptyInput
  else if state.items.any fun item ↦ utf16Length item.input > maxQueuedCommandInputLength then
    some .inputTooLong
  else if state.items.any fun item ↦ item.files.length > maxQueuedCommandFiles then
    some .tooManyFiles
  else if measureQueueStateBytes state > maxQueuedCommandStateBytes then some .queueTooLarge
  else none

def reorderQueuedCommand (items : List ConversationCommandQueueItem)
    (activeCommandId overCommandId : String) : List ConversationCommandQueueItem :=
  match items.find? fun item ↦ item.id = activeCommandId with
  | none => items
  | some movedItem =>
      let fromIndex := items.findIdx fun item ↦ item.id = activeCommandId
      let targetIndex := items.findIdx fun item ↦ item.id = overCommandId
      if targetIndex = items.length ∨ fromIndex = targetIndex then items
      else (items.eraseIdx fromIndex).insertIdx targetIndex movedItem

def updateQueuedCommand (items : List ConversationCommandQueueItem) (commandId input : String) :
    List ConversationCommandQueueItem :=
  items.map fun item ↦ if item.id = commandId then { item with input } else item

namespace ConversationCommandQueueState

variable (state : ConversationCommandQueueState)

def withItems (items : List ConversationCommandQueueItem) : ConversationCommandQueueState :=
  { state with
    items
    isPaused := false }

def removed (commandId : String) : ConversationCommandQueueState :=
  state.withItems (removeQueuedCommand state.items commandId)

def prioritized (commandId : String) : ConversationCommandQueueState :=
  match state.items.find? fun item ↦ item.id = commandId with
  | none => state
  | some target => ⟨target :: removeQueuedCommand state.items commandId, false, .auto⟩

def reordered (activeCommandId overCommandId : String) : ConversationCommandQueueState :=
  state.withItems (reorderQueuedCommand state.items activeCommandId overCommandId)

def paused : ConversationCommandQueueState :=
  if state.items = [] then createDefaultQueueState else { state with isPaused := true }

def resumed : ConversationCommandQueueState :=
  { state with isPaused := if state.items = [] then state.isPaused else false }

def toggled : ConversationCommandQueueState :=
  { state with mode := match state.mode with | .auto => .manual | .manual => .auto }

/-- A failed command is back at the front. -/
def restored (command : ConversationCommandQueueItem) (isPaused : Bool) :
    ConversationCommandQueueState :=
  { state with
    items := restoreQueuedCommand state.items command
    isPaused }

end ConversationCommandQueueState

structure CommandQueueExecutionGate where
  hydrated : Bool
  canExecute : Bool
  isProcessing : Bool
  deriving DecidableEq, Repr

/-- What a render shows, and what its effects work on. -/
structure Rendered where
  data : ConversationCommandQueueState
  gate : CommandQueueExecutionGate
  isInteractionLocked : Bool
  executionGateVersion : ℕ
  deriving DecidableEq, Repr

structure Refs where
  state : ConversationCommandQueueState
  paused : Bool
  waitingForTurnStart : Bool
  waitingForTurnCompletion : Bool
  waitingForBusyRelease : Bool
  observedBusyBlockedGate : Bool
  interactionLocked : Bool
  deriving DecidableEq, Repr

structure Hook where
  number : ℕ
  rendered : Rendered
  effected : Option Rendered
  refs : Refs
  isInteractionLocked : Bool
  executionGateVersion : ℕ
  deriving DecidableEq, Repr

structure ForegroundExecution where
  hook : ℕ
  command : ConversationCommandQueueItem
  deriving DecidableEq, Repr

/-- The commands `enqueue` has returned are `accepted`; those that are over are `finished`. -/
structure DraftQueue where
  conversationId : String
  background : BackgroundQueues
  cache : Option ConversationCommandQueueState
  fetching : Option ConversationCommandQueueState
  hook : Option Hook
  mounts : ℕ
  executions : List ForegroundExecution
  accepted : List String
  finished : List String

inductive DraftAction where
  | mount (gate : CommandQueueExecutionGate)
  | unmount
  | render (gate : CommandQueueExecutionGate)
  | effects
  | fetch
  | fetched
  | enqueue (id input : String) (files : List ChatFileRef) (sessions : Option (List SessionRef))
      (now : ℕ)
  | update (commandId input : String)
  | remove (commandId : String)
  | prioritize (commandId : String)
  | sendNow (commandId : String)
  | reorder (activeCommandId overCommandId : String)
  | pause
  | resume
  | toggleMode
  | clear
  | deleteConversation
  | lockInteraction
  | unlockInteraction
  | resetActiveExecution
  | settle (index : ℕ) (result : Settlement)
  | turnCompleted (view : RuntimeView)
  | settleBackground (index : ℕ) (result : Settlement)
  | setView (view : RuntimeView)

def Refs.watchGate (refs : Refs) (gate : CommandQueueExecutionGate) : Refs :=
  let watchTurn (refs : Refs) : Refs :=
    if refs.waitingForTurnStart ∧ gate.isProcessing then
      { refs with
        observedBusyBlockedGate := true
        waitingForTurnStart := false
        waitingForTurnCompletion := true }
    else
      let refs := if refs.waitingForTurnStart ∧ gate.hydrated ∧ gate.canExecute then
          { refs with
            waitingForTurnStart := false
            waitingForTurnCompletion := false
            observedBusyBlockedGate := false }
        else refs
      if refs.waitingForTurnCompletion ∧ gate.hydrated ∧ gate.canExecute then
        { refs with waitingForTurnCompletion := false }
      else refs
  if !refs.waitingForBusyRelease then watchTurn refs
  else if !gate.hydrated ∨ !gate.canExecute ∨ gate.isProcessing then
    { refs with observedBusyBlockedGate := true }
  else if !refs.observedBusyBlockedGate then refs
  else watchTurn { refs with
    waitingForBusyRelease := false
    observedBusyBlockedGate := false
    waitingForTurnStart := false
    waitingForTurnCompletion := false }

def Refs.stopWaiting (refs : Refs) : Refs :=
  { refs with
    waitingForTurnStart := false
    waitingForTurnCompletion := false
    waitingForBusyRelease := false
    observedBusyBlockedGate := false }

def Refs.failed (refs : Refs) (busy : Bool) : Refs :=
  if busy then
    { refs with
      waitingForBusyRelease := true
      waitingForTurnStart := false
      waitingForTurnCompletion := true
      paused := false }
  else
    { refs with
      waitingForTurnStart := false
      waitingForTurnCompletion := false
      paused := true }

namespace Hook

variable (hook : Hook)

def changed {α : Type} [DecidableEq α] (dependency : Rendered → α) : Bool :=
  hook.effected.map dependency ≠ some (dependency hook.rendered)

def runRefEffects : Hook :=
  let data := hook.rendered.data
  let gate := hook.rendered.gate
  let refs := if hook.changed (·.data) then { hook.refs with state := data } else hook.refs
  let refs := if hook.changed fun r ↦ (r.data.items.length, r.gate) then refs.watchGate gate
    else refs
  let refs := if hook.changed (·.data.isPaused) then { refs with paused := data.isPaused } else refs
  let refs := if hook.changed (·.isInteractionLocked) then
      { refs with interactionLocked := hook.rendered.isInteractionLocked }
    else refs
  { hook with refs }

def dequeues : Option (ConversationCommandQueueItem × List ConversationCommandQueueItem) :=
  let data := hook.rendered.data
  let gate := hook.rendered.gate
  let changed := hook.changed fun r ↦
    (r.data.items, r.data.mode, r.executionGateVersion, r.gate, r.isInteractionLocked)
  let refs := hook.refs
  if !changed ∨ data.mode = .manual ∨ !gate.hydrated ∨ refs.paused ∨ !gate.canExecute ∨
      refs.waitingForTurnStart ∨ refs.waitingForTurnCompletion ∨ refs.waitingForBusyRelease ∨
      refs.interactionLocked then
    none
  else match data.items with
    | [] => none
    | nextCommand :: remainingCommands => some (nextCommand, remainingCommands)

end Hook

namespace DraftQueue

def new (conversationId : String) (views : String → RuntimeView) : DraftQueue :=
  ⟨conversationId, .new ∅ views, none, none, none, 0, [], [], []⟩

variable (s : DraftQueue)

def queue : ConversationCommandQueueState := s.background.queue s.conversationId

def data : ConversationCommandQueueState := s.cache.getD createDefaultQueueState

def mapRefs (number : ℕ) (f : Refs → Refs) : DraftQueue :=
  { s with
    hook := s.hook.map fun hook ↦
      if hook.number = number then { hook with refs := f hook.refs } else hook }

def persist (state : ConversationCommandQueueState) : DraftQueue :=
  { s with
    background := { s.background with
      store := persistQueueState s.background.store s.conversationId state } }

def updateState (number : ℕ)
    (updater : ConversationCommandQueueState → ConversationCommandQueueState) : DraftQueue :=
  let nextState := normalizeQueueState (updater s.data)
  let refsWritten := s.mapRefs number fun refs ↦
    { refs with
      state := nextState
      paused := nextState.isPaused }
  { refsWritten.persist nextState with
    cache := some nextState
    fetching := none }

def mount (gate : CommandQueueExecutionGate) : DraftQueue :=
  if s.hook.isSome then s
  else
    { s with
      hook := some
        { number := s.mounts
          rendered := ⟨s.data, gate, false, 0⟩
          effected := none
          refs := ⟨s.data, s.data.isPaused, false, false, false, false, false⟩
          isInteractionLocked := false
          executionGateVersion := 0 }
      mounts := s.mounts + 1 }

def unmount : DraftQueue :=
  match s.hook with
  | none => s
  | some hook =>
      let background := if hook.effected.isSome then s.background.detach s.conversationId
        else s.background
      { s with
        background
        hook := none }

def render (gate : CommandQueueExecutionGate) : DraftQueue :=
  { s with
    hook := s.hook.map fun hook ↦
      if hook.effected = some hook.rendered then
        { hook with
          rendered := ⟨s.data, gate, hook.isInteractionLocked, hook.executionGateVersion⟩ }
      else hook }

def effects : DraftQueue :=
  match s.hook with
  | none => s
  | some hook =>
      let background := if hook.effected.isNone then s.background.register s.conversationId
        else s.background
      let ran := hook.runRefEffects
      let effected := { ran with effected := some hook.rendered }
      let s' := { s with
        background
        hook := some effected }
      match ran.dequeues with
      | none => s'
      | some (nextCommand, remainingCommands) =>
          let waiting := s'.mapRefs hook.number fun refs ↦
            { refs with
              waitingForTurnStart := true
              observedBusyBlockedGate := false }
          let updated := waiting.updateState hook.number (·.withItems remainingCommands)
          { updated with executions := s.executions ++ [⟨hook.number, nextCommand⟩] }

def enqueue (id input : String) (files : List ChatFileRef) (sessions : Option (List SessionRef))
    (now : ℕ) : DraftQueue :=
  match s.hook with
  | none => s
  | some hook =>
      let currentState := normalizeQueueState hook.refs.state
      let item := ⟨id, input, uniqueFiles files, normalizeSessionRefs sessions, now⟩
      let nextState := { currentState with items := currentState.items ++ [item] }
      if id ∈ s.accepted ∨ (getQueueValidationFailureReason nextState).isSome then s
      else { s.updateState hook.number fun _ ↦ nextState with accepted := s.accepted ++ [id] }

def update (commandId input : String) : DraftQueue :=
  match s.hook with
  | none => s
  | some hook =>
      let currentState := normalizeQueueState hook.refs.state
      let nextState := { currentState with
        isPaused := false
        items := updateQueuedCommand currentState.items commandId input }
      if (∀ item ∈ currentState.items, item.id ≠ commandId) ∨
          (getQueueValidationFailureReason nextState).isSome then s
      else s.updateState hook.number fun _ ↦ nextState

def call (updater : ConversationCommandQueueState → ConversationCommandQueueState) : DraftQueue :=
  match s.hook with
  | none => s
  | some hook => s.updateState hook.number updater

/-- What of the cached queue is taken out by the user is over. -/
def discard (p : ConversationCommandQueueItem → Bool) : DraftQueue :=
  if s.hook.isNone then s
  else { s with finished := s.finished ++ (s.data.items.filter p).map (·.id) }

def remove (commandId : String) : DraftQueue :=
  (s.discard fun item ↦ item.id = commandId).call (·.removed commandId)

def prioritize (commandId : String) : DraftQueue :=
  s.call (·.prioritized commandId)

def sendNow (commandId : String) : DraftQueue :=
  match s.hook with
  | none => s
  | some hook =>
      match (normalizeQueueState hook.refs.state).items.find? fun item ↦ item.id = commandId with
      | none => s
      | some target =>
          let waiting := s.mapRefs hook.number fun refs ↦
            { refs with
              waitingForTurnStart := true
              waitingForTurnCompletion := false
              observedBusyBlockedGate := false }
          let updated := waiting.updateState hook.number (·.removed commandId)
          { updated with executions := s.executions ++ [⟨hook.number, target⟩] }

def reorder (activeCommandId overCommandId : String) : DraftQueue :=
  s.call (·.reordered activeCommandId overCommandId)

def mapHookRefs (f : Refs → Refs) : DraftQueue :=
  { s with hook := s.hook.map fun hook ↦ { hook with refs := f hook.refs } }

def pause : DraftQueue :=
  (s.mapHookRefs Refs.stopWaiting).call (·.paused)

def resume : DraftQueue :=
  s.call (·.resumed)

def toggleMode : DraftQueue :=
  s.call (·.toggled)

def clear : DraftQueue :=
  ((s.mapHookRefs Refs.stopWaiting).discard fun _ ↦ true).call fun _ ↦ createDefaultQueueState

def deleteConversation : DraftQueue :=
  if s.hook.isNone then s
  else
    { s.clear with
      background := { s.clear.background with
        store := s.clear.background.store.erase s.conversationId } }

def setInteractionLocked (locked : Bool) : DraftQueue :=
  { s with
    hook := s.hook.map fun hook ↦
      { hook with
        refs := { hook.refs with interactionLocked := locked }
        isInteractionLocked := locked } }

def resetActiveExecution : DraftQueue :=
  { s with
    hook := s.hook.map fun hook ↦
      let hadPendingTurn := hook.refs.waitingForTurnStart ∨ hook.refs.waitingForTurnCompletion ∨
        hook.refs.waitingForBusyRelease
      { hook with
        refs := hook.refs.stopWaiting
        executionGateVersion := hook.executionGateVersion + if hadPendingTurn then 1 else 0 } }

def restore (execution : ForegroundExecution) (busy : Bool) : DraftQueue :=
  (s.mapRefs execution.hook fun refs ↦ refs.failed busy).updateState execution.hook
    (·.restored execution.command !busy)

def settle (index : ℕ) (result : Settlement) : DraftQueue :=
  match s.executions[index]? with
  | none => s
  | some execution =>
      let s := { s with executions := s.executions.eraseIdx index }
      match result with
      | .resolved => { s with finished := s.finished ++ [execution.command.id] }
      | .busy => s.restore execution true
      | .rejected => s.restore execution false

def settleBackground (index : ℕ) (result : Settlement) : DraftQueue :=
  match s.background.pending[index]? with
  | none => s
  | some execution =>
      { s with
        background := s.background.settle index result
        finished := if result = .resolved then s.finished ++ [execution.command.id]
          else s.finished }

def step : DraftAction → DraftQueue
  | .mount gate => s.mount gate
  | .unmount => s.unmount
  | .render gate => s.render gate
  | .effects => s.effects
  | .fetch => if s.hook.isNone then s else { s with fetching := some s.queue }
  | .fetched =>
      { s with
        cache := s.fetching.orElse fun _ ↦ s.cache
        fetching := none }
  | .enqueue id input files sessions now => s.enqueue id input files sessions now
  | .update commandId input => s.update commandId input
  | .remove commandId => s.remove commandId
  | .prioritize commandId => s.prioritize commandId
  | .sendNow commandId => s.sendNow commandId
  | .reorder activeCommandId overCommandId => s.reorder activeCommandId overCommandId
  | .pause => s.pause
  | .resume => s.resume
  | .toggleMode => s.toggleMode
  | .clear => s.clear
  | .deleteConversation => s.deleteConversation
  | .lockInteraction => s.setInteractionLocked true
  | .unlockInteraction => s.setInteractionLocked false
  | .resetActiveExecution => s.resetActiveExecution
  | .settle index result => s.settle index result
  | .turnCompleted view =>
      { s with background := s.background.turnCompleted s.conversationId view }
  | .settleBackground index result => s.settleBackground index result
  | .setView view => { s with background := s.background.step (.setView s.conversationId view) }

end DraftQueue

end Zaowutai.CommandQueue
