import Zaowutai.Conversation.RuntimeState
import Zaowutai.Lib.Receiver
import Zaowutai.Lib.Run
import Zaowutai.Stream.Events

/-!
# The background stream of a session

An agent sends its frames to every receiver of its channel.  A turn of the
user claims the conversation and subscribes a relay that reads until the end
of the turn.  A watcher reads the same channel all along: it leaves the frames
of a claimed conversation alone, and runs the others through a relay of its
own.
-/

namespace Zaowutai.Stream

open Zaowutai.Conversation Zaowutai.Lib

structure Frame where
  place : ℕ
  event : AgentStreamEvent
  deriving DecidableEq, Repr

def Frame.isTerminal (frame : Frame) : Bool := frame.event.isTerminal

def AgentStreamEvent.isContent : AgentStreamEvent → Bool
  | .text _ | .thinking _ | .toolCall _ | .acpToolCall _ | .toolGroup _ => true
  | _ => false

/-- The start of the content of a turn that the agent has initiated, not a refreshed card.  Tips
are left out. -/
def isOrphanTurnContent : AgentStreamEvent → Bool
  | .text _ | .thinking _ | .toolCall _ | .acpToolCall _ | .toolGroup _ | .plan _ | .permission
  | .acpPermission | .ask | .error _ => true
  | _ => false

structure OrphanTurn where
  turnId : String
  claim : Option TurnClaim
  feed : Receiver Frame
  /-- Nothing more is fed, and the end of the relay is awaited. -/
  closed : Bool

structure SessionStream where
  conversationId : String
  runtime : ConversationRuntimeState
  sent : List Frame
  /-- The receiver of the watcher. -/
  watched : List Frame
  /-- The user message that the next turn of the agent serves. -/
  pendingUserMsg : Option String
  orphan : Option OrphanTurn
  /-- The turn of the user, and the receiver of its relay. -/
  turn : Option TurnClaim
  relay : Receiver Frame
  /-- The frames that a relay has consumed. -/
  consumed : List Frame

inductive StreamStep
  | send (event : AgentStreamEvent)
  | claimTurn (turnId : String)
  | subscribe
  | relayReceives
  | sendFails
  | releaseTurn
  /-- The watcher reads a frame; the id is for a turn that it may open. -/
  | watch (turnId : String) (fresh : Bool)
  | orphanReceives
  | orphanIdles
  | orphanEnds
  deriving DecidableEq, Repr

namespace SessionStream

/-- A channel whose watcher has just started. -/
def start (conversationId : String) (runtime : ConversationRuntimeState) (turn : Option TurnClaim) :
    SessionStream :=
  ⟨conversationId, runtime, [], [], none, none, turn, .ended, []⟩

variable (s : SessionStream)

def send (event : AgentStreamEvent) : SessionStream :=
  let frame : Frame := ⟨s.sent.length, event⟩
  { s with
    sent := s.sent ++ [frame]
    watched := s.watched ++ [frame]
    relay := s.relay.send frame }

def claimTurn (turnId : String) : SessionStream :=
  match s.runtime.tryClaimTurn s.conversationId turnId with
  | (runtime, .ok claim) => { s with runtime, turn := some claim }
  | (runtime, .error _) => { s with runtime }

def subscribe : SessionStream :=
  if s.turn.isSome ∧ s.relay = .ended then { s with relay := .waiting [] } else s

def relayReceives : SessionStream :=
  { s with
    consumed := s.consumed ++ (s.relay.receive Frame.isTerminal).1.toList
    relay := (s.relay.receive Frame.isTerminal).2 }

def sendFails : SessionStream :=
  if s.relay.queue = [] then { s with relay := .ended } else s

def releaseTurn : SessionStream :=
  match s.turn with
  | some claim =>
      if s.relay = .ended then { s with runtime := (claim.drop s.runtime).2.1, turn := none } else s
  | none => s

def runOrphanTurn (turnId : String) (fresh : Bool) (first : Frame) : SessionStream :=
  let serving := s.pendingUserMsg.filter fun _ ↦ fresh
  let (runtime, claim) :=
    if serving.isSome then
      let (runtime, claimed) := s.runtime.tryClaimTurn s.conversationId turnId
      (runtime, claimed.toOption)
    else (s.runtime, none)
  { s with
    runtime
    pendingUserMsg := none
    orphan := some ⟨turnId, claim, .waiting [first], false⟩ }

def noteLifecycle (clientMsgId : String) : MessageLifecyclePhase → SessionStream
  | .started => { s with pendingUserMsg := some clientMsgId }
  | .completed | .cancelled =>
      if s.pendingUserMsg = some clientMsgId then { s with pendingUserMsg := none } else s
  | .queued => s

/-- Titles and lifecycle events come before the gate; cards and configurations are forwarded
without a relay. -/
def watchIdle (turnId : String) (fresh : Bool) (frame : Frame) : SessionStream :=
  match frame.event with
  | .passedOn .acpSessionInfo => s
  | .messageLifecycle clientMsgId phase => s.noteLifecycle clientMsgId phase
  | event =>
      if (s.runtime.activeTurnIdFor s.conversationId).isSome then s
      else if isOrphanTurnContent event then s.runOrphanTurn turnId fresh frame
      else s

def isForeign (turnId : String) : Bool :=
  (s.runtime.activeTurnIdFor s.conversationId).any (· ≠ turnId)

def feedOrphan (orphan : OrphanTurn) (frame : Frame) : SessionStream :=
  if s.isForeign orphan.turnId then { s with orphan := some { orphan with closed := true } }
  else { s with orphan := some { orphan with feed := orphan.feed.send frame } }

def watch (turnId : String) (fresh : Bool) : SessionStream :=
  match s.watched with
  | [] => s
  | frame :: watched =>
      match s.orphan with
      | none => { s with watched }.watchIdle turnId fresh frame
      | some orphan =>
          if orphan.closed then s else { s with watched }.feedOrphan orphan frame

def orphanReceives : SessionStream :=
  match s.orphan with
  | none => s
  | some orphan =>
      if orphan.closed ∧ orphan.feed.queue = [] then
        { s with orphan := some { orphan with feed := .ended } }
      else
        { s with
          consumed := s.consumed ++ (orphan.feed.receive Frame.isTerminal).1.toList
          orphan := some { orphan with feed := (orphan.feed.receive Frame.isTerminal).2 } }

def orphanIdles : SessionStream :=
  match s.orphan with
  | none => s
  | some orphan =>
      if s.watched = [] then { s with orphan := some { orphan with closed := true } } else s

/-- The watcher takes its receiver back. -/
def orphanEnds : SessionStream :=
  match s.orphan with
  | none => s
  | some orphan =>
      if orphan.feed = .ended then
        { s with
          runtime := (orphan.claim.map fun claim ↦ (claim.drop s.runtime).2.1).getD s.runtime
          orphan := none }
      else s

def step : StreamStep → SessionStream
  | .send event => s.send event
  | .claimTurn turnId => s.claimTurn turnId
  | .subscribe => s.subscribe
  | .relayReceives => s.relayReceives
  | .sendFails => s.sendFails
  | .releaseTurn => s.releaseTurn
  | .watch turnId fresh => s.watch turnId fresh
  | .orphanReceives => s.orphanReceives
  | .orphanIdles => s.orphanIdles
  | .orphanEnds => s.orphanEnds

end SessionStream

end Zaowutai.Stream
