import Mathlib.Algebra.Ring.Nat
import Zaowutai.Lib.Run
import Zaowutai.Lib.Index

/-!
# Cross-session messages

A message whose target is not ready waits in a queue of its target.  One
drainer takes the heads of all queues, attempts to deliver each of them outside
the lock, and afterwards removes what is then the head of the target's queue.
Calls of `send`, turns that are cancelled and the drainer come in any order;
each step is one access to the queue, or one delivery.
-/

namespace Zaowutai.SessionMessage

open Zaowutai.Lib

def perTargetLimit : ℕ := 20

def globalLimit : ℕ := 200

def ttlMs : ℤ := 10 * 60 * 1000

structure PendingDelivery where
  toConversationId : String
  userId : String
  fromConversationId : String
  message : String
  expiresAtMs : ℤ
  call : ℕ
  queuedAt : ℕ
  deriving DecidableEq, Repr

structure DeliveryQueue where
  byTarget : Buckets String PendingDelivery
  total : ℕ

namespace DeliveryQueue

variable (q : DeliveryQueue)

def bucket (target : String) : List PendingDelivery := Buckets.bucket q.byTarget target

/-- `none` is the answer that the queue is full. -/
def push (item : PendingDelivery) : Option DeliveryQueue :=
  if q.total ≥ globalLimit ∨ (q.bucket item.toConversationId).length ≥ perTargetLimit then none
  else some ⟨Buckets.pushBack item.toConversationId item q.byTarget, q.total + 1⟩

def dropExpired (now : ℤ) : DeliveryQueue × ℕ :=
  let kept := Buckets.filterEach (fun item : PendingDelivery ↦ now < item.expiresAtMs) q.byTarget
  let dropped := (q.byTarget.values.map List.length).sum - (kept.values.map List.length).sum
  (⟨kept, q.total - dropped⟩, dropped)

/-- The heads come in the order of the map, whatever it is. -/
def snapshotHeads (rank : String → ℕ) : List PendingDelivery :=
  Buckets.heads (Table.reorder rank q.byTarget)

def removeHead (target : String) : DeliveryQueue where
  byTarget := Buckets.popFront target q.byTarget
  total := if (q.bucket target).isEmpty then q.total else q.total - 1

def clearFor (target : String) : DeliveryQueue × ℕ :=
  (⟨q.byTarget.erase target, q.total - (q.bucket target).length⟩, (q.bucket target).length)

end DeliveryQueue

inductive DeliveryOutcome
  | delivered
  | busy
  | hardError
  deriving DecidableEq, Repr

inductive SessionDeliveryStatus
  | delivered
  | queued
  deriving DecidableEq, Repr

inductive SessionMessageError
  | queueFull
  | transportUnavailable
  deriving DecidableEq, Repr

inductive TurnCancelCause
  | userRequested
  | runtimeRestart
  deriving DecidableEq, Repr

inductive SendPhase
  | delivering
  | queueing
  | accepted (status : SessionDeliveryStatus) (acceptedAt : ℕ)
  | returned (status : SessionDeliveryStatus) (acceptedAt returnedAt : ℕ)
  | refused (error : SessionMessageError)
  deriving DecidableEq, Repr

structure SendCall where
  toConversationId : String
  userId : String
  fromConversationId : String
  content : String
  phase : SendPhase
  deriving DecidableEq, Repr

inductive DrainerPhase
  | idle
  | expired
  | draining (heads : List PendingDelivery)
  | delivering (item : PendingDelivery) (heads : List PendingDelivery)
  | settling (item : PendingDelivery) (outcome : DeliveryOutcome) (heads : List PendingDelivery)
  deriving DecidableEq, Repr

structure Delivery where
  call : ℕ
  toConversationId : String
  acceptedAt : ℕ
  deriving DecidableEq, Repr

structure Messages where
  now : ℤ
  queue : DeliveryQueue
  drainer : DrainerPhase
  calls : Table ℕ SendCall
  events : ℕ
  delivered : List Delivery
  cancelled : List ℕ

inductive MessageAction
  | advance (ms : ℤ)
  | enter (call : ℕ) (userId fromConversationId target content : String)
  | attempt (call : ℕ) (outcome : DeliveryOutcome)
  | push (call : ℕ)
  | returnCall (call : ℕ)
  | dropExpired
  | snapshot (rank : String → ℕ)
  | gate (enabled : Bool)
  | deliver (outcome : DeliveryOutcome)
  | settle
  | turnCancelled (conversationId : String) (cause : TurnCancelCause)

namespace Messages

def new : Messages := ⟨0, ⟨∅, 0⟩, .idle, ∅, 0, [], []⟩

variable (s : Messages)

def setPhase (call : ℕ) (under : SendCall) (phase : SendPhase) : Messages :=
  { s with calls := s.calls.insert call { under with phase := phase }, events := s.events + 1 }

def attempt (call : ℕ) (outcome : DeliveryOutcome) : Messages :=
  match s.calls.lookup call with
  | some under =>
      match under.phase, outcome with
      | .delivering, .delivered =>
          { s.setPhase call under (.accepted .delivered s.events) with
            delivered := s.delivered ++ [⟨call, under.toConversationId, s.events⟩] }
      | .delivering, .busy => s.setPhase call under .queueing
      | .delivering, .hardError => s.setPhase call under (.refused .transportUnavailable)
      | _, _ => s
  | none => s

def pending (call : ℕ) (under : SendCall) : PendingDelivery where
  toConversationId := under.toConversationId
  userId := under.userId
  fromConversationId := under.fromConversationId
  message := under.content
  expiresAtMs := s.now + ttlMs
  call := call
  queuedAt := s.events

def push (call : ℕ) : Messages :=
  match s.calls.lookup call with
  | some under =>
      match under.phase with
      | .queueing =>
          match s.queue.push (s.pending call under) with
          | some queue =>
              { s.setPhase call under (.accepted .queued s.events) with queue := queue }
          | none => s.setPhase call under (.refused .queueFull)
      | _ => s
  | none => s

def returnCall (call : ℕ) : Messages :=
  match s.calls.lookup call with
  | some under =>
      match under.phase with
      | .accepted status acceptedAt =>
          s.setPhase call under (.returned status acceptedAt s.events)
      | _ => s
  | none => s

def gate (enabled : Bool) : Messages :=
  match s.drainer with
  | .draining [] => { s with drainer := .idle }
  | .draining (item :: heads) =>
      if enabled then { s with drainer := .delivering item heads }
      else { s with queue := (s.queue.clearFor item.toConversationId).1, drainer := .draining heads }
  | _ => s

def deliver (outcome : DeliveryOutcome) : Messages :=
  match s.drainer with
  | .delivering item heads =>
      { s with
        drainer := .settling item outcome heads
        delivered :=
          if outcome = .delivered then s.delivered ++ [⟨item.call, item.toConversationId, item.queuedAt⟩]
          else s.delivered }
  | _ => s

/-- The result of an attempt is recorded by taking the head of the target's queue away. -/
def settle : Messages :=
  match s.drainer with
  | .settling _ .busy heads => { s with drainer := .draining heads }
  | .settling item _ heads =>
      { s with queue := s.queue.removeHead item.toConversationId, drainer := .draining heads }
  | _ => s

def onTurnCancelled (conversationId : String) : TurnCancelCause → Messages
  | .runtimeRestart => s
  | .userRequested =>
      { s with
        queue := (s.queue.clearFor conversationId).1
        cancelled := s.cancelled ++ (s.queue.bucket conversationId).map (·.call) }

def step (owner : String → String) (s : Messages) : MessageAction → Messages
  | .advance ms => { s with now := s.now + ms }
  | .enter call userId fromConversationId target content =>
      if s.calls.lookup call = none ∧ owner target = userId then
        s.setPhase call ⟨target, userId, fromConversationId, content, .delivering⟩ .delivering
      else s
  | .attempt call outcome => s.attempt call outcome
  | .push call => s.push call
  | .returnCall call => s.returnCall call
  | .dropExpired =>
      if s.drainer = .idle then
        { s with queue := (s.queue.dropExpired s.now).1, drainer := .expired }
      else s
  | .snapshot rank =>
      if s.drainer = .expired then
        { s with drainer := .draining (s.queue.snapshotHeads rank) }
      else s
  | .gate enabled => s.gate enabled
  | .deliver outcome => s.deliver outcome
  | .settle => s.settle
  | .turnCancelled conversationId cause => s.onTurnCancelled conversationId cause

end Messages

end Zaowutai.SessionMessage
