import Mathlib.Data.List.MinMax
import Zaowutai.Session.FoldLoop

/-!
# The conversation session

The façade keeps every message of the user in a queue and dispatches the
`Held` ones, one head at a time behind the flush lock: at the time of a send,
and by the flush engine on a rising edge of the gate.  The steps below are
the sections of `send`, `try_flush_head_inner` and `run_flush_engine` between
two points where they wait, and the operations on the queue, which are
atomic under its lock.
-/

namespace Zaowutai.Session

open Zaowutai.Lib

inductive MsgStatus
  | held
  | sent
  | accepted
  | error
  | canceled
  deriving DecidableEq, Repr

structure PendingMessage (Content : Type*) where
  clientMsgId : String
  content : Content
  status : MsgStatus
  enqueueOrdinal : ℕ
  deriving DecidableEq, Repr

structure Pending (Content : Type*) where
  nextId : ℕ
  queue : List (PendingMessage Content)

section Queue

variable {Content : Type*}

def clientMsgIdOf (msgIdPrefix : String) (ordinal : ℕ) : String :=
  msgIdPrefix ++ "-" ++ ordinal.repr

def Pending.enqueue (p : Pending Content) (msgIdPrefix : String) (content : Content) :
    Pending Content where
  nextId := p.nextId + 1
  queue := p.queue ++ [⟨clientMsgIdOf msgIdPrefix (p.nextId + 1), content, .held, p.nextId + 1⟩]

/-- The lowest-ordinal `Held` message. -/
def Pending.head (p : Pending Content) : Option (PendingMessage Content) :=
  (p.queue.filter fun m ↦ m.status = .held).argmin PendingMessage.enqueueOrdinal

def setStatus (clientMsgId : String) (status : MsgStatus) :
    List (PendingMessage Content) → List (PendingMessage Content)
  | [] => []
  | m :: rest =>
      if m.clientMsgId = clientMsgId then { m with status := status } :: rest
      else m :: setStatus clientMsgId status rest

def Pending.markStatus (p : Pending Content) (clientMsgId : String) (status : MsgStatus) :
    Pending Content :=
  { p with queue := setStatus clientMsgId status p.queue }

def isHeldWith (clientMsgId : String) (m : PendingMessage Content) : Bool :=
  m.clientMsgId == clientMsgId && m.status == .held

def Pending.cancelHeld (p : Pending Content) (clientMsgId : String) : Pending Content × Bool :=
  ({ p with queue := p.queue.eraseP (isHeldWith clientMsgId) },
    p.queue.any (isHeldWith clientMsgId))

def MsgStatus.isOutstanding : MsgStatus → Bool
  | .held | .sent => true
  | .accepted | .error | .canceled => false

def cancelOutstanding (m : PendingMessage Content) : PendingMessage Content :=
  if m.status.isOutstanding then { m with status := .canceled } else m

def Pending.cancelAllOutstanding (p : Pending Content) : Pending Content :=
  { p with queue := p.queue.map cancelOutstanding }

/-- The queue is a permanent record: a confirmed message is marked, not removed. -/
def Pending.drain (p : Pending Content) (clientMsgId : String) : Pending Content :=
  p.markStatus clientMsgId .accepted

end Queue

/-- Where the holder of the flush lock stands in `try_flush_head_inner`. -/
inductive FlushPhase (Content : Type*)
  /-- The gate was read as open; the queue is not locked yet. -/
  | gateOpen
  /-- The head was passed to `Orchestrator::send` and the backend has not taken it. -/
  | sending (clientMsgId : String) (content : Content)
  /-- The backend has started the turn and the dispatch has not returned. -/
  | started (clientMsgId : String) (turnGen : ℕ)
  /-- The dispatch has returned and the status is not written back. -/
  | returned (clientMsgId : String) (isOk : Bool)

structure Flush (Content : Type*) where
  fromRisingEdge : Bool
  phase : FlushPhase Content

structure ConversationSession (Content : Type*) where
  sessionId : String
  msgIdPrefix : String
  pending : Pending Content
  /-- The flush that holds the lock. -/
  flush : Option (Flush Content)
  /-- The sends that have enqueued their message and wait for the flush lock. -/
  flushingSends : ℕ
  /-- The last gate value that the flush engine has seen. -/
  prevOpen : Bool
  /-- The engine waits for the flush lock or holds it. -/
  engineFlushing : Bool
  /-- How many of the broadcast snapshots the engine has read. -/
  seen : ℕ
  loop : FoldLoop

inductive SessionAction (Content : Type*)
  | send (content : Content)
  | acquire (fromRisingEdge : Bool)
  | select
  | startTurn
  | dispatchReturns (isOk : Bool)
  | writeStatus
  | nextSnapshot
  | cancelHeld (clientMsgId : String)
  | cancelAllOutstanding
  | drainPendingOn (clientMsgId : String)
  | loop (a : LoopAction)
  deriving DecidableEq, Repr

/-- The user may dispatch now or queue into the running turn. -/
def StateSnapshot.isOpen (s : StateSnapshot) : Bool := s.canSend || s.canQueue

namespace ConversationSession

variable {Content : Type*}

def new (sessionId msgIdPrefix : String) : ConversationSession Content where
  sessionId := sessionId
  msgIdPrefix := msgIdPrefix
  pending := ⟨0, []⟩
  flush := none
  flushingSends := 0
  prevOpen := false
  engineFlushing := false
  seen := 0
  loop := .new

variable (c : ConversationSession Content)

/-- The gate of the latest snapshot; no snapshot yet means the initial idle state. -/
def gateOpen : Bool :=
  match c.loop.orchestrator.latest.lookup c.sessionId with
  | some s => s.isOpen
  | none => true

def selected : Option (PendingMessage Content) :=
  match c.flush with
  | some ⟨fromRisingEdge, .gateOpen⟩ =>
      -- at send time a dispatched and unconfirmed message holds the head back
      if !fromRisingEdge && c.pending.queue.any (fun m ↦ m.status == .sent) then none
      else c.pending.head
  | _ => none

def release (fromRisingEdge : Bool) : ConversationSession Content :=
  { c with
    flush := none
    engineFlushing := if fromRisingEdge then false else c.engineFlushing }

def isWaiting (fromRisingEdge : Bool) : Bool :=
  if fromRisingEdge then c.engineFlushing else decide (0 < c.flushingSends)

def stopWaiting (fromRisingEdge : Bool) : ConversationSession Content :=
  { c with flushingSends := if fromRisingEdge then c.flushingSends else c.flushingSends - 1 }

def acquire (fromRisingEdge : Bool) : ConversationSession Content :=
  if c.flush.isNone && c.isWaiting fromRisingEdge then
    if c.gateOpen then
      { c.stopWaiting fromRisingEdge with flush := some ⟨fromRisingEdge, .gateOpen⟩ }
    else (c.stopWaiting fromRisingEdge).release fromRisingEdge
  else c

def select : ConversationSession Content :=
  match c.flush with
  | some ⟨fromRisingEdge, .gateOpen⟩ =>
      match c.selected with
      | some m => { c with flush := some ⟨fromRisingEdge, .sending m.clientMsgId m.content⟩ }
      | none => c.release fromRisingEdge
  | _ => c

def startTurn : ConversationSession Content :=
  match c.flush with
  | some ⟨fromRisingEdge, .sending clientMsgId _⟩ =>
      let loop := c.loop.startTurn c.sessionId
      { c with loop := loop, flush := some ⟨fromRisingEdge, .started clientMsgId loop.turnGen⟩ }
  | _ => c

/-- A dispatch that started a turn lowers its `TurnStarted` when it returns. -/
def dispatchReturns (isOk : Bool) : ConversationSession Content :=
  match c.flush, isOk with
  | some ⟨fromRisingEdge, .started clientMsgId turnGen⟩, true =>
      { c with
        loop := { c.loop with
          lowered := c.loop.lowered ++ [startedEnvelope c.sessionId turnGen] }
        flush := some ⟨fromRisingEdge, .returned clientMsgId true⟩ }
  | some ⟨fromRisingEdge, .sending clientMsgId _⟩, false =>
      { c with flush := some ⟨fromRisingEdge, .returned clientMsgId false⟩ }
  | _, _ => c

def writeStatus : ConversationSession Content :=
  match c.flush with
  | some ⟨fromRisingEdge, .returned clientMsgId isOk⟩ =>
      { c with pending := c.pending.markStatus clientMsgId (if isOk then .sent else .error) }.release
        fromRisingEdge
  | _ => c

def nextSnapshot : ConversationSession Content :=
  if c.engineFlushing then c
  else match c.loop.states[c.seen]? with
    | some s =>
        if s.sessionId = c.sessionId then
          { c with
            seen := c.seen + 1
            prevOpen := s.isOpen
            engineFlushing := s.isOpen && !c.prevOpen }
        else { c with seen := c.seen + 1 }
    | none => c

def step (acceptsProactiveInput : Bool) : SessionAction Content → ConversationSession Content
  | .send content =>
      { c with
        pending := c.pending.enqueue c.msgIdPrefix content
        flushingSends := c.flushingSends + 1 }
  | .acquire fromRisingEdge => c.acquire fromRisingEdge
  | .select => c.select
  | .startTurn => c.startTurn
  | .dispatchReturns isOk => c.dispatchReturns isOk
  | .writeStatus => c.writeStatus
  | .nextSnapshot => c.nextSnapshot
  | .cancelHeld clientMsgId => { c with pending := (c.pending.cancelHeld clientMsgId).1 }
  | .cancelAllOutstanding => { c with pending := c.pending.cancelAllOutstanding }
  | .drainPendingOn clientMsgId => { c with pending := c.pending.drain clientMsgId }
  | .loop a => { c with loop := c.loop.step acceptsProactiveInput a }

section Cases

theorem acquire_cases (fromRisingEdge : Bool) :
    c.flush = none ∧ c.isWaiting fromRisingEdge = true ∧ c.gateOpen = true ∧
        c.acquire fromRisingEdge =
          { c.stopWaiting fromRisingEdge with flush := some ⟨fromRisingEdge, .gateOpen⟩ } ∨
      c.flush = none ∧ c.isWaiting fromRisingEdge = true ∧ c.gateOpen = false ∧
        c.acquire fromRisingEdge = (c.stopWaiting fromRisingEdge).release fromRisingEdge ∨
      c.acquire fromRisingEdge = c := by
  simp only [acquire]
  split
  · next h =>
      simp only [Bool.and_eq_true, Option.isNone_iff_eq_none] at h
      split
      · next hopen => exact .inl ⟨h.1, h.2, hopen, rfl⟩
      · next hclosed => exact .inr (.inl ⟨h.1, h.2, eq_false_of_ne_true hclosed, rfl⟩)
  · exact .inr (.inr rfl)

theorem select_cases :
    (∃ fromRisingEdge m, c.flush = some ⟨fromRisingEdge, .gateOpen⟩ ∧ c.selected = some m ∧
        c.select =
          { c with flush := some ⟨fromRisingEdge, .sending m.clientMsgId m.content⟩ }) ∨
      (∃ fromRisingEdge, c.flush = some ⟨fromRisingEdge, .gateOpen⟩ ∧ c.selected = none ∧
        c.select = c.release fromRisingEdge) ∨
      c.selected = none ∧ c.select = c := by
  rcases hflush : c.flush with _ | ⟨fromRisingEdge, _ | _ | _ | _⟩
  case some.gateOpen =>
    cases hselected : c.selected with
    | some m =>
        exact .inl ⟨fromRisingEdge, m, rfl, rfl, by simp only [select, hflush, hselected]⟩
    | none =>
        exact .inr (.inl ⟨fromRisingEdge, rfl, rfl, by simp only [select, hflush, hselected]⟩)
  all_goals
    right; right
    exact ⟨by simp only [selected, hflush], by simp only [select, hflush]⟩

theorem startTurn_cases :
    (∃ fromRisingEdge clientMsgId content,
        c.flush = some ⟨fromRisingEdge, .sending clientMsgId content⟩ ∧
          c.startTurn = { c with
            loop := c.loop.startTurn c.sessionId
            flush := some ⟨fromRisingEdge, .started clientMsgId (c.loop.turnGen + 1)⟩ }) ∨
      c.startTurn = c := by
  rcases hflush : c.flush with _ | ⟨fromRisingEdge, _ | ⟨clientMsgId, content⟩ | _ | _⟩
  case some.sending =>
    exact .inl ⟨fromRisingEdge, clientMsgId, content, rfl, by simp only [startTurn, hflush]; rfl⟩
  all_goals exact .inr (by simp only [startTurn, hflush])

theorem dispatchReturns_cases (isOk : Bool) :
    (∃ fromRisingEdge clientMsgId turnGen,
        c.flush = some ⟨fromRisingEdge, .started clientMsgId turnGen⟩ ∧
          c.dispatchReturns isOk = { c with
            loop := { c.loop with
              lowered := c.loop.lowered ++ [startedEnvelope c.sessionId turnGen] }
            flush := some ⟨fromRisingEdge, .returned clientMsgId true⟩ }) ∨
      (∃ fromRisingEdge clientMsgId content,
        c.flush = some ⟨fromRisingEdge, .sending clientMsgId content⟩ ∧
          c.dispatchReturns isOk =
            { c with flush := some ⟨fromRisingEdge, .returned clientMsgId false⟩ }) ∨
      c.dispatchReturns isOk = c := by
  rcases hflush : c.flush with
    _ | ⟨fromRisingEdge, _ | ⟨clientMsgId, content⟩ | ⟨clientMsgId, turnGen⟩ | _⟩ <;>
    cases isOk
  case some.sending.false =>
    right; left
    exact ⟨fromRisingEdge, clientMsgId, content, rfl, by simp only [dispatchReturns, hflush]⟩
  case some.started.true =>
    left
    exact ⟨fromRisingEdge, clientMsgId, turnGen, rfl, by simp only [dispatchReturns, hflush]⟩
  all_goals exact .inr (.inr (by simp only [dispatchReturns, hflush]))

theorem writeStatus_cases :
    (∃ fromRisingEdge clientMsgId isOk,
        c.flush = some ⟨fromRisingEdge, .returned clientMsgId isOk⟩ ∧
          c.writeStatus = { c with
            pending := c.pending.markStatus clientMsgId
              (if isOk then .sent else .error) }.release fromRisingEdge) ∨
      c.writeStatus = c := by
  rcases hflush : c.flush with _ | ⟨fromRisingEdge, _ | _ | _ | ⟨clientMsgId, isOk⟩⟩
  case some.returned =>
    exact .inl ⟨fromRisingEdge, clientMsgId, isOk, rfl, by simp only [writeStatus, hflush]⟩
  all_goals exact .inr (by simp only [writeStatus, hflush])

theorem nextSnapshot_cases :
    (∃ s, c.engineFlushing = false ∧ c.loop.states[c.seen]? = some s ∧
        s.sessionId = c.sessionId ∧
          c.nextSnapshot = { c with
            seen := c.seen + 1
            prevOpen := s.isOpen
            engineFlushing := s.isOpen && !c.prevOpen }) ∨
      (∃ s, c.loop.states[c.seen]? = some s ∧ s.sessionId ≠ c.sessionId ∧
        c.nextSnapshot = { c with seen := c.seen + 1 }) ∨
      c.nextSnapshot = c := by
  simp only [nextSnapshot]
  split
  · exact .inr (.inr rfl)
  · next hidle =>
      split
      · next s hs =>
          split
          · next hsession => exact .inl ⟨s, eq_false_of_ne_true hidle, hs, hsession, rfl⟩
          · next hsession => exact .inr (.inl ⟨s, hs, hsession, rfl⟩)
      · exact .inr (.inr rfl)

end Cases

theorem ids_step (acceptsProactiveInput : Bool) (a : SessionAction Content) :
    (c.step acceptsProactiveInput a).sessionId = c.sessionId ∧
      (c.step acceptsProactiveInput a).msgIdPrefix = c.msgIdPrefix := by
  cases a with
  | acquire fromRisingEdge =>
      rcases c.acquire_cases fromRisingEdge with
        ⟨-, -, -, h⟩ | ⟨-, -, -, h⟩ | h <;> simp [step, h, stopWaiting, release]
  | select =>
      rcases c.select_cases with ⟨_, _, -, -, h⟩ | ⟨_, -, -, h⟩ | ⟨-, h⟩ <;>
        simp [step, h, release]
  | startTurn =>
      rcases c.startTurn_cases with ⟨_, _, _, -, h⟩ | h <;> simp [step, h]
  | dispatchReturns isOk =>
      rcases c.dispatchReturns_cases isOk with
        ⟨_, _, _, -, h⟩ | ⟨_, _, _, -, h⟩ | h <;> simp [step, h]
  | writeStatus =>
      rcases c.writeStatus_cases with ⟨_, _, _, -, h⟩ | h <;> simp [step, h, release]
  | nextSnapshot =>
      rcases c.nextSnapshot_cases with ⟨_, -, -, -, h⟩ | ⟨_, -, -, h⟩ | h <;>
        simp [step, h]
  | _ => exact ⟨rfl, rfl⟩

end ConversationSession

end Zaowutai.Session
