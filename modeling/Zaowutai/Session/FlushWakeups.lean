import Zaowutai.Session.DispatchOrder
import Zaowutai.Session.SnapshotFreshness
import Zaowutai.Session.TurnLowering

/-!
# The gate of a flush

A flush reads the gate off the latest snapshot.  Since the snapshots are
fresh, the gate is a function of the state of the session; it lags behind a
dispatch whose `TurnStarted` is still in the lowered channel.
-/

namespace Zaowutai.Session

open Zaowutai.Lib

namespace FoldLoop

variable (l : FoldLoop)

theorem fresh_step {acceptsProactiveInput : Bool}
    (h : SnapshotsFresh acceptsProactiveInput l.orchestrator) (a : LoopAction) :
    SnapshotsFresh acceptsProactiveInput (l.step acceptsProactiveInput a).orchestrator := by
  rcases l.step_cases acceptsProactiveInput a with ⟨heq, -⟩ | ⟨l', env, heq, -, -, hstep⟩
  · rw [heq]
    exact h
  · rw [hstep, orchestrator_foldEnvelope, heq]
    exact l.orchestrator.snapshotsFresh_fold acceptsProactiveInput env h

end FoldLoop

namespace ConversationSession

variable {Content : Type*} (c : ConversationSession Content) (acceptsProactiveInput : Bool)

theorem gateOpen_eq :
    c.gateOpen = ((c.loop.orchestrator.publishedGates c.sessionId).canSend ||
      (c.loop.orchestrator.publishedGates c.sessionId).canQueue) := by
  simp only [gateOpen, Orchestrator.publishedGates]
  cases c.loop.orchestrator.latest.lookup c.sessionId <;> rfl

variable {c acceptsProactiveInput}

theorem gateOpen_of_fresh (h : SnapshotsFresh acceptsProactiveInput c.loop.orchestrator) :
    c.gateOpen = (canSendMessage (c.loop.orchestrator.stateOf c.sessionId) ||
      canQueueMessage (c.loop.orchestrator.stateOf c.sessionId) acceptsProactiveInput) := by
  rw [gateOpen_eq, h c.sessionId]
  rfl

theorem gateOpen_running (h : SnapshotsFresh false c.loop.orchestrator) {turn : RunningTurn}
    (hrunning : c.loop.orchestrator.stateOf c.sessionId = .running turn) : c.gateOpen = false := by
  rw [gateOpen_of_fresh h, hrunning]
  simp [canSendMessage, canQueueMessage]

variable (c acceptsProactiveInput)

theorem orchestrator_step {a : SessionAction Content} (ha : ∀ b, a ≠ .loop b) :
    (c.step acceptsProactiveInput a).loop.orchestrator = c.loop.orchestrator ∧
      (c.step acceptsProactiveInput a).loop.states = c.loop.states := by
  cases a with
  | loop b => exact (ha b rfl).elim
  | acquire fromRisingEdge =>
      rcases c.acquire_cases fromRisingEdge with ⟨-, -, -, h⟩ | ⟨-, -, -, h⟩ | h <;>
        simp [step, h, stopWaiting, release]
  | select =>
      rcases c.select_cases with ⟨_, _, -, -, h⟩ | ⟨_, -, -, h⟩ | ⟨-, h⟩ <;>
        simp [step, h, release]
  | startTurn =>
      rcases c.startTurn_cases with ⟨_, _, _, -, h⟩ | h <;>
        simp [step, h, FoldLoop.startTurn]
  | dispatchReturns isOk =>
      rcases c.dispatchReturns_cases isOk with ⟨_, _, _, -, h⟩ | ⟨_, _, _, -, h⟩ | h <;>
        simp [step, h]
  | writeStatus =>
      rcases c.writeStatus_cases with ⟨_, _, _, -, h⟩ | h <;> simp [step, h, release]
  | nextSnapshot =>
      rcases c.nextSnapshot_cases with ⟨_, -, -, -, h⟩ | ⟨_, -, -, h⟩ | h <;> simp [step, h]
  | _ => exact ⟨rfl, rfl⟩

variable {c acceptsProactiveInput}

theorem fresh_step (h : SnapshotsFresh acceptsProactiveInput c.loop.orchestrator)
    (a : SessionAction Content) :
    SnapshotsFresh acceptsProactiveInput
      (c.step acceptsProactiveInput a).loop.orchestrator := by
  by_cases hloop : ∃ b, a = .loop b
  · obtain ⟨b, rfl⟩ := hloop
    exact c.loop.fresh_step h b
  · rw [(c.orchestrator_step acceptsProactiveInput fun b heq ↦ hloop ⟨b, heq⟩).1]
    exact h

end ConversationSession

/-!
## What wakes a flush

A `Held` message is left to a later flush: a send that waits for the lock, a
rising edge that the engine has yet to read, or one that follows when a
closed gate opens again.  A flush that ends with a `Held` message and none of
these ahead leaves the message behind.
-/

def risingIn (prev : Bool) : List Bool → Bool
  | [] => false
  | value :: rest => (value && !prev) || risingIn value rest

def lastOf (prev : Bool) : List Bool → Bool
  | [] => prev
  | value :: rest => lastOf value rest

theorem risingIn_append {prev : Bool} {values : List Bool} (h : risingIn prev values = true)
    (more : List Bool) : risingIn prev (values ++ more) = true := by
  induction values generalizing prev with
  | nil => cases h
  | cons value rest ih =>
      simp only [risingIn, Bool.or_eq_true, List.cons_append] at h ⊢
      exact h.imp_right ih

theorem lastOf_append (prev : Bool) (values : List Bool) (value : Bool) :
    lastOf prev (values ++ [value]) = value := by
  induction values generalizing prev with
  | nil => rfl
  | cons first rest ih => exact ih first

theorem risingIn_of_last {prev : Bool} {values : List Bool} (h : lastOf prev values = false) :
    risingIn prev (values ++ [true]) = true := by
  induction values generalizing prev with
  | nil =>
      rw [lastOf] at h
      rw [h]
      rfl
  | cons value rest ih =>
      simp only [List.cons_append, risingIn, Bool.or_eq_true]
      exact .inr (ih h)

variable {Content : Type*}

namespace ConversationSession

variable (c : ConversationSession Content) (acceptsProactiveInput : Bool)

def unseenOpens : List Bool :=
  ((c.loop.states.drop c.seen).filter fun s ↦ s.sessionId = c.sessionId).map StateSnapshot.isOpen

def RisingAhead : Prop := risingIn c.prevOpen c.unseenOpens = true

/-- A non-proactive backend closes its gate when the waiting `TurnStarted` is folded. -/
def StartWaiting : Prop :=
  acceptsProactiveInput = false ∧
    ∃ env ∈ c.loop.lowered, env.sessionId = c.sessionId ∧ env.event.isTurnStarted = true

def EngineWaiting : Prop :=
  c.engineFlushing = true ∧ ∀ phase, c.flush ≠ some ⟨true, phase⟩

def Woken : Prop :=
  0 < c.flushingSends ∨ c.EngineWaiting ∨ c.RisingAhead ∨ c.gateOpen = false ∨
    c.StartWaiting acceptsProactiveInput

/-- No send or flush is under way, both channels are drained, the engine has read every
snapshot, and each dispatched message is confirmed. -/
structure Quiescent : Prop where
  flush : c.flush = none
  flushingSends : c.flushingSends = 0
  engineFlushing : c.engineFlushing = false
  lowered : c.loop.lowered = []
  events : c.loop.events = []
  unlowered : c.loop.unlowered = []
  seen : c.seen = c.loop.states.length
  confirmed : ∀ m ∈ c.pending.queue, m.status ≠ .sent

/-- In a quiescent state with an open gate no message is `Held`. -/
def NoneLeft : Prop :=
  c.Quiescent → c.gateOpen = true → ∀ m ∈ c.pending.queue, m.status ≠ .held

/-- The step gives the flush lock back: the head is refused or missing, or the status of the
dispatched message is written. -/
def EndsFlush (a : SessionAction Content) : Prop :=
  (a = .select ∧ c.selected = none ∧
      ∃ fromRisingEdge, c.flush = some ⟨fromRisingEdge, .gateOpen⟩) ∨
    a = .writeStatus ∧ ∃ fromRisingEdge clientMsgId isOk,
      c.flush = some ⟨fromRisingEdge, .returned clientMsgId isOk⟩

/-- A flush ends with a `Held` message left only when something will flush again. -/
def LeavesWoken (a : SessionAction Content) : Prop :=
  c.EndsFlush a → ∀ m ∈ c.pending.queue, m.status = .held → c.inFlight ≠ some m.clientMsgId →
    c.Woken acceptsProactiveInput

/-- The engine has seen the gate up to the snapshots it has not read. -/
def ViewCurrent : Prop :=
  match c.loop.orchestrator.latest.lookup c.sessionId with
  | some s => lastOf c.prevOpen c.unseenOpens = s.isOpen
  | none => c.prevOpen = false ∧ c.unseenOpens = []

structure WakeInvariant : Prop where
  queue : QueueInvariant c.msgIdPrefix c.pending
  fresh : SnapshotsFresh acceptsProactiveInput c.loop.orchestrator
  view : c.ViewCurrent
  seen : c.seen ≤ c.loop.states.length
  holder : ∀ phase, c.flush = some ⟨true, phase⟩ → c.engineFlushing = true
  wake : (∃ m ∈ c.pending.queue, m.status = .held) →
    c.flush.isSome = true ∨ c.Woken acceptsProactiveInput

section Facts

variable {c : ConversationSession Content} {acceptsProactiveInput : Bool}

theorem WakeInvariant.noneLeft (h : c.WakeInvariant acceptsProactiveInput) : c.NoneLeft := by
  intro hq hopen m hm hheld
  rcases h.wake ⟨m, hm, hheld⟩ with hflush | hsend | hengine | hrising | hclosed | ⟨-, hstart⟩
  · rw [hq.flush] at hflush
    cases hflush
  · rw [hq.flushingSends] at hsend
    exact Nat.lt_irrefl 0 hsend
  · cases hengine.1.symm.trans hq.engineFlushing
  · have hnone : c.unseenOpens = [] := by
      rw [unseenOpens, hq.seen, List.drop_length]
      rfl
    rw [RisingAhead, hnone] at hrising
    cases hrising
  · rw [hopen] at hclosed
    cases hclosed
  · rw [hq.lowered] at hstart
    obtain ⟨env, henv, -⟩ := hstart
    cases henv

theorem states_fold (acceptsProactiveInput : Bool) (o : Orchestrator) (env : SessionEnvelope) :
    (∃ snap : StateSnapshot, snap.sessionId = env.sessionId ∧
        (o.fold acceptsProactiveInput env).latest = o.latest.insert env.sessionId snap ∧
          (o.foldOne env acceptsProactiveInput).2.states = [snap]) ∨
      (o.fold acceptsProactiveInput env).latest = o.latest ∧
        (o.foldOne env acceptsProactiveInput).2.states = [] := by
  simp only [Orchestrator.fold, Orchestrator.foldOne, restampEpoch_sessionId]
  split
  · left
    exact ⟨_, rfl, rfl, rfl⟩
  · exact .inr ⟨rfl, rfl⟩

end Facts

section View

variable {c c' : ConversationSession Content} {acceptsProactiveInput : Bool}

/-- The step changes nothing that the engine or a gate check reads, and folds nothing. -/
structure SameView (c c' : ConversationSession Content) : Prop where
  sessionId : c'.sessionId = c.sessionId
  prevOpen : c'.prevOpen = c.prevOpen
  seen : c'.seen = c.seen
  states : c'.loop.states = c.loop.states
  orchestrator : c'.loop.orchestrator = c.loop.orchestrator
  lowered : ∀ env ∈ c.loop.lowered, env ∈ c'.loop.lowered

theorem sameView_flush (pending : Pending Content) (flush : Option (Flush Content))
    (flushingSends : ℕ) (engineFlushing : Bool) :
    SameView c { c with pending := pending, flush := flush, flushingSends := flushingSends,
                        engineFlushing := engineFlushing } :=
  ⟨rfl, rfl, rfl, rfl, rfl, fun _ ↦ id⟩

theorem SameView.unseenOpens_eq (h : SameView c c') : c'.unseenOpens = c.unseenOpens := by
  simp only [unseenOpens, h.sessionId, h.seen, h.states]

theorem SameView.gateOpen_eq (h : SameView c c') : c'.gateOpen = c.gateOpen := by
  rw [gateOpen, gateOpen, h.sessionId, h.orchestrator]

theorem SameView.viewCurrent (h : SameView c c') (hview : c.ViewCurrent) : c'.ViewCurrent := by
  rw [ViewCurrent, h.sessionId, h.orchestrator, h.unseenOpens_eq, h.prevOpen]
  exact hview

theorem SameView.woken (h : SameView c c')
    (hsends : 0 < c.flushingSends → c'.Woken acceptsProactiveInput)
    (hengine : c.EngineWaiting → c'.Woken acceptsProactiveInput)
    (hwoken : c.Woken acceptsProactiveInput) : c'.Woken acceptsProactiveInput := by
  rcases hwoken with hsend | hwait | hrising | hclosed | ⟨hproactive, env, henv, hstart⟩
  · exact hsends hsend
  · exact hengine hwait
  · right; right; left
    rw [RisingAhead, h.unseenOpens_eq, h.prevOpen]
    exact hrising
  · right; right; right; left
    rw [h.gateOpen_eq]
    exact hclosed
  · right; right; right; right
    refine ⟨hproactive, env, h.lowered env henv, ?_⟩
    rw [h.sessionId]
    exact hstart

theorem WakeInvariant.of_sameView (hinv : c.WakeInvariant acceptsProactiveInput)
    (a : SessionAction Content) (hstep : c' = c.step acceptsProactiveInput a)
    (h : SameView c c')
    (hholder : ∀ phase, c'.flush = some ⟨true, phase⟩ → c'.engineFlushing = true)
    (hwake : (∃ m ∈ c'.pending.queue, m.status = .held) →
      c'.flush.isSome = true ∨ c'.Woken acceptsProactiveInput) :
    c'.WakeInvariant acceptsProactiveInput where
  queue := hstep ▸ queueInvariant_step hinv.queue acceptsProactiveInput a
  fresh := hstep ▸ fresh_step hinv.fresh a
  view := h.viewCurrent hinv.view
  seen := by
    rw [h.seen, h.states]
    exact hinv.seen
  holder := hholder
  wake := hwake

theorem WakeInvariant.of_locked (hinv : c.WakeInvariant acceptsProactiveInput)
    (a : SessionAction Content) (hstep : c.step acceptsProactiveInput a = c') (h : SameView c c')
    {fromRisingEdge : Bool} {phase : FlushPhase Content}
    (hflush : c'.flush = some ⟨fromRisingEdge, phase⟩)
    (hengine : fromRisingEdge = true → c'.engineFlushing = true) :
    (c.step acceptsProactiveInput a).WakeInvariant acceptsProactiveInput := by
  rw [hstep]
  apply hinv.of_sameView a hstep.symm h
  · intro phase' hafter
    cases hflush.symm.trans hafter
    exact hengine rfl
  · intro _
    left
    rw [hflush]
    rfl

theorem WakeInvariant.edge (hinv : c.WakeInvariant acceptsProactiveInput) {fromRisingEdge : Bool}
    {phase : FlushPhase Content} (hflush : c.flush = some ⟨fromRisingEdge, phase⟩)
    (hedge : fromRisingEdge = true) : c.engineFlushing = true := by
  subst hedge
  exact hinv.holder phase hflush

end View

section Steps

variable {c : ConversationSession Content} {acceptsProactiveInput : Bool}

theorem wake_send (hinv : c.WakeInvariant acceptsProactiveInput) (content : Content) :
    (c.step acceptsProactiveInput (.send content)).WakeInvariant acceptsProactiveInput := by
  apply hinv.of_sameView _ rfl (sameView_flush _ _ _ _)
  · exact hinv.holder
  · intro _
    right; left
    exact Nat.succ_pos _

theorem wake_entries (hinv : c.WakeInvariant acceptsProactiveInput) {a : SessionAction Content}
    (ha : (∃ id, a = .cancelHeld id) ∨ a = .cancelAllOutstanding ∨ ∃ id, a = .drainPendingOn id) :
    (c.step acceptsProactiveInput a).WakeInvariant acceptsProactiveInput := by
  have hsend : ∀ content, a ≠ .send content := by
    rintro content rfl
    simp at ha
  have hheld : (∃ m ∈ (c.step acceptsProactiveInput a).pending.queue, m.status = .held) →
      ∃ m ∈ c.pending.queue, m.status = .held := by
    rintro ⟨m, hm, hheld⟩
    exact ⟨m, held_of_step hinv.queue acceptsProactiveInput hsend hm hheld, hheld⟩
  rcases ha with ⟨id, rfl⟩ | rfl | ⟨id, rfl⟩ <;>
    exact hinv.of_sameView _ rfl (sameView_flush _ _ _ _) hinv.holder
      fun h ↦ hinv.wake (hheld h)

theorem wake_acquire (hinv : c.WakeInvariant acceptsProactiveInput) (fromRisingEdge : Bool) :
    (c.step acceptsProactiveInput (.acquire fromRisingEdge)).WakeInvariant
      acceptsProactiveInput := by
  rcases c.acquire_cases fromRisingEdge with ⟨-, hwait, -, heq⟩ | ⟨-, -, hclosed, heq⟩ | heq
  · refine hinv.of_locked _ heq (sameView_flush _ _ _ _) rfl ?_
    rintro rfl
    exact hwait
  · apply hinv.of_sameView _ rfl
    · rw [step, heq]
      exact sameView_flush _ _ _ _
    · intro phase hflush
      rw [step, heq] at hflush
      cases hflush
    · intro _
      right; right; right; right; left
      rw [step, heq]
      exact hclosed
  · rw [step, heq]
    exact hinv

theorem woken_release {fromRisingEdge : Bool} {phase : FlushPhase Content}
    (hflush : c.flush = some ⟨fromRisingEdge, phase⟩)
    (pending : Pending Content) (hwoken : c.Woken acceptsProactiveInput) :
    ({ c with pending := pending }.release fromRisingEdge).Woken acceptsProactiveInput := by
  refine SameView.woken (c := c) (sameView_flush _ _ _ _) ?_ ?_ hwoken
  · exact fun hsend ↦ .inl hsend
  · rintro ⟨hengine, hother⟩
    right; left
    refine ⟨?_, fun _ hnone ↦ by cases hnone⟩
    cases fromRisingEdge with
    | true => exact (hother phase hflush).elim
    | false => exact hengine

theorem wake_select (hinv : c.WakeInvariant acceptsProactiveInput)
    (hguard : c.LeavesWoken acceptsProactiveInput .select) :
    (c.step acceptsProactiveInput .select).WakeInvariant acceptsProactiveInput := by
  rcases c.select_cases with
    ⟨fromRisingEdge, m, hflush, -, heq⟩ | ⟨fromRisingEdge, hflush, hnone, heq⟩ | ⟨-, heq⟩
  · exact hinv.of_locked _ heq (sameView_flush _ _ _ _) rfl (hinv.edge hflush)
  · apply hinv.of_sameView _ rfl
    · rw [step, heq]
      exact sameView_flush _ _ _ _
    · intro phase hafter
      rw [step, heq] at hafter
      cases hafter
    · rw [step, heq]
      rintro ⟨m, hm, hheld⟩
      right
      apply woken_release hflush c.pending
      apply hguard (.inl ⟨rfl, hnone, fromRisingEdge, hflush⟩) m hm hheld
      simp [inFlight, hflush]
  · rw [step, heq]
    exact hinv

theorem wake_dispatch (hinv : c.WakeInvariant acceptsProactiveInput) {a : SessionAction Content}
    (ha : a = .startTurn ∨ ∃ isOk, a = .dispatchReturns isOk) :
    (c.step acceptsProactiveInput a).WakeInvariant acceptsProactiveInput := by
  rcases ha with rfl | ⟨isOk, rfl⟩
  · rcases c.startTurn_cases with ⟨_, _, _, hflush, heq⟩ | heq
    · exact hinv.of_locked _ heq ⟨rfl, rfl, rfl, rfl, rfl, fun _ ↦ id⟩ rfl (hinv.edge hflush)
    · rw [step, heq]
      exact hinv
  · rcases c.dispatchReturns_cases isOk with ⟨_, _, _, hflush, heq⟩ | ⟨_, _, _, hflush, heq⟩ | heq
    · exact hinv.of_locked _ heq ⟨rfl, rfl, rfl, rfl, rfl, fun _ ↦ List.mem_append_left _⟩ rfl
        (hinv.edge hflush)
    · exact hinv.of_locked _ heq (sameView_flush _ _ _ _) rfl (hinv.edge hflush)
    · rw [step, heq]
      exact hinv

theorem wake_writeStatus (hinv : c.WakeInvariant acceptsProactiveInput)
    (hguard : c.LeavesWoken acceptsProactiveInput .writeStatus) :
    (c.step acceptsProactiveInput .writeStatus).WakeInvariant acceptsProactiveInput := by
  rcases c.writeStatus_cases with ⟨fromRisingEdge, clientMsgId, isOk, hflush, heq⟩ | heq
  · apply hinv.of_sameView _ rfl
    · rw [step, heq]
      exact sameView_flush _ _ _ _
    · intro phase hafter
      rw [step, heq] at hafter
      cases hafter
    · rintro ⟨m, hm, hheld⟩
      have hbefore := held_of_step hinv.queue acceptsProactiveInput (by simp) hm hheld
      have hother := held_of_writeStatus hinv.queue hm hheld hflush
      right
      rw [step, heq]
      apply woken_release hflush
      apply hguard (.inr ⟨rfl, fromRisingEdge, clientMsgId, isOk, hflush⟩) m hbefore hheld
      simp only [inFlight, hflush, ne_eq, Option.some_inj]
      exact hother.symm
  · rw [step, heq]
    exact hinv

theorem unseenOpens_next {s : StateSnapshot} (hs : c.loop.states[c.seen]? = some s)
    (hsession : s.sessionId = c.sessionId) :
    c.unseenOpens = s.isOpen :: { c with seen := c.seen + 1 }.unseenOpens := by
  obtain ⟨hlt, hget⟩ := List.getElem?_eq_some_iff.mp hs
  simp only [unseenOpens, List.drop_eq_getElem_cons hlt, hget]
  rw [List.filter_cons_of_pos (by simpa using hsession)]
  rfl

theorem unseenOpens_skip {s : StateSnapshot} (hs : c.loop.states[c.seen]? = some s)
    (hsession : s.sessionId ≠ c.sessionId) :
    { c with seen := c.seen + 1 }.unseenOpens = c.unseenOpens := by
  obtain ⟨hlt, hget⟩ := List.getElem?_eq_some_iff.mp hs
  simp only [unseenOpens, List.drop_eq_getElem_cons hlt, hget]
  rw [List.filter_cons_of_neg (by simpa using hsession)]

theorem wake_nextSnapshot (hinv : c.WakeInvariant acceptsProactiveInput) :
    (c.step acceptsProactiveInput .nextSnapshot).WakeInvariant acceptsProactiveInput := by
  have hqueue := queueInvariant_step hinv.queue acceptsProactiveInput .nextSnapshot
  have hfresh := fresh_step hinv.fresh .nextSnapshot
  rcases c.nextSnapshot_cases with ⟨s, hidle, hs, hsession, heq⟩ | ⟨s, hs, hsession, heq⟩ | heq
  · have hnext := unseenOpens_next hs hsession
    rw [step, heq] at hqueue hfresh ⊢
    have hflush : ∀ phase, c.flush ≠ some ⟨true, phase⟩ := by
      intro phase hflush
      cases (hinv.holder phase hflush).symm.trans hidle
    refine ⟨hqueue, hfresh, ?_, (List.getElem?_eq_some_iff.mp hs).1,
      fun phase hafter ↦ (hflush phase hafter).elim, ?_⟩
    · have hview := hinv.view
      rw [ViewCurrent, hnext] at hview
      simp only [ViewCurrent]
      split
      · next t ht =>
          rw [ht] at hview
          exact hview
      · next ht =>
          rw [ht] at hview
          cases hview.2
    · intro hheld
      rcases hinv.wake hheld with hlock | hsend | hengine | hrising | hclosed | hstart
      · exact .inl hlock
      · exact .inr (.inl hsend)
      · cases hengine.1.symm.trans hidle
      · rw [RisingAhead, hnext, risingIn, Bool.or_eq_true] at hrising
        rcases hrising with hedge | hrising
        · exact .inr (.inr (.inl ⟨hedge, hflush⟩))
        · exact .inr (.inr (.inr (.inl hrising)))
      · exact .inr (.inr (.inr (.inr (.inl hclosed))))
      · exact .inr (.inr (.inr (.inr (.inr hstart))))
  · have hskip := unseenOpens_skip hs hsession
    rw [step, heq] at hqueue hfresh ⊢
    refine ⟨hqueue, hfresh, ?_, (List.getElem?_eq_some_iff.mp hs).1, hinv.holder, ?_⟩
    · simp only [ViewCurrent, hskip]
      exact hinv.view
    · intro hheld
      simp only [Woken, RisingAhead, hskip]
      exact hinv.wake hheld
  · rw [step, heq]
    exact hinv

theorem fold_view (env : SessionEnvelope) (hinv : c.WakeInvariant acceptsProactiveInput)
    {loop : FoldLoop} (horch : loop.orchestrator = c.loop.orchestrator)
    (hstates : loop.states = c.loop.states) :
    let c' := { c with loop := loop.foldEnvelope acceptsProactiveInput env }
    (∃ value, c'.unseenOpens = c.unseenOpens ++ [value] ∧ c'.gateOpen = value ∧
        c'.ViewCurrent) ∨
      c'.unseenOpens = c.unseenOpens ∧ c'.gateOpen = c.gateOpen ∧ c'.ViewCurrent := by
  have hdrop : ∀ more : List StateSnapshot,
      (c.loop.states ++ more).drop c.seen = c.loop.states.drop c.seen ++ more :=
    fun more ↦ List.drop_append_of_le_length hinv.seen
  simp only [ViewCurrent, unseenOpens, gateOpen, FoldLoop.foldEnvelope, horch, hstates]
  rcases states_fold acceptsProactiveInput c.loop.orchestrator env with
    ⟨snap, hsnap, hlatest, hbroadcast⟩ | ⟨hlatest, hbroadcast⟩ <;>
    rw [hlatest, hbroadcast, hdrop, List.filter_append, List.map_append]
  · by_cases hsession : c.sessionId = env.sessionId
    · left
      refine ⟨snap.isOpen, ?_, ?_, ?_⟩
      · simp [hsnap, hsession]
      · rw [Table.lookup_insert_eq, if_pos hsession]
      · rw [Table.lookup_insert_eq, if_pos hsession]
        simpa [hsnap, hsession] using lastOf_append c.prevOpen _ snap.isOpen
    · right
      have hother : snap.sessionId ≠ c.sessionId := fun heq ↦ hsession (heq.symm.trans hsnap)
      rw [Table.lookup_insert_eq, if_neg hsession,
        List.filter_cons_of_neg (by simpa using hother), List.filter_nil, List.map_nil,
        List.append_nil]
      exact ⟨rfl, rfl, hinv.view⟩
  · right
    rw [List.filter_nil, List.map_nil, List.append_nil]
    exact ⟨rfl, rfl, hinv.view⟩

theorem WakeInvariant.lastOf_closed (hinv : c.WakeInvariant acceptsProactiveInput)
    (hclosed : c.gateOpen = false) : lastOf c.prevOpen c.unseenOpens = false := by
  have hview := hinv.view
  simp only [gateOpen] at hclosed
  simp only [ViewCurrent] at hview
  split at hclosed
  · next s hs =>
      rw [hs] at hview
      exact hview.trans hclosed
  · cases hclosed

theorem gateOpen_started (hfresh : SnapshotsFresh false c.loop.orchestrator) {loop : FoldLoop}
    {env : SessionEnvelope} (horch : loop.orchestrator = c.loop.orchestrator)
    (hsession : env.sessionId = c.sessionId) (hstart : env.event.isTurnStarted = true) :
    { c with loop := loop.foldEnvelope false env }.gateOpen = false := by
  obtain ⟨epoch, hevent⟩ := exists_turnStarted hstart
  have hafter : SnapshotsFresh false (loop.foldEnvelope false env).orchestrator := by
    rw [FoldLoop.orchestrator_foldEnvelope, horch]
    exact c.loop.orchestrator.snapshotsFresh_fold false env hfresh
  obtain ⟨turn, hturn⟩ : ∃ turn,
      foldState (loop.orchestrator.stateOf c.sessionId) env = .running turn := by
    rcases foldState_started (loop.orchestrator.stateOf c.sessionId) hevent with
      ⟨-, hfold⟩ | ⟨hnot, hfold⟩
    · exact ⟨_, hfold⟩
    · rw [hfold]
      cases hbefore : loop.orchestrator.stateOf c.sessionId with
      | running turn => exact ⟨_, rfl⟩
      | _ =>
          rw [hbefore] at hnot
          simp [Starts] at hnot
  apply gateOpen_running (by exact hafter)
  rw [stateOf_foldEnvelope, if_pos hsession.symm]
  exact hturn

theorem wake_loop (hinv : c.WakeInvariant acceptsProactiveInput) (a : LoopAction) :
    (c.step acceptsProactiveInput (.loop a)).WakeInvariant acceptsProactiveInput := by
  have hqueue := queueInvariant_step hinv.queue acceptsProactiveInput (.loop a)
  have hfresh := fresh_step hinv.fresh (.loop a)
  rcases c.loop.step_cases acceptsProactiveInput a with
    ⟨horch, hstates, hlowered⟩ | ⟨loop, env, horch, hstates, hlowered, heq⟩
  · have hsame : SameView c (c.step acceptsProactiveInput (.loop a)) :=
      ⟨rfl, rfl, rfl, hstates, horch, hlowered⟩
    apply hinv.of_sameView _ rfl hsame hinv.holder
    intro hheld
    apply (hinv.wake hheld).imp_right
    apply hsame.woken
    · exact .inl
    · exact fun hengine ↦ .inr (.inl hengine)
  have hview := fold_view env hinv horch hstates
  rw [step, heq] at hqueue hfresh ⊢
  refine ⟨hqueue, hfresh, ?_, ?_, hinv.holder, ?_⟩
  · rcases hview with ⟨_, -, -, hview⟩ | ⟨-, -, hview⟩
    · exact hview
    · exact hview
  · simp only [FoldLoop.foldEnvelope, List.length_append, hstates]
    exact Nat.le_add_right_of_le hinv.seen
  · intro hheld
    rcases hinv.wake hheld with hlock | hsend | hengine | hrising | hclosed | hstart
    · exact .inl hlock
    · exact .inr (.inl hsend)
    · exact .inr (.inr (.inl hengine))
    · right; right; right; left
      rcases hview with ⟨value, hunseen, -, -⟩ | ⟨hunseen, -, -⟩ <;> rw [RisingAhead, hunseen]
      · exact risingIn_append hrising _
      · exact hrising
    · -- a closed gate that opens leaves a rising edge behind
      rcases hview with ⟨value, hunseen, hgate, -⟩ | ⟨-, hgate, -⟩
      · cases value with
        | true =>
            right; right; right; left
            rw [RisingAhead, hunseen]
            exact risingIn_of_last (hinv.lastOf_closed hclosed)
        | false => exact .inr (.inr (.inr (.inr (.inl hgate))))
      · right; right; right; right; left
        rw [hgate]
        exact hclosed
    · obtain ⟨rfl, other, hother, hsession, hturn⟩ := hstart
      right; right; right; right
      rcases hlowered other hother with rfl | hmem
      · exact .inl (gateOpen_started hinv.fresh horch hsession hturn)
      · exact .inr ⟨rfl, other, hmem, hsession, hturn⟩

theorem wakeInvariant_step (hinv : c.WakeInvariant acceptsProactiveInput)
    {a : SessionAction Content} (hguard : c.LeavesWoken acceptsProactiveInput a) :
    (c.step acceptsProactiveInput a).WakeInvariant acceptsProactiveInput := by
  cases a with
  | send content => exact wake_send hinv content
  | acquire fromRisingEdge => exact wake_acquire hinv fromRisingEdge
  | select => exact wake_select hinv hguard
  | startTurn => exact wake_dispatch hinv (.inl rfl)
  | dispatchReturns isOk => exact wake_dispatch hinv (.inr ⟨isOk, rfl⟩)
  | writeStatus => exact wake_writeStatus hinv hguard
  | nextSnapshot => exact wake_nextSnapshot hinv
  | cancelHeld clientMsgId => exact wake_entries hinv (.inl ⟨clientMsgId, rfl⟩)
  | cancelAllOutstanding => exact wake_entries hinv (.inr (.inl rfl))
  | drainPendingOn clientMsgId => exact wake_entries hinv (.inr (.inr ⟨clientMsgId, rfl⟩))
  | loop a => exact wake_loop hinv a

theorem wakeInvariant_new (acceptsProactiveInput : Bool) (sessionId msgIdPrefix : String) :
    (new sessionId msgIdPrefix : ConversationSession Content).WakeInvariant
      acceptsProactiveInput where
  queue := ⟨by simp [new], by simp [new], by simp [new]⟩
  fresh := snapshotsFresh_new acceptsProactiveInput
  view := ⟨rfl, rfl⟩
  seen := le_rfl
  holder := fun _ hflush ↦ by cases hflush
  wake := by simp [new]

theorem leavesWoken_of_select {a : SessionAction Content}
    (hselect : a = .select → c.selected ≠ none) (hwrite : a ≠ .writeStatus) :
    c.LeavesWoken acceptsProactiveInput a := by
  rintro (⟨rfl, hnone, -⟩ | ⟨rfl, -⟩)
  · exact (hselect rfl hnone).elim
  · exact (hwrite rfl).elim

end Steps

def refusedThenFlushed : List (SessionAction String) :=
  [.send "first", .acquire false, .select, .startTurn, .send "second", .dispatchReturns true,
    .writeStatus, .acquire false, .select, .loop .foldLowered,
    .loop (.emitResult "s" 1 false false none "done" (.completed .endTurn)), .loop .foldEvent,
    .nextSnapshot, .nextSnapshot, .acquire true, .select]

/-- The engine has read the edge of the first turn before the second message is sent, and the
gate of a proactive backend stays open to the end of the turn. -/
def refusedWithoutEdge : List (SessionAction String) :=
  .send "first" :: [.acquire false, .select, .startTurn, .dispatchReturns true, .writeStatus,
    .loop .foldLowered, .nextSnapshot, .acquire true, .select, .send "second", .acquire false,
    .select, .loop (.emitResult "s" 1 false false none "done" (.completed .endTurn)),
    .loop .foldEvent, .nextSnapshot, .drainPendingOn "m-1"]

end ConversationSession

end Zaowutai.Session
