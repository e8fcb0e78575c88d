import Zaowutai.Session.PendingQueue

/-!
# The order of dispatch

The flush lock is held from the choice of a head until its status is written
back.  While it is held the message in flight is the only one that may still
be `Held` although it was dispatched; every other `Held` message comes after
all the messages dispatched so far.
-/

namespace Zaowutai.Session

open Zaowutai.Lib

variable {Content : Type*}

def ConversationSession.inFlight (c : ConversationSession Content) : Option String :=
  match c.flush with
  | some ⟨_, .sending clientMsgId _⟩ => some clientMsgId
  | some ⟨_, .started clientMsgId _⟩ => some clientMsgId
  | some ⟨_, .returned clientMsgId _⟩ => some clientMsgId
  | _ => none

/-- A session together with what it passed to `Orchestrator::send`, in order, and every id it
minted. -/
structure DispatchHistory (Content : Type*) where
  session : ConversationSession Content
  passed : List (PendingMessage Content)
  minted : List String

namespace DispatchHistory

def new (sessionId msgIdPrefix : String) : DispatchHistory Content :=
  ⟨.new sessionId msgIdPrefix, [], []⟩

def passedBy (c : ConversationSession Content) : SessionAction Content →
    List (PendingMessage Content)
  | .select => c.selected.toList
  | _ => []

def mintedBy (c : ConversationSession Content) : SessionAction Content → List String
  | .send _ => [clientMsgIdOf c.msgIdPrefix (c.pending.nextId + 1)]
  | _ => []

def step (acceptsProactiveInput : Bool) (h : DispatchHistory Content)
    (a : SessionAction Content) : DispatchHistory Content where
  session := h.session.step acceptsProactiveInput a
  passed := h.passed ++ passedBy h.session a
  minted := h.minted ++ mintedBy h.session a

theorem passed_step (h : DispatchHistory Content) (acceptsProactiveInput : Bool)
    {a : SessionAction Content} (ha : a ≠ .select) :
    (h.step acceptsProactiveInput a).passed = h.passed := by
  cases a with
  | select => exact (ha rfl).elim
  | _ => exact List.append_nil _

theorem minted_step (h : DispatchHistory Content) (acceptsProactiveInput : Bool)
    {a : SessionAction Content} (ha : ∀ content, a ≠ .send content) :
    (h.step acceptsProactiveInput a).minted = h.minted := by
  cases a with
  | send content => exact (ha content rfl).elim
  | _ => exact List.append_nil _

end DispatchHistory

structure DispatchedInOrder (h : DispatchHistory Content) : Prop where
  once : (h.passed.map PendingMessage.clientMsgId).Nodup
  ordered : (h.passed.map PendingMessage.enqueueOrdinal).Pairwise (· < ·)
  distinct : h.minted.Nodup

namespace ConversationSession

variable (c : ConversationSession Content)

theorem inFlight_select :
    c.select.inFlight = (c.selected.map PendingMessage.clientMsgId).or c.inFlight := by
  rcases c.select_cases with ⟨_, m, hflush, hm, h⟩ | ⟨_, hflush, hm, h⟩ | ⟨hm, h⟩ <;>
    simp [h, hm, inFlight, release]
  simp [hflush]

theorem inFlight_writeStatus :
    c.writeStatus.inFlight = none ∨ c.writeStatus.inFlight = c.inFlight := by
  rcases c.writeStatus_cases with ⟨_, _, _, -, h⟩ | h
  · left
    simp [h, inFlight, release]
  · right
    rw [h]

theorem inFlight_step (acceptsProactiveInput : Bool) {a : SessionAction Content}
    (hselect : a ≠ .select) (hwrite : a ≠ .writeStatus) :
    (c.step acceptsProactiveInput a).inFlight = c.inFlight := by
  cases a with
  | select => exact (hselect rfl).elim
  | writeStatus => exact (hwrite rfl).elim
  | acquire fromRisingEdge =>
      rcases c.acquire_cases fromRisingEdge with ⟨hflush, -, -, h⟩ | ⟨hflush, -, -, h⟩ | h <;>
        simp [step, h, inFlight, release, stopWaiting]
      all_goals simp [hflush]
  | startTurn =>
      rcases c.startTurn_cases with ⟨_, _, _, hflush, h⟩ | h <;> simp [step, h, inFlight]
      simp [hflush]
  | dispatchReturns isOk =>
      rcases c.dispatchReturns_cases isOk with ⟨_, _, _, hflush, h⟩ | ⟨_, _, _, hflush, h⟩ | h <;>
        simp [step, h, inFlight]
      all_goals simp [hflush]
  | nextSnapshot =>
      rcases c.nextSnapshot_cases with ⟨_, -, -, -, h⟩ | ⟨_, -, -, h⟩ | h <;>
        simp [step, h, inFlight]
  | _ => rfl

theorem of_selected {c : ConversationSession Content} {m : PendingMessage Content}
    (h : c.selected = some m) : c.inFlight = none ∧ c.pending.head = some m := by
  rcases hflush : c.flush with _ | ⟨fromRisingEdge, _ | _ | _ | _⟩ <;>
    simp only [selected, hflush, reduceCtorEq] at h
  split at h
  · cases h
  · exact ⟨by simp [inFlight, hflush], h⟩

end ConversationSession

structure OrderInvariant (h : DispatchHistory Content) : Prop where
  queue : QueueInvariant h.session.msgIdPrefix h.session.pending
  minted : h.minted = (List.range h.session.pending.nextId).map
    fun i ↦ clientMsgIdOf h.session.msgIdPrefix (i + 1)
  passedIds : ∀ m ∈ h.passed,
    m.clientMsgId = clientMsgIdOf h.session.msgIdPrefix m.enqueueOrdinal
  passedBounded : ∀ m ∈ h.passed, m.enqueueOrdinal ≤ h.session.pending.nextId
  ordered : (h.passed.map PendingMessage.enqueueOrdinal).Pairwise (· < ·)
  ahead : ∀ m ∈ h.session.pending.queue, m.status = .held →
    h.session.inFlight = some m.clientMsgId ∨
      ∀ p ∈ h.passed, p.enqueueOrdinal < m.enqueueOrdinal

section Order

variable {h : DispatchHistory Content} {acceptsProactiveInput : Bool}

theorem orderInvariant_new (sessionId msgIdPrefix : String) :
    OrderInvariant (.new sessionId msgIdPrefix : DispatchHistory Content) := by
  refine ⟨⟨?_, ?_, ?_⟩, rfl, ?_, ?_, ?_, ?_⟩ <;>
    simp [DispatchHistory.new, ConversationSession.new]

theorem OrderInvariant.dispatchedInOrder (hinv : OrderInvariant h) : DispatchedInOrder h where
  once := by
    have hnodup : h.passed.Nodup := List.Nodup.of_map PendingMessage.enqueueOrdinal
      (hinv.ordered.imp fun hlt ↦ hlt.ne)
    refine hnodup.map_on fun m hm m' hm' heq ↦ ?_
    rw [hinv.passedIds m hm, hinv.passedIds m' hm'] at heq
    exact List.inj_on_of_nodup_map (hinv.ordered.imp fun hlt ↦ hlt.ne) hm hm'
      (clientMsgIdOf_injective heq)
  ordered := hinv.ordered
  distinct := by
    rw [hinv.minted]
    refine List.nodup_range.map fun i j heq ↦ ?_
    have hsucc := clientMsgIdOf_injective heq
    omega

theorem orderInvariant_send (hinv : OrderInvariant h) (content : Content) :
    OrderInvariant (h.step acceptsProactiveInput (.send content)) := by
  have hpassed : (h.step acceptsProactiveInput (.send content)).passed = h.passed :=
    h.passed_step acceptsProactiveInput (by simp)
  constructor
  · exact queueInvariant_enqueue hinv.queue content
  · show h.minted ++ _ = _
    rw [hinv.minted]
    simp [DispatchHistory.step, DispatchHistory.mintedBy, ConversationSession.step,
      Pending.enqueue, List.range_succ]
  · rw [hpassed]
    exact hinv.passedIds
  · rw [hpassed]
    intro m hm
    exact (hinv.passedBounded m hm).trans (Nat.le_succ _)
  · rw [hpassed]
    exact hinv.ordered
  · rw [hpassed]
    intro m hm hheld
    rcases List.mem_append.mp hm with hm | hm
    · exact hinv.ahead m hm hheld
    · right
      intro p hp
      have hle := hinv.passedBounded p hp
      rw [List.mem_singleton.mp hm]
      exact Nat.lt_succ_of_le hle

theorem orderInvariant_select (hinv : OrderInvariant h) :
    OrderInvariant (h.step acceptsProactiveInput .select) := by
  have hpending : h.session.select.pending = h.session.pending :=
    h.session.pending_flush acceptsProactiveInput (.inl rfl)
  have hids : h.session.select.msgIdPrefix = h.session.msgIdPrefix :=
    (h.session.ids_step acceptsProactiveInput .select).2
  have hminted : h.minted ++ DispatchHistory.mintedBy h.session .select = h.minted :=
    List.append_nil _
  have hin := h.session.inFlight_select
  cases hselected : h.session.selected with
  | none =>
      have hpassed : h.passed ++ DispatchHistory.passedBy h.session .select = h.passed := by
        simp [DispatchHistory.passedBy, hselected]
      rw [hselected, Option.map_none, Option.none_or] at hin
      simp only [DispatchHistory.step, hpassed, hminted, ConversationSession.step]
      constructor <;> simp only [hpending, hids, hin]
      · exact hinv.queue
      · exact hinv.minted
      · exact hinv.passedIds
      · exact hinv.passedBounded
      · exact hinv.ordered
      · exact hinv.ahead
  | some head =>
      obtain ⟨hnone, hhead⟩ := ConversationSession.of_selected hselected
      obtain ⟨hmem, hheld⟩ := mem_of_head hhead
      have hahead : ∀ m ∈ h.session.pending.queue, m.status = .held →
          ∀ p ∈ h.passed, p.enqueueOrdinal < m.enqueueOrdinal := by
        intro m hm hmheld
        rcases hinv.ahead m hm hmheld with hflight | hlt
        · rw [hnone] at hflight
          cases hflight
        · exact hlt
      have hpassed : h.passed ++ DispatchHistory.passedBy h.session .select =
          h.passed ++ [head] := by
        simp [DispatchHistory.passedBy, hselected]
      rw [hselected, Option.map_some, Option.some_or] at hin
      simp only [DispatchHistory.step, hpassed, hminted, ConversationSession.step]
      constructor <;> simp only [hpending, hids, hin]
      · exact hinv.queue
      · exact hinv.minted
      · intro m hm
        rcases List.mem_append.mp hm with hm | hm
        · exact hinv.passedIds m hm
        · rw [List.mem_singleton.mp hm]
          exact hinv.queue.ids head hmem
      · intro m hm
        rcases List.mem_append.mp hm with hm | hm
        · exact hinv.passedBounded m hm
        · rw [List.mem_singleton.mp hm]
          exact hinv.queue.bounded head hmem
      · rw [List.map_append, List.map_singleton, List.pairwise_append]
        refine ⟨hinv.ordered, List.pairwise_singleton _ _, ?_⟩
        intro i hi j hj
        obtain ⟨p, hp, rfl⟩ := List.mem_map.mp hi
        rw [List.mem_singleton.mp hj]
        exact hahead head hmem hheld p hp
      · intro m hm hmheld
        by_cases heq : m = head
        · left
          rw [heq]
        · right
          intro p hp
          rcases List.mem_append.mp hp with hp | hp
          · exact hahead m hm hmheld p hp
          · rw [List.mem_singleton.mp hp]
            exact head_lt hinv.queue hhead hm hmheld heq

theorem orderInvariant_quiet (hinv : OrderInvariant h) {a : SessionAction Content}
    (hsend : ∀ content, a ≠ .send content) (hselect : a ≠ .select)
    (hflight : ∀ m ∈ (h.session.step acceptsProactiveInput a).pending.queue, m.status = .held →
      h.session.inFlight = some m.clientMsgId →
        (h.session.step acceptsProactiveInput a).inFlight = some m.clientMsgId) :
    OrderInvariant (h.step acceptsProactiveInput a) := by
  have hpending := ConversationSession.pending_step hinv.queue acceptsProactiveInput hsend
  have hids := (h.session.ids_step acceptsProactiveInput a).2
  have hpassed := h.passed_step acceptsProactiveInput hselect
  have hminted := h.minted_step acceptsProactiveInput hsend
  have hsession : (h.step acceptsProactiveInput a).session =
      h.session.step acceptsProactiveInput a := rfl
  constructor <;> try rw [hsession]
  · exact ConversationSession.queueInvariant_step hinv.queue acceptsProactiveInput a
  · rw [hminted, hids, hpending]
    exact hinv.minted
  · rw [hpassed, hids]
    exact hinv.passedIds
  · rw [hpassed, hpending]
    exact hinv.passedBounded
  · rw [hpassed]
    exact hinv.ordered
  · rw [hpassed]
    intro m hm hheld
    have hsame := ConversationSession.held_of_step hinv.queue acceptsProactiveInput hsend hm hheld
    rcases hinv.ahead m hsame hheld with hin | hlt
    · exact .inl (hflight m hm hheld hin)
    · exact .inr hlt

theorem not_held_of_written (hinv : OrderInvariant h) {m : PendingMessage Content}
    (hm : m ∈ h.session.writeStatus.pending.queue) (hheld : m.status = .held)
    (hin : h.session.inFlight = some m.clientMsgId) :
    h.session.writeStatus.inFlight = some m.clientMsgId := by
  rcases h.session.writeStatus_cases with ⟨_, clientMsgId, isOk, hflush, -⟩ | hwrite
  · have hid : clientMsgId = m.clientMsgId := by
      simpa [ConversationSession.inFlight, hflush] using hin
    have hne := ConversationSession.held_of_writeStatus hinv.queue hm hheld hflush
    exact (hne hid.symm).elim
  · rw [hwrite]
    exact hin

theorem orderInvariant_step (hinv : OrderInvariant h) (a : SessionAction Content) :
    OrderInvariant (h.step acceptsProactiveInput a) := by
  cases a with
  | send content => exact orderInvariant_send hinv content
  | select => exact orderInvariant_select hinv
  | writeStatus =>
      apply orderInvariant_quiet hinv (by simp) (by simp)
      exact fun m hm hheld hin ↦ not_held_of_written hinv hm hheld hin
  | _ =>
      apply orderInvariant_quiet hinv (by simp) (by simp)
      intro m _ _ hin
      rw [h.session.inFlight_step acceptsProactiveInput (by simp) (by simp)]
      exact hin

/-- In every state of every run the messages were dispatched in the order in which they were
enqueued, each at most once, under ids that are pairwise distinct. -/
theorem messages_dispatched_in_order (acceptsProactiveInput : Bool)
    (sessionId msgIdPrefix : String) (acts : List (SessionAction Content)) :
    Throughout (DispatchHistory.step acceptsProactiveInput) DispatchedInOrder
      (.new sessionId msgIdPrefix) acts := by
  rw [throughout_iff_prefixes]
  intro pre _
  apply OrderInvariant.dispatchedInOrder
  apply run_invariant _ (orderInvariant_new sessionId msgIdPrefix)
  exact fun h a hinv ↦ orderInvariant_step hinv a

end Order

end Zaowutai.Session
