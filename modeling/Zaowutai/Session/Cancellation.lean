import Zaowutai.Session.DispatchOrder

/-!
# Cancelled messages and the course of a status

A cancel removes or marks `Held` messages, and the message in flight is
`Held` until its status is written back.  A cancel that reaches it, or a
confirmation that does, is what makes a cancelled message run or a status go
back.
-/

namespace Zaowutai.Session

open Zaowutai.Lib

variable {Content : Type*}

/-- `Held` leads to `Sent`, `Error` or `Canceled`, and `Sent` to `Accepted` or `Canceled`. -/
def MsgStatus.forward : MsgStatus → MsgStatus → Bool
  | .held, .sent | .held, .error | .held, .canceled => true
  | .sent, .accepted | .sent, .canceled => true
  | source, target => source == target

@[simp] theorem MsgStatus.forward_refl (status : MsgStatus) : status.forward status = true := by
  cases status <;> rfl

def StatusesForward (p p' : Pending Content) : Prop :=
  ∀ m ∈ p.queue, ∀ m' ∈ p'.queue, m'.enqueueOrdinal = m.enqueueOrdinal →
    m.status.forward m'.status = true

def SessionAction.cancels (a : SessionAction Content) (m : PendingMessage Content) : Bool :=
  match a with
  | .cancelHeld clientMsgId => isHeldWith clientMsgId m
  | .cancelAllOutstanding => m.status == .held
  | _ => false

/-- A session together with the ids for which `cancel_held` returned true or which
`cancel_all_outstanding` marked while they were `Held`. -/
structure CancelHistory (Content : Type*) where
  dispatch : DispatchHistory Content
  canceled : List String

namespace CancelHistory

def new (sessionId msgIdPrefix : String) : CancelHistory Content :=
  ⟨.new sessionId msgIdPrefix, []⟩

def session (h : CancelHistory Content) : ConversationSession Content := h.dispatch.session

def canceledBy (p : Pending Content) : SessionAction Content → List String
  | .cancelHeld clientMsgId => if (p.cancelHeld clientMsgId).2 then [clientMsgId] else []
  | .cancelAllOutstanding =>
      (p.queue.filter fun m ↦ m.status == .held).map PendingMessage.clientMsgId
  | _ => []

def step (acceptsProactiveInput : Bool) (h : CancelHistory Content) (a : SessionAction Content) :
    CancelHistory Content where
  dispatch := h.dispatch.step acceptsProactiveInput a
  canceled := h.canceled ++ canceledBy h.session.pending a

def NeverSent (h : CancelHistory Content) : Prop :=
  ∀ clientMsgId ∈ h.canceled, ∀ m ∈ h.dispatch.passed, m.clientMsgId ≠ clientMsgId

end CancelHistory

/-- A step moves each status forward and leaves no cancelled message dispatched. -/
structure CancelLaw (acceptsProactiveInput : Bool) (h : CancelHistory Content)
    (a : SessionAction Content) : Prop where
  forward : StatusesForward h.session.pending (h.step acceptsProactiveInput a).session.pending
  neverSent : (h.step acceptsProactiveInput a).NeverSent

/-- A cancel does not reach the message in flight, and a confirmation meets a message that is
`Sent` or already `Accepted`. -/
structure Untouched (h : CancelHistory Content) (a : SessionAction Content) : Prop where
  cancel : ∀ m ∈ h.session.pending.queue, a.cancels m = true →
    h.session.inFlight ≠ some m.clientMsgId
  drain : ∀ clientMsgId, a = .drainPendingOn clientMsgId → ∀ m ∈ h.session.pending.queue,
    m.clientMsgId = clientMsgId → m.status = .sent ∨ m.status = .accepted

structure CancelInvariant (h : CancelHistory Content) : Prop where
  order : OrderInvariant h.dispatch
  gone : ∀ clientMsgId ∈ h.canceled,
    (∃ i ≤ h.session.pending.nextId, clientMsgId = clientMsgIdOf h.session.msgIdPrefix i) ∧
      ∀ m ∈ h.session.pending.queue, m.clientMsgId = clientMsgId → m.status ≠ .held
  flightPassed : ∀ clientMsgId, h.session.inFlight = some clientMsgId →
    ∃ m ∈ h.dispatch.passed, m.clientMsgId = clientMsgId
  flightHeld : ∀ clientMsgId, h.session.inFlight = some clientMsgId →
    ∀ m ∈ h.session.pending.queue, m.clientMsgId = clientMsgId → m.status = .held
  neverSent : h.NeverSent

section Step

variable {h : CancelHistory Content} {acceptsProactiveInput : Bool}

theorem cancels_held {a : SessionAction Content} {m : PendingMessage Content}
    (h : a.cancels m = true) : m.status = .held := by
  cases a with
  | cancelHeld clientMsgId =>
      simp only [SessionAction.cancels, isHeldWith, Bool.and_eq_true, beq_iff_eq] at h
      exact h.2
  | cancelAllOutstanding => simpa [SessionAction.cancels] using h
  | _ => cases h

theorem mem_canceledBy {p : Pending Content} {a : SessionAction Content} {clientMsgId : String} :
    clientMsgId ∈ CancelHistory.canceledBy p a ↔
      ∃ m ∈ p.queue, a.cancels m = true ∧ m.clientMsgId = clientMsgId := by
  cases a with
  | cancelHeld id =>
      have hany : (p.cancelHeld id).2 = true ↔ ∃ m ∈ p.queue, isHeldWith id m = true :=
        List.any_eq_true
      have hid : ∀ m : PendingMessage Content, isHeldWith id m = true → m.clientMsgId = id := by
        intro m hm
        simp only [isHeldWith, Bool.and_eq_true, beq_iff_eq] at hm
        exact hm.1
      simp only [CancelHistory.canceledBy, SessionAction.cancels]
      constructor
      · intro hmem
        split at hmem
        · next hresult =>
            obtain ⟨m, hm, hheld⟩ := hany.mp hresult
            rw [List.mem_singleton.mp hmem]
            exact ⟨m, hm, hheld, hid m hheld⟩
        · cases hmem
      · rintro ⟨m, hm, hheld, rfl⟩
        rw [if_pos (hany.mpr ⟨m, hm, hheld⟩), hid m hheld]
        exact List.mem_singleton_self id
  | cancelAllOutstanding =>
      simp [CancelHistory.canceledBy, SessionAction.cancels, and_assoc]
  | _ => simp [CancelHistory.canceledBy, SessionAction.cancels]

theorem statusesForward_iff (hinv : CancelInvariant h) {a : SessionAction Content}
    (ha : ∀ content, a ≠ .send content) :
    StatusesForward h.session.pending (h.step acceptsProactiveInput a).session.pending ↔
      ∀ m ∈ h.session.pending.queue, ∀ m', h.session.entryUpdate a m = some m' →
        m.status.forward m'.status = true := by
  have hpending := ConversationSession.pending_step hinv.order.queue acceptsProactiveInput ha
  have hqueue : (h.step acceptsProactiveInput a).session.pending.queue =
      h.session.pending.queue.filterMap (h.session.entryUpdate a) := congrArg Pending.queue hpending
  have hentry := h.session.entrywise_entryUpdate a
  constructor
  · intro hforward m hm m' hm'
    apply hforward m hm m' _ (hentry m m' hm').2.1
    rw [hqueue]
    exact List.mem_filterMap.mpr ⟨m, hm, hm'⟩
  · intro heach m hm m' hm' hordinal
    rw [hqueue] at hm'
    obtain ⟨m₀, hm₀, hm'⟩ := List.mem_filterMap.mp hm'
    have hsame : m₀ = m := by
      apply hinv.order.queue.eq_of_ordinal hm₀ hm
      rw [← hordinal, (hentry m₀ m' hm').2.1]
    rw [hsame] at hm'
    exact heach m hm m' hm'

theorem forward_send (hinv : CancelInvariant h) (content : Content) :
    StatusesForward h.session.pending
      (h.step acceptsProactiveInput (.send content)).session.pending := by
  intro m hm m' hm' hordinal
  rcases List.mem_append.mp hm' with hm' | hm'
  · rw [hinv.order.queue.eq_of_ordinal hm' hm hordinal]
    exact MsgStatus.forward_refl _
  · have hle := hinv.order.queue.bounded m hm
    rw [List.mem_singleton.mp hm'] at hordinal
    have hsucc : h.session.pending.nextId + 1 = m.enqueueOrdinal := hordinal
    have hle : m.enqueueOrdinal ≤ h.session.pending.nextId := hle
    omega

/-- The statuses move forward exactly when a confirmation meets a message that is `Sent` or
already `Accepted`. -/
theorem forward_iff (hinv : CancelInvariant h) (a : SessionAction Content) :
    StatusesForward h.session.pending (h.step acceptsProactiveInput a).session.pending ↔
      ∀ clientMsgId, a = .drainPendingOn clientMsgId → ∀ m ∈ h.session.pending.queue,
        m.clientMsgId = clientMsgId → m.status = .sent ∨ m.status = .accepted := by
  cases a with
  | send content => exact iff_of_true (forward_send hinv content) (by simp)
  | drainPendingOn id =>
      rw [statusesForward_iff hinv (by simp)]
      simp only [ConversationSession.entryUpdate, restatus, Option.some_inj]
      constructor
      · rintro heach _ ⟨⟩ m hm hid
        have hforward := heach m hm _ rfl
        rw [if_pos hid] at hforward
        cases hstatus : m.status <;> rw [hstatus] at hforward <;>
          first | exact .inl rfl | exact .inr rfl | cases hforward
      · rintro hmeets m hm _ rfl
        split
        · next hid =>
            rcases hmeets id rfl m hm hid with hstatus | hstatus <;> rw [hstatus] <;> rfl
        · exact MsgStatus.forward_refl _
  | cancelAllOutstanding =>
      refine iff_of_true ((statusesForward_iff hinv (by simp)).mpr ?_) (by simp)
      rintro m - _ ⟨⟩
      cases hstatus : m.status <;> simp [cancelOutstanding, hstatus, MsgStatus.isOutstanding] <;>
        rfl
  | cancelHeld id =>
      refine iff_of_true ((statusesForward_iff hinv (by simp)).mpr ?_) (by simp)
      intro m _ m' hm'
      simp only [ConversationSession.entryUpdate, dropHeld] at hm'
      split at hm'
      · cases hm'
      · cases hm'
        exact MsgStatus.forward_refl _
  | writeStatus =>
      refine iff_of_true ((statusesForward_iff hinv (by simp)).mpr ?_) (by simp)
      intro m hm m' hm'
      rcases hflush : h.session.flush with _ | ⟨_, _ | _ | _ | ⟨id, isOk⟩⟩ <;>
        simp only [ConversationSession.entryUpdate, hflush, Option.some_inj] at hm'
      case some.returned =>
        rw [restatus, Option.some_inj] at hm'
        rw [← hm']
        split
        · next hid =>
            have hin : h.session.inFlight = some id := by
              simp [ConversationSession.inFlight, hflush]
            rw [hinv.flightHeld id hin m hm hid]
            cases isOk <;> rfl
        · exact MsgStatus.forward_refl _
      all_goals
        rw [← hm']
        exact MsgStatus.forward_refl _
  | _ =>
      refine iff_of_true ((statusesForward_iff hinv (by simp)).mpr ?_) (by simp)
      rintro m - _ ⟨⟩
      exact MsgStatus.forward_refl _

theorem neverSent_iff (hinv : CancelInvariant h) (a : SessionAction Content) :
    (h.step acceptsProactiveInput a).NeverSent ↔
      ∀ m ∈ h.session.pending.queue, a.cancels m = true →
        h.session.inFlight ≠ some m.clientMsgId := by
  constructor
  · intro hnever m hm hcancels hin
    obtain ⟨sent, hsent, hid⟩ := hinv.flightPassed _ hin
    refine hnever m.clientMsgId ?_ sent (List.mem_append_left _ hsent) hid
    exact List.mem_append_right _ (mem_canceledBy.mpr ⟨m, hm, hcancels, rfl⟩)
  · intro huntouched id hid sent hsent
    rcases List.mem_append.mp hid with hold | hid
    · rcases List.mem_append.mp hsent with hsent | hsent
      · exact hinv.neverSent id hold sent hsent
      · -- the head that is chosen now is `Held`, and a cancelled message is not
        cases a with
        | select =>
            have hselected : h.session.selected = some sent := Option.mem_toList.mp hsent
            have hhead := (ConversationSession.of_selected hselected).2
            obtain ⟨hmem, hheld⟩ := mem_of_head hhead
            intro heq
            exact (hinv.gone id hold).2 sent hmem heq hheld
        | _ => cases hsent
    · obtain ⟨m, hm, hcancels, rfl⟩ := mem_canceledBy.mp hid
      rcases List.mem_append.mp hsent with hsent | hsent
      · rcases hinv.order.ahead m hm (cancels_held hcancels) with hin | hlt
        · exact (huntouched m hm hcancels hin).elim
        · intro heq
          rw [hinv.order.passedIds sent hsent, hinv.order.queue.ids m hm] at heq
          have hne := hlt sent hsent
          have hordinal := clientMsgIdOf_injective heq
          omega
      · cases a with
        | select => cases hcancels
        | _ => cases hsent

theorem not_held_of_cancels (c : ConversationSession Content) {a : SessionAction Content}
    {m m' : PendingMessage Content} (hcancels : a.cancels m = true)
    (hupdate : c.entryUpdate a m = some m') : m'.status ≠ .held := by
  cases a with
  | cancelHeld id =>
      have hnone : c.entryUpdate (.cancelHeld id) m = none := if_pos hcancels
      rw [hnone] at hupdate
      cases hupdate
  | cancelAllOutstanding =>
      have hheld := cancels_held hcancels
      simp only [ConversationSession.entryUpdate, cancelOutstanding, hheld,
        MsgStatus.isOutstanding, if_true, Option.some_inj] at hupdate
      rw [← hupdate]
      simp
  | _ => cases hcancels

theorem gone_send (hinv : CancelInvariant h) (content : Content) {clientMsgId : String}
    (hid : clientMsgId ∈ h.canceled) :
    (∃ i ≤ h.session.pending.nextId + 1,
        clientMsgId = clientMsgIdOf h.session.msgIdPrefix i) ∧
      ∀ m ∈ (h.session.pending.enqueue h.session.msgIdPrefix content).queue,
        m.clientMsgId = clientMsgId → m.status ≠ .held := by
  obtain ⟨⟨i, hle, hi⟩, hgone⟩ := hinv.gone clientMsgId hid
  refine ⟨⟨i, by omega, hi⟩, ?_⟩
  intro m hm heq
  rcases List.mem_append.mp hm with hm | hm
  · exact hgone m hm heq
  · rw [List.mem_singleton.mp hm, hi] at heq
    have hfresh := clientMsgIdOf_injective heq
    omega

theorem gone_step (hinv : CancelInvariant h) {a : SessionAction Content} {clientMsgId : String}
    (hid : clientMsgId ∈ (h.step acceptsProactiveInput a).canceled) :
    (∃ i ≤ h.session.pending.nextId, clientMsgId = clientMsgIdOf h.session.msgIdPrefix i) ∧
      ∀ m ∈ h.session.pending.queue.filterMap (h.session.entryUpdate a),
        m.clientMsgId = clientMsgId → m.status ≠ .held := by
  have hentry := h.session.entrywise_entryUpdate a
  rcases List.mem_append.mp hid with hid | hid
  · obtain ⟨hbounded, hgone⟩ := hinv.gone clientMsgId hid
    refine ⟨hbounded, ?_⟩
    intro m' hm' heq hheld
    obtain ⟨m, hm, hupdate⟩ := List.mem_filterMap.mp hm'
    have hsame := (hentry m m' hupdate).2.2 hheld
    rw [hsame] at heq hheld
    exact hgone m hm heq hheld
  · obtain ⟨m, hm, hcancels, rfl⟩ := mem_canceledBy.mp hid
    refine ⟨⟨m.enqueueOrdinal, hinv.order.queue.bounded m hm, hinv.order.queue.ids m hm⟩, ?_⟩
    intro m' hm' heq
    obtain ⟨m₀, hm₀, hupdate⟩ := List.mem_filterMap.mp hm'
    have hsame : m₀ = m := by
      apply hinv.order.queue.eq_of_id hm₀ hm
      rw [← heq, (hentry m₀ m' hupdate).1]
    rw [hsame] at hupdate
    exact not_held_of_cancels h.session hcancels hupdate

theorem flightPassed_step (hinv : CancelInvariant h) (a : SessionAction Content)
    {clientMsgId : String}
    (hin : (h.step acceptsProactiveInput a).session.inFlight = some clientMsgId) :
    ∃ m ∈ (h.step acceptsProactiveInput a).dispatch.passed, m.clientMsgId = clientMsgId := by
  by_cases hselect : a = .select
  · subst hselect
    have hflight : h.session.select.inFlight = some clientMsgId := hin
    rw [h.session.inFlight_select] at hflight
    cases hselected : h.session.selected with
    | some m =>
        rw [hselected] at hflight
        refine ⟨m, List.mem_append_right _ ?_, by simpa using hflight⟩
        exact Option.mem_toList.mpr hselected
    | none =>
        rw [hselected] at hflight
        obtain ⟨m, hm, hid⟩ := hinv.flightPassed clientMsgId (by simpa using hflight)
        exact ⟨m, List.mem_append_left _ hm, hid⟩
  · have hbefore : h.session.inFlight = some clientMsgId := by
      by_cases hwrite : a = .writeStatus
      · subst hwrite
        rcases h.session.inFlight_writeStatus with hnone | hsame
        · cases hnone.symm.trans hin
        · exact hsame.symm.trans hin
      · rw [← h.session.inFlight_step acceptsProactiveInput hselect hwrite]
        exact hin
    obtain ⟨m, hm, hid⟩ := hinv.flightPassed clientMsgId hbefore
    exact ⟨m, List.mem_append_left _ hm, hid⟩

theorem held_of_untouched (hinv : CancelInvariant h) {a : SessionAction Content}
    (hguard : Untouched h a) (hwrite : a ≠ .writeStatus) {m m' : PendingMessage Content}
    (hm : m ∈ h.session.pending.queue) (hin : h.session.inFlight = some m.clientMsgId)
    (hupdate : h.session.entryUpdate a m = some m') : m'.status = .held := by
  have hheld := hinv.flightHeld _ hin m hm rfl
  cases a with
  | writeStatus => exact (hwrite rfl).elim
  | cancelHeld id =>
      simp only [ConversationSession.entryUpdate, dropHeld] at hupdate
      split at hupdate
      · cases hupdate
      · cases hupdate
        exact hheld
  | cancelAllOutstanding =>
      have hcancels : SessionAction.cancelAllOutstanding.cancels m = true := by
        simpa [SessionAction.cancels] using hheld
      exact (hguard.cancel m hm hcancels hin).elim
  | drainPendingOn id =>
      simp only [ConversationSession.entryUpdate, restatus, Option.some_inj] at hupdate
      split at hupdate
      · next hid =>
          rcases hguard.drain id rfl m hm hid with hstatus | hstatus <;>
            rw [hheld] at hstatus <;> cases hstatus
      · rw [← hupdate]
        exact hheld
  | _ =>
      cases hupdate
      exact hheld

theorem flightHeld_step (hinv : CancelInvariant h) {a : SessionAction Content}
    (hguard : Untouched h a) {clientMsgId : String}
    (hin : (h.step acceptsProactiveInput a).session.inFlight = some clientMsgId) :
    ∀ m ∈ (h.step acceptsProactiveInput a).session.pending.queue,
      m.clientMsgId = clientMsgId → m.status = .held := by
  intro m' hm' hid
  by_cases hselect : a = .select
  · subst hselect
    have hpending : h.session.select.pending = h.session.pending :=
      h.session.pending_flush acceptsProactiveInput (.inl rfl)
    have hm : m' ∈ h.session.select.pending.queue := hm'
    have hflight : h.session.select.inFlight = some clientMsgId := hin
    rw [hpending] at hm
    rw [h.session.inFlight_select] at hflight
    cases hselected : h.session.selected with
    | some m =>
        obtain ⟨hmem, hheld⟩ := mem_of_head (ConversationSession.of_selected hselected).2
        rw [hselected, Option.map_some, Option.some_or, Option.some_inj, ← hid] at hflight
        rw [← hinv.order.queue.eq_of_id hmem hm hflight]
        exact hheld
    | none =>
        rw [hselected, Option.map_none, Option.none_or] at hflight
        exact hinv.flightHeld clientMsgId hflight m' hm hid
  by_cases hwrite : a = .writeStatus
  · subst hwrite
    have hflight : h.session.writeStatus.inFlight = some clientMsgId := hin
    rcases h.session.writeStatus_cases with ⟨_, _, _, -, heq⟩ | heq
    · simp [heq, ConversationSession.inFlight, ConversationSession.release] at hflight
    · have hm : m' ∈ h.session.writeStatus.pending.queue := hm'
      rw [heq] at hm hflight
      exact hinv.flightHeld clientMsgId hflight m' hm hid
  have hbefore : h.session.inFlight = some clientMsgId :=
    (h.session.inFlight_step acceptsProactiveInput hselect hwrite).symm.trans hin
  by_cases hsend : ∃ content, a = .send content
  · obtain ⟨content, rfl⟩ := hsend
    rcases List.mem_append.mp hm' with hm' | hm'
    · exact hinv.flightHeld clientMsgId hbefore m' hm' hid
    · rw [List.mem_singleton.mp hm']
  · have hqueue : (h.session.step acceptsProactiveInput a).pending.queue =
        h.session.pending.queue.filterMap (h.session.entryUpdate a) :=
      congrArg Pending.queue (ConversationSession.pending_step hinv.order.queue
        acceptsProactiveInput fun content heq ↦ hsend ⟨content, heq⟩)
    have hm : m' ∈ (h.session.step acceptsProactiveInput a).pending.queue := hm'
    rw [hqueue] at hm
    obtain ⟨m, hm, hupdate⟩ := List.mem_filterMap.mp hm
    refine held_of_untouched hinv hguard hwrite hm ?_ hupdate
    rw [hbefore, ← hid, (h.session.entrywise_entryUpdate a m m' hupdate).1]

theorem cancelInvariant_step (hinv : CancelInvariant h) {a : SessionAction Content}
    (hguard : Untouched h a) : CancelInvariant (h.step acceptsProactiveInput a) where
  order := orderInvariant_step hinv.order a
  gone := by
    intro clientMsgId hid
    have hids : (h.step acceptsProactiveInput a).session.msgIdPrefix = h.session.msgIdPrefix :=
      (h.session.ids_step acceptsProactiveInput a).2
    rw [hids]
    by_cases hsend : ∃ content, a = .send content
    · obtain ⟨content, rfl⟩ := hsend
      apply gone_send hinv content
      simpa [CancelHistory.step, CancelHistory.canceledBy] using hid
    · have hne : ∀ content, a ≠ .send content := fun content heq ↦ hsend ⟨content, heq⟩
      have hpending : (h.step acceptsProactiveInput a).session.pending =
          { h.session.pending with
            queue := h.session.pending.queue.filterMap (h.session.entryUpdate a) } :=
        ConversationSession.pending_step hinv.order.queue acceptsProactiveInput hne
      rw [hpending]
      exact gone_step hinv hid
  flightPassed := fun _ hin ↦ flightPassed_step hinv a hin
  flightHeld := fun _ hin ↦ flightHeld_step hinv hguard hin
  neverSent := (neverSent_iff hinv a).mpr hguard.cancel

theorem cancelLaw_iff (hinv : CancelInvariant h) (a : SessionAction Content) :
    CancelLaw acceptsProactiveInput h a ↔ Untouched h a := by
  constructor
  · intro hlaw
    exact ⟨(neverSent_iff hinv a).mp hlaw.neverSent, (forward_iff hinv a).mp hlaw.forward⟩
  · intro hguard
    exact ⟨(forward_iff hinv a).mpr hguard.drain, (neverSent_iff hinv a).mpr hguard.cancel⟩

theorem cancelInvariant_new (sessionId msgIdPrefix : String) :
    CancelInvariant (.new sessionId msgIdPrefix : CancelHistory Content) where
  order := orderInvariant_new sessionId msgIdPrefix
  gone := fun _ hid ↦ by cases hid
  flightPassed := fun _ hin ↦ by cases hin
  flightHeld := fun _ hin ↦ by cases hin
  neverSent := fun _ hid ↦ by cases hid

/-- Cancelled messages stay unsent and statuses move forward in exactly the runs that leave the
message in flight alone. -/
theorem cancel_respected_iff (acceptsProactiveInput : Bool) (sessionId msgIdPrefix : String)
    (acts : List (SessionAction Content)) :
    Meets (CancelHistory.step acceptsProactiveInput) (CancelLaw acceptsProactiveInput)
        (.new sessionId msgIdPrefix) acts ↔
      Meets (CancelHistory.step acceptsProactiveInput) Untouched
        (.new sessionId msgIdPrefix) acts := by
  apply meets_iff_meets _ _ (cancelInvariant_new sessionId msgIdPrefix)
  · exact fun _ _ hinv hguard ↦ cancelInvariant_step hinv hguard
  · exact fun _ a hinv ↦ cancelLaw_iff hinv a

end Step

/-- A message is cancelled while the dispatch of it is in progress. -/
def cancelInFlight : List (SessionAction String) :=
  [.send "hello", .acquire false, .select, .cancelHeld "m-1"]

/-- `cancel_held` returns true for a message that the dispatch has already. -/
theorem cancelInFlight_sent :
    ¬ Meets (CancelHistory.step false) (CancelLaw false) (.new "s" "m") cancelInFlight := by
  intro h
  have hnever := h.2.2.2.1.neverSent
  exact hnever "m-1" (by decide) ⟨"m-1", "hello", .held, 1⟩ (by decide) rfl

end Zaowutai.Session
