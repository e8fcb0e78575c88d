import Zaowutai.Acp.PermissionRouter

/-!
# One answer for each permission request

Only the loop registers requests, and it is done with one before it takes the
next.  What it removes after a failed publication is therefore the request it
published, if that still waits.  The flag of a shutdown is not looked at: a
request that the loop takes after the shutdown waits in the map again.
-/

namespace Zaowutai.Acp

open Zaowutai.Lib

def RouterPhase.current? : RouterPhase → Option (ℕ × String)
  | .idle => none
  | .registered request callId | .undelivered request callId => some (request, callId)

namespace PermissionRouter

variable (s : PermissionRouter)

def registers? : Option (ℕ × RequestPermissionRequest) :=
  match s.phase, s.channel with
  | .idle, entry :: _ => if entry.2.autoApproveOptionId.isNone then some entry else none
  | _, _ => none

/-- Every request the loop registers comes before the shutdown. -/
def ReceivesOpen : RouterAction → Prop
  | .receive => s.registers?.isSome = true → s.shutDown = false
  | _ => True

structure AnsweredOnce : Prop where
  pending : ∀ request ∈ s.received, s.IsPending request →
    s.answersTo request = [] ∧
      ∃ confirmation, s.getConfirmations.filter (s.waiting ·.callId = some request) =
        [confirmation]
  answered : ∀ request ∈ s.received, ¬s.IsPending request →
    ∃ answer, s.answersTo request = [answer]
  callIds : (s.getConfirmations.map (·.callId)).Nodup

/-- After the shutdown nothing is pending. -/
def ClosedEmpty : Prop := s.shutDown = true → ∀ request, ¬s.IsPending request

def ConfirmLaw : RouterAction → Prop
  | .confirm callId optionId => (s.confirm callId optionId).2.isOk = true →
      ∃ pending, s.pending.lookup callId = some pending ∧
        pending.confirmation ∈ s.getConfirmations ∧ pending.confirmation.callId = callId ∧
          (s.confirm callId optionId).1.answers =
            s.answers ++ [⟨pending.request, .selected optionId, true⟩]
  | _ => True

def Displaces (action : RouterAction) (request : ℕ) : Prop :=
  action = .receive ∧ ∃ entry, s.registers? = some entry ∧
    s.waiting entry.2.toolCallId = some request

def Undelivers (action : RouterAction) (request : ℕ) : Prop :=
  action = .withdraw ∧ (∃ callId, s.phase = .undelivered request callId) ∧ s.IsPending request

def CancelsAll (action : RouterAction) (request : ℕ) : Prop :=
  action = .cancelAll ∧ s.IsPending request

/-- Exactly these requests are answered `Cancelled`. -/
def CancelLaw (action : RouterAction) : Prop :=
  ∃ sent, (s.step action).answers = s.answers ++ sent ∧ ∀ request,
    (∃ answer ∈ sent, answer.request = request ∧ answer.decision = .cancelled) ↔
      s.Displaces action request ∨ s.Undelivers action request ∨ s.CancelsAll action request

structure Tracked : Prop where
  balanced : s.Balanced
  channel : ∀ entry ∈ s.channel, entry.1 ∉ s.received ∧ entry.1 < s.arrived
  channelOnce : (s.channel.map Prod.fst).Nodup
  received : ∀ request ∈ s.received, request < s.arrived
  phase : ∀ current, s.phase.current? = some current → ∀ callId request,
    s.waiting callId = some request → (callId = current.2 ↔ request = current.1)

section Facts

variable {s} {action : RouterAction}

theorem receive_cases (s : PermissionRouter) :
    s.receive = s ∧ s.registers? = none ∨
      ∃ request permission rest, s.phase = .idle ∧ s.channel = (request, permission) :: rest ∧
        ((∃ optionId, permission.autoApproveOptionId = some optionId ∧ s.registers? = none ∧
            s.receive = approve { s with channel := rest } request optionId) ∨
          (permission.autoApproveOptionId = none ∧
            s.registers? = some (request, permission) ∧
            s.receive = register { s with channel := rest } request permission.toConfirmation)) := by
  rw [receive, registers?]
  cases hphase : s.phase with
  | registered _ _ | undelivered _ _ => exact .inl ⟨rfl, rfl⟩
  | idle =>
      cases hchannel : s.channel with
      | nil => exact .inl ⟨rfl, rfl⟩
      | cons entry rest =>
          refine .inr ⟨entry.1, entry.2, rest, rfl, rfl, ?_⟩
          cases happrove : entry.2.autoApproveOptionId with
          | some optionId => exact .inl ⟨optionId, rfl, by simp [happrove], by simp [happrove]⟩
          | none => exact .inr ⟨rfl, by simp [happrove], by simp [happrove]⟩

theorem answer_frame (callId : String) (decision : PermissionDecision) :
    (s.answer callId decision).channel = s.channel ∧
      (s.answer callId decision).arrived = s.arrived ∧
        (s.answer callId decision).phase = s.phase ∧
          (s.answer callId decision).shutDown = s.shutDown := by
  cases hwaiting : s.waiting callId with
  | none => rw [answer_of_none hwaiting]; exact ⟨rfl, rfl, rfl, rfl⟩
  | some request => rw [answer_of_some hwaiting]; exact ⟨rfl, rfl, rfl, rfl⟩

theorem register_frame (request : ℕ) (confirmation : Confirmation) :
    (s.register request confirmation).channel = s.channel ∧
      (s.register request confirmation).arrived = s.arrived ∧
        (s.register request confirmation).shutDown = s.shutDown := by
  obtain ⟨hchannel, harrived, -, hshutDown⟩ := s.answer_frame confirmation.callId .cancelled
  exact ⟨hchannel, harrived, hshutDown⟩

theorem Tracked.answer (h : s.Tracked) (callId : String) (decision : PermissionDecision) :
    (s.answer callId decision).Tracked := by
  obtain ⟨hchannel, harrived, hphase, -⟩ := s.answer_frame callId decision
  refine ⟨h.balanced.answer callId decision, ?_, ?_, ?_, ?_⟩
  · rw [hchannel, received_answer, harrived]
    exact h.channel
  · rw [hchannel]
    exact h.channelOnce
  · rw [received_answer, harrived]
    exact h.received
  · intro current hcurrent callId' request hwaiting
    rw [hphase] at hcurrent
    exact h.phase current hcurrent callId' request (waiting_answer_some.mp hwaiting).2

theorem Tracked.cancelAll (h : s.Tracked) : s.cancelAll.Tracked := by
  have hall := foldl_answer_induction Tracked h fun t callId ht ↦ ht.answer callId .cancelled
  exact ⟨h.balanced.cancelAll, hall.channel, hall.channelOnce, hall.received, hall.phase⟩

theorem Tracked.take (h : s.Tracked) {request : ℕ} {permission : RequestPermissionRequest}
    {rest : List (ℕ × RequestPermissionRequest)}
    (hchannel : s.channel = (request, permission) :: rest) :
    request ∉ s.received ∧ request < s.arrived ∧ (rest.map Prod.fst).Nodup ∧
      ∀ entry ∈ rest, entry.1 ∉ request :: s.received ∧ entry.1 < s.arrived := by
  have honce := h.channelOnce
  rw [hchannel, List.map_cons, List.nodup_cons] at honce
  obtain ⟨hnew, hold⟩ := h.channel (request, permission) (hchannel ▸ List.mem_cons_self)
  refine ⟨hnew, hold, honce.2, fun entry hentry ↦ ?_⟩
  obtain ⟨hentryNew, hentryOld⟩ := h.channel entry (hchannel ▸ List.mem_cons_of_mem _ hentry)
  refine ⟨?_, hentryOld⟩
  rw [List.mem_cons, not_or]
  refine ⟨?_, hentryNew⟩
  intro heq
  have hmem : entry.1 ∈ rest.map Prod.fst := List.mem_map_of_mem hentry
  exact honce.1 (heq ▸ hmem)

theorem Tracked.receive (h : s.Tracked) : s.receive.Tracked := by
  obtain ⟨heq, -⟩ | ⟨request, permission, rest, hphase, hchannel, htaken⟩ := s.receive_cases
  · rwa [heq]
  · obtain ⟨hnew, hold, honce, hrest⟩ := h.take hchannel
    have hbalanced : Balanced { s with channel := rest } :=
      ⟨h.balanced.unique, h.balanced.unanswered, h.balanced.answered, h.balanced.received,
        h.balanced.listed⟩
    have hreceived : ∀ other ∈ request :: s.received, other < s.arrived := by
      intro other hother
      obtain rfl | hother := List.mem_cons.mp hother
      · exact hold
      · exact h.received other hother
    obtain ⟨optionId, -, -, heq⟩ | ⟨-, -, heq⟩ := htaken
    · rw [heq]
      refine ⟨hbalanced.approve hnew optionId, hrest, honce, hreceived, ?_⟩
      intro current hcurrent
      rw [approve, send, hphase] at hcurrent
      cases hcurrent
    · rw [heq]
      obtain ⟨hframe, harrived, -⟩ :=
        register_frame (s := { s with channel := rest }) request permission.toConfirmation
      refine ⟨hbalanced.register hnew, ?_, ?_, ?_, ?_⟩
      · rw [hframe, harrived]
        exact hrest
      · rw [hframe]
        exact honce
      · rw [harrived]
        exact hreceived
      · rintro current ⟨⟩ callId' other hwaiting
        rw [waiting, register, Table.lookup_insert_eq] at hwaiting
        split at hwaiting
        · next heq =>
            cases hwaiting
            exact iff_of_true heq rfl
        · next hne =>
            have hother := (waiting_answer_some.mp hwaiting).2
            refine iff_of_false hne ?_
            rintro rfl
            exact hnew (h.balanced.received _ (.inl ⟨callId', hother⟩))

theorem Tracked.withPhase (h : s.Tracked) {phase : RouterPhase}
    (hphase : ∀ current, phase.current? = some current → s.phase.current? = some current) :
    Tracked { s with phase := phase } :=
  ⟨⟨h.balanced.unique, h.balanced.unanswered, h.balanced.answered, h.balanced.received,
      h.balanced.listed⟩, h.channel, h.channelOnce, h.received,
    fun current hcurrent ↦ h.phase current (hphase current hcurrent)⟩

theorem Tracked.step (h : s.Tracked) (action : RouterAction) : (s.step action).Tracked := by
  cases action with
  | arrive request =>
      refine ⟨⟨h.balanced.unique, h.balanced.unanswered, h.balanced.answered,
        h.balanced.received, h.balanced.listed⟩, ?_, ?_, ?_, h.phase⟩
      · intro entry hentry
        obtain hentry | hentry := List.mem_append.mp hentry
        · obtain ⟨hnew, hold⟩ := h.channel entry hentry
          exact ⟨hnew, hold.trans (Nat.lt_succ_self _)⟩
        · rw [List.mem_singleton.mp hentry]
          exact ⟨fun hmem ↦ (h.received _ hmem).false, Nat.lt_succ_self _⟩
      · change ((s.channel ++ [(s.arrived, request)]).map Prod.fst).Nodup
        rw [List.map_append, List.nodup_append]
        refine ⟨h.channelOnce, List.nodup_singleton _, ?_⟩
        rintro first hfirst second hsecond rfl
        obtain ⟨entry, hentry, rfl⟩ := List.mem_map.mp hfirst
        exact (h.channel entry hentry).2.ne (List.mem_singleton.mp hsecond)
      · exact fun other hother ↦ (h.received other hother).trans (Nat.lt_succ_self _)
  | receive => exact h.receive
  | publish heard =>
      rw [PermissionRouter.step, publish]
      cases hphase : s.phase with
      | idle | undelivered _ _ => exact h
      | registered request callId =>
          refine h.withPhase fun current hcurrent ↦ ?_
          rw [hphase]
          cases heard with
          | true => cases hcurrent
          | false => exact hcurrent
  | withdraw =>
      rw [PermissionRouter.step, withdraw]
      cases s.phase with
      | idle | registered _ _ => exact h
      | undelivered request callId =>
          exact (h.answer callId .cancelled).withPhase fun current hcurrent ↦ (by cases hcurrent)
  | confirm callId optionId =>
      rw [PermissionRouter.step, confirm]
      split
      · exact h
      · exact h.answer callId _
  | cancelAll => exact h.cancelAll
  | setClosing | abandon request =>
      exact ⟨⟨h.balanced.unique, h.balanced.unanswered, h.balanced.answered,
        h.balanced.received, h.balanced.listed⟩, h.channel, h.channelOnce, h.received, h.phase⟩

theorem tracked_new : new.Tracked := by
  refine ⟨⟨?_, ?_, ?_, ?_, ?_⟩, ?_, List.nodup_nil, ?_, ?_⟩
  · intro callId callId' request hwaiting
    cases hwaiting
  · rintro request ⟨callId, hwaiting⟩
    cases hwaiting
  · intro request hmem
    cases hmem
  · rintro request (⟨callId, hwaiting⟩ | hanswers)
    · cases hwaiting
    · exact absurd rfl hanswers
  · intro callId pending hlookup
    cases hlookup
  · intro entry hentry
    cases hentry
  · intro request hmem
    cases hmem
  · intro current hcurrent
    cases hcurrent

theorem filter_eq_singleton {α β : Type*} [DecidableEq β] {f : α → β} {l : List α} {a : α}
    (hl : (l.map f).Nodup) (ha : a ∈ l) : l.filter (f · = f a) = [a] := by
  induction l with
  | nil => cases ha
  | cons b l ih =>
      obtain ⟨hb, hl⟩ := List.nodup_cons.mp hl
      obtain rfl | ha := List.mem_cons.mp ha
      · have hrest : l.filter (f · = f a) = [] := by
          rw [List.filter_eq_nil_iff]
          intro c hc heq
          exact hb (of_decide_eq_true heq ▸ List.mem_map_of_mem hc)
        simp only [List.filter_cons, decide_true, if_true, hrest]
      · have hne : f b ≠ f a := by
          intro heq
          have hmem : f a ∈ l.map f := List.mem_map_of_mem ha
          exact hb (heq ▸ hmem)
        simp only [List.filter_cons, hne, decide_false, Bool.false_eq_true, if_false]
        exact ih hl ha

theorem mem_getConfirmations {confirmation : Confirmation} :
    confirmation ∈ s.getConfirmations ↔ ∃ callId pending,
      s.pending.lookup callId = some pending ∧ pending.confirmation = confirmation := by
  rw [getConfirmations, List.mem_map]
  constructor
  · rintro ⟨pending, hmem, rfl⟩
    obtain ⟨callId, hlookup⟩ := Table.mem_values_iff.mp hmem
    exact ⟨callId, pending, hlookup, rfl⟩
  · rintro ⟨callId, pending, hlookup, rfl⟩
    exact ⟨pending, Table.mem_values_iff.mpr ⟨callId, hlookup⟩, rfl⟩

theorem Balanced.nodup_callIds (h : s.Balanced) : (s.getConfirmations.map (·.callId)).Nodup := by
  have hkeys : s.getConfirmations.map (·.callId) = s.pending.keys := by
    rw [getConfirmations, Table.values, List.map_map, List.map_map]
    refine List.map_congr_left fun entry hentry ↦ ?_
    exact h.listed entry.1 entry.2 (Table.mem_entries_iff.mp hentry)
  rw [hkeys]
  exact s.pending.nodupKeys

theorem Balanced.answeredOnce (h : s.Balanced) : s.AnsweredOnce := by
  refine ⟨?_, h.answered, h.nodup_callIds⟩
  rintro request - ⟨callId, hwaiting⟩
  refine ⟨h.unanswered request ⟨callId, hwaiting⟩, ?_⟩
  obtain ⟨pending, hlookup, rfl⟩ := Option.map_eq_some_iff.mp hwaiting
  refine ⟨pending.confirmation, ?_⟩
  have hmem := mem_getConfirmations.mpr ⟨callId, pending, hlookup, rfl⟩
  rw [← filter_eq_singleton h.nodup_callIds hmem]
  refine List.filter_congr fun confirmation hmem ↦ ?_
  obtain ⟨other, otherPending, hother, rfl⟩ := mem_getConfirmations.mp hmem
  rw [h.listed other otherPending hother, h.listed callId pending hlookup]
  have hiff : s.waiting other = some pending.request ↔ other = callId := by
    constructor
    · exact fun hsame ↦ h.unique other callId pending.request hsame hwaiting
    · rintro rfl
      exact hwaiting
  simp only [hiff]

theorem Balanced.confirmLaw (h : s.Balanced) : s.ConfirmLaw action := by
  cases action with
  | confirm callId optionId =>
      intro hok
      rw [confirm] at hok ⊢
      cases hlookup : s.pending.lookup callId with
      | none =>
          rw [hlookup] at hok
          cases hok
      | some pending =>
          rw [hlookup] at hok
          refine ⟨pending, rfl, mem_getConfirmations.mpr ⟨callId, pending, hlookup, rfl⟩,
            h.listed callId pending hlookup, ?_⟩
          have hwaiting : s.waiting callId = some pending.request :=
            Option.map_eq_some_iff.mpr ⟨pending, hlookup, rfl⟩
          have hthere : pending.request ∉ s.abandoned := by
            intro hgone
            dsimp only at hok
            rw [if_pos hgone] at hok
            cases hok
          simp only [answer_of_some hwaiting, send, hthere, not_false_eq_true, decide_true]
  | _ => trivial

theorem answers_answer (callId : String) (decision : PermissionDecision) :
    (s.answer callId decision).answers =
      s.answers ++ (s.waiting callId).toList.map
        fun request ↦ ⟨request, decision, request ∉ s.abandoned⟩ := by
  cases hwaiting : s.waiting callId with
  | none => rw [answer_of_none hwaiting, Option.toList_none, List.map_nil, List.append_nil]
  | some request => rw [answer_of_some hwaiting]; rfl

theorem exists_cancelled_toList {waiting : Option ℕ} {delivered : ℕ → Bool} {request : ℕ} :
    (∃ answer ∈ waiting.toList.map fun other ↦
        (⟨other, .cancelled, delivered other⟩ : PermissionAnswer),
      answer.request = request ∧ answer.decision = .cancelled) ↔ waiting = some request := by
  cases waiting <;> simp

theorem answers_foldl {callIds : List String} (honce : callIds.Nodup) (s : PermissionRouter) :
    ∃ sent, (callIds.foldl (fun s callId ↦ s.answer callId .cancelled) s).answers =
        s.answers ++ sent ∧
      ∀ request, (∃ answer ∈ sent, answer.request = request ∧ answer.decision = .cancelled) ↔
        ∃ callId ∈ callIds, s.waiting callId = some request := by
  induction callIds generalizing s with
  | nil => exact ⟨[], (List.append_nil _).symm, by simp⟩
  | cons callId callIds ih =>
      obtain ⟨hnew, honce⟩ := List.nodup_cons.mp honce
      obtain ⟨sent, hsent, hcancelled⟩ := ih honce (s.answer callId .cancelled)
      refine ⟨_, by rw [List.foldl_cons, hsent, answers_answer, List.append_assoc], ?_⟩
      intro request
      simp only [List.mem_append, or_and_right, exists_or, exists_cancelled_toList, hcancelled,
        List.exists_mem_cons_iff]
      refine or_congr_right (exists_congr fun other ↦ and_congr_right fun hother ↦ ?_)
      rw [waiting_answer, if_neg]
      rintro rfl
      exact hnew hother

theorem Tracked.cancelLaw (h : s.Tracked) : s.CancelLaw action := by
  cases action with
  | arrive request | setClosing | abandon request =>
      exact ⟨[], (List.append_nil _).symm, fun other ↦ by
        simp [Displaces, Undelivers, CancelsAll]⟩
  | publish heard =>
      refine ⟨[], ?_, fun other ↦ by simp [Displaces, Undelivers, CancelsAll]⟩
      rw [PermissionRouter.step, publish, List.append_nil]
      split <;> rfl
  | confirm callId optionId =>
      rw [CancelLaw, PermissionRouter.step, confirm]
      split
      · exact ⟨[], (List.append_nil _).symm, fun other ↦ by
          simp [Displaces, Undelivers, CancelsAll]⟩
      · refine ⟨_, answers_answer callId _, fun other ↦ ?_⟩
        simp [Displaces, Undelivers, CancelsAll]
  | receive =>
      rw [CancelLaw, PermissionRouter.step]
      simp only [Displaces, Undelivers, CancelsAll, reduceCtorEq, false_and, true_and, or_false]
      obtain ⟨heq, hnone⟩ | ⟨request, permission, rest, -, -, htaken⟩ := s.receive_cases
      · rw [heq, hnone]
        exact ⟨[], (List.append_nil _).symm, fun other ↦ by simp⟩
      · obtain ⟨optionId, -, hnone, heq⟩ | ⟨-, hsome, heq⟩ := htaken
        · rw [heq, hnone]
          exact ⟨_, rfl, fun other ↦ by simp⟩
        · rw [heq, hsome]
          refine ⟨_, answers_answer permission.toolCallId .cancelled, fun other ↦ ?_⟩
          rw [exists_cancelled_toList]
          simp only [Option.some_inj, exists_eq_left']
          rfl
  | withdraw =>
      rw [CancelLaw, PermissionRouter.step, withdraw]
      simp only [Displaces, Undelivers, CancelsAll, reduceCtorEq, false_and, true_and, false_or,
        or_false]
      cases hphase : s.phase with
      | idle | registered _ _ =>
          exact ⟨[], (List.append_nil _).symm, fun other ↦ by simp⟩
      | undelivered request callId =>
          refine ⟨_, answers_answer callId .cancelled, fun other ↦ ?_⟩
          rw [exists_cancelled_toList]
          have hcurrent := h.phase (request, callId) (by rw [hphase]; rfl)
          constructor
          · intro hwaiting
            obtain rfl := (hcurrent callId other hwaiting).mp rfl
            exact ⟨⟨callId, rfl⟩, callId, hwaiting⟩
          · rintro ⟨⟨callId', heq⟩, other', hwaiting⟩
            cases heq
            obtain rfl := (hcurrent other' request hwaiting).mpr rfl
            exact hwaiting
  | cancelAll =>
      obtain ⟨sent, hsent, hcancelled⟩ := answers_foldl s.pending.nodupKeys s
      refine ⟨sent, hsent, fun other ↦ ?_⟩
      rw [hcancelled]
      simp only [Displaces, Undelivers, CancelsAll, reduceCtorEq, false_and, true_and, false_or]
      constructor
      · rintro ⟨callId, -, hwaiting⟩
        exact ⟨callId, hwaiting⟩
      · rintro ⟨callId, hwaiting⟩
        obtain ⟨pending, hlookup, -⟩ := Option.map_eq_some_iff.mp hwaiting
        exact ⟨callId, AList.mem_keys.mp (AList.lookup_isSome.mp (hlookup ▸ rfl)), hwaiting⟩

theorem waiting_cancelAll (callId : String) : s.cancelAll.waiting callId = none := by
  have hfold : ∀ (callIds : List String) (t : PermissionRouter),
      (callIds.foldl (fun s callId ↦ s.answer callId .cancelled) t).waiting callId =
        if callId ∈ callIds then none else t.waiting callId := by
    intro callIds
    induction callIds with
    | nil => exact fun _ ↦ rfl
    | cons first callIds ih =>
        intro t
        rw [List.foldl_cons, ih, waiting_answer]
        by_cases hrest : callId ∈ callIds
        · rw [if_pos hrest, if_pos (List.mem_cons_of_mem first hrest)]
        · by_cases heq : callId = first
          · rw [if_neg hrest, if_pos heq, if_pos (heq ▸ List.mem_cons_self)]
          · rw [if_neg hrest, if_neg heq, if_neg (by simp [hrest, heq])]
  change (s.pending.keys.foldl _ s).waiting callId = none
  rw [hfold]
  split
  · rfl
  · next hnew =>
      rw [waiting, Option.map_eq_none_iff, AList.lookup_eq_none]
      exact hnew

/-- A step leaves nothing pending after a shutdown exactly if the loop registers nothing then. -/
theorem closedEmpty_step_iff (hclosed : s.ClosedEmpty) :
    (s.step action).ClosedEmpty ↔ s.ReceivesOpen action := by
  have hanswer : ∀ callId decision, (s.answer callId decision).ClosedEmpty := by
    rintro callId decision hshut request ⟨other, hwaiting⟩
    rw [(s.answer_frame callId decision).2.2.2] at hshut
    exact hclosed hshut request ⟨other, (waiting_answer_some.mp hwaiting).2⟩
  cases action with
  | arrive request | setClosing | abandon request => exact iff_of_true hclosed trivial
  | publish heard =>
      refine iff_of_true ?_ trivial
      rw [PermissionRouter.step, publish]
      split <;> exact hclosed
  | withdraw =>
      refine iff_of_true ?_ trivial
      rw [PermissionRouter.step, withdraw]
      split
      · exact hanswer _ _
      · exact hclosed
      · exact hclosed
  | confirm callId optionId =>
      refine iff_of_true ?_ trivial
      rw [PermissionRouter.step, confirm]
      split
      · exact hclosed
      · exact hanswer _ _
  | cancelAll =>
      refine iff_of_true ?_ trivial
      rintro - request ⟨callId, hwaiting⟩
      cases (waiting_cancelAll callId).symm.trans hwaiting
  | receive =>
      rw [PermissionRouter.step, ReceivesOpen]
      obtain ⟨heq, hnone⟩ | ⟨request, permission, rest, -, -, htaken⟩ := s.receive_cases
      · rw [heq, hnone]
        exact iff_of_true hclosed fun hsome ↦ (by cases hsome)
      · obtain ⟨optionId, -, hnone, heq⟩ | ⟨-, hsome, heq⟩ := htaken
        · rw [heq, hnone]
          exact iff_of_true hclosed fun hsome ↦ (by cases hsome)
        · rw [heq, hsome, ClosedEmpty, (register_frame _ _).2.2]
          constructor
          · intro hempty _
            by_contra hshut
            refine hempty (Bool.eq_true_of_not_eq_false hshut) request ⟨permission.toolCallId, ?_⟩
            rw [waiting, register, Table.lookup_insert_eq]
            simp [RequestPermissionRequest.toConfirmation]
          · intro hopen hshut
            cases (hopen rfl).symm.trans hshut

end Facts

/-- Every request is answered once, an option reaches the request it was chosen for, exactly the
displaced, undelivered and cancelled ones are told so, and a shutdown leaves nothing pending. -/
def OneAnswer (actions : List RouterAction) : Prop :=
  Throughout step (fun s ↦ s.AnsweredOnce ∧ s.ClosedEmpty) new actions ∧
    Meets step (fun s action ↦ s.ConfirmLaw action ∧ s.CancelLaw action) new actions

/-- Each request gets its one answer exactly in the runs in which the loop registers no request
after the shutdown. -/
theorem oneAnswer_iff_receivesOpen (actions : List RouterAction) :
    OneAnswer actions ↔ Meets step ReceivesOpen new actions := by
  have hclosed : Throughout step (fun s ↦ s.AnsweredOnce ∧ s.ClosedEmpty) new actions ↔
      Meets step ReceivesOpen new actions := by
    refine throughout_iff_meets (Q := Tracked) (fun _ action h ↦ h.step action) ?_ tracked_new ?_
    · intro s action htracked hstate
      have hnext := (htracked.step action).balanced.answeredOnce
      rw [← closedEmpty_step_iff hstate.2]
      exact and_iff_right hnext
    · refine ⟨tracked_new.balanced.answeredOnce, fun hshut ↦ (by cases hshut)⟩
  constructor
  · exact fun h ↦ hclosed.mp h.1
  · intro h
    refine ⟨hclosed.mpr h, meets_of_meets (Q := Tracked) (fun _ action ht _ ↦ ht.step action)
      (fun _ action ht _ ↦ ?_) tracked_new h⟩
    exact ⟨ht.balanced.confirmLaw, ht.cancelLaw⟩

def editRequest : RequestPermissionRequest where
  toolCallId := "tool-1"
  title := some "Write file"
  kind := some .edit
  rawInput := none
  options := [⟨"allow_once", "Allow", .allowOnce⟩]

/-- A request that still is in the channel when the router shuts down stays pending. -/
theorem late_request_pending :
    ¬OneAnswer [.arrive editRequest, .setClosing, .cancelAll, .receive] := by
  intro h
  exact h.1.last.2 rfl 0 ⟨"tool-1", by decide +kernel⟩

section Selected

variable {s : PermissionRouter} {actions : List RouterAction}

def arrivals (actions : List RouterAction) : List RequestPermissionRequest :=
  actions.filterMap fun action ↦ match action with
    | .arrive request => some request
    | _ => none

/-- A caller confirmed the option under the call id of the request, or the option is one of the
request that allows and a trusted server asks. -/
def Authorized (actions : List RouterAction) (request : ℕ) (optionId : String) : Prop :=
  ∃ permission, (arrivals actions)[request]? = some permission ∧
    (RouterAction.confirm permission.toolCallId optionId ∈ actions ∨
      permission.autoApproveOptionId = some optionId ∧
        ∃ option ∈ permission.options, option.optionId = optionId ∧
          (option.kind = .allowAlways ∨ option.kind = .allowOnce))

structure Sourced (s : PermissionRouter) (actions : List RouterAction) : Prop where
  arrived : s.arrived = (arrivals actions).length
  channel : ∀ entry ∈ s.channel, (arrivals actions)[entry.1]? = some entry.2
  pending : ∀ callId request, s.waiting callId = some request →
    ∃ permission, (arrivals actions)[request]? = some permission ∧ permission.toolCallId = callId
  answers : ∀ answer ∈ s.answers, ∀ optionId, answer.decision = .selected optionId →
    Authorized actions answer.request optionId

theorem Sourced.congr {t : PermissionRouter} (h : s.Sourced actions) (harrived : t.arrived = s.arrived)
    (hchannel : t.channel = s.channel) (hpending : t.pending = s.pending)
    (hanswers : t.answers = s.answers) : t.Sourced actions := by
  obtain ⟨arrived, channel, pending, answers⟩ := h
  constructor
  · rwa [harrived]
  · rwa [hchannel]
  · simpa only [waiting, hpending] using pending
  · rwa [hanswers]

theorem confirm_of_cancelled {callId : String} (optionId : String)
    (h : PermissionDecision.cancelled = .selected optionId) :
    RouterAction.confirm callId optionId ∈ actions := by
  cases h

theorem Sourced.answer (h : s.Sourced actions) (callId : String) {decision : PermissionDecision}
    (hdecision : ∀ optionId, decision = .selected optionId →
      RouterAction.confirm callId optionId ∈ actions) :
    (s.answer callId decision).Sourced actions := by
  obtain ⟨hchannel, harrived, -⟩ := answer_frame (s := s) callId decision
  refine ⟨harrived.trans h.arrived, hchannel ▸ h.channel, ?_, ?_⟩
  · intro other request hwaiting
    exact h.pending other request (waiting_answer_some.mp hwaiting).2
  · intro answer hanswer optionId hselected
    rw [answers_answer, List.mem_append] at hanswer
    rcases hanswer with hanswer | hanswer
    · exact h.answers answer hanswer optionId hselected
    · obtain ⟨request, hwaiting, rfl⟩ := List.mem_map.mp hanswer
      obtain ⟨permission, harrival, rfl⟩ := h.pending callId request (Option.mem_toList.mp hwaiting)
      exact ⟨permission, harrival, .inl (hdecision optionId hselected)⟩

theorem Sourced.extend {actions' : List RouterAction} (h : s.Sourced actions)
    (harrivals : arrivals actions' = arrivals actions) (hactions : actions ⊆ actions') :
    s.Sourced actions' := by
  refine ⟨by rw [harrivals, h.arrived], by rw [harrivals]; exact h.channel,
    by rw [harrivals]; exact h.pending, fun answer hanswer optionId hselected ↦ ?_⟩
  obtain ⟨permission, harrival, hasked⟩ := h.answers answer hanswer optionId hselected
  exact ⟨permission, harrivals ▸ harrival, hasked.imp_left fun hmem ↦ hactions hmem⟩

theorem Sourced.receive (h : s.Sourced actions) : s.receive.Sourced actions := by
  obtain ⟨heq, -⟩ | ⟨request, permission, rest, -, hchannel, htaken⟩ := s.receive_cases
  · rwa [heq]
  · have harrival := h.channel (request, permission) (hchannel ▸ List.mem_cons_self)
    have hrest : Sourced { s with channel := rest } actions :=
      ⟨h.arrived, fun entry hentry ↦ h.channel entry (hchannel ▸ List.mem_cons_of_mem _ hentry),
        h.pending, h.answers⟩
    obtain ⟨optionId, happrove, -, heq⟩ | ⟨-, -, heq⟩ := htaken
    · rw [heq]
      refine ⟨hrest.arrived, hrest.channel, hrest.pending, fun answer hanswer other hselected ↦ ?_⟩
      rcases List.mem_append.mp hanswer with hanswer | hanswer
      · exact h.answers answer hanswer other hselected
      · obtain rfl := List.mem_singleton.mp hanswer
        cases hselected
        exact ⟨permission, harrival, .inr ⟨happrove, permission.autoApproveOptionId_allows happrove⟩⟩
    · rw [heq]
      have hanswered := hrest.answer permission.toolCallId confirm_of_cancelled
      refine ⟨hanswered.arrived, hanswered.channel, ?_, hanswered.answers⟩
      intro callId other hwaiting
      rw [waiting, register, Table.lookup_insert_eq] at hwaiting
      split at hwaiting
      · next heq =>
          cases hwaiting
          exact ⟨permission, harrival, heq.symm⟩
      · exact hanswered.pending callId other hwaiting

theorem Sourced.step (h : s.Sourced actions) (action : RouterAction) :
    (s.step action).Sourced (actions ++ [action]) := by
  have hkept : arrivals [action] = [] → s.Sourced (actions ++ [action]) := fun hnone ↦
    h.extend (by rw [arrivals, List.filterMap_append, ← arrivals, ← arrivals, hnone,
      List.append_nil]) (List.subset_append_left _ _)
  cases action with
  | arrive request =>
      have harrivals : arrivals (actions ++ [.arrive request]) = arrivals actions ++ [request] :=
        List.filterMap_append
      have hgrows : ∀ {i permission}, (arrivals actions)[i]? = some permission →
          (arrivals (actions ++ [.arrive request]))[i]? = some permission := fun hi ↦ by
        rw [harrivals, List.getElem?_append_left (List.getElem?_eq_some_iff.mp hi).1, hi]
      refine ⟨?_, ?_, ?_, ?_⟩
      · rw [harrivals, List.length_append, ← h.arrived]
        rfl
      · intro entry hentry
        rcases List.mem_append.mp hentry with hentry | hentry
        · exact hgrows (h.channel entry hentry)
        · rw [List.mem_singleton.mp hentry, harrivals, h.arrived]
          exact List.getElem?_concat_length
      · intro callId other hwaiting
        obtain ⟨permission, harrival, hcall⟩ := h.pending callId other hwaiting
        exact ⟨permission, hgrows harrival, hcall⟩
      · intro answer hanswer optionId hselected
        obtain ⟨permission, harrival, hasked⟩ := h.answers answer hanswer optionId hselected
        exact ⟨permission, hgrows harrival, hasked.imp_left (List.mem_append_left _)⟩
  | receive => exact (hkept rfl).receive
  | publish heard =>
      rw [PermissionRouter.step, publish]
      split
      · exact (hkept rfl).congr rfl rfl rfl rfl
      all_goals exact hkept rfl
  | withdraw =>
      rw [PermissionRouter.step, withdraw]
      split
      · exact ((hkept rfl).answer _ confirm_of_cancelled).congr rfl rfl rfl rfl
      all_goals exact hkept rfl
  | confirm callId optionId =>
      rw [PermissionRouter.step, confirm]
      split
      · exact hkept rfl
      · refine (hkept rfl).answer _ fun other heq ↦ ?_
        cases heq
        exact List.mem_append_right _ List.mem_cons_self
  | cancelAll =>
      have hall := foldl_answer_induction (Sourced · (actions ++ [.cancelAll])) (hkept rfl)
        fun t callId ht ↦ ht.answer _ confirm_of_cancelled
      exact hall.congr rfl rfl rfl rfl
  | setClosing | abandon request => exact (hkept rfl).congr rfl rfl rfl rfl

/-- Over every run, the router selects no option that was neither confirmed for the request nor one
of its own that allows. -/
theorem selected_authorized (actions : List RouterAction) :
    ∀ answer ∈ (run step new actions).answers, ∀ optionId,
      answer.decision = .selected optionId → Authorized actions answer.request optionId := by
  have hsourced : (run step new actions).Sourced actions := by
    induction actions using List.reverseRecOn with
    | nil => exact ⟨rfl, fun _ h ↦ (by cases h), fun _ _ h ↦ (by cases h), fun _ h ↦ (by cases h)⟩
    | append_singleton actions action ih =>
        rw [run_append]
        exact ih.step action
  exact hsourced.answers

theorem selected_confirmed :
    Authorized [.arrive editRequest, .receive, .publish true, .confirm "tool-1" "allow_once"] 0
      "allow_once" :=
  selected_authorized _ ⟨0, .selected "allow_once", true⟩ (by decide +kernel) "allow_once" rfl

end Selected

end PermissionRouter

end Zaowutai.Acp
