import Zaowutai.SessionMessage.MessageLine

/-!
# The order of the messages of a target

A call attempts the delivery itself before it looks at the queue, so that it
may overtake a message that waits there.  Where no direct attempt succeeds
while a message of an earlier call is in the line, messages arrive in the order
in which they were accepted.
-/

namespace Zaowutai.SessionMessage

open Zaowutai.Lib

namespace Messages

variable (owner : String → String) (s : Messages)

def returnedAt (call : ℕ) : Option ℕ := (s.calls.lookup call).bind (·.phase.returnedAt?)

def ReturnedBefore (call moment : ℕ) : Prop :=
  ∃ returnedAt, s.returnedAt call = some returnedAt ∧ returnedAt < moment

def InLine (item : PendingDelivery) : Prop :=
  item ∈ s.queue.bucket item.toConversationId ∨ item ∈ s.drainer.unattempted

def InOrder : Prop :=
  s.delivered.Pairwise fun first second ↦ first.toConversationId = second.toConversationId →
    ¬s.ReturnedBefore second.call first.acceptedAt

def OvertakesNone (action : MessageAction) : Prop :=
  ∀ delivery, (s.step owner action).delivered = s.delivered ++ [delivery] →
    ∀ item ∈ s.queue.bucket delivery.toConversationId,
      ¬s.ReturnedBefore item.call delivery.acceptedAt

def WaitsItsTurn : MessageAction → Prop
  | .attempt call .delivered => ∀ under, s.calls.lookup call = some under →
      under.phase = .delivering → ∀ item, s.InLine item →
        item.toConversationId = under.toConversationId → s.returnedAt item.call = none
  | _ => True

structure Sequenced (owner : String → String) (s : Messages) : Prop where
  tracked : s.Tracked owner
  timed : ∀ call target status acceptedAt, s.Accepted call target status acceptedAt →
    ∀ returnedAt, s.returnedAt call = some returnedAt → acceptedAt < returnedAt
  line : ∀ item, s.InLine item → ∀ delivery ∈ s.delivered,
    delivery.toConversationId = item.toConversationId →
      ¬s.ReturnedBefore item.call delivery.acceptedAt
  inOrder : s.InOrder

def CallGoesOn (s t : Messages) : Prop :=
  t.calls = s.calls ∨ ∃ (call : ℕ) (under : SendCall) (phase : SendPhase),
    t.calls = s.calls.insert call { under with phase := phase } ∧ s.returnedAt call = none ∧
      (phase.returnedAt? = none ∨
        phase.returnedAt? = some s.events ∧ ∃ status acceptedAt,
          s.Accepted call under.toConversationId status acceptedAt ∧
            phase.accepted? = some (status, acceptedAt))

section Calls

variable {owner s} {t : Messages} {action : MessageAction}

theorem returnedAt_of_lookup {call : ℕ} {under : SendCall}
    (hlookup : s.calls.lookup call = some under) :
    s.returnedAt call = under.phase.returnedAt? := by
  rw [returnedAt, hlookup]
  rfl

theorem callGoesOn_setPhase {call : ℕ} {under : SendCall} {phase : SendPhase}
    (hlookup : s.returnedAt call = none) (hphase : phase.returnedAt? = none) :
    CallGoesOn s (s.setPhase call under phase) :=
  .inr ⟨call, under, phase, rfl, hlookup, .inl hphase⟩

theorem callGoesOn_step : CallGoesOn s (s.step owner action) := by
  cases action with
  | advance ms => exact .inl rfl
  | turnCancelled conversationId cause => cases cause <;> exact .inl rfl
  | dropExpired | snapshot _ =>
      rw [Messages.step]
      split <;> exact .inl rfl
  | gate enabled =>
      rw [Messages.step, gate]
      split
      · exact .inl rfl
      · split <;> exact .inl rfl
      · exact .inl rfl
  | deliver outcome =>
      rw [Messages.step, deliver]
      split <;> exact .inl rfl
  | settle =>
      rw [Messages.step, settle]
      split <;> exact .inl rfl
  | enter call userId sender target content =>
      rw [Messages.step]
      split
      · next hcall => exact callGoesOn_setPhase (by rw [returnedAt, hcall.1]; rfl) rfl
      · exact .inl rfl
  | attempt call outcome =>
      rw [Messages.step, attempt]
      split
      · next under hlookup =>
          split
          · next hphase =>
              have hnone : s.returnedAt call = none := by
                rw [returnedAt_of_lookup hlookup, hphase]
                rfl
              exact .inr ⟨call, under, _, rfl, hnone, .inl rfl⟩
          · next hphase =>
              exact callGoesOn_setPhase (by rw [returnedAt_of_lookup hlookup, hphase]; rfl) rfl
          · next hphase =>
              exact callGoesOn_setPhase (by rw [returnedAt_of_lookup hlookup, hphase]; rfl) rfl
          · exact .inl rfl
      · exact .inl rfl
  | push call =>
      rw [Messages.step, push]
      split
      · next under hlookup =>
          split
          · next hphase =>
              have hnone : s.returnedAt call = none := by
                rw [returnedAt_of_lookup hlookup, hphase]
                rfl
              split
              · exact .inr ⟨call, under, _, rfl, hnone, .inl rfl⟩
              · exact callGoesOn_setPhase hnone rfl
          · exact .inl rfl
      · exact .inl rfl
  | returnCall call =>
      rw [Messages.step, returnCall]
      split
      · next under hlookup =>
          split
          · next status acceptedAt hphase =>
              have hnone : s.returnedAt call = none := by
                rw [returnedAt_of_lookup hlookup, hphase]
                rfl
              have haccepted : s.Accepted call under.toConversationId status acceptedAt :=
                ⟨under, hlookup, rfl, by rw [hphase]; rfl⟩
              exact .inr ⟨call, under, _, rfl, hnone, .inr ⟨rfl, status, acceptedAt, haccepted, rfl⟩⟩
          · exact .inl rfl
      · exact .inl rfl

theorem CallGoesOn.returnedAt (h : CallGoesOn s t) (call : ℕ) :
    t.returnedAt call = s.returnedAt call ∨ t.returnedAt call = some s.events := by
  obtain hsame | ⟨called, under, phase, hcalls, hnone, hphase⟩ := h
  · exact .inl (by rw [Messages.returnedAt, Messages.returnedAt, hsame])
  · rw [Messages.returnedAt, hcalls, Table.lookup_insert_eq]
    split
    · next heq =>
        subst heq
        obtain hphase | ⟨hphase, -⟩ := hphase
        · exact .inl (hphase.trans hnone.symm)
        · exact .inr hphase
    · exact .inl rfl

theorem CallGoesOn.returnedBefore (h : CallGoesOn s t) {call moment : ℕ}
    (hmoment : moment ≤ s.events) (hreturned : t.ReturnedBefore call moment) :
    s.ReturnedBefore call moment := by
  obtain ⟨returnedAt, hat, hlt⟩ := hreturned
  obtain hsame | hnow := h.returnedAt call
  · exact ⟨returnedAt, hsame ▸ hat, hlt⟩
  · obtain rfl := Option.some_inj.mp (hnow.symm.trans hat)
    exact absurd hlt hmoment.not_gt

theorem Sequenced.timed_step (h : s.Sequenced owner) (hcalls : CallGoesOn s t) :
    ∀ call target status acceptedAt, t.Accepted call target status acceptedAt →
      ∀ returnedAt, t.returnedAt call = some returnedAt → acceptedAt < returnedAt := by
  rintro call target status acceptedAt ⟨found, hfound, htarget, haccepted⟩ returnedAt hreturned
  obtain hsame | ⟨called, under, phase, hinsert, hnone, hphase⟩ := hcalls
  · rw [hsame] at hfound
    rw [Messages.returnedAt, hsame] at hreturned
    exact h.timed call target status acceptedAt ⟨found, hfound, htarget, haccepted⟩ _ hreturned
  · rw [Messages.returnedAt, hfound] at hreturned
    rw [hinsert, Table.lookup_insert_eq] at hfound
    split at hfound
    · cases hfound
      obtain hphase | ⟨hphase, status', acceptedAt', hbefore, hkept⟩ := hphase
      · cases hphase.symm.trans hreturned
      · obtain rfl := Option.some_inj.mp (hphase.symm.trans hreturned)
        have hsame := (Prod.mk.inj (Option.some_inj.mp (hkept.symm.trans haccepted))).2
        exact hsame ▸ h.tracked.stamped _ _ _ _ hbefore
    · refine h.timed call target status acceptedAt ⟨found, hfound, htarget, haccepted⟩ _ ?_
      rw [returnedAt_of_lookup hfound]
      exact hreturned

theorem delivered_step (owner : String → String) (s : Messages) (action : MessageAction) :
    (s.step owner action).delivered = s.delivered ∨
      (∃ call under, action = .attempt call .delivered ∧ s.calls.lookup call = some under ∧
        under.phase = .delivering ∧ (s.step owner action).delivered =
          s.delivered ++ [⟨call, under.toConversationId, s.events⟩]) ∨
      ∃ item heads, s.drainer = .delivering item heads ∧ (s.step owner action).delivered =
        s.delivered ++ [⟨item.call, item.toConversationId, item.queuedAt⟩] := by
  cases action with
  | advance ms => exact .inl rfl
  | turnCancelled conversationId cause => cases cause <;> exact .inl rfl
  | enter _ _ _ _ _ | dropExpired | snapshot _ =>
      rw [Messages.step]
      split <;> exact .inl rfl
  | gate enabled =>
      rw [Messages.step, gate]
      split
      · exact .inl rfl
      · split <;> exact .inl rfl
      · exact .inl rfl
  | settle =>
      rw [Messages.step, settle]
      split <;> exact .inl rfl
  | push call =>
      rw [Messages.step, push]
      split
      · split
        · split <;> exact .inl rfl
        · exact .inl rfl
      · exact .inl rfl
  | returnCall call =>
      rw [Messages.step, returnCall]
      split
      · split <;> exact .inl rfl
      · exact .inl rfl
  | deliver outcome =>
      rw [Messages.step, deliver]
      split
      · next item heads hphase =>
          cases outcome with
          | busy | hardError => exact .inl rfl
          | delivered => exact .inr (.inr ⟨item, heads, hphase, rfl⟩)
      · exact .inl rfl
  | attempt call outcome =>
      rw [Messages.step, attempt]
      split
      · next under hlookup =>
          split
          · next hphase => exact .inr (.inl ⟨call, under, rfl, hlookup, hphase, rfl⟩)
          · exact .inl rfl
          · exact .inl rfl
          · exact .inl rfl
      · exact .inl rfl

theorem delivery_cases {delivery : Delivery}
    (hdelivery : (s.step owner action).delivered = s.delivered ++ [delivery]) :
    (∃ call under, action = .attempt call .delivered ∧ s.calls.lookup call = some under ∧
        under.phase = .delivering ∧ delivery = ⟨call, under.toConversationId, s.events⟩) ∨
      ∃ item heads, s.drainer = .delivering item heads ∧
        delivery = ⟨item.call, item.toConversationId, item.queuedAt⟩ := by
  have hsame : ∀ other, (s.step owner action).delivered = s.delivered ++ [other] →
      delivery = other := by
    intro other hother
    exact List.singleton_inj.mp (List.append_cancel_left (hdelivery.symm.trans hother))
  obtain hnone | ⟨call, under, haction, hlookup, hphase, hone⟩ | ⟨item, heads, hphase, hone⟩ :=
    delivered_step owner s action
  · have hlength := congrArg List.length (hnone.symm.trans hdelivery)
    rw [List.length_append, List.length_singleton] at hlength
    omega
  · exact .inl ⟨call, under, haction, hlookup, hphase, hsame _ hone⟩
  · exact .inr ⟨item, heads, hphase, hsame _ hone⟩

theorem inLine_step (h : s.Tracked owner) {item : PendingDelivery}
    (hline : (s.step owner action).InLine item) :
    s.InLine item ∨ (s.step owner action).returnedAt item.call = none := by
  cases action with
  | advance ms => exact .inl hline
  | attempt call outcome =>
      refine .inl ?_
      rw [Messages.step, attempt] at hline
      split at hline
      · split at hline <;> exact hline
      · exact hline
  | returnCall call =>
      refine .inl ?_
      rw [Messages.step, returnCall] at hline
      split at hline
      · split at hline <;> exact hline
      · exact hline
  | enter call userId sender target content =>
      refine .inl ?_
      rw [Messages.step] at hline
      split at hline <;> exact hline
  | dropExpired =>
      refine .inl ?_
      rw [Messages.step] at hline
      split at hline
      · obtain hmem | hhand := hline
        · rw [DeliveryQueue.bucket_dropExpired] at hmem
          exact .inl (List.mem_of_mem_filter hmem)
        · cases hhand
      · exact hline
  | snapshot rank =>
      refine .inl ?_
      rw [Messages.step] at hline
      split at hline
      · obtain hmem | hhand := hline
        · exact .inl hmem
        · obtain ⟨target, hhead⟩ := DeliveryQueue.mem_snapshotHeads.mp hhand
          obtain ⟨rfl, -⟩ := h.placed target item (List.mem_of_head? hhead)
          exact .inl (List.mem_of_head? hhead)
      · exact hline
  | gate enabled =>
      refine .inl ?_
      rw [Messages.step, gate] at hline
      split at hline
      · exact .inl (hline.resolve_right fun hhand ↦ (by cases hhand))
      · next head heads hphase =>
          split at hline
          · rw [InLine, hphase]
            exact hline
          · rw [InLine, hphase]
            refine hline.imp (fun hmem ↦ ?_) (List.mem_cons_of_mem head)
            rw [DeliveryQueue.bucket_clearFor] at hmem
            split at hmem
            · cases hmem
            · exact hmem
      · exact hline
  | deliver outcome =>
      refine .inl ?_
      rw [Messages.step, deliver] at hline
      split at hline
      · next head heads hphase =>
          rw [InLine, hphase]
          exact hline.imp_right (List.mem_cons_of_mem head)
      · exact hline
  | settle =>
      refine .inl ?_
      rw [Messages.step, settle] at hline
      split at hline
      · next head heads hphase =>
          rw [InLine, hphase]
          exact hline
      · next head outcome heads _ hphase =>
          rw [InLine, hphase]
          exact hline.imp_left fun hmem ↦ (sublist_removeHead _ _).subset hmem
      · exact hline
  | turnCancelled conversationId cause =>
      refine .inl ?_
      cases cause with
      | runtimeRestart => exact hline
      | userRequested =>
          refine hline.imp_left fun hmem ↦ ?_
          change item ∈ (s.queue.clearFor conversationId).1.bucket _ at hmem
          rw [DeliveryQueue.bucket_clearFor] at hmem
          split at hmem
          · cases hmem
          · exact hmem
  | push call =>
      rw [Messages.step, push] at hline ⊢
      split at hline
      · next under hlookup =>
          split at hline
          · next hphase =>
              split at hline
              · next queue hpush =>
                  obtain hmem | hhand := hline
                  · change item ∈ queue.bucket _ at hmem
                    rw [DeliveryQueue.bucket_push hpush] at hmem
                    split at hmem
                    · obtain hold | hlast := List.mem_append.mp hmem
                      · exact .inl (.inl hold)
                      · refine .inr ?_
                        rw [List.mem_singleton.mp hlast]
                        change ((s.calls.insert call _).lookup call).bind _ = none
                        rw [AList.lookup_insert]
                        rfl
                    · exact .inl (.inl hmem)
                  · exact .inl (.inr hhand)
              · exact .inl hline
          · exact .inl hline
      · exact .inl hline

theorem Sequenced.oldest (h : s.Sequenced owner) {item other : PendingDelivery}
    {heads : List PendingDelivery} (hphase : s.drainer = .delivering item heads)
    (hline : s.InLine other) (htarget : other.toConversationId = item.toConversationId) :
    ¬s.ReturnedBefore other.call item.queuedAt := by
  rintro ⟨returnedAt, hreturned, hlt⟩
  have hhand : item ∈ s.drainer.inHand := by
    rw [hphase]
    exact List.mem_cons_self
  obtain ⟨hknown, hlater⟩ : s.Accepted other.call other.toConversationId .queued other.queuedAt ∧
      (other = item ∨ item.queuedAt < other.queuedAt) := by
    obtain hmem | hunattempted := hline
    · exact ⟨h.tracked.known _ other hmem, h.tracked.handFirst item hhand other (htarget ▸ hmem)⟩
    · have hother := DrainerPhase.inHand_of_unattempted hunattempted
      refine ⟨(h.tracked.handKnown other hother).1, .inl ?_⟩
      exact List.inj_on_of_nodup_map h.tracked.handTargets hother hhand htarget
  have haccepted := h.timed _ _ _ _ hknown returnedAt hreturned
  obtain rfl | hqueued := hlater
  · exact haccepted.asymm hlt
  · exact (haccepted.trans hlt).asymm hqueued

theorem Sequenced.overtakes_none (h : s.Sequenced owner) (hturn : s.WaitsItsTurn action)
    {delivery : Delivery}
    (hdelivery : (s.step owner action).delivered = s.delivered ++ [delivery])
    {item : PendingDelivery} (hline : s.InLine item)
    (htarget : item.toConversationId = delivery.toConversationId) :
    ¬s.ReturnedBefore item.call delivery.acceptedAt := by
  obtain ⟨call, under, rfl, hlookup, hphase, rfl⟩ | ⟨head, heads, hphase, rfl⟩ :=
    delivery_cases hdelivery
  · rintro ⟨returnedAt, hreturned, -⟩
    cases (hturn under hlookup hphase item hline htarget).symm.trans hreturned
  · exact h.oldest hphase hline htarget

theorem Sequenced.delivered_last (h : s.Sequenced owner) {delivery : Delivery}
    (hdelivery : (s.step owner action).delivered = s.delivered ++ [delivery]) {first : Delivery}
    (hfirst : first ∈ s.delivered)
    (htarget : first.toConversationId = delivery.toConversationId) :
    ¬s.ReturnedBefore delivery.call first.acceptedAt := by
  obtain ⟨call, under, rfl, hlookup, hphase, rfl⟩ | ⟨head, heads, hphase, rfl⟩ :=
    delivery_cases hdelivery
  · rintro ⟨returnedAt, hreturned, -⟩
    rw [returnedAt_of_lookup hlookup, hphase] at hreturned
    cases hreturned
  · refine h.line head (.inr ?_) first hfirst htarget
    rw [hphase]
    exact List.mem_cons_self

end Calls

section Run

variable {owner s} {action : MessageAction}

theorem Sequenced.stamped (h : s.Sequenced owner) {delivery : Delivery}
    (hmem : delivery ∈ s.delivered) : delivery.acceptedAt ≤ s.events := by
  obtain ⟨status, haccepted⟩ := h.tracked.delivered delivery hmem
  exact (h.tracked.stamped _ _ _ _ haccepted).le

theorem Sequenced.acceptedAt_le (h : s.Sequenced owner) {delivery : Delivery}
    (hdelivery : (s.step owner action).delivered = s.delivered ++ [delivery]) :
    delivery.acceptedAt ≤ s.events := by
  obtain ⟨call, under, -, -, -, rfl⟩ | ⟨head, heads, hphase, rfl⟩ := delivery_cases hdelivery
  · exact le_rfl
  · have hhand : head ∈ s.drainer.inHand := by
      rw [hphase]
      exact List.mem_cons_self
    exact (h.tracked.stamped _ _ _ _ (h.tracked.handKnown head hhand).1).le

theorem delivered_cases (owner : String → String) (s : Messages) (action : MessageAction) :
    (s.step owner action).delivered = s.delivered ∨
      ∃ delivery, (s.step owner action).delivered = s.delivered ++ [delivery] := by
  obtain hnone | ⟨_, _, -, -, -, hone⟩ | ⟨_, _, -, hone⟩ := delivered_step owner s action
  · exact .inl hnone
  · exact .inr ⟨_, hone⟩
  · exact .inr ⟨_, hone⟩

theorem Sequenced.step (h : s.Sequenced owner) (hturn : s.WaitsItsTurn action) :
    (s.step owner action).Sequenced owner := by
  have hcalls : CallGoesOn s (s.step owner action) := callGoesOn_step
  have hnext := h.tracked.step action
  refine ⟨hnext, h.timed_step hcalls, ?_, ?_⟩
  · intro item hline delivery hmem htarget hreturned
    obtain hline | hnone := inLine_step h.tracked hline
    · obtain hsame | ⟨last, hlast⟩ := delivered_cases owner s action
      · rw [hsame] at hmem
        exact h.line item hline delivery hmem htarget
          (hcalls.returnedBefore (h.stamped hmem) hreturned)
      · rw [hlast] at hmem
        obtain hold | hmem := List.mem_append.mp hmem
        · exact h.line item hline delivery hold htarget
            (hcalls.returnedBefore (h.stamped hold) hreturned)
        · obtain rfl := List.mem_singleton.mp hmem
          refine h.overtakes_none hturn hlast hline htarget.symm ?_
          exact hcalls.returnedBefore (h.acceptedAt_le hlast) hreturned
    · obtain ⟨returnedAt, hat, -⟩ := hreturned
      cases hnone.symm.trans hat
  · have hold : s.delivered.Pairwise fun first second ↦
        first.toConversationId = second.toConversationId →
          ¬(s.step owner action).ReturnedBefore second.call first.acceptedAt := by
      refine h.inOrder.imp_of_mem fun hfirst _ hpair htarget hreturned ↦ ?_
      exact hpair htarget (hcalls.returnedBefore (h.stamped hfirst) hreturned)
    rw [InOrder]
    obtain hsame | ⟨last, hlast⟩ := delivered_cases owner s action
    · rwa [hsame]
    · rw [hlast]
      refine List.pairwise_append.mpr ⟨hold, List.pairwise_singleton _ _, ?_⟩
      intro first hfirst second hsecond htarget hreturned
      obtain rfl := List.mem_singleton.mp hsecond
      refine h.delivered_last hlast hfirst htarget ?_
      exact hcalls.returnedBefore (h.stamped hfirst) hreturned

theorem sequenced_new (owner : String → String) : new.Sequenced owner where
  tracked := tracked_new owner
  timed _ _ _ _ haccepted := by
    obtain ⟨under, hlookup, -⟩ := haccepted
    cases hlookup
  line _ _ _ hmem := by cases hmem
  inOrder := List.Pairwise.nil

end Run

/-- Where no direct attempt succeeds out of turn, the messages of a target are delivered in the
order in which they were accepted, and none overtakes an older one that is queued. -/
theorem inOrder_of_waitsItsTurn {actions : List MessageAction}
    (h : Meets (step owner) WaitsItsTurn new actions) :
    Throughout (step owner) InOrder new actions ∧
      Meets (step owner) (OvertakesNone owner) new actions := by
  constructor
  · have hall := throughout_of_meets (P := Sequenced owner) (fun _ _ hs hturn ↦ hs.step hturn)
      (sequenced_new owner) h
    exact hall.mono fun _ hs ↦ hs.inOrder
  · refine meets_of_meets (Q := Sequenced owner) (fun _ _ hs hturn ↦ hs.step hturn) ?_
      (sequenced_new owner) h
    intro s action hs hturn delivery hdelivery item hmem
    obtain ⟨htarget, -⟩ := hs.tracked.placed _ item hmem
    exact hs.overtakes_none hturn hdelivery (.inl (htarget ▸ hmem)) htarget

def directThenQueued : List MessageAction :=
  [.enter 0 "user" "a" "b" "first", .attempt 0 .delivered, .returnCall 0,
    .enter 1 "user" "a" "b" "second", .attempt 1 .busy, .push 1, .returnCall 1, .dropExpired,
    .snapshot fun _ ↦ 0, .gate true, .deliver .delivered, .settle]

theorem directThenQueued_inOrder :
    Throughout (step fun _ ↦ "user") InOrder new directThenQueued ∧
      Meets (step fun _ ↦ "user") (OvertakesNone fun _ ↦ "user") new directThenQueued := by
  refine inOrder_of_waitsItsTurn _ ⟨trivial, ?_, trivial, trivial, trivial, trivial, trivial,
    trivial, trivial, trivial, trivial, trivial, trivial⟩
  rintro under - - item (hmem | hhand)
  · exact absurd hmem List.not_mem_nil
  · exact absurd hhand List.not_mem_nil

/-- A message is queued, and the next one for the target goes out directly before it. -/
theorem direct_attempt_overtakes :
    ¬∀ (owner : String → String) (actions : List MessageAction),
      Throughout (step owner) InOrder new actions ∧
        Meets (step owner) (OvertakesNone owner) new actions := by
  intro h
  let actions : List MessageAction :=
    [.enter 0 "user" "a" "b" "first", .attempt 0 .busy, .push 0, .returnCall 0,
      .enter 1 "user" "a" "b" "second", .attempt 1 .delivered, .dropExpired, .snapshot fun _ ↦ 0,
      .gate true, .deliver .delivered]
  have horder := (h (fun _ ↦ "user") actions).1.last
  have hdelivered : (run (step fun _ ↦ "user") new actions).delivered =
      [⟨1, "b", 5⟩, ⟨0, "b", 2⟩] := by decide +kernel
  rw [InOrder, hdelivered, List.pairwise_cons] at horder
  exact horder.1 ⟨0, "b", 2⟩ (List.mem_singleton_self _) rfl ⟨3, by decide +kernel, by decide⟩

end Messages

end Zaowutai.SessionMessage
