import Zaowutai.SessionMessage.MessageLine

/-!
# What becomes of a queued message

After an attempt the drainer removes whatever is then at the head of the line.
Where a cancelled turn has cleared the line in the meantime, that is a message
which was queued since, and the drainer still attempts the copies it holds of
the cleared ones.
-/

namespace Zaowutai.SessionMessage

open Zaowutai.Lib

namespace Messages

variable (owner : String → String) (s : Messages)

def LeaveLaw (action : MessageAction) : Prop :=
  ∀ target, ∀ item ∈ s.queue.bucket target, item ∉ (s.step owner action).queue.bucket target →
    item.call ∈ s.deliveredCalls ∨ item.expiresAtMs ≤ s.now ∨
      (∃ heads, s.drainer = .settling item .hardError heads) ∨
        (action = .gate false ∧
          ∃ head heads, s.drainer = .draining (head :: heads) ∧ head.userId = item.userId) ∨
          action = .turnCancelled target .userRequested

def AttemptLaw (action : MessageAction) : Prop :=
  action = .gate true → ∀ item heads, s.drainer = .draining (item :: heads) →
    item.call ∉ s.cancelled

/-- The next message of the snapshot is still in its line when its attempt starts, and a message
whose attempt is over is at the head of its line unless the line is empty or its head is past its
time. -/
def HoldsHead : MessageAction → Prop
  | .gate true => ∀ item heads, s.drainer = .draining (item :: heads) →
      item ∈ s.queue.bucket item.toConversationId
  | .settle => ∀ item outcome heads, s.drainer = .settling item outcome heads →
      outcome ≠ .busy → ∀ head, (s.queue.bucket item.toConversationId).head? = some head →
        head = item ∨ head.expiresAtMs ≤ s.now
  | _ => True

section Laws

variable {owner s} {action : MessageAction}

theorem leaveLaw_of_subset
    (h : ∀ target, s.queue.bucket target ⊆ (s.step owner action).queue.bucket target) :
    s.LeaveLaw owner action :=
  fun target _ hmem hgone ↦ absurd (h target hmem) hgone

theorem attempt_queue (call : ℕ) (outcome : DeliveryOutcome) :
    (s.attempt call outcome).queue = s.queue := by
  rw [attempt]
  split
  · split <;> rfl
  · rfl

theorem returnCall_queue (call : ℕ) : (s.returnCall call).queue = s.queue := by
  rw [returnCall]
  split
  · split <;> rfl
  · rfl

theorem subset_push (call : ℕ) (target : String) :
    s.queue.bucket target ⊆ (s.push call).queue.bucket target := by
  rw [push]
  split
  · split
    · split
      · next queue hpush =>
          intro item hmem
          change item ∈ queue.bucket target
          rw [DeliveryQueue.bucket_push hpush]
          split
          · exact List.mem_append_left _ hmem
          · exact hmem
      · exact List.Subset.refl _
    · exact List.Subset.refl _
  · exact List.Subset.refl _

theorem deliver_queue (outcome : DeliveryOutcome) : (s.deliver outcome).queue = s.queue := by
  rw [deliver]
  split <;> rfl

theorem mem_of_mem_clearFor {target other : String} {item : PendingDelivery}
    (hmem : item ∈ s.queue.bucket other)
    (hgone : item ∉ (s.queue.clearFor target).1.bucket other) : other = target := by
  rw [DeliveryQueue.bucket_clearFor] at hgone
  by_contra hne
  rw [if_neg hne] at hgone
  exact hgone hmem

theorem Tracked.attemptLaw_iff (h : s.Tracked owner) {item : PendingDelivery}
    {heads : List PendingDelivery} (hphase : s.drainer = .draining (item :: heads)) :
    item.call ∉ s.cancelled ↔ item ∈ s.queue.bucket item.toConversationId := by
  have hhand : item ∈ s.drainer.unattempted := by
    rw [hphase]
    exact List.mem_cons_self
  constructor
  · exact fun hkept ↦ (h.handKept item hhand).resolve_right hkept
  · exact h.cleared _ item

/-- What a step takes out is accounted for, except where the settled message is not the head. -/
theorem Tracked.leaveLaw (h : s.Tracked owner) (hsettle : action ≠ .settle) :
    s.LeaveLaw owner action := by
  cases action with
  | advance ms => exact leaveLaw_of_subset fun _ ↦ List.Subset.refl _
  | enter call userId sender target content =>
      refine leaveLaw_of_subset fun target ↦ ?_
      rw [Messages.step]
      split <;> exact List.Subset.refl _
  | attempt call outcome =>
      refine leaveLaw_of_subset fun target ↦ ?_
      rw [Messages.step, attempt_queue]
      exact List.Subset.refl _
  | push call => exact leaveLaw_of_subset fun target ↦ subset_push call target
  | returnCall call =>
      refine leaveLaw_of_subset fun target ↦ ?_
      rw [Messages.step, returnCall_queue]
      exact List.Subset.refl _
  | snapshot rank =>
      refine leaveLaw_of_subset fun target ↦ ?_
      rw [Messages.step]
      split <;> exact List.Subset.refl _
  | deliver outcome =>
      refine leaveLaw_of_subset fun target ↦ ?_
      rw [Messages.step, deliver_queue]
      exact List.Subset.refl _
  | dropExpired =>
      intro target item hmem hgone
      rw [Messages.step] at hgone
      split at hgone
      · rw [DeliveryQueue.bucket_dropExpired, List.mem_filter, decide_eq_true_eq, not_and,
          not_lt] at hgone
        exact .inr (.inl (hgone hmem))
      · exact absurd hmem hgone
  | gate enabled =>
      intro target item hmem hgone
      rw [Messages.step, Messages.gate] at hgone
      split at hgone
      · exact absurd hmem hgone
      · next head heads hphase =>
          cases enabled with
          | true => exact absurd hmem hgone
          | false =>
              obtain rfl := mem_of_mem_clearFor hmem hgone
              have hhand : head ∈ s.drainer.inHand := by
                rw [hphase]
                exact List.mem_cons_self
              have huser := (h.handKnown head hhand).2.trans (h.placed _ item hmem).2.symm
              exact .inr (.inr (.inr (.inl ⟨rfl, head, heads, hphase, huser⟩)))
      · exact absurd hmem hgone
  | settle => exact absurd rfl hsettle
  | turnCancelled conversationId cause =>
      intro target item hmem hgone
      cases cause with
      | runtimeRestart => exact absurd hmem hgone
      | userRequested =>
          obtain rfl := mem_of_mem_clearFor hmem hgone
          exact .inr (.inr (.inr (.inr rfl)))

theorem Tracked.leaveLaw_settle_iff (h : s.Tracked owner) :
    s.LeaveLaw owner .settle ↔ s.HoldsHead .settle := by
  constructor
  · intro hlaw item outcome heads hphase hbusy head hhead
    obtain ⟨rest, hline⟩ := List.head?_eq_some_iff.mp hhead
    have hmem : head ∈ s.queue.bucket item.toConversationId := List.mem_of_head? hhead
    have hgone : head ∉ (s.step owner .settle).queue.bucket item.toConversationId := by
      have hstep : (s.step owner .settle).queue = s.queue.removeHead item.toConversationId := by
        rw [Messages.step, Messages.settle, hphase]
        cases outcome with
        | busy => exact absurd rfl hbusy
        | delivered | hardError => rfl
      rw [hstep, DeliveryQueue.bucket_removeHead, if_pos rfl, hline]
      have hsorted := h.sorted item.toConversationId
      rw [hline, List.pairwise_cons] at hsorted
      exact fun hrest ↦ (hsorted.1 head hrest).false
    obtain hdelivered | hexpired | ⟨heads', hfailed⟩ | ⟨hgate, -⟩ | hcancel :=
      hlaw _ head hmem hgone
    · obtain ⟨heads', hsettling⟩ := h.waiting _ head hmem hdelivered
      exact .inl (DrainerPhase.settling.inj (hphase.symm.trans hsettling)).1.symm
    · exact .inr hexpired
    · exact .inl (DrainerPhase.settling.inj (hphase.symm.trans hfailed)).1.symm
    · cases hgate
    · cases hcancel
  · intro hholds target item hmem hgone
    rw [Messages.step, Messages.settle] at hgone
    split at hgone
    · exact absurd hmem hgone
    · next settled outcome heads hbusy hphase =>
        rw [DeliveryQueue.bucket_removeHead] at hgone
        split at hgone
        · next heq =>
            subst heq
            cases hline : s.queue.bucket settled.toConversationId with
            | nil =>
                rw [hline] at hmem
                cases hmem
            | cons head rest =>
                rw [hline] at hmem hgone
                obtain rfl | hrest := List.mem_cons.mp hmem
                · have hnotBusy : outcome ≠ .busy := by
                    rintro rfl
                    exact hbusy rfl
                  obtain rfl | hexpired := hholds settled outcome heads hphase hnotBusy item
                    (by rw [hline]; rfl)
                  · cases outcome with
                    | busy => exact absurd rfl hnotBusy
                    | delivered => exact .inl (h.settled item heads hphase)
                    | hardError => exact .inr (.inr (.inl ⟨heads, hphase⟩))
                  · exact .inr (.inl hexpired)
                · exact absurd hrest hgone
        · exact absurd hmem hgone
    · exact absurd hmem hgone

theorem Tracked.laws_iff_holdsHead (h : s.Tracked owner) :
    s.LeaveLaw owner action ∧ s.AttemptLaw action ↔ s.HoldsHead action := by
  cases action with
  | settle =>
      rw [h.leaveLaw_settle_iff]
      exact and_iff_left fun hgate ↦ (by cases hgate)
  | gate enabled =>
      have hleave : s.LeaveLaw owner (.gate enabled) := h.leaveLaw (fun hsettle ↦ (by cases hsettle))
      rw [and_iff_right hleave]
      cases enabled with
      | false => exact iff_of_true (fun hgate ↦ (by cases hgate)) trivial
      | true =>
          constructor
          · exact fun hlaw item heads hphase ↦
              (h.attemptLaw_iff hphase).mp (hlaw rfl item heads hphase)
          · exact fun hholds _ item heads hphase ↦
              (h.attemptLaw_iff hphase).mpr (hholds item heads hphase)
  | advance _ | enter _ _ _ _ _ | attempt _ _ | push _ | returnCall _ | dropExpired | snapshot _
  | deliver _ | turnCancelled _ _ =>
      refine iff_of_true ⟨h.leaveLaw (fun hsettle ↦ (by cases hsettle)), ?_⟩ trivial
      exact fun hgate ↦ (by cases hgate)

end Laws

def NoneLost (actions : List MessageAction) : Prop :=
  Throughout (step owner) (·.deliveredCalls.Nodup) new actions ∧
    Meets (step owner) (fun s action ↦ s.LeaveLaw owner action ∧ s.AttemptLaw action) new actions

/-- No message is lost exactly in the runs in which the drainer's copies are what the lines
hold. -/
theorem noneLost_iff_holdsHead (actions : List MessageAction) :
    NoneLost owner actions ↔ Meets (step owner) HoldsHead new actions := by
  have honce : Throughout (step owner) (·.deliveredCalls.Nodup) new actions := by
    refine throughout_iff_prefixes.mpr fun pre _ ↦ ?_
    exact (run_invariant (P := Tracked owner) (fun _ action h ↦ h.step action)
      (tracked_new owner) pre).once
  rw [NoneLost, and_iff_right honce]
  exact meets_iff_meets (Q := Tracked owner) (fun _ action h _ ↦ h.step action)
    (fun _ _ h ↦ h.laws_iff_holdsHead) (tracked_new owner)

def cancelledAttempt : List MessageAction :=
  [.enter 0 "user" "a" "b" "first", .attempt 0 .busy, .push 0, .dropExpired, .snapshot fun _ ↦ 0,
    .gate true, .turnCancelled "b" .userRequested, .enter 1 "user" "c" "b" "second",
    .attempt 1 .busy, .push 1, .deliver .delivered]

/-- The second message is taken out as if it had been delivered. -/
theorem cancelledAttempt_loses :
    ¬∀ (owner : String → String) (actions : List MessageAction), NoneLost owner actions := by
  intro h
  have hlaws := (h (fun _ ↦ "user") (cancelledAttempt ++ [.settle])).2
  obtain ⟨-, ⟨hleave, -⟩, -⟩ := meets_append.mp hlaws
  let lost : PendingDelivery := ⟨"b", "user", "c", "second", ttlMs, 1, 5⟩
  have hsettling : (run (step fun _ ↦ "user") new cancelledAttempt).drainer =
      .settling ⟨"b", "user", "a", "first", ttlMs, 0, 2⟩ .delivered [] := by decide +kernel
  obtain hdelivered | hexpired | ⟨heads, hfailed⟩ | ⟨hgate, -⟩ | hcancel :=
    hleave "b" lost (by decide +kernel) (by decide +kernel)
  · exact absurd hdelivered (by decide +kernel)
  · exact absurd hexpired (by decide +kernel)
  · exact absurd (DrainerPhase.settling.inj (hsettling.symm.trans hfailed)).2.1 (by decide)
  · cases hgate
  · cases hcancel

end Messages

end Zaowutai.SessionMessage
