import Zaowutai.SessionMessage.Drainer

/-!
# The line of messages of a target

The messages that wait for a target stand in the order in which they were
queued.  The drainer's copy of a message is the first of its line, or the
message has been taken out of the line since.
-/

namespace Zaowutai.SessionMessage

open Zaowutai.Lib

def SendPhase.accepted? : SendPhase → Option (SessionDeliveryStatus × ℕ)
  | .accepted status acceptedAt | .returned status acceptedAt _ => some (status, acceptedAt)
  | .delivering | .queueing | .refused _ => none

def SendPhase.returnedAt? : SendPhase → Option ℕ
  | .returned _ _ returnedAt => some returnedAt
  | .accepted _ _ | .delivering | .queueing | .refused _ => none

/-- The messages of the snapshot whose attempt has no result yet. -/
def DrainerPhase.unattempted : DrainerPhase → List PendingDelivery
  | .idle | .expired => []
  | .draining heads | .settling _ _ heads => heads
  | .delivering item heads => item :: heads

/-- The messages of the snapshot that are not done with. -/
def DrainerPhase.inHand : DrainerPhase → List PendingDelivery
  | .idle | .expired => []
  | .draining heads => heads
  | .delivering item heads | .settling item _ heads => item :: heads

theorem DrainerPhase.inHand_of_unattempted {drainer : DrainerPhase} {item : PendingDelivery}
    (h : item ∈ drainer.unattempted) : item ∈ drainer.inHand := by
  cases drainer with
  | idle | expired => cases h
  | draining heads | delivering head heads => exact h
  | settling head outcome heads => exact List.mem_cons_of_mem head h

namespace DeliveryQueue

variable {q q' : DeliveryQueue} {target other : String} {item : PendingDelivery}

theorem bucket_push (h : q.push item = some q') :
    q'.bucket other =
      if other = item.toConversationId then q.bucket other ++ [item] else q.bucket other := by
  obtain ⟨-, heq⟩ := Option.ite_none_left_eq_some.mp h
  cases heq
  rw [bucket, Buckets.bucket_pushBack]
  split
  · next heq => rw [heq, bucket]
  · rfl

theorem bucket_dropExpired (now : ℤ) :
    (q.dropExpired now).1.bucket other = (q.bucket other).filter (now < ·.expiresAtMs) :=
  Buckets.bucket_filterEach _

theorem bucket_removeHead :
    (q.removeHead target).bucket other =
      if other = target then (q.bucket target).tail else q.bucket other :=
  Buckets.bucket_popFront

theorem bucket_clearFor :
    (q.clearFor target).1.bucket other = if other = target then [] else q.bucket other :=
  Buckets.bucket_erase

theorem mem_snapshotHeads {rank : String → ℕ} :
    item ∈ q.snapshotHeads rank ↔ ∃ target, (q.bucket target).head? = some item := by
  rw [snapshotHeads, Buckets.mem_heads]
  simp only [Buckets.bucket_reorder, bucket]

end DeliveryQueue

namespace Messages

variable (s : Messages)

def Accepted (call : ℕ) (target : String) (status : SessionDeliveryStatus) (acceptedAt : ℕ) :
    Prop :=
  ∃ under, s.calls.lookup call = some under ∧ under.toConversationId = target ∧
    under.phase.accepted? = some (status, acceptedAt)

def deliveredCalls : List ℕ := s.delivered.map (·.call)

/-- The lines are in order, the drainer holds the first of a line or what has left it, and what
is delivered is neither in a line nor in hand, except for the one that is about to be removed. -/
structure Tracked (owner : String → String) (s : Messages) : Prop where
  placed : ∀ target, ∀ item ∈ s.queue.bucket target,
    item.toConversationId = target ∧ item.userId = owner target
  sorted : ∀ target, (s.queue.bucket target).Pairwise (·.queuedAt < ·.queuedAt)
  known : ∀ target, ∀ item ∈ s.queue.bucket target,
    s.Accepted item.call target .queued item.queuedAt
  handKnown : ∀ item ∈ s.drainer.inHand,
    s.Accepted item.call item.toConversationId .queued item.queuedAt ∧
      item.userId = owner item.toConversationId
  handTargets : (s.drainer.inHand.map (·.toConversationId)).Nodup
  handFirst : ∀ item ∈ s.drainer.inHand, ∀ other ∈ s.queue.bucket item.toConversationId,
    other = item ∨ item.queuedAt < other.queuedAt
  handKept : ∀ item ∈ s.drainer.unattempted,
    item ∈ s.queue.bucket item.toConversationId ∨ item.call ∈ s.cancelled
  fresh : ∀ item ∈ s.drainer.unattempted, item.call ∉ s.deliveredCalls
  waiting : ∀ target, ∀ item ∈ s.queue.bucket target, item.call ∈ s.deliveredCalls →
    ∃ heads, s.drainer = .settling item .delivered heads
  settled : ∀ item heads, s.drainer = .settling item .delivered heads →
    item.call ∈ s.deliveredCalls
  once : s.deliveredCalls.Nodup
  delivered : ∀ delivery ∈ s.delivered, ∃ status,
    s.Accepted delivery.call delivery.toConversationId status delivery.acceptedAt
  cleared : ∀ target, ∀ item ∈ s.queue.bucket target, item.call ∉ s.cancelled
  cancelled : ∀ call ∈ s.cancelled, ∃ target acceptedAt,
    s.Accepted call target .queued acceptedAt
  stamped : ∀ call target status acceptedAt, s.Accepted call target status acceptedAt →
    acceptedAt < s.events
  owned : ∀ call under, s.calls.lookup call = some under →
    under.userId = owner under.toConversationId

section Line

variable {s} {owner : String → String} {call : ℕ} {under : SendCall}

theorem Accepted.unique {target target' : String} {status status' : SessionDeliveryStatus}
    {acceptedAt acceptedAt' : ℕ} (h : s.Accepted call target status acceptedAt)
    (h' : s.Accepted call target' status' acceptedAt') :
    target = target' ∧ status = status' ∧ acceptedAt = acceptedAt' := by
  obtain ⟨under, hlookup, rfl, hphase⟩ := h
  obtain ⟨under', hlookup', rfl, hphase'⟩ := h'
  obtain rfl := Option.some_inj.mp (hlookup.symm.trans hlookup')
  have hsame := Prod.mk.inj (Option.some_inj.mp (hphase.symm.trans hphase'))
  exact ⟨rfl, hsame⟩

theorem Tracked.head_eq (h : s.Tracked owner) {item : PendingDelivery}
    (hhand : item ∈ s.drainer.inHand)
    (hmem : item ∈ s.queue.bucket item.toConversationId) :
    ∃ rest, s.queue.bucket item.toConversationId = item :: rest ∧ item ∉ rest := by
  have hsorted := h.sorted item.toConversationId
  have hfirst := h.handFirst item hhand
  cases hline : s.queue.bucket item.toConversationId with
  | nil =>
      rw [hline] at hmem
      cases hmem
  | cons first rest =>
      rw [hline] at hmem hsorted hfirst
      obtain ⟨hbefore, -⟩ := List.pairwise_cons.mp hsorted
      obtain rfl | hlater := hfirst first List.mem_cons_self
      · exact ⟨rest, rfl, fun hrest ↦ (hbefore _ hrest).false⟩
      · obtain rfl | hrest := List.mem_cons.mp hmem
        · exact absurd hlater (lt_irrefl _)
        · exact absurd (hbefore item hrest) hlater.asymm

theorem Tracked.shrink (h : s.Tracked owner) {queue : DeliveryQueue} {drainer : DrainerPhase}
    {cancelled : List ℕ}
    (hline : ∀ target, (queue.bucket target).Sublist (s.queue.bucket target))
    (hhand : drainer.inHand.Sublist s.drainer.inHand)
    (hunattempted : ∀ item ∈ drainer.unattempted, item ∈ s.drainer.unattempted ∧
      (item ∈ queue.bucket item.toConversationId ∨ item.call ∈ cancelled))
    (hwaiting : ∀ target, ∀ item ∈ queue.bucket target, item.call ∈ s.deliveredCalls →
      ∃ heads, drainer = .settling item .delivered heads)
    (hsettled : ∀ item heads, drainer = .settling item .delivered heads →
      item.call ∈ s.deliveredCalls)
    (hcleared : ∀ target, ∀ item ∈ queue.bucket target, item.call ∉ cancelled)
    (hcancelled : ∀ call ∈ cancelled, ∃ target acceptedAt,
      s.Accepted call target .queued acceptedAt) :
    Tracked owner { s with queue := queue, drainer := drainer, cancelled := cancelled } where
  placed target item hmem := h.placed target item ((hline target).subset hmem)
  sorted target := (h.sorted target).sublist (hline target)
  known target item hmem := h.known target item ((hline target).subset hmem)
  handKnown item hmem := h.handKnown item (hhand.subset hmem)
  handTargets := h.handTargets.sublist (hhand.map _)
  handFirst item hmem other hother :=
    h.handFirst item (hhand.subset hmem) other ((hline _).subset hother)
  handKept item hmem := (hunattempted item hmem).2
  fresh item hmem := h.fresh item (hunattempted item hmem).1
  waiting := hwaiting
  settled := hsettled
  once := h.once
  delivered := h.delivered
  cleared := hcleared
  cancelled := hcancelled
  stamped := h.stamped
  owned := h.owned

theorem Accepted.setPhase {other : ℕ} {target : String} {status : SessionDeliveryStatus}
    {acceptedAt : ℕ} {phase : SendPhase}
    (hlookup : ∀ found, s.calls.lookup call = some found → found = under)
    (hphase : under.phase.accepted? ≠ none → phase.accepted? = under.phase.accepted?)
    (h : s.Accepted other target status acceptedAt) :
    (s.setPhase call under phase).Accepted other target status acceptedAt := by
  obtain ⟨found, hfound, htarget, haccepted⟩ := h
  by_cases heq : other = call
  · subst heq
    obtain rfl := hlookup found hfound
    refine ⟨_, AList.lookup_insert _, htarget, ?_⟩
    rw [← haccepted]
    apply hphase
    rw [haccepted]
    exact Option.some_ne_none _
  · exact ⟨found, (AList.lookup_insert_ne heq).trans hfound, htarget, haccepted⟩

theorem Accepted.of_setPhase {other : ℕ} {target : String} {status : SessionDeliveryStatus}
    {acceptedAt : ℕ} {phase : SendPhase}
    (h : (s.setPhase call under phase).Accepted other target status acceptedAt) :
    s.Accepted other target status acceptedAt ∨
      other = call ∧ phase.accepted? = some (status, acceptedAt) := by
  obtain ⟨found, hfound, htarget, haccepted⟩ := h
  by_cases heq : other = call
  · subst heq
    obtain rfl := Option.some_inj.mp ((AList.lookup_insert _).symm.trans hfound)
    exact .inr ⟨rfl, haccepted⟩
  · exact .inl ⟨found, (AList.lookup_insert_ne heq).symm.trans hfound, htarget, haccepted⟩

theorem Tracked.setPhase (h : s.Tracked owner) {phase : SendPhase}
    (hlookup : ∀ found, s.calls.lookup call = some found → found = under)
    (hphase : under.phase.accepted? ≠ none → phase.accepted? = under.phase.accepted?)
    (hstamp : ∀ status acceptedAt, phase.accepted? = some (status, acceptedAt) →
      acceptedAt ≤ s.events)
    (howned : under.userId = owner under.toConversationId) :
    (s.setPhase call under phase).Tracked owner where
  placed := h.placed
  sorted := h.sorted
  known target item hmem := (h.known target item hmem).setPhase hlookup hphase
  handKnown item hmem :=
    ⟨(h.handKnown item hmem).1.setPhase hlookup hphase, (h.handKnown item hmem).2⟩
  handTargets := h.handTargets
  handFirst := h.handFirst
  handKept := h.handKept
  fresh := h.fresh
  waiting := h.waiting
  settled := h.settled
  once := h.once
  delivered delivery hmem :=
    (h.delivered delivery hmem).imp fun _ haccepted ↦ haccepted.setPhase hlookup hphase
  cleared := h.cleared
  cancelled other hmem := by
    obtain ⟨target, acceptedAt, haccepted⟩ := h.cancelled other hmem
    exact ⟨target, acceptedAt, haccepted.setPhase hlookup hphase⟩
  stamped other target status acceptedAt haccepted := by
    obtain hold | ⟨-, hnew⟩ := haccepted.of_setPhase
    · exact (h.stamped other target status acceptedAt hold).trans (Nat.lt_succ_self _)
    · exact Nat.lt_succ_of_le (hstamp status acceptedAt hnew)
  owned other found hfound := by
    by_cases heq : other = call
    · subst heq
      obtain rfl := Option.some_inj.mp ((AList.lookup_insert _).symm.trans hfound)
      exact howned
    · exact h.owned other found ((AList.lookup_insert_ne heq).symm.trans hfound)

theorem Tracked.addDelivery (h : s.Tracked owner) {delivery : Delivery} {drainer : DrainerPhase}
    (hhand : drainer.inHand = s.drainer.inHand)
    (hunattempted : drainer.unattempted ⊆ s.drainer.unattempted)
    (hnew : delivery.call ∉ s.deliveredCalls)
    (haccepted : ∃ status,
      s.Accepted delivery.call delivery.toConversationId status delivery.acceptedAt)
    (hfresh : ∀ item ∈ drainer.unattempted, item.call ≠ delivery.call)
    (hwaiting : ∀ target, ∀ item ∈ s.queue.bucket target,
      item.call = delivery.call ∨ item.call ∈ s.deliveredCalls →
        ∃ heads, drainer = .settling item .delivered heads)
    (hsettled : ∀ item heads, drainer = .settling item .delivered heads →
      item.call = delivery.call ∨ item.call ∈ s.deliveredCalls) :
    Tracked owner { s with drainer := drainer, delivered := s.delivered ++ [delivery] } := by
  have hcalls : ∀ call, call ∈ (s.delivered ++ [delivery]).map (·.call) ↔
      call = delivery.call ∨ call ∈ s.deliveredCalls := by
    intro call
    rw [List.map_append, List.mem_append, or_comm]
    exact or_congr_left List.mem_singleton
  refine ⟨h.placed, h.sorted, h.known, ?_, ?_, ?_, ?_, ?_, ?_, ?_, ?_, ?_, h.cleared, h.cancelled,
    h.stamped, h.owned⟩
  · exact fun item hmem ↦ h.handKnown item (hhand ▸ hmem)
  · exact hhand ▸ h.handTargets
  · exact fun item hmem ↦ h.handFirst item (hhand ▸ hmem)
  · exact fun item hmem ↦ h.handKept item (hunattempted hmem)
  · intro item hmem hdelivered
    obtain heq | hold := (hcalls item.call).mp hdelivered
    · exact hfresh item hmem heq
    · exact h.fresh item (hunattempted hmem) hold
  · exact fun target item hmem hdelivered ↦
      hwaiting target item hmem ((hcalls item.call).mp hdelivered)
  · exact fun item heads hphase ↦ (hcalls item.call).mpr (hsettled item heads hphase)
  · rw [deliveredCalls, List.map_append, List.nodup_append]
    refine ⟨h.once, List.nodup_singleton _, ?_⟩
    rintro call hmem _ hlast rfl
    have heq : call = delivery.call := List.mem_singleton.mp hlast
    exact hnew (heq ▸ hmem)
  · intro other hmem
    obtain hold | hlast := List.mem_append.mp hmem
    · exact h.delivered other hold
    · rw [List.mem_singleton.mp hlast]
      exact haccepted

theorem Tracked.attempt (h : s.Tracked owner) (outcome : DeliveryOutcome) :
    (s.attempt call outcome).Tracked owner := by
  rw [Messages.attempt]
  cases hlookup : s.calls.lookup call with
  | none => exact h
  | some under =>
      obtain ⟨target, userId, sender, content, phase⟩ := under
      have howned := h.owned call _ hlookup
      have hfound : ∀ found, s.calls.lookup call = some found →
          found = ⟨target, userId, sender, content, phase⟩ :=
        fun found hfound ↦ (Option.some_inj.mp (hlookup.symm.trans hfound)).symm
      cases phase with
      | queueing | accepted _ _ | returned _ _ _ | refused _ => exact h
      | delivering =>
          have hnone : ∀ target' status acceptedAt, ¬s.Accepted call target' status acceptedAt := by
            rintro target' status acceptedAt ⟨found, hother, -, haccepted⟩
            rw [hfound found hother] at haccepted
            cases haccepted
          cases outcome with
          | busy | hardError =>
              refine h.setPhase hfound (fun hsome ↦ absurd rfl hsome) ?_ howned
              exact fun _ _ hphase ↦ (by cases hphase)
          | delivered =>
              have hnext : (s.setPhase call ⟨target, userId, sender, content, .delivering⟩
                  (.accepted .delivered s.events)).Tracked owner := by
                refine h.setPhase hfound (fun hsome ↦ absurd rfl hsome) ?_ howned
                rintro _ _ ⟨⟩
                exact le_rfl
              have hnew : call ∉ s.deliveredCalls := by
                intro hdelivered
                obtain ⟨delivery, hmem, rfl⟩ := List.mem_map.mp hdelivered
                obtain ⟨status, haccepted⟩ := h.delivered delivery hmem
                exact hnone _ _ _ haccepted
              refine hnext.addDelivery rfl (List.Subset.refl _) hnew ?_ ?_ ?_ ?_
              · exact ⟨.delivered, _, AList.lookup_insert _, rfl, rfl⟩
              · rintro item hmem rfl
                exact hnone _ _ _ (h.handKnown item (DrainerPhase.inHand_of_unattempted hmem)).1
              · rintro target' item hmem (rfl | hdelivered)
                · exact absurd (h.known target' item hmem) (hnone _ _ _)
                · exact h.waiting target' item hmem hdelivered
              · exact fun item heads hphase ↦ .inr (h.settled item heads hphase)

theorem Tracked.pushed (h : s.Tracked owner) {queue : DeliveryQueue}
    (hlookup : ∀ found, s.calls.lookup call = some found → found = under)
    (hphase : under.phase.accepted? = none)
    (howned : under.userId = owner under.toConversationId)
    (hpush : s.queue.push (s.pending call under) = some queue) :
    Tracked owner { s.setPhase call under (.accepted .queued s.events) with queue := queue } := by
  have hnone : ∀ target status acceptedAt, ¬s.Accepted call target status acceptedAt := by
    rintro target status acceptedAt ⟨found, hfound, -, haccepted⟩
    rw [hlookup found hfound, hphase] at haccepted
    cases haccepted
  have hnext : (s.setPhase call under (.accepted .queued s.events)).Tracked owner := by
    refine h.setPhase hlookup (fun hsome ↦ absurd hphase hsome) ?_ howned
    rintro _ _ ⟨⟩
    exact le_rfl
  have hmem : ∀ target, ∀ item ∈ queue.bucket target, item ∈ s.queue.bucket target ∨
      item = s.pending call under ∧ target = under.toConversationId := by
    intro target item hmem
    rw [DeliveryQueue.bucket_push hpush] at hmem
    split at hmem
    · next heq =>
        obtain hold | hlast := List.mem_append.mp hmem
        · exact .inl hold
        · exact .inr ⟨List.mem_singleton.mp hlast, heq⟩
    · exact .inl hmem
  have hstays : ∀ target, ∀ item ∈ s.queue.bucket target, item ∈ queue.bucket target := by
    intro target item hold
    rw [DeliveryQueue.bucket_push hpush]
    split
    · exact List.mem_append_left _ hold
    · exact hold
  refine ⟨?_, ?_, ?_, hnext.handKnown, hnext.handTargets, ?_, ?_, hnext.fresh, ?_, hnext.settled,
    hnext.once, hnext.delivered, ?_, hnext.cancelled, hnext.stamped, hnext.owned⟩
  · intro target item hitem
    obtain hold | ⟨rfl, rfl⟩ := hmem target item hitem
    · exact h.placed target item hold
    · exact ⟨rfl, howned⟩
  · intro target
    rw [DeliveryQueue.bucket_push hpush]
    split
    · refine List.pairwise_append.mpr ⟨h.sorted target, List.pairwise_singleton _ _, ?_⟩
      intro item hitem last hlast
      rw [List.mem_singleton.mp hlast]
      exact h.stamped _ _ _ _ (h.known target item hitem)
    · exact h.sorted target
  · intro target item hitem
    obtain hold | ⟨rfl, rfl⟩ := hmem target item hitem
    · exact hnext.known target item hold
    · exact ⟨_, AList.lookup_insert _, rfl, rfl⟩
  · intro item hitem other hother
    obtain hold | ⟨rfl, -⟩ := hmem _ other hother
    · exact h.handFirst item hitem other hold
    · exact .inr (h.stamped _ _ _ _ (h.handKnown item hitem).1)
  · intro item hitem
    exact (h.handKept item hitem).imp_left (hstays _ item)
  · intro target item hitem hdelivered
    obtain hold | ⟨rfl, -⟩ := hmem target item hitem
    · exact h.waiting target item hold hdelivered
    · obtain ⟨delivery, hdelivery, hcall⟩ := List.mem_map.mp hdelivered
      obtain ⟨status, haccepted⟩ := h.delivered delivery hdelivery
      exact absurd (hcall ▸ haccepted) (hnone _ _ _)
  · intro target item hitem hcancelled
    obtain hold | ⟨rfl, -⟩ := hmem target item hitem
    · exact h.cleared target item hold hcancelled
    · obtain ⟨target', acceptedAt, haccepted⟩ := h.cancelled _ hcancelled
      exact hnone _ _ _ haccepted

theorem Tracked.push (h : s.Tracked owner) : (s.push call).Tracked owner := by
  rw [Messages.push]
  cases hlookup : s.calls.lookup call with
  | none => exact h
  | some under =>
      obtain ⟨target, userId, sender, content, phase⟩ := under
      have howned := h.owned call _ hlookup
      have hfound : ∀ found, s.calls.lookup call = some found →
          found = ⟨target, userId, sender, content, phase⟩ :=
        fun found hfound ↦ (Option.some_inj.mp (hlookup.symm.trans hfound)).symm
      cases phase with
      | delivering | accepted _ _ | returned _ _ _ | refused _ => exact h
      | queueing =>
          dsimp only
          cases hpush : s.queue.push (s.pending call ⟨target, userId, sender, content, .queueing⟩) with
          | none =>
              refine h.setPhase hfound (fun hsome ↦ absurd rfl hsome) ?_ howned
              exact fun _ _ hphase ↦ (by cases hphase)
          | some queue => exact h.pushed hfound rfl howned hpush

theorem Tracked.returnCall (h : s.Tracked owner) : (s.returnCall call).Tracked owner := by
  rw [Messages.returnCall]
  cases hlookup : s.calls.lookup call with
  | none => exact h
  | some under =>
      obtain ⟨target, userId, sender, content, phase⟩ := under
      cases phase with
      | delivering | queueing | returned _ _ _ | refused _ => exact h
      | accepted status acceptedAt =>
          refine h.setPhase ?_ (fun _ ↦ rfl) ?_ (h.owned call _ hlookup)
          · exact fun found hfound ↦ (Option.some_inj.mp (hlookup.symm.trans hfound)).symm
          · rintro _ _ ⟨⟩
            exact (h.stamped call target status acceptedAt ⟨_, hlookup, rfl, rfl⟩).le

theorem Tracked.enter (h : s.Tracked owner) {userId sender target content : String}
    (hfresh : s.calls.lookup call = none) (howned : owner target = userId) :
    (s.setPhase call ⟨target, userId, sender, content, .delivering⟩ .delivering).Tracked owner := by
  refine h.setPhase ?_ (fun _ ↦ rfl) (fun _ _ hphase ↦ (by cases hphase)) howned.symm
  intro found hfound
  cases hfresh.symm.trans hfound

theorem Tracked.dropExpired (h : s.Tracked owner) (hidle : s.drainer = .idle) :
    Tracked owner { s with queue := (s.queue.dropExpired s.now).1, drainer := .expired } := by
  have hline : ∀ target, ((s.queue.dropExpired s.now).1.bucket target).Sublist
      (s.queue.bucket target) := by
    intro target
    rw [DeliveryQueue.bucket_dropExpired]
    exact List.filter_sublist
  refine h.shrink hline (List.nil_sublist _) (fun item hmem ↦ (by cases hmem)) ?_
    (fun item heads hphase ↦ (by cases hphase)) ?_ h.cancelled
  · intro target item hmem hdelivered
    obtain ⟨heads, hphase⟩ := h.waiting target item ((hline target).subset hmem) hdelivered
    cases hidle.symm.trans hphase
  · exact fun target item hmem ↦ h.cleared target item ((hline target).subset hmem)

theorem Tracked.snapshot (h : s.Tracked owner) (hexpired : s.drainer = .expired)
    (rank : String → ℕ) :
    Tracked owner { s with drainer := .draining (s.queue.snapshotHeads rank) } := by
  have hhead : ∀ item ∈ s.queue.snapshotHeads rank,
      (s.queue.bucket item.toConversationId).head? = some item := by
    intro item hmem
    obtain ⟨target, hfirst⟩ := DeliveryQueue.mem_snapshotHeads.mp hmem
    obtain ⟨rfl, -⟩ := h.placed target item (List.mem_of_head? hfirst)
    exact hfirst
  have hmem : ∀ item ∈ s.queue.snapshotHeads rank,
      item ∈ s.queue.bucket item.toConversationId :=
    fun item hitem ↦ List.mem_of_head? (hhead item hitem)
  have hnone : ∀ target, ∀ item ∈ s.queue.bucket target, item.call ∉ s.deliveredCalls := by
    intro target item hitem hdelivered
    obtain ⟨heads, hphase⟩ := h.waiting target item hitem hdelivered
    cases hexpired.symm.trans hphase
  refine ⟨h.placed, h.sorted, h.known, ?_, ?_, ?_, ?_, ?_, ?_, ?_, h.once, h.delivered, h.cleared,
    h.cancelled, h.stamped, h.owned⟩
  · exact fun item hitem ↦ ⟨h.known _ item (hmem item hitem), (h.placed _ item (hmem item hitem)).2⟩
  · refine Buckets.nodup_heads fun target item hitem ↦ (h.placed target item ?_).1
    rwa [Buckets.bucket_reorder] at hitem
  · intro item hitem other hother
    have hsorted := h.sorted item.toConversationId
    obtain ⟨rest, hrest⟩ := List.head?_eq_some_iff.mp (hhead item hitem)
    rw [hrest] at hsorted hother
    obtain rfl | hother := List.mem_cons.mp hother
    · exact .inl rfl
    · exact .inr ((List.pairwise_cons.mp hsorted).1 other hother)
  · exact fun item hitem ↦ .inl (hmem item hitem)
  · exact fun item hitem ↦ hnone _ item (hmem item hitem)
  · exact fun target item hitem hdelivered ↦ absurd hdelivered (hnone target item hitem)
  · exact fun item heads hphase ↦ (by cases hphase)

theorem Tracked.undelivered (h : s.Tracked owner)
    (hphase : ∀ item heads, s.drainer ≠ .settling item .delivered heads) {target : String}
    {item : PendingDelivery} (hmem : item ∈ s.queue.bucket target) :
    item.call ∉ s.deliveredCalls := by
  intro hdelivered
  obtain ⟨heads, hsettling⟩ := h.waiting target item hmem hdelivered
  exact hphase item heads hsettling

theorem Tracked.gate (h : s.Tracked owner) (enabled : Bool) : (s.gate enabled).Tracked owner := by
  rw [Messages.gate]
  split
  · next hphase =>
      refine h.shrink (fun _ ↦ List.Sublist.refl _) (List.nil_sublist _)
        (fun item hmem ↦ (by cases hmem)) ?_ (fun item heads hidle ↦ (by cases hidle)) h.cleared
        h.cancelled
      intro target item hmem hdelivered
      exact absurd hdelivered (h.undelivered (by simp [hphase]) hmem)
  · next item heads hphase =>
      cases enabled with
      | true =>
          refine h.shrink (fun _ ↦ List.Sublist.refl _) ?_ ?_ ?_
            (fun item heads hidle ↦ (by cases hidle)) h.cleared h.cancelled
          · rw [hphase]
            exact List.Sublist.refl _
          · intro other hmem
            have hhand : other ∈ s.drainer.unattempted := by rwa [hphase]
            exact ⟨hhand, h.handKept other hhand⟩
          · intro target other hmem hdelivered
            exact absurd hdelivered (h.undelivered (by simp [hphase]) hmem)
      | false =>
          have hline : ∀ target, ((s.queue.clearFor item.toConversationId).1.bucket target).Sublist
              (s.queue.bucket target) := by
            intro target
            rw [DeliveryQueue.bucket_clearFor]
            split
            · exact List.nil_sublist _
            · exact List.Sublist.refl _
          have htargets := h.handTargets
          rw [hphase, DrainerPhase.inHand, List.map_cons, List.nodup_cons] at htargets
          refine h.shrink hline ?_ ?_ ?_ (fun item heads hidle ↦ (by cases hidle)) ?_ h.cancelled
          · rw [hphase]
            exact List.sublist_cons_self item heads
          · intro other hmem
            have hhand : other ∈ s.drainer.unattempted := by
              rw [hphase]
              exact List.mem_cons_of_mem item hmem
            refine ⟨hhand, (h.handKept other hhand).imp_left fun hkept ↦ ?_⟩
            rw [DeliveryQueue.bucket_clearFor, if_neg]
            · exact hkept
            · intro heq
              have hsame : other.toConversationId ∈ heads.map (·.toConversationId) :=
                List.mem_map_of_mem hmem
              exact htargets.1 (heq ▸ hsame)
          · intro target other hmem hdelivered
            exact absurd hdelivered (h.undelivered (by simp [hphase]) ((hline target).subset hmem))
          · exact fun target other hmem ↦ h.cleared target other ((hline target).subset hmem)
  · exact h

theorem Tracked.deliver (h : s.Tracked owner) (outcome : DeliveryOutcome) :
    (s.deliver outcome).Tracked owner := by
  rw [Messages.deliver]
  split
  · next item heads hphase =>
      have hsub : heads ⊆ s.drainer.unattempted := by
        rw [hphase]
        exact List.subset_cons_self item heads
      have hitem : item ∈ s.drainer.unattempted := by
        rw [hphase]
        exact List.mem_cons_self
      have hundelivered : ∀ target, ∀ other ∈ s.queue.bucket target,
          other.call ∉ s.deliveredCalls :=
        fun target other hmem ↦ h.undelivered (by simp [hphase]) hmem
      by_cases hdelivered : outcome = .delivered
      · subst hdelivered
        obtain ⟨hknown, -⟩ := h.handKnown item (DrainerPhase.inHand_of_unattempted hitem)
        have htargets := h.handTargets
        rw [hphase, DrainerPhase.inHand, List.map_cons, List.nodup_cons] at htargets
        refine h.addDelivery (by rw [hphase]; rfl) hsub (h.fresh item hitem) ⟨_, hknown⟩ ?_ ?_ ?_
        · intro other hother heq
          obtain ⟨hother', -⟩ :=
            h.handKnown other (DrainerPhase.inHand_of_unattempted (hsub hother))
          obtain ⟨hsame, -, -⟩ := Accepted.unique (heq ▸ hother') hknown
          have hmem : other.toConversationId ∈ heads.map (·.toConversationId) :=
            List.mem_map_of_mem hother
          exact htargets.1 (hsame ▸ hmem)
        · rintro target other hmem (heq | hold)
          · obtain ⟨rfl, -, hat⟩ := Accepted.unique (heq ▸ h.known target other hmem) hknown
            obtain rfl | hlater :=
              h.handFirst item (DrainerPhase.inHand_of_unattempted hitem) other hmem
            · exact ⟨heads, rfl⟩
            · exact absurd hat hlater.ne'
          · exact absurd hold (hundelivered target other hmem)
        · rintro other rest ⟨⟩
          exact .inl rfl
      · rw [if_neg hdelivered]
        refine h.shrink (fun _ ↦ List.Sublist.refl _) ?_ ?_ ?_ ?_ h.cleared h.cancelled
        · rw [hphase]
          exact List.Sublist.refl _
        · exact fun other hother ↦ ⟨hsub hother, h.handKept other (hsub hother)⟩
        · exact fun target other hmem hold ↦ absurd hold (hundelivered target other hmem)
        · rintro other rest ⟨⟩
          exact absurd rfl hdelivered
  · exact h

theorem sublist_removeHead (target other : String) :
    ((s.queue.removeHead target).bucket other).Sublist (s.queue.bucket other) := by
  rw [DeliveryQueue.bucket_removeHead]
  split
  · next heq => rw [heq]; exact List.tail_sublist _
  · exact List.Sublist.refl _

theorem Tracked.removeHead (h : s.Tracked owner) {item : PendingDelivery}
    {outcome : DeliveryOutcome} {heads : List PendingDelivery}
    (hphase : s.drainer = .settling item outcome heads) :
    Tracked owner
      { s with
        queue := s.queue.removeHead item.toConversationId
        drainer := .draining heads } := by
  have htargets := h.handTargets
  rw [hphase, DrainerPhase.inHand, List.map_cons, List.nodup_cons] at htargets
  have hitem : item ∈ s.drainer.inHand := by
    rw [hphase]
    exact List.mem_cons_self
  refine h.shrink (sublist_removeHead _) ?_ ?_ ?_ (fun _ _ hidle ↦ (by cases hidle)) ?_ h.cancelled
  · rw [hphase]
    exact List.sublist_cons_self item heads
  · intro other hother
    have hhand : other ∈ s.drainer.unattempted := by rwa [hphase]
    refine ⟨hhand, (h.handKept other hhand).imp_left fun hkept ↦ ?_⟩
    rw [DeliveryQueue.bucket_removeHead, if_neg]
    · exact hkept
    · intro heq
      have hsame : other.toConversationId ∈ heads.map (·.toConversationId) :=
        List.mem_map_of_mem hother
      exact htargets.1 (heq ▸ hsame)
  · intro target other hmem hdelivered
    have hold := (sublist_removeHead _ _).subset hmem
    obtain ⟨rest, hsettling⟩ := h.waiting target other hold hdelivered
    obtain ⟨rfl, -, -⟩ := DrainerPhase.settling.inj (hphase.symm.trans hsettling)
    obtain ⟨rfl, -⟩ := h.placed target item hold
    obtain ⟨line, hline, hlater⟩ := h.head_eq hitem hold
    rw [DeliveryQueue.bucket_removeHead, if_pos rfl, hline] at hmem
    exact absurd hmem hlater
  · exact fun target other hmem ↦ h.cleared target other ((sublist_removeHead _ _).subset hmem)

theorem Tracked.settle (h : s.Tracked owner) : s.settle.Tracked owner := by
  rw [Messages.settle]
  split
  · next item heads hphase =>
      refine h.shrink (fun _ ↦ List.Sublist.refl _) ?_ ?_ ?_
        (fun _ _ hidle ↦ (by cases hidle)) h.cleared h.cancelled
      · rw [hphase]
        exact List.sublist_cons_self item heads
      · intro other hother
        have hhand : other ∈ s.drainer.unattempted := by rwa [hphase]
        exact ⟨hhand, h.handKept other hhand⟩
      · intro target other hmem hdelivered
        exact absurd hdelivered (h.undelivered (by simp [hphase]) hmem)
  · next item outcome heads _ hphase => exact h.removeHead hphase
  · exact h

theorem Tracked.onTurnCancelled (h : s.Tracked owner) (conversationId : String)
    (cause : TurnCancelCause) : (s.onTurnCancelled conversationId cause).Tracked owner := by
  cases cause with
  | runtimeRestart => exact h
  | userRequested =>
      have hmem : ∀ target, ∀ item, item ∈ (s.queue.clearFor conversationId).1.bucket target ↔
          target ≠ conversationId ∧ item ∈ s.queue.bucket target := by
        intro target item
        rw [DeliveryQueue.bucket_clearFor]
        split
        · next heq => simp [heq]
        · next hne => simp [hne]
      have hline : ∀ target, ((s.queue.clearFor conversationId).1.bucket target).Sublist
          (s.queue.bucket target) := by
        intro target
        rw [DeliveryQueue.bucket_clearFor]
        split
        · exact List.nil_sublist _
        · exact List.Sublist.refl _
      refine h.shrink hline (List.Sublist.refl _) ?_ ?_ h.settled ?_ ?_
      · intro item hitem
        refine ⟨hitem, ?_⟩
        obtain hkept | hcancelled := h.handKept item hitem
        · by_cases heq : item.toConversationId = conversationId
          · refine .inr (List.mem_append_right _ (List.mem_map_of_mem ?_))
            exact heq ▸ hkept
          · exact .inl ((hmem _ item).mpr ⟨heq, hkept⟩)
        · exact .inr (List.mem_append_left _ hcancelled)
      · exact fun target item hitem ↦ h.waiting target item ((hline target).subset hitem)
      · intro target item hitem hcancelled
        obtain ⟨hne, hold⟩ := (hmem target item).mp hitem
        obtain hbefore | hnow := List.mem_append.mp hcancelled
        · exact h.cleared target item hold hbefore
        · obtain ⟨other, hother, heq⟩ := List.mem_map.mp hnow
          have haccepted := h.known conversationId other hother
          exact hne (Accepted.unique (h.known target item hold) (heq ▸ haccepted)).1
      · intro call hcancelled
        obtain hbefore | hnow := List.mem_append.mp hcancelled
        · exact h.cancelled call hbefore
        · obtain ⟨item, hitem, rfl⟩ := List.mem_map.mp hnow
          exact ⟨_, _, h.known conversationId item hitem⟩

theorem Tracked.step (h : s.Tracked owner) (action : MessageAction) :
    (s.step owner action).Tracked owner := by
  cases action with
  | advance ms =>
      exact ⟨h.placed, h.sorted, h.known, h.handKnown, h.handTargets, h.handFirst, h.handKept,
        h.fresh, h.waiting, h.settled, h.once, h.delivered, h.cleared, h.cancelled, h.stamped,
        h.owned⟩
  | enter call userId sender target content =>
      rw [Messages.step]
      split
      · next hcall => exact h.enter hcall.1 hcall.2
      · exact h
  | attempt call outcome => exact h.attempt outcome
  | push call => exact h.push
  | returnCall call => exact h.returnCall
  | dropExpired =>
      rw [Messages.step]
      split
      · next hidle => exact h.dropExpired hidle
      · exact h
  | snapshot rank =>
      rw [Messages.step]
      split
      · next hexpired => exact h.snapshot hexpired rank
      · exact h
  | gate enabled => exact h.gate enabled
  | deliver outcome => exact h.deliver outcome
  | settle => exact h.settle
  | turnCancelled conversationId cause => exact h.onTurnCancelled conversationId cause

theorem tracked_new (owner : String → String) : new.Tracked owner where
  placed _ _ hmem := by cases hmem
  sorted _ := List.Pairwise.nil
  known _ _ hmem := by cases hmem
  handKnown _ hmem := by cases hmem
  handTargets := List.nodup_nil
  handFirst _ hmem := by cases hmem
  handKept _ hmem := by cases hmem
  fresh _ hmem := by cases hmem
  waiting _ _ hmem := by cases hmem
  settled _ _ hphase := by cases hphase
  once := List.nodup_nil
  delivered _ hmem := by cases hmem
  cleared _ _ hmem := by cases hmem
  cancelled _ hmem := by cases hmem
  stamped _ _ _ _ haccepted := by
    obtain ⟨under, hlookup, -⟩ := haccepted
    cases hlookup
  owned _ _ hlookup := by cases hlookup

end Line

end Messages

end Zaowutai.SessionMessage
