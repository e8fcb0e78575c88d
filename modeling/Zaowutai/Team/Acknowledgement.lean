import Zaowutai.Team.Evolution
import Zaowutai.Team.Representation

/-!
# Which messages a completed batch acknowledges

The history of a run remembers which messages each batch claimed and which
rows were bound to it while it was active.  A completion acknowledges exactly
these, and it does so without repetition exactly when the intents of the
current batch carry pairwise distinct messages.
-/

namespace Zaowutai.Team

open Zaowutai.Lib SlotWorkCoordinator

structure AckHistory where
  state : CoordinatorState
  /-- The messages of the intents that the batch claimed. -/
  claimed : String → List String
  /-- The rows bound to the batch by observations; a claimed row is not bound again. -/
  bound : String → List String

def AckHistory.init : AckHistory := ⟨.empty, fun _ ↦ [], fun _ ↦ []⟩

namespace SlotWorkCoordinator

variable (c : SlotWorkCoordinator)

def recordClaim (h : AckHistory) (slotId : String) : String → List String :=
  match (c.next h.state slotId).result with
  | .claim batch =>
      Function.update h.claimed batch.batchId (batch.intentIds.filterMap h.state.messageOf)
  | _ => h.claimed

def recordObservation (h : AckHistory) (slotId batchId : String) (messageIds : List String) :
    String → List String :=
  if (h.state.batchAt slotId).any fun batch ↦ batch.batchId = batchId then
    Function.update h.bound batchId
      (h.bound batchId ++ messageIds.filter fun m ↦ m ∉ h.claimed batchId)
  else h.bound

def ackStep (h : AckHistory) (op : CoordinatorOp) : AckHistory where
  state := c.step h.state op
  claimed := match op with
    | .next slotId => c.recordClaim h slotId
    | _ => h.claimed
  bound := match op with
    | .observeMessages slotId batchId messageIds => recordObservation h slotId batchId messageIds
    | _ => h.bound

end SlotWorkCoordinator

structure AckInvariant (c : SlotWorkCoordinator) (h : AckHistory) : Prop where
  keyed : Keyed c h.state
  drawn : ∀ slotId batch, h.state.batchAt slotId = some batch →
    ∃ k < h.state.generated, batch.batchId = c.generateId k
  unique : ∀ slotId slotId' batch batch', h.state.batchAt slotId = some batch →
    h.state.batchAt slotId' = some batch' → batch.batchId = batch'.batchId → slotId = slotId'
  claimed : ∀ slotId batch, h.state.batchAt slotId = some batch →
    batch.mailboxMessageIds = h.claimed batch.batchId
  bound : ∀ slotId batch, h.state.batchAt slotId = some batch →
    ∀ m, m ∈ batch.observedMessageIds ↔ m ∈ h.bound batch.batchId
  unbound : ∀ k, h.state.generated ≤ k → h.bound (c.generateId k) = []

section Invariant

variable {c : SlotWorkCoordinator} {h : AckHistory}

theorem ackInvariant_init : AckInvariant c .init where
  keyed := keyed_empty
  drawn _ _ hb := by simp [AckHistory.init, CoordinatorState.empty, CoordinatorState.batchAt] at hb
  unique _ _ _ _ hb := by
    simp [AckHistory.init, CoordinatorState.empty, CoordinatorState.batchAt] at hb
  claimed _ _ hb := by
    simp [AckHistory.init, CoordinatorState.empty, CoordinatorState.batchAt] at hb
  bound _ _ hb := by simp [AckHistory.init, CoordinatorState.empty, CoordinatorState.batchAt] at hb
  unbound _ _ := rfl

theorem AckInvariant.of_calm (hinv : AckInvariant c h) {s' : CoordinatorState}
    (hcalm : Calm c h.state s') : AckInvariant c { h with state := s' } := by
  have hgen := (hcalm.intents hinv.keyed).generated
  have hbatch : ∀ {slotId batch}, s'.batchAt slotId = some batch →
      h.state.batchAt slotId = some batch := by
    intro slotId batch hb
    rcases hcalm.batches slotId with heq | hnone
    · rw [← heq]
      exact hb
    · simp [hnone] at hb
  refine ⟨hinv.keyed.of_kept (hcalm.intents hinv.keyed), ?_, ?_, ?_, ?_, ?_⟩
  · intro slotId batch hb
    obtain ⟨k, hk, hid⟩ := hinv.drawn slotId batch (hbatch hb)
    exact ⟨k, hk.trans_le hgen, hid⟩
  · exact fun _ _ _ _ hb hb' ↦ hinv.unique _ _ _ _ (hbatch hb) (hbatch hb')
  · exact fun slotId batch hb ↦ hinv.claimed slotId batch (hbatch hb)
  · exact fun slotId batch hb ↦ hinv.bound slotId batch (hbatch hb)
  · exact fun k hk ↦ hinv.unbound k (hgen.trans hk)

theorem batchAt_claimed {s : CoordinatorState} {slotId : String} (slot : SlotState)
    (batch : WorkBatch) (other : String) :
    (claimed s slotId slot batch).batchAt other =
      if other = slotId then some batch else s.batchAt other := by
  have hslots : (claimed s slotId slot batch).slots = s.slots.insert slotId
      { slot.removeAllQueued batch.intentIds with active := some ⟨batch, none, none⟩ } := rfl
  exact batchAt_insert hslots other

theorem kept_claimed {s : CoordinatorState} {slotId : String} (slot : SlotState)
    (batch : WorkBatch) : IntentsKept c s (claimed s slotId slot batch) :=
  kept_restated (f := fun id intent ↦
    if id ∈ batch.intentIds then .starting batch.batchId batch.operationId else intent.state)
    rfl (Nat.le_succ _)

theorem AckInvariant.next (hinv : AckInvariant c h) (slotId : String) :
    AckInvariant c (c.ackStep h (.next slotId)) := by
  rcases next_cases (c := c) (s := h.state) slotId with
    ⟨hsame, hno⟩ | ⟨slot, p, ids, _, _, _, _, hresult, hstate⟩
  · have hstep : c.ackStep h (.next slotId) = h := by
      have hclaimed : c.recordClaim h slotId = h.claimed := by
        unfold SlotWorkCoordinator.recordClaim
        split
        · next batch hb => exact absurd hb (hno batch)
        · rfl
      simp only [SlotWorkCoordinator.ackStep, hclaimed]
      exact congrArg (fun s ↦ (⟨s, h.claimed, h.bound⟩ : AckHistory)) hsame
    rw [hstep]
    exact hinv
  · have hstep : c.ackStep h (.next slotId) =
        ⟨SlotWorkCoordinator.claimed h.state slotId slot (c.claimBatch h.state slotId p ids),
          Function.update h.claimed (c.generateId h.state.generated)
            (ids.filterMap h.state.messageOf), h.bound⟩ := by
      have hclaimed : c.recordClaim h slotId =
          Function.update h.claimed (c.generateId h.state.generated)
            (ids.filterMap h.state.messageOf) := by
        unfold SlotWorkCoordinator.recordClaim
        rw [hresult]
        rfl
      simp only [SlotWorkCoordinator.ackStep, hclaimed]
      exact congrArg (fun s ↦ (⟨s, _, h.bound⟩ : AckHistory)) hstate
    have hfresh : ∀ slotId' batch, h.state.batchAt slotId' = some batch →
        batch.batchId ≠ c.generateId h.state.generated := by
      intro slotId' batch hb heq
      obtain ⟨k, hk, hid⟩ := hinv.drawn slotId' batch hb
      have := c.generateId_injective (hid.symm.trans heq)
      omega
    have hcases : ∀ {slotId' batch},
        (SlotWorkCoordinator.claimed h.state slotId slot
          (c.claimBatch h.state slotId p ids)).batchAt slotId' = some batch →
        (slotId' = slotId ∧ batch = c.claimBatch h.state slotId p ids) ∨
          h.state.batchAt slotId' = some batch := by
      intro slotId' batch hb
      rw [batchAt_claimed] at hb
      split at hb
      · next heq => exact Or.inl ⟨heq, (Option.some.inj hb).symm⟩
      · exact Or.inr hb
    rw [hstep]
    refine ⟨hinv.keyed.of_kept (kept_claimed _ _), ?_, ?_, ?_, ?_, ?_⟩
    · intro slotId' batch hb
      rcases hcases hb with ⟨_, rfl⟩ | hb
      · exact ⟨h.state.generated, Nat.lt_succ_self _, rfl⟩
      · obtain ⟨k, hk, hid⟩ := hinv.drawn slotId' batch hb
        exact ⟨k, hk.trans (Nat.lt_succ_self _), hid⟩
    · intro slotId' slotId'' batch batch' hb hb' heq
      rcases hcases hb with ⟨hslot, rfl⟩ | hb <;> rcases hcases hb' with ⟨hslot', rfl⟩ | hb'
      · rw [hslot, hslot']
      · exact absurd heq.symm (hfresh _ _ hb')
      · exact absurd heq (hfresh _ _ hb)
      · exact hinv.unique _ _ _ _ hb hb' heq
    · intro slotId' batch hb
      rcases hcases hb with ⟨rfl, rfl⟩ | hb
      · exact (Function.update_self (c.generateId h.state.generated) _ h.claimed).symm
      · exact (hinv.claimed slotId' batch hb).trans
          (Function.update_of_ne (hfresh slotId' batch hb) _ h.claimed).symm
    · intro slotId' batch hb
      rcases hcases hb with ⟨rfl, rfl⟩ | hb
      · have hnone := hinv.unbound h.state.generated le_rfl
        simp [claimBatch, hnone]
      · exact hinv.bound slotId' batch hb
    · intro k hk
      exact hinv.unbound k (Nat.le_of_succ_le hk)

theorem mem_observe {batch : WorkBatch} {messageIds : List String} {m : String} :
    m ∈ (batch.observe messageIds).observedMessageIds ↔
      m ∈ batch.observedMessageIds ∨ m ∈ messageIds ∧ m ∉ batch.mailboxMessageIds := by
  unfold WorkBatch.observe
  simp only
  generalize batch.observedMessageIds = observed
  induction messageIds generalizing observed with
  | nil => simp
  | cons id messageIds ih =>
      rw [List.foldl_cons, ih]
      split
      · next hmem =>
          simp only [List.mem_cons]
          constructor
          · rintro (hm | ⟨hm, hn⟩)
            · exact Or.inl hm
            · exact Or.inr ⟨Or.inr hm, hn⟩
          · rintro (hm | ⟨rfl | hm, hn⟩)
            · exact Or.inl hm
            · exact absurd hmem hn
            · exact Or.inr ⟨hm, hn⟩
      · next hmem =>
          simp only [mem_pushNew, List.mem_cons]
          constructor
          · rintro ((hm | rfl) | ⟨hm, hn⟩)
            · exact Or.inl hm
            · exact Or.inr ⟨Or.inl rfl, hmem⟩
            · exact Or.inr ⟨Or.inr hm, hn⟩
          · rintro (hm | ⟨rfl | hm, hn⟩)
            · exact Or.inl (Or.inl hm)
            · exact Or.inl (Or.inr rfl)
            · exact Or.inr ⟨hm, hn⟩

theorem batchAt_eq (s : CoordinatorState) (slotId : String) :
    s.batchAt slotId = (s.activeBatch slotId).map ActiveBatch.batch := by
  unfold CoordinatorState.batchAt CoordinatorState.activeBatch
  cases s.slots.lookup slotId <;> rfl

theorem observe_cases (s : CoordinatorState) (slotId batchId : String)
    (messageIds : List String) :
    ((observeMessages s slotId batchId messageIds).state = s ∧
        ∀ batch, s.batchAt slotId = some batch → batch.batchId ≠ batchId) ∨
      ∃ batch, s.batchAt slotId = some batch ∧ batch.batchId = batchId ∧
        (observeMessages s slotId batchId messageIds).state =
          s.modifySlot slotId fun slot ↦ slot.observe messageIds := by
  unfold observeMessages
  split
  · next hnone => exact Or.inl ⟨rfl, by simp [batchAt_eq, hnone]⟩
  · next active hactive =>
      split
      · next hid => exact Or.inl ⟨rfl, by simpa [batchAt_eq, hactive] using hid⟩
      · next hid =>
          refine Or.inr ⟨active.batch, ?_, not_not.mp hid, rfl⟩
          rw [batchAt_eq, hactive]
          rfl

theorem batchAt_observe {s : CoordinatorState} {slotId : String} {batch : WorkBatch}
    (hbatch : s.batchAt slotId = some batch) (messageIds : List String) (other : String) :
    (s.modifySlot slotId fun slot ↦ slot.observe messageIds).batchAt other =
      if other = slotId then some (batch.observe messageIds) else s.batchAt other := by
  rw [batchAt_modify (f := fun slot ↦ slot.observe messageIds) rfl]
  split
  · obtain ⟨slot, hslot, hb⟩ := Option.bind_eq_some_iff.mp hbatch
    obtain ⟨active, hactive, rfl⟩ := Option.map_eq_some_iff.mp hb
    simp [hslot, SlotState.batch?, SlotState.observe, hactive]
  · rfl

theorem AckInvariant.observe (hinv : AckInvariant c h) (slotId batchId : String)
    (messageIds : List String) :
    AckInvariant c (c.ackStep h (.observeMessages slotId batchId messageIds)) := by
  rcases observe_cases h.state slotId batchId messageIds with
    ⟨hsame, hno⟩ | ⟨batch, hbatch, rfl, hstate⟩
  · have hstep : c.ackStep h (.observeMessages slotId batchId messageIds) = h := by
      have hbound : recordObservation h slotId batchId messageIds = h.bound := by
        unfold SlotWorkCoordinator.recordObservation
        rw [if_neg]
        rw [Option.any_eq_true]
        rintro ⟨batch, hbatch, hid⟩
        exact hno batch hbatch (of_decide_eq_true hid)
      simp only [SlotWorkCoordinator.ackStep, hbound]
      exact congrArg (fun s ↦ (⟨s, h.claimed, h.bound⟩ : AckHistory)) hsame
    rw [hstep]
    exact hinv
  · have hstep : c.ackStep h (.observeMessages slotId batch.batchId messageIds) =
        ⟨h.state.modifySlot slotId fun slot ↦ slot.observe messageIds, h.claimed,
          Function.update h.bound batch.batchId
            (h.bound batch.batchId ++ messageIds.filter fun m ↦ m ∉ h.claimed batch.batchId)⟩ := by
      have hbound : recordObservation h slotId batch.batchId messageIds =
          Function.update h.bound batch.batchId
            (h.bound batch.batchId ++ messageIds.filter fun m ↦ m ∉ h.claimed batch.batchId) := by
        unfold SlotWorkCoordinator.recordObservation
        rw [hbatch, if_pos]
        simp
      simp only [SlotWorkCoordinator.ackStep, hbound]
      exact congrArg (fun s ↦ (⟨s, h.claimed, _⟩ : AckHistory)) hstate
    have hcases : ∀ {slotId' batch'},
        (h.state.modifySlot slotId fun slot ↦ slot.observe messageIds).batchAt slotId' =
          some batch' →
        (slotId' = slotId ∧ batch' = batch.observe messageIds) ∨
          (slotId' ≠ slotId ∧ h.state.batchAt slotId' = some batch') := by
      intro slotId' batch' hb
      rw [batchAt_observe hbatch] at hb
      split at hb
      · next heq => exact Or.inl ⟨heq, (Option.some.inj hb).symm⟩
      · next hne => exact Or.inr ⟨hne, hb⟩
    have hother : ∀ slotId' batch', slotId' ≠ slotId → h.state.batchAt slotId' = some batch' →
        batch'.batchId ≠ batch.batchId := fun slotId' batch' hne hb heq ↦
      hne (hinv.unique _ _ _ _ hb hbatch heq)
    rw [hstep]
    refine ⟨hinv.keyed.of_kept (kept_lookup (fun _ ↦ rfl) le_rfl), ?_, ?_, ?_, ?_, ?_⟩
    · intro slotId' batch' hb
      rcases hcases hb with ⟨_, rfl⟩ | ⟨_, hb⟩
      · exact hinv.drawn _ batch hbatch
      · exact hinv.drawn _ batch' hb
    · intro slotId' slotId'' batch' batch'' hb hb' heq
      rcases hcases hb with ⟨hslot, rfl⟩ | ⟨hne, hb⟩ <;>
        rcases hcases hb' with ⟨hslot', rfl⟩ | ⟨hne', hb'⟩
      · rw [hslot, hslot']
      · exact absurd heq.symm (hother _ _ hne' hb')
      · exact absurd heq (hother _ _ hne hb)
      · exact hinv.unique _ _ _ _ hb hb' heq
    · intro slotId' batch' hb
      rcases hcases hb with ⟨_, rfl⟩ | ⟨_, hb⟩
      · exact hinv.claimed _ batch hbatch
      · exact hinv.claimed _ batch' hb
    · intro slotId' batch' hb m
      rcases hcases hb with ⟨_, rfl⟩ | ⟨hne, hb⟩
      · change _ ↔ m ∈ Function.update h.bound batch.batchId _ batch.batchId
        rw [Function.update_self, mem_observe, hinv.bound _ batch hbatch,
          hinv.claimed _ batch hbatch]
        simp
      · change _ ↔ m ∈ Function.update h.bound batch.batchId _ batch'.batchId
        rw [Function.update_of_ne (hother slotId' batch' hne hb)]
        exact hinv.bound _ batch' hb m
    · intro k hk
      obtain ⟨l, hl, hid⟩ := hinv.drawn _ batch hbatch
      have hne : c.generateId k ≠ batch.batchId := by
        intro heq
        have := c.generateId_injective (heq.trans hid)
        have hk' : h.state.generated ≤ k := hk
        omega
      exact (Function.update_of_ne hne _ h.bound).trans (hinv.unbound k hk)

theorem ackInvariant_step (hinv : AckInvariant c h) (op : CoordinatorOp) :
    AckInvariant c (c.ackStep h op) := by
  by_cases hnext : ∃ slotId, op = .next slotId
  · obtain ⟨slotId, rfl⟩ := hnext
    exact hinv.next slotId
  · by_cases hobserve : ∃ slotId batchId messageIds, op = .observeMessages slotId batchId messageIds
    · obtain ⟨slotId, batchId, messageIds, rfl⟩ := hobserve
      exact hinv.observe slotId batchId messageIds
    · have hcalm : Calm c h.state (c.step h.state op) :=
        calm_step (fun slotId heq ↦ hnext ⟨slotId, heq⟩)
          fun slotId batchId messageIds heq ↦ hobserve ⟨slotId, batchId, messageIds, heq⟩
      have hstep : c.ackStep h op = { h with state := c.step h.state op } := by
        cases op with
        | next slotId => exact (hnext ⟨slotId, rfl⟩).elim
        | observeMessages slotId batchId messageIds =>
            exact (hobserve ⟨slotId, batchId, messageIds, rfl⟩).elim
        | _ => rfl
      rw [hstep]
      exact hinv.of_calm hcalm

theorem ackInvariant_run (hinv : AckInvariant c h) (ops : List CoordinatorOp) :
    AckInvariant c (run c.ackStep h ops) :=
  run_invariant (P := AckInvariant c) (fun _ op hinv ↦ ackInvariant_step hinv op) hinv ops

theorem state_run_ackStep (h : AckHistory) (ops : List CoordinatorOp) :
    (run c.ackStep h ops).state = run c.step h.state ops := by
  induction ops generalizing h with
  | nil => rfl
  | cons op ops ih => exact ih (c.ackStep h op)

end Invariant

section Retired

variable {c : SlotWorkCoordinator} {s : CoordinatorState}

def CoordinatorState.IsActive (s : CoordinatorState) (batchId : String) : Prop :=
  ∃ slotId batch, s.batchAt slotId = some batch ∧ batch.batchId = batchId

def Retired (c : SlotWorkCoordinator) (ops : List CoordinatorOp) (batchId : String) : Prop :=
  ∃ pre later, pre <+: later ∧ later <+: ops ∧
    (run c.step .empty pre).IsActive batchId ∧ ¬ (run c.step .empty later).IsActive batchId

structure Identified (c : SlotWorkCoordinator) (s s' : CoordinatorState) : Prop where
  keyed : Keyed c s'
  generated : s.generated ≤ s'.generated
  active : ∀ batchId, s'.IsActive batchId → s.IsActive batchId ∨ batchId = c.generateId s.generated

theorem identified_of_calm {s' : CoordinatorState} (hkeyed : Keyed c s) (hcalm : Calm c s s') :
    Identified c s s' where
  keyed := hkeyed.of_kept (hcalm.intents hkeyed)
  generated := (hcalm.intents hkeyed).generated
  active := by
    rintro batchId ⟨slotId, batch, hb, hid⟩
    rcases hcalm.batches slotId with heq | hnone
    · exact Or.inl ⟨slotId, batch, heq ▸ hb, hid⟩
    · simp [hnone] at hb

theorem identified_next (hkeyed : Keyed c s) (slotId : String) :
    Identified c s (c.next s slotId).state := by
  rcases next_cases (c := c) (s := s) slotId with
    ⟨hsame, _⟩ | ⟨slot, p, ids, _, _, _, _, _, hstate⟩
  · rw [hsame]
    exact identified_of_calm hkeyed calm_refl
  · rw [hstate]
    refine ⟨hkeyed.of_kept (kept_claimed _ _), Nat.le_succ _, ?_⟩
    rintro batchId ⟨other, batch, hb, rfl⟩
    rw [batchAt_claimed] at hb
    split at hb
    · cases hb
      exact Or.inr rfl
    · exact Or.inl ⟨other, batch, hb, rfl⟩

theorem identified_observeMessages (hkeyed : Keyed c s) (slotId batchId : String)
    (messageIds : List String) :
    Identified c s (observeMessages s slotId batchId messageIds).state := by
  rcases observe_cases s slotId batchId messageIds with
    ⟨hsame, _⟩ | ⟨batch, hbatch, rfl, hstate⟩
  · rw [hsame]
    exact identified_of_calm hkeyed calm_refl
  · rw [hstate]
    refine ⟨hkeyed.of_kept (kept_lookup (fun _ ↦ rfl) le_rfl), le_rfl, ?_⟩
    rintro batchId ⟨other, batch', hb, rfl⟩
    rw [batchAt_observe hbatch] at hb
    split at hb
    · cases hb
      exact Or.inl ⟨slotId, batch, hbatch, rfl⟩
    · exact Or.inl ⟨other, batch', hb, rfl⟩

theorem identified_step (hkeyed : Keyed c s) (op : CoordinatorOp) :
    Identified c s (c.step s op) := by
  by_cases hnext : ∃ slotId, op = .next slotId
  · obtain ⟨slotId, rfl⟩ := hnext
    exact identified_next hkeyed slotId
  · by_cases hobserve : ∃ slotId batchId messageIds, op = .observeMessages slotId batchId messageIds
    · obtain ⟨slotId, batchId, messageIds, rfl⟩ := hobserve
      exact identified_observeMessages hkeyed slotId batchId messageIds
    · exact identified_of_calm hkeyed <|
        calm_step (fun slotId heq ↦ hnext ⟨slotId, heq⟩)
          fun slotId batchId messageIds heq ↦ hobserve ⟨slotId, batchId, messageIds, heq⟩

theorem inactive_run (hkeyed : Keyed c s) {batchId : String}
    (hdrawn : ∃ k < s.generated, batchId = c.generateId k) (hinactive : ¬ s.IsActive batchId)
    (ops : List CoordinatorOp) : ¬ (run c.step s ops).IsActive batchId := by
  induction ops generalizing s with
  | nil => exact hinactive
  | cons op ops ih =>
      have hstep := identified_step hkeyed op
      obtain ⟨k, hk, rfl⟩ := hdrawn
      refine ih hstep.keyed ⟨k, hk.trans_le hstep.generated, rfl⟩ fun hactive ↦ ?_
      rcases hstep.active _ hactive with hold | hnew
      · exact hinactive hold
      · have := c.generateId_injective hnew
        omega

theorem keyed_run (hkeyed : Keyed c s) (ops : List CoordinatorOp) :
    Keyed c (run c.step s ops) ∧ s.generated ≤ (run c.step s ops).generated := by
  induction ops generalizing s with
  | nil => exact ⟨hkeyed, le_rfl⟩
  | cons op ops ih =>
      have hstep := identified_step hkeyed op
      obtain ⟨hrun, hgen⟩ := ih hstep.keyed
      exact ⟨hrun, hstep.generated.trans hgen⟩

theorem inactive_of_retired {ops : List CoordinatorOp} {batchId : String}
    (h : Retired c ops batchId) : ¬ (run c.step .empty ops).IsActive batchId := by
  obtain ⟨pre, later, ⟨mid, rfl⟩, ⟨post, rfl⟩, ⟨slotId, batch, hb, rfl⟩, hinactive⟩ := h
  have hpre := ackInvariant_run (ackInvariant_init (c := c)) pre
  obtain ⟨k, hk, hid⟩ := hpre.drawn slotId batch (by rw [state_run_ackStep]; exact hb)
  rw [state_run_ackStep] at hk
  have hgen := (keyed_run (keyed_run (keyed_empty (c := c)) pre).1 mid).2
  rw [← run_append] at hgen
  rw [run_append]
  exact inactive_run (keyed_run keyed_empty _).1 ⟨k, hk.trans_le hgen, hid⟩ hinactive post

end Retired

section Completion

variable {c : SlotWorkCoordinator} {s : CoordinatorState} {batch : WorkBatch}

theorem active_of_current (hcurrent : c.isCurrentBatch s batch = true) :
    ∃ active, s.activeBatch batch.slotId = some active ∧ active.batch.batchId = batch.batchId := by
  unfold isCurrentBatch at hcurrent
  rw [Bool.and_eq_true, Option.any_eq_true] at hcurrent
  obtain ⟨_, active, hactive, hsame⟩ := hcurrent
  simp only [Bool.and_eq_true, beq_iff_eq] at hsame
  exact ⟨active, hactive, hsame.1.1⟩

theorem complete_stale (hstale : c.isCurrentBatch s batch = false) :
    c.completeBatchWithAck s batch = ⟨s, [], ⟨.staleOwner, [], []⟩⟩ := by
  unfold completeBatchWithAck
  split
  · rfl
  · rw [hstale]
    rfl

theorem complete_current {active : ActiveBatch} (hactive : s.activeBatch batch.slotId = some active)
    (hcurrent : c.isCurrentBatch s batch = true) :
    (c.completeBatchWithAck s batch).result.ackMessageIds = ackMessages active.batch ∧
      (c.completeBatchWithAck s batch).state =
        let ids := active.batch.intentIds ++
          (completedIntents s active.batch batch.slotId).map WorkIntent.intentId
        (s.setStates ids .completed).modifySlot batch.slotId
          fun slot ↦ slot.finish ids (ackMessages active.batch) := by
  unfold completeBatchWithAck
  rw [hactive]
  simp only [hcurrent]
  exact ⟨rfl, rfl⟩

structure AckExact (c : SlotWorkCoordinator) (ops : List CoordinatorOp) (batch : WorkBatch) :
    Prop where
  nodup : (c.completeBatchWithAck (run c.step .empty ops) batch).result.ackMessageIds.Nodup
  stale : c.isCurrentBatch (run c.step .empty ops) batch = false →
    c.completeBatchWithAck (run c.step .empty ops) batch =
      ⟨run c.step .empty ops, [], ⟨.staleOwner, [], []⟩⟩
  current : c.isCurrentBatch (run c.step .empty ops) batch = true →
    ∀ m, m ∈ (c.completeBatchWithAck (run c.step .empty ops) batch).result.ackMessageIds ↔
      m ∈ (run c.ackStep .init ops).claimed batch.batchId ∨
        m ∈ (run c.ackStep .init ops).bound batch.batchId
  retired : Retired c ops batch.batchId → c.isCurrentBatch (run c.step .empty ops) batch = false
  consumed : c.isCurrentBatch (run c.step .empty ops) batch = true →
    ∀ id intent m, (run c.step .empty ops).intents.lookup id = some intent →
      intent.slotId = batch.slotId → intent.state.isTerminal = false →
        intent.mailboxMessageId = some m →
          m ∈ (run c.ackStep .init ops).bound batch.batchId →
            (c.completeBatchWithAck (run c.step .empty ops) batch).state.intents.lookup id =
              some { intent with state := .completed } ∧
            ∀ priority, id ∉ (c.completeBatchWithAck
              (run c.step .empty ops) batch).state.lane batch.slotId priority

theorem consumed_of_current {active : ActiveBatch} {m id : String} {intent : WorkIntent}
    (hkeyed : Keyed c s) (hactive : s.activeBatch batch.slotId = some active)
    (hcurrent : c.isCurrentBatch s batch = true) (hi : s.intents.lookup id = some intent)
    (hslot : intent.slotId = batch.slotId) (hlive : intent.state.isTerminal = false)
    (hm : intent.mailboxMessageId = some m) (hobserved : m ∈ active.batch.observedMessageIds) :
    (c.completeBatchWithAck s batch).state.intents.lookup id =
        some { intent with state := .completed } ∧
      ∀ priority, id ∉ (c.completeBatchWithAck s batch).state.lane batch.slotId priority := by
  have hmem : id ∈ active.batch.intentIds ++
      (completedIntents s active.batch batch.slotId).map WorkIntent.intentId := by
    refine List.mem_append_right _ (List.mem_map.mpr ⟨intent, ?_, hkeyed.keys id intent hi⟩)
    refine mem_completedIntents.mpr ⟨⟨id, hi⟩, Or.inr ?_⟩
    simp [observedIntent, hslot, hlive, hm, hobserved]
  obtain ⟨slot, hslotLookup, _⟩ := slot_of_activeBatch hactive
  rw [(complete_current hactive hcurrent).2]
  refine ⟨?_, fun priority ↦ ?_⟩
  · change (restated s.intents _).lookup id = _
    rw [Table.lookup_mapValues, hi]
    exact congrArg (fun state ↦ some { intent with state := state }) (if_pos hmem)
  · change id ∉ (AList.lookup batch.slotId (s.slots.modify batch.slotId _)).elim [] _
    rw [Table.lookup_modify, if_pos rfl, hslotLookup]
    simp only [Option.map_some, Option.elim_some, SlotState.finish]
    change id ∉ SlotState.queue (slot.removeAllQueued _) priority
    rw [SlotState.queue_removeAllQueued, List.mem_filter]
    simp [hmem]

/-- What a completion acknowledges is exact for every run and every batch argument but for one
thing: a message is listed twice when two of the intents that the batch claimed carry it. -/
theorem ack_exact_iff (c : SlotWorkCoordinator) (ops : List CoordinatorOp) (batch : WorkBatch) :
    AckExact c ops batch ↔
      (c.isCurrentBatch (run c.step .empty ops) batch = true →
        ((run c.ackStep .init ops).claimed batch.batchId).Nodup) := by
  have hinv := ackInvariant_run (ackInvariant_init (c := c)) ops
  have hstate : (run c.ackStep .init ops).state = run c.step .empty ops :=
    state_run_ackStep .init ops
  have hkeyed := hinv.keyed
  have hclaimed := hinv.claimed batch.slotId
  have hbound := hinv.bound batch.slotId
  rw [hstate] at hkeyed hclaimed hbound
  have hrows : ∀ {active}, (run c.step .empty ops).activeBatch batch.slotId = some active →
      active.batch.batchId = batch.batchId →
        active.batch.mailboxMessageIds = (run c.ackStep .init ops).claimed batch.batchId ∧
          ∀ m, m ∈ active.batch.observedMessageIds ↔
            m ∈ (run c.ackStep .init ops).bound batch.batchId := by
    intro active hactive hid
    have hb : (run c.step .empty ops).batchAt batch.slotId = some active.batch := by
      rw [batchAt_eq, hactive]
      rfl
    exact hid ▸ ⟨hclaimed _ hb, hbound _ hb⟩
  constructor
  · intro h hcurrent
    obtain ⟨active, hactive, hid⟩ := active_of_current hcurrent
    have hnodup := h.nodup
    rw [(complete_current hactive hcurrent).1] at hnodup
    rw [← (hrows hactive hid).1]
    exact hnodup.sublist (prefix_foldl_pushNew _ _).sublist
  · intro h
    refine ⟨?_, complete_stale, ?_, ?_, ?_⟩
    · cases hcurrent : c.isCurrentBatch (run c.step .empty ops) batch with
      | false =>
          rw [complete_stale hcurrent]
          exact List.nodup_nil
      | true =>
          obtain ⟨active, hactive, hid⟩ := active_of_current hcurrent
          rw [(complete_current hactive hcurrent).1]
          exact nodup_foldl_pushNew ((hrows hactive hid).1 ▸ h hcurrent) _
    · intro hcurrent m
      obtain ⟨active, hactive, hid⟩ := active_of_current hcurrent
      obtain ⟨hmailbox, hobserved⟩ := hrows hactive hid
      rw [(complete_current hactive hcurrent).1, ackMessages, mem_foldl_pushNew, hmailbox,
        hobserved]
    · intro hretired
      by_contra hcurrent
      obtain ⟨active, hactive, hid⟩ := active_of_current (Bool.of_not_eq_false hcurrent)
      refine inactive_of_retired hretired ⟨batch.slotId, active.batch, ?_, hid⟩
      rw [batchAt_eq, hactive]
      rfl
    · intro hcurrent id intent m hi hslot hlive hm hmem
      obtain ⟨active, hactive, hid⟩ := active_of_current hcurrent
      exact consumed_of_current hkeyed hactive hcurrent hi hslot hlive hm
        (((hrows hactive hid).2 m).mpr hmem)

end Completion

/-- A row is recovered by a reconciliation before its writer commits, so two intents carry it and
one batch claims both. -/
def claimTwice : List CoordinatorOp :=
  [.setRuntimeConstraint "s" .ready,
    .acquireEnqueue ⟨fun _ ↦ ⟨none, false, false⟩, fun _ ↦ ⟨none, false, false⟩⟩
      ⟨"s", .lead, .spawnWelcome, .background⟩,
    .reconcileMailboxSnapshot "s" ["m"] .lead [] 0,
    .commitEnqueue ⟨"", "g", "s", .lead, .spawnWelcome, none⟩ (some "m") 0,
    .next "s"]

def doubledBatch : WorkBatch :=
  { claimedBatch with
    batchId := "|||", intentIds := ["|", "||"], mailboxMessageIds := ["m", "m"],
    highestPriority := .background }

theorem claimTwice_not_exact : ¬ AckExact tallied claimTwice doubledBatch := by
  intro h
  have hack : (tallied.completeBatchWithAck (run tallied.step .empty claimTwice)
      doubledBatch).result.ackMessageIds = ["m", "m"] := by decide
  have hnodup := h.nodup
  rw [hack] at hnodup
  exact absurd hnodup (by decide)

end Zaowutai.Team
