import Zaowutai.Lib.Positions
import Zaowutai.Team.Representation

/-!
# The order of requeued work

Work that goes back into a lane should be delivered in the order in which it
would have been delivered before: what the active batch has claimed first, in
batch order, then what was queued.  Giving a batch back and cancelling a run
keep this order.  A runtime that failed collects its work from the table of
intents, in the order of the table.
-/

namespace Zaowutai.Team

open Zaowutai.Lib SlotWorkCoordinator

/-- What the slot would deliver from a lane, in order: an active batch comes first. -/
def Desk.delivery (desk : Desk) (priority : WorkPriority) : List String :=
  desk.claimedIds ++ desk.lane priority

def CoordinatorState.waits (s : CoordinatorState) (slotId : String) (priority : WorkPriority)
    (intentId : String) : Bool :=
  (s.intents.lookup intentId).any fun intent ↦
    intent.slotId = slotId ∧ intent.priority = priority ∧ intent.state = .queued

def OrderKept (s s' : CoordinatorState) : Prop :=
  ∀ slotId priority, (s'.deskAt slotId).lane priority =
    ((s.deskAt slotId).delivery priority).filter (s'.waits slotId priority)

/-- The operations that put claimed or retained work back into a lane. -/
def CoordinatorOp.requeues : CoordinatorOp → Bool
  | .retryStart _ | .cancelRun _ | .setRuntimeConstraint _ (.failed _ _) => true
  | _ => false

def CoordinatorState.runless (s : CoordinatorState) (slotId : String) (priority : WorkPriority) :
    List WorkIntent :=
  s.intents.values.filter fun intent ↦
    (intent.slotId = slotId ∧ intent.state.isTerminal = false) ∧ intent.teamRunId = none ∧
      intent.priority = priority

def RequeuesOne (s : CoordinatorState) (op : CoordinatorOp) : Prop :=
  ∀ slotId operationId classification,
    op = .setRuntimeConstraint slotId (.failed operationId classification) →
      ∀ priority, (s.runless slotId priority).length ≤ 1

section Order

variable {c : SlotWorkCoordinator} {s s' s'' : CoordinatorState} {slotId : String}

/-- No desk has gained anything, and what it still has stands in its former order. -/
def Shrinks (s s' : CoordinatorState) : Prop :=
  ∀ slotId priority, ((s'.deskAt slotId).delivery priority).Sublist
    ((s.deskAt slotId).delivery priority)

theorem Shrinks.refl (s : CoordinatorState) : Shrinks s s := fun _ _ ↦ List.Sublist.refl _

theorem Shrinks.trans (h : Shrinks s s') (h' : Shrinks s' s'') : Shrinks s s'' :=
  fun slotId priority ↦ (h' slotId priority).trans (h slotId priority)

theorem waits_iff (h : WellFormed c s) {priority : WorkPriority} {id : String} :
    s.waits slotId priority id = true ↔ id ∈ (s.deskAt slotId).lane priority := by
  rw [((h.desks slotId).lanes priority).mem_iff, CoordinatorState.waits]
  cases hi : s.intents.lookup id with
  | none => simp
  | some intent => simp [QueuedIn]

theorem nodup_delivery (h : WellFormed c s) (slotId : String) (priority : WorkPriority) :
    ((s.deskAt slotId).delivery priority).Nodup := by
  refine List.nodup_append.mpr ⟨(h.desks slotId).claimed.nodup,
    ((h.desks slotId).lanes priority).nodup, ?_⟩
  rintro id hclaimed _ hqueued rfl
  exact (h.desks slotId).lane_disjoint hqueued hclaimed

theorem orderKept_iff (h : WellFormed c s) (h' : WellFormed c s') :
    OrderKept s s' ↔ ∀ slotId priority, ((s'.deskAt slotId).lane priority).Sublist
      ((s.deskAt slotId).delivery priority) := by
  refine forall_congr' fun slotId ↦ forall_congr' fun priority ↦ ?_
  rw [sublist_iff_eq_filter (nodup_delivery h slotId priority)]
  have hsame : ((s.deskAt slotId).delivery priority).filter (s'.waits slotId priority) =
      ((s.deskAt slotId).delivery priority).filter (· ∈ (s'.deskAt slotId).lane priority) := by
    apply List.filter_congr
    intro id _
    rw [Bool.eq_iff_iff, waits_iff h', decide_eq_true_eq]
  rw [hsame]

theorem Shrinks.orderKept (h : WellFormed c s) (h' : WellFormed c s') (hshrinks : Shrinks s s') :
    OrderKept s s' := by
  rw [orderKept_iff h h']
  intro slotId priority
  exact (List.sublist_append_right _ _).trans (hshrinks slotId priority)

theorem shrinks_of_desk {desk : Desk}
    (hdesks : ∀ other, s'.deskAt other = if other = slotId then desk else s.deskAt other)
    (hdesk : ∀ priority, (desk.delivery priority).Sublist
      ((s.deskAt slotId).delivery priority)) : Shrinks s s' := by
  intro other priority
  rw [hdesks other]
  split
  · next heq =>
      rw [heq]
      exact hdesk priority
  · exact List.Sublist.refl _

theorem sublist_giveBack {desk : Desk} {batch : WorkBatch} (howner : desk.owner = some batch)
    (keep : String → Bool) (other priority : WorkPriority) :
    ((desk.release.prepend other (batch.intentIds.filter keep)).delivery priority).Sublist
      (desk.delivery priority) := by
  have hclaimed := claimedIds_of_owner howner
  have hnone : (desk.release.prepend other (batch.intentIds.filter keep)).claimedIds = [] := rfl
  rw [Desk.delivery, hnone, List.nil_append, Desk.delivery, hclaimed]
  simp only [Desk.prepend, Desk.release]
  split
  · exact List.filter_sublist.append (List.Sublist.refl _)
  · exact List.sublist_append_right _ _

theorem shrinks_retryStart {batch : WorkBatch} (hgenuine : Genuine c s batch) :
    Shrinks s (c.retryStart s batch).state := by
  by_cases hcurrent : c.isCurrentBatch s batch = true
  · obtain ⟨owner, howner, -, hdesks⟩ := deskAt_retryStart hgenuine hcurrent
    exact shrinks_of_desk hdesks (sublist_giveBack howner _ _)
  · rw [retryStart, if_neg hcurrent]
    exact Shrinks.refl s

theorem shrinks_cancelActives (h : WellFormed c s) (teamRunId : String)
    {entries : List (String × ActiveBatch)}
    (hactive : ∀ e ∈ entries, s.activeBatch e.1 = some e.2)
    (hnodup : (entries.map Prod.fst).Nodup) :
    Shrinks s (entries.foldl (cancelActive teamRunId) s) := by
  induction entries generalizing s with
  | nil => exact Shrinks.refl s
  | cons e entries ih =>
      rw [List.map_cons, List.nodup_cons] at hnodup
      have hhead := hactive e List.mem_cons_self
      have howner : (s.deskAt e.1).owner = some e.2.batch.core := by
        rw [owner_deskAt, hhead]
        rfl
      have hstep : Shrinks s (cancelActive teamRunId s e) :=
        shrinks_of_desk (deskAt_cancelActive teamRunId h hhead) (sublist_giveBack howner _ _)
      refine hstep.trans (ih (advances_cancelActive teamRunId h hhead).wellFormed
        (fun e' he' ↦ ?_) hnodup.2)
      rw [activeBatch_cancelActive fun heq ↦ hnodup.1 (List.mem_map.mpr ⟨e', he', heq⟩)]
      exact hactive e' (List.mem_cons_of_mem _ he')

theorem shrinks_cancelAllQueued (queued : List WorkIntent) :
    Shrinks s (queued.foldl cancelQueued s) := by
  induction queued generalizing s with
  | nil => exact Shrinks.refl s
  | cons intent queued ih =>
      have hstep : Shrinks s (cancelQueued s intent) := by
        have hdesks : ∀ other, (cancelQueued s intent).deskAt other =
            if other = intent.slotId then
              (s.deskAt intent.slotId).remove fun id ↦ decide (id ∈ [intent.intentId])
            else s.deskAt other := deskAt_removeAll rfl
        refine shrinks_of_desk hdesks fun priority ↦ ?_
        exact List.Sublist.append (List.Sublist.refl _) List.filter_sublist
      exact hstep.trans ih

theorem shrinks_cancelRun (h : WellFormed c s) (teamRunId : String) :
    Shrinks s (cancelRun s teamRunId).state := by
  have hbatches : Shrinks s ((batchesOfRun s teamRunId).foldl (cancelActive teamRunId) s) :=
    shrinks_cancelActives h teamRunId (fun _ ↦ mem_batchesOfRun)
      (nodup_slotIds.sublist sublist_batchesOfRun)
  exact hbatches.trans (shrinks_cancelAllQueued _)

end Order

section Failed

variable {c : SlotWorkCoordinator} {s : CoordinatorState} {slotId classification : String}
  {operationId : ℕ} {priority : WorkPriority}

theorem requeued_failed_iff {intent : WorkIntent} :
    Requeued slotId (.failed operationId classification) priority intent ↔
      (intent.slotId = slotId ∧ intent.state.isTerminal = false) ∧ intent.teamRunId = none ∧
        intent.priority = priority := by
  rw [Requeued, constrainedState]
  cases intent.teamRunId <;> simp

theorem deskAt_failed (other : String) :
    (setRuntimeConstraint s slotId (.failed operationId classification)).state.deskAt other =
      if other = slotId then
        ⟨fun priority ↦ (s.runless slotId priority).map WorkIntent.intentId, none⟩
      else s.deskAt other := by
  have hslots : (setRuntimeConstraint s slotId (.failed operationId classification)).state.slots =
      s.slots.insert slotId (rebuiltSlot s slotId (.failed operationId classification)) := rfl
  rw [deskAt_insert hslots, desk_rebuiltSlot]
  simp only [requeued_failed_iff]
  rfl

theorem deskAt_rehash (rank : String → ℕ) (slotId : String) :
    (rehash s rank).deskAt slotId = s.deskAt slotId := rfl

theorem wellFormed_rehash (h : WellFormed c s) (rank : String → ℕ) :
    WellFormed c (rehash s rank) := by
  have hstep : GenuineBatches c s (.rehash rank) := fun _ hbatch ↦ by cases hbatch
  exact (advances_step h hstep).wellFormed

theorem perm_runless (rank : String → ℕ) :
    ((rehash s rank).runless slotId priority).Perm (s.runless slotId priority) :=
  (List.Perm.map _ (List.perm_insertionSort _ _)).filter _

theorem mem_runless {intent : WorkIntent} (h : intent ∈ s.runless slotId priority) :
    (∃ id, s.intents.lookup id = some intent) ∧ intent.slotId = slotId ∧
      intent.state.isTerminal = false ∧ intent.priority = priority := by
  obtain ⟨hvalue, hlive⟩ := List.mem_filter.mp h
  have hlive := of_decide_eq_true hlive
  exact ⟨Table.mem_values_iff.mp hvalue, hlive.1.1, hlive.1.2, hlive.2.2⟩

theorem mem_delivery_of_runless (h : WellFormed c s) {intent : WorkIntent}
    (hmem : intent ∈ s.runless slotId priority) :
    intent.intentId ∈ (s.deskAt slotId).delivery priority := by
  obtain ⟨⟨id, hi⟩, hs, hlive, hp⟩ := mem_runless hmem
  obtain rfl := h.keys id intent hi
  refine List.mem_append.mpr ?_
  cases hclaim : intent.state.claim with
  | some claim =>
      refine Or.inl ((h.mem_claimed hi).mpr ⟨hs, ?_⟩)
      rw [hclaim]
      rfl
  | none =>
      obtain hqueued | hterminal := (WorkIntentState.claim_eq_none_iff _).mp hclaim
      · exact Or.inr (((h.desks slotId).mem_lane hi priority).mpr ⟨hs, hp, hqueued⟩)
      · rw [hlive] at hterminal
        cases hterminal

theorem nodup_runless (h : WellFormed c s) :
    ((s.runless slotId priority).map WorkIntent.intentId).Nodup := by
  have hindex := Indexes.values_map (P := fun _ ↦ True) h.keys
  have hall : (s.intents.values.map WorkIntent.intentId).Nodup := by simpa using hindex.nodup
  exact hall.sublist (List.filter_sublist.map _)

theorem pairwise_rehash (h : WellFormed c s) (rank : String → ℕ) :
    (((rehash s rank).runless slotId priority).map WorkIntent.intentId).Pairwise
      fun a b ↦ rank a ≤ rank b := by
  rw [List.pairwise_map]
  refine List.Pairwise.filter _ ?_
  have hkeys := (wellFormed_rehash h rank).keys
  rw [Table.values, List.pairwise_map]
  have hsorted : ((rehash s rank).intents.entries).Pairwise fun a b ↦ rank a.1 ≤ rank b.1 :=
    List.pairwise_insertionSort _ _
  refine hsorted.imp_of_mem fun {a b} ha hb hle ↦ ?_
  rw [hkeys a.1 a.2 (Table.mem_entries_iff.mp ha), hkeys b.1 b.2 (Table.mem_entries_iff.mp hb)]
  exact hle

theorem precedes_rehash (h : WellFormed c s) {a b : WorkIntent}
    (ha : a ∈ s.runless slotId priority) (hb : b ∈ s.runless slotId priority)
    (hne : a.intentId ≠ b.intentId)
    (hkept : ∀ rank, (((rehash s rank).runless slotId priority).map WorkIntent.intentId).Sublist
      ((s.deskAt slotId).delivery priority)) :
    Precedes ((s.deskAt slotId).delivery priority) a.intentId b.intentId := by
  let rank : String → ℕ := fun id ↦ if id = a.intentId then 0 else 1
  have hmem : ∀ intent ∈ s.runless slotId priority, intent.intentId ∈
      ((rehash s rank).runless slotId priority).map WorkIntent.intentId :=
    fun intent hintent ↦ List.mem_map_of_mem ((perm_runless rank).mem_iff.mpr hintent)
  obtain hab | hba := precedes_total (hmem a ha) (hmem b hb) hne
  · exact hab.mono (hkept rank)
  · have hle : rank b.intentId ≤ rank a.intentId := hba.rel (pairwise_rehash h rank)
    simp [rank, hne.symm] at hle

theorem failed_orderKept_iff (h : WellFormed c s) :
    (∀ rank, OrderKept s
        (c.step (rehash s rank) (.setRuntimeConstraint slotId (.failed operationId classification)))) ↔
      ∀ priority, (s.runless slotId priority).length ≤ 1 := by
  have hwell : ∀ rank, WellFormed c
      (c.step (rehash s rank) (.setRuntimeConstraint slotId (.failed operationId classification))) :=
    fun rank ↦ (advances_setRuntimeConstraint (wellFormed_rehash h rank) slotId _).wellFormed
  have hlane : ∀ rank other priority,
      ((c.step (rehash s rank) (.setRuntimeConstraint slotId (.failed operationId
        classification))).deskAt other).lane priority =
        if other = slotId then
          ((rehash s rank).runless slotId priority).map WorkIntent.intentId
        else (s.deskAt other).lane priority := by
    intro rank other priority
    change ((setRuntimeConstraint (rehash s rank) slotId (.failed operationId
      classification)).state.deskAt other).lane priority = _
    rw [deskAt_failed]
    split <;> rfl
  constructor
  · intro hkept priority
    by_contra hlong
    obtain ⟨a, b, rest, hruns⟩ : ∃ a b rest, s.runless slotId priority = a :: b :: rest := by
      cases hruns : s.runless slotId priority with
      | nil => simp [hruns] at hlong
      | cons a others =>
          cases others with
          | nil => simp [hruns] at hlong
          | cons b rest => exact ⟨a, b, rest, rfl⟩
    have hnodup : ((s.runless slotId priority).map WorkIntent.intentId).Nodup := nodup_runless h
    rw [hruns, List.map_cons, List.map_cons] at hnodup
    have hne : a.intentId ≠ b.intentId := by
      intro heq
      exact (List.nodup_cons.mp hnodup).1 (heq ▸ List.mem_cons_self)
    have hsub : ∀ rank, (((rehash s rank).runless slotId priority).map
        WorkIntent.intentId).Sublist ((s.deskAt slotId).delivery priority) := by
      intro rank
      have hslot := (orderKept_iff h (hwell rank)).mp (hkept rank) slotId priority
      rwa [hlane, if_pos rfl] at hslot
    have ha : a ∈ s.runless slotId priority := by simp [hruns]
    have hb : b ∈ s.runless slotId priority := by simp [hruns]
    exact (precedes_rehash h ha hb hne hsub).asymm (nodup_delivery h slotId priority)
      (precedes_rehash h hb ha hne.symm hsub)
  · intro hshort rank
    rw [orderKept_iff h (hwell rank)]
    intro other priority
    rw [hlane]
    split
    · next heq =>
        rw [heq]
        have hperm : ((rehash s rank).runless slotId priority).Perm (s.runless slotId priority) :=
          perm_runless rank
        have hlength := hperm.length_eq.trans_le (hshort priority)
        cases hruns : (rehash s rank).runless slotId priority with
        | nil => exact List.nil_sublist _
        | cons intent others =>
            rw [hruns] at hperm hlength
            have hnone : others = [] := by simpa using hlength
            rw [hnone] at hperm ⊢
            refine List.singleton_sublist.mpr (mem_delivery_of_runless h ?_)
            exact hperm.mem_iff.mp List.mem_cons_self
    · exact List.sublist_append_right _ _

end Failed

section Runs

end Runs

end Zaowutai.Team
