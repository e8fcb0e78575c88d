import Zaowutai.Lib.Index
import Zaowutai.Team.CoordinatorState

/-!
# Desks

The desk of a slot is what its lanes and its active batch say about work: which
intents wait in which lane and which batch is being worked on.  A desk agrees
with the table of intents when each of its lists indexes exactly the intents
that belong there.  The rules say how a desk must follow when intents are
inserted or when their states are computed anew.
-/

namespace Zaowutai.Team

open Zaowutai.Lib

structure Desk where
  lane : WorkPriority → List String
  owner : Option WorkBatch

namespace Desk

def empty : Desk := ⟨fun _ ↦ [], none⟩

def claimedIds (desk : Desk) : List String := desk.owner.elim [] WorkBatch.intentIds

def remove (desk : Desk) (gone : String → Bool) : Desk :=
  { desk with lane := fun p ↦ (desk.lane p).filter fun id ↦ !gone id }

def release (desk : Desk) : Desk := { desk with owner := none }

def prepend (desk : Desk) (priority : WorkPriority) (ids : List String) : Desk :=
  { desk with lane := fun p ↦ if p = priority then ids ++ desk.lane p else desk.lane p }

def append (desk : Desk) (priority : WorkPriority) (ids : List String) : Desk :=
  { desk with lane := fun p ↦ if p = priority then desk.lane p ++ ids else desk.lane p }

def assign (desk : Desk) (batch : WorkBatch) : Desk := { desk with owner := some batch }

end Desk

def WorkBatch.core (batch : WorkBatch) : WorkBatch := { batch with observedMessageIds := [] }

def SlotState.desk (slot : SlotState) : Desk :=
  ⟨slot.queue, slot.active.map fun active ↦ active.batch.core⟩

def QueuedIn (slotId : String) (priority : WorkPriority) (intent : WorkIntent) : Prop :=
  intent.slotId = slotId ∧ intent.priority = priority ∧ intent.state = .queued

def ClaimedIn (slotId : String) (intent : WorkIntent) : Prop :=
  intent.slotId = slotId ∧ intent.state.claim.isSome = true

structure Owns (batch : WorkBatch) (intent : WorkIntent) : Prop where
  claim : intent.state.claim = some (batch.batchId, batch.operationId)
  priority : intent.priority = batch.highestPriority
  run : ∀ teamRunId, intent.teamRunId = some teamRunId → teamRunId ∈ batch.teamRunIds
  message : ∀ messageId, intent.mailboxMessageId = some messageId →
    messageId ∈ batch.mailboxMessageIds

structure DeskAgrees (intents : Table String WorkIntent) (slotId : String) (desk : Desk) :
    Prop where
  lanes : ∀ priority, Indexes intents (QueuedIn slotId priority) (desk.lane priority)
  claimed : Indexes intents (ClaimedIn slotId) desk.claimedIds
  owns : ∀ batch, desk.owner = some batch → ∀ id intent, intents.lookup id = some intent →
    ClaimedIn slotId intent → Owns batch intent

abbrev restated (intents : Table String WorkIntent) (f : String → WorkIntent → WorkIntentState) :
    Table String WorkIntent :=
  intents.mapValues fun id intent ↦ { intent with state := f id intent }

section Kinds

variable {intents : Table String WorkIntent} {slotId : String} {desk : Desk}
  {f : String → WorkIntent → WorkIntentState}

theorem lookup_restated {id : String} {intent : WorkIntent}
    (h : (restated intents f).lookup id = some intent) :
    ∃ old, intents.lookup id = some old ∧ intent = { old with state := f id old } := by
  rw [Table.lookup_mapValues] at h
  obtain ⟨old, hold, rfl⟩ := Option.map_eq_some_iff.mp h
  exact ⟨old, hold, rfl⟩

theorem claimedIds_of_owner {batch : WorkBatch} (h : desk.owner = some batch) :
    desk.claimedIds = batch.intentIds := by
  simp [Desk.claimedIds, h]

namespace DeskAgrees

theorem mem_lane (h : DeskAgrees intents slotId desk) {id : String} {intent : WorkIntent}
    (hi : intents.lookup id = some intent) (priority : WorkPriority) :
    id ∈ desk.lane priority ↔ QueuedIn slotId priority intent :=
  (h.lanes priority).mem_iff_of_lookup hi

theorem mem_claimed (h : DeskAgrees intents slotId desk) {id : String} {intent : WorkIntent}
    (hi : intents.lookup id = some intent) : id ∈ desk.claimedIds ↔ ClaimedIn slotId intent :=
  h.claimed.mem_iff_of_lookup hi

theorem lane_disjoint (h : DeskAgrees intents slotId desk) {priority : WorkPriority} {id : String}
    (hq : id ∈ desk.lane priority) : id ∉ desk.claimedIds := by
  obtain ⟨intent, hi, _, _, hqueued⟩ := ((h.lanes priority).mem_iff id).mp hq
  rw [h.mem_claimed hi]
  intro hc
  simp [ClaimedIn, hqueued] at hc

theorem remove_claimed (h : DeskAgrees intents slotId desk) {gone : String → Bool}
    (hgone : ∀ id, gone id = true → id ∈ desk.claimedIds) : desk.remove gone = desk := by
  have hlane : ∀ p, (desk.lane p).filter (fun id ↦ !gone id) = desk.lane p := by
    intro p
    apply List.filter_eq_self.mpr
    intro id hid
    cases hg : gone id with
    | false => rfl
    | true => exact absurd (hgone id hg) (h.lane_disjoint hid)
  simp only [Desk.remove, hlane]

theorem untouched (h : DeskAgrees intents slotId desk)
    (hf : ∀ id intent, intents.lookup id = some intent → intent.slotId = slotId →
      f id intent = intent.state) : DeskAgrees (restated intents f) slotId desk where
  lanes priority := by
    refine (h.lanes priority).mapValues fun id intent hi ↦ ?_
    constructor
    · rintro ⟨hs, hp, hq⟩
      exact ⟨hs, hp, (hf id intent hi hs).symm.trans hq⟩
    · rintro ⟨hs, hp, hq⟩
      exact ⟨hs, hp, (hf id intent hi hs).trans hq⟩
  claimed := by
    refine h.claimed.mapValues fun id intent hi ↦ ?_
    constructor
    · rintro ⟨hs, hc⟩
      exact ⟨hs, (hf id intent hi hs) ▸ hc⟩
    · rintro ⟨hs, hc⟩
      exact ⟨hs, by rw [hf id intent hi hs]; exact hc⟩
  owns batch hb id intent hi hc := by
    obtain ⟨old, hold, rfl⟩ := lookup_restated hi
    have hsame := hf id old hold hc.1
    have hold' : ({ old with state := f id old } : WorkIntent) = old := by rw [hsame]
    rw [hold'] at hc ⊢
    exact h.owns batch hb id old hold hc

theorem retire (h : DeskAgrees intents slotId desk) (gone : String → Bool) {desk' : Desk}
    (hgone : ∀ id intent, intents.lookup id = some intent → intent.slotId = slotId →
      gone id = true → (f id intent).isTerminal = true)
    (hkept : ∀ id intent, intents.lookup id = some intent → intent.slotId = slotId →
      gone id = false → f id intent = intent.state)
    (hlane : desk'.lane = (desk.remove gone).lane)
    (howner : (desk'.owner = desk.owner ∧ ∀ id ∈ desk.claimedIds, gone id = false) ∨
      (desk'.owner = none ∧ ∀ id ∈ desk.claimedIds, gone id = true)) :
    DeskAgrees (restated intents f) slotId desk' := by
  have hqueued : ∀ id intent, intents.lookup id = some intent → intent.slotId = slotId →
      (f id intent = .queued ↔ intent.state = .queued ∧ gone id = false) := by
    intro id intent hi hs
    cases hg : gone id with
    | false => simp [hkept id intent hi hs hg]
    | true =>
        have hterm := hgone id intent hi hs hg
        simp only [Bool.true_eq_false, and_false, iff_false]
        intro hq
        simp [hq] at hterm
  have hclaim : ∀ id intent, intents.lookup id = some intent → intent.slotId = slotId →
      ((f id intent).claim.isSome = true ↔
        intent.state.claim.isSome = true ∧ gone id = false) := by
    intro id intent hi hs
    cases hg : gone id with
    | false => simp [hkept id intent hi hs hg]
    | true =>
        have hterm := hgone id intent hi hs hg
        simp only [Bool.true_eq_false, and_false, iff_false]
        intro hc
        obtain ⟨c, hc⟩ := Option.isSome_iff_exists.mp hc
        simp [WorkIntentState.not_terminal_of_claim hc] at hterm
  refine ⟨fun priority ↦ ?_, ?_, ?_⟩
  · rw [hlane]
    refine (h.lanes priority).mapValues_filter fun id intent hi ↦ ?_
    constructor
    · rintro ⟨hs, hp, hq⟩
      obtain ⟨hq', hg⟩ := (hqueued id intent hi hs).mp hq
      exact ⟨⟨hs, hp, hq'⟩, by simp [hg]⟩
    · rintro ⟨⟨hs, hp, hq⟩, hg⟩
      exact ⟨hs, hp, (hqueued id intent hi hs).mpr ⟨hq, by simpa using hg⟩⟩
  · rcases howner with ⟨howner, hnone⟩ | ⟨howner, hall⟩
    · have hids : desk'.claimedIds = desk.claimedIds := by simp [Desk.claimedIds, howner]
      rw [hids]
      refine h.claimed.mapValues fun id intent hi ↦ ?_
      constructor
      · rintro ⟨hs, hc⟩
        exact ⟨hs, ((hclaim id intent hi hs).mp hc).1⟩
      · rintro ⟨hs, hc⟩
        have hg := hnone id ((h.mem_claimed hi).mpr ⟨hs, hc⟩)
        exact ⟨hs, (hclaim id intent hi hs).mpr ⟨hc, hg⟩⟩
    · have hids : desk'.claimedIds = [] := by simp [Desk.claimedIds, howner]
      rw [hids]
      refine Indexes.nil fun id intent hi hc ↦ ?_
      obtain ⟨old, hold, rfl⟩ := lookup_restated hi
      obtain ⟨hc', hg⟩ := (hclaim id old hold hc.1).mp hc.2
      have hg' := hall id ((h.mem_claimed hold).mpr ⟨hc.1, hc'⟩)
      simp [hg] at hg'
  · intro batch hb id intent hi hc
    rcases howner with ⟨howner, hnone⟩ | ⟨howner, hall⟩
    · obtain ⟨old, hold, rfl⟩ := lookup_restated hi
      obtain ⟨hc', hg⟩ := (hclaim id old hold hc.1).mp hc.2
      have hsame : ({ old with state := f id old } : WorkIntent) = old := by
        rw [hkept id old hold hc.1 hg]
      rw [hsame] at hc ⊢
      exact h.owns batch (howner ▸ hb) id old hold hc
    · simp [howner] at hb

theorem giveBack (h : DeskAgrees intents slotId desk) {batch : WorkBatch}
    (howner : desk.owner = some batch) {keep : String → Bool}
    (hkeep : ∀ id intent, intents.lookup id = some intent → ClaimedIn slotId intent →
      if keep id then f id intent = .queued else (f id intent).isTerminal = true)
    (hother : ∀ id intent, intents.lookup id = some intent → intent.slotId = slotId →
      ¬ ClaimedIn slotId intent → f id intent = intent.state) :
    DeskAgrees (restated intents f) slotId
      (desk.release.prepend batch.highestPriority (batch.intentIds.filter keep)) := by
  have hids := claimedIds_of_owner howner
  have hqueued : ∀ id intent, intents.lookup id = some intent → ∀ p,
      (QueuedIn slotId p { intent with state := f id intent } ↔
        (ClaimedIn slotId intent ∧ keep id = true ∧ p = batch.highestPriority) ∨
          QueuedIn slotId p intent) := by
    intro id intent hi p
    by_cases hc : ClaimedIn slotId intent
    · have hprio := (h.owns batch howner id intent hi hc).priority
      have hnot : intent.state ≠ .queued := by
        intro hq
        simp [ClaimedIn, hq] at hc
      have hk := hkeep id intent hi hc
      cases hg : keep id with
      | true =>
          rw [hg, if_pos rfl] at hk
          simp [QueuedIn, hk, hc, hc.1, hnot, hprio, eq_comm]
      | false =>
          rw [hg, if_neg (by simp)] at hk
          have hnq : f id intent ≠ .queued := by
            intro hq
            simp [hq] at hk
          simp [QueuedIn, hnq, hnot]
    · simp only [QueuedIn, hc, false_and, false_or]
      constructor
      · rintro ⟨hs, hp, hq⟩
        exact ⟨hs, hp, (hother id intent hi hs hc).symm.trans hq⟩
      · rintro ⟨hs, hp, hq⟩
        exact ⟨hs, hp, (hother id intent hi hs hc).trans hq⟩
  refine ⟨fun p ↦ ?_, ?_, fun b hb ↦ by simp [Desk.prepend, Desk.release] at hb⟩
  · by_cases hp : p = batch.highestPriority
    · subst hp
      have hlane : (desk.release.prepend batch.highestPriority
          (batch.intentIds.filter keep)).lane batch.highestPriority =
            (batch.intentIds ++ desk.lane batch.highestPriority).filter
              fun id ↦ keep id || decide (id ∉ batch.intentIds) := by
        simp only [Desk.prepend, Desk.release, if_pos, List.filter_append]
        congr 1
        · apply List.filter_congr
          intro id hid
          simp [hid]
        · refine (List.filter_eq_self.mpr fun id hid ↦ ?_).symm
          have := h.lane_disjoint hid
          rw [hids] at this
          simp [this]
      rw [hlane, ← hids]
      refine ((h.claimed.append (h.lanes _) ?_).mapValues_filter ?_)
      · rintro id intent _ hc ⟨_, _, hq⟩
        simp [ClaimedIn, hq] at hc
      · intro id intent hi
        rw [hqueued id intent hi]
        simp only [Bool.or_eq_true, decide_eq_true_eq, h.mem_claimed hi]
        constructor
        · rintro (⟨hc, hk, _⟩ | hq)
          · exact ⟨Or.inl hc, Or.inl hk⟩
          · refine ⟨Or.inr hq, Or.inr fun hc ↦ ?_⟩
            simp [ClaimedIn, hq.2.2] at hc
        · rintro ⟨hc | hq, hk⟩
          · exact Or.inl ⟨hc, hk.resolve_right (fun hn ↦ hn hc), trivial⟩
          · exact Or.inr hq
    · have hlane : (desk.release.prepend batch.highestPriority
          (batch.intentIds.filter keep)).lane p = desk.lane p := by
        simp [Desk.prepend, Desk.release, hp]
      rw [hlane]
      refine (h.lanes p).mapValues fun id intent hi ↦ ?_
      rw [hqueued id intent hi]
      simp [hp]
  · have hempty : (desk.release.prepend batch.highestPriority
        (batch.intentIds.filter keep)).claimedIds = [] := rfl
    rw [hempty]
    refine Indexes.nil fun id intent hi hc ↦ ?_
    obtain ⟨old, hold, rfl⟩ := lookup_restated hi
    by_cases hold' : ClaimedIn slotId old
    · have hk := hkeep id old hold hold'
      cases hg : keep id with
      | true =>
          rw [hg, if_pos rfl] at hk
          simp [ClaimedIn, hk] at hc
      | false =>
          rw [hg, if_neg (by simp)] at hk
          obtain ⟨c, hc⟩ := Option.isSome_iff_exists.mp hc.2
          simp [WorkIntentState.not_terminal_of_claim hc] at hk
    · have hsame := hother id old hold hc.1 hold'
      exact hold' ⟨hc.1, hsame ▸ hc.2⟩

theorem claimFrom (h : DeskAgrees intents slotId desk) (batch : WorkBatch)
    (hfree : desk.owner = none) (hnodup : batch.intentIds.Nodup)
    (hsub : ∀ id ∈ batch.intentIds, id ∈ desk.lane batch.highestPriority)
    (hin : ∀ id intent, intents.lookup id = some intent → id ∈ batch.intentIds →
      Owns batch { intent with state := f id intent })
    (hout : ∀ id intent, intents.lookup id = some intent → intent.slotId = slotId →
      id ∉ batch.intentIds → f id intent = intent.state) :
    DeskAgrees (restated intents f) slotId
      ((desk.remove fun id ↦ decide (id ∈ batch.intentIds)).assign batch) := by
  have hnoClaim : ∀ id intent, intents.lookup id = some intent → ¬ ClaimedIn slotId intent := by
    intro id intent hi hc
    have hmem := (h.mem_claimed hi).mpr hc
    simp [Desk.claimedIds, hfree] at hmem
  have hslot : ∀ id intent, intents.lookup id = some intent → id ∈ batch.intentIds →
      QueuedIn slotId batch.highestPriority intent := fun id intent hi hid ↦
    (h.mem_lane hi _).mp (hsub id hid)
  refine ⟨fun p ↦ ?_, ?_, ?_⟩
  · refine (h.lanes p).mapValues_filter fun id intent hi ↦ ?_
    by_cases hid : id ∈ batch.intentIds
    · have hclaim := (hin id intent hi hid).claim
      constructor
      · rintro ⟨_, _, hq⟩
        simp only at hclaim hq
        simp [hq] at hclaim
      · rintro ⟨_, hk⟩
        simp [hid] at hk
    · simp only [hid, decide_false, Bool.not_false, and_true]
      constructor
      · rintro ⟨hs, hp, hq⟩
        exact ⟨hs, hp, (hout id intent hi hs hid).symm.trans hq⟩
      · rintro ⟨hs, hp, hq⟩
        exact ⟨hs, hp, (hout id intent hi hs hid).trans hq⟩
  · refine ⟨hnodup, fun id ↦ ?_⟩
    change id ∈ batch.intentIds ↔ _
    constructor
    · intro hid
      obtain ⟨intent, hi, hq⟩ := ((h.lanes _).mem_iff id).mp (hsub id hid)
      refine ⟨{ intent with state := f id intent }, by rw [Table.lookup_mapValues, hi]; rfl, ?_⟩
      exact ⟨hq.1, by rw [(hin id intent hi hid).claim]; rfl⟩
    · rintro ⟨intent, hi, hs, hc⟩
      obtain ⟨old, hold, rfl⟩ := lookup_restated hi
      by_contra hid
      exact hnoClaim id old hold ⟨hs, by rw [← hout id old hold hs hid]; exact hc⟩
  · intro b hb id intent hi hc
    obtain rfl : batch = b := by simpa [Desk.assign] using hb
    obtain ⟨old, hold, rfl⟩ := lookup_restated hi
    by_cases hid : id ∈ batch.intentIds
    · exact hin id old hold hid
    · exact absurd ⟨hc.1, by rw [← hout id old hold hc.1 hid]; exact hc.2⟩ (hnoClaim id old hold)

theorem proceed (h : DeskAgrees intents slotId desk)
    (hin : ∀ id intent, intents.lookup id = some intent → ClaimedIn slotId intent →
      (f id intent).claim = intent.state.claim)
    (hout : ∀ id intent, intents.lookup id = some intent → intent.slotId = slotId →
      ¬ ClaimedIn slotId intent → f id intent = intent.state) :
    DeskAgrees (restated intents f) slotId desk := by
  have hclaim : ∀ id intent, intents.lookup id = some intent → intent.slotId = slotId →
      (f id intent).claim = intent.state.claim := by
    intro id intent hi hs
    by_cases hc : ClaimedIn slotId intent
    · exact hin id intent hi hc
    · rw [hout id intent hi hs hc]
  refine ⟨fun p ↦ ?_, ?_, ?_⟩
  · refine (h.lanes p).mapValues fun id intent hi ↦ ?_
    by_cases hc : ClaimedIn slotId intent
    · obtain ⟨c, hc'⟩ := Option.isSome_iff_exists.mp hc.2
      have hnew := (hin id intent hi hc).trans hc'
      constructor
      · rintro ⟨_, _, hq⟩
        simp only at hq
        simp [hq] at hnew
      · rintro ⟨_, _, hq⟩
        simp [hq] at hc'
    · constructor
      · rintro ⟨hs, hp, hq⟩
        exact ⟨hs, hp, (hout id intent hi hs hc).symm.trans hq⟩
      · rintro ⟨hs, hp, hq⟩
        exact ⟨hs, hp, (hout id intent hi hs hc).trans hq⟩
  · refine h.claimed.mapValues fun id intent hi ↦ ?_
    constructor
    · rintro ⟨hs, hc⟩
      exact ⟨hs, (hclaim id intent hi hs) ▸ hc⟩
    · rintro ⟨hs, hc⟩
      exact ⟨hs, by rw [hclaim id intent hi hs]; exact hc⟩
  · intro batch hb id intent hi hc
    obtain ⟨old, hold, rfl⟩ := lookup_restated hi
    have hsame := hclaim id old hold hc.1
    have howns := h.owns batch hb id old hold ⟨hc.1, hsame ▸ hc.2⟩
    exact ⟨hsame.trans howns.claim, howns.priority, howns.run, howns.message⟩

theorem insert_other (h : DeskAgrees intents slotId desk) {intent : WorkIntent} {id : String}
    (hfresh : intents.lookup id = none) (hslot : intent.slotId ≠ slotId) :
    DeskAgrees (AList.insert id intent intents) slotId desk where
  lanes p := (h.lanes p).insert_other hfresh fun hq ↦ hslot hq.1
  claimed := h.claimed.insert_other hfresh fun hc ↦ hslot hc.1
  owns batch hb id' intent' hi hc := by
    rw [Table.lookup_insert_eq] at hi
    split at hi
    · exact absurd ((Option.some.inj hi) ▸ hc.1) hslot
    · exact h.owns batch hb id' intent' hi hc

theorem insert_queued (h : DeskAgrees intents slotId desk) {intent : WorkIntent} {id : String}
    {desk' : Desk} (hfresh : intents.lookup id = none) (hslot : intent.slotId = slotId)
    (hstate : intent.state = .queued)
    (hdesk : desk' = desk.prepend intent.priority [id] ∨ desk' = desk.append intent.priority [id]) :
    DeskAgrees (AList.insert id intent intents) slotId desk' := by
  have hnotClaimed : ¬ ClaimedIn slotId intent := by
    rintro ⟨_, hc⟩
    simp [hstate] at hc
  have howner : desk'.owner = desk.owner := by rcases hdesk with rfl | rfl <;> rfl
  have hids : desk'.claimedIds = desk.claimedIds := by simp [Desk.claimedIds, howner]
  refine ⟨fun p ↦ ?_, hids ▸ h.claimed.insert_other hfresh hnotClaimed, ?_⟩
  · by_cases hp : p = intent.priority
    · have hq : QueuedIn slotId p intent := ⟨hslot, hp.symm, hstate⟩
      rcases hdesk with rfl | rfl
      · simpa [Desk.prepend, hp] using (h.lanes p).insert_new hfresh hq
      · simpa [Desk.append, hp] using (h.lanes p).insert_new_back hfresh hq
    · have hlane : desk'.lane p = desk.lane p := by
        rcases hdesk with rfl | rfl
        · simp [Desk.prepend, hp]
        · simp [Desk.append, hp]
      rw [hlane]
      exact (h.lanes p).insert_other hfresh fun hq ↦ hp hq.2.1.symm
  · intro batch hb id' intent' hi hc
    rw [Table.lookup_insert_eq] at hi
    split at hi
    · exact absurd ((Option.some.inj hi) ▸ hc) hnotClaimed
    · exact h.owns batch (howner ▸ hb) id' intent' hi hc

end DeskAgrees

end Kinds

end Zaowutai.Team
