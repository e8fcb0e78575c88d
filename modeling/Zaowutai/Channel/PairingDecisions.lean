import Zaowutai.Channel.Pairing

/-!
# One decision for each code

A code is decided once as long as every write finds what the operation has read
before it.  The status is written whatever it has become in the meantime, the
user is created before the status is written, and a request inserts its code
some calls after it has expired the older ones.
-/

namespace Zaowutai.Channel

open Zaowutai.Lib

def Approval.Decided (a : Approval) : Prop :=
  a.row.status = .pending ∧ a.decidedAt < a.row.expiresAt

def Settled (codes codes' : Table (String × String) PairingCodeRow) : Prop :=
  ∀ k row, codes.lookup k = some row → row.status ≠ .pending →
    ∃ row', codes'.lookup k = some row' ∧ row'.status = row.status

namespace Pairings

variable {s s' : Pairings}

def Names (s : Pairings) (a : Approval) : Prop :=
  ∃ row, s.repo.codes.lookup a.key = some row ∧ row.platformUserId = a.row.platformUserId ∧
    row.platformType = a.row.platformType

structure OneDecision (s : Pairings) : Prop where
  authorized : ∀ k ∈ s.repo.users, ∃ a ∈ s.approvals, a.userKey = k
  decided : ∀ a ∈ s.approvals, a.Decided
  outcome : ∀ a ∈ s.approvals, ∃ row, s.repo.codes.lookup a.key = some row ∧
    (row.status = .approved ∨
      row.status = .pending ∧ ∃ n, s.calls.lookup n = some (.approveUpdate a))
  single : ∀ k k' row row', s.repo.codes.lookup k = some row → s.repo.codes.lookup k' = some row' →
    row.status = .pending → row'.status = .pending → k.1 = k'.1 →
      row.platformUserId = row'.platformUserId → row.platformType = row'.platformType → k = k'

structure Consistent (s : Pairings) : Prop where
  decision : s.OneDecision
  creating : ∀ n a, s.calls.lookup n = some (.approveCreate a) → a.Decided ∧ s.Names a
  updating : ∀ n a, s.calls.lookup n = some (.approveUpdate a) → a ∈ s.approvals ∧
    ∀ row, s.repo.codes.lookup a.key = some row → row.status = .pending
  sole : ∀ n m a, s.calls.lookup n = some (.approveUpdate a) →
    s.calls.lookup m = some (.approveUpdate a) → n = m
  names : ∀ a ∈ s.approvals, s.Names a
  users : ∀ a ∈ s.approvals, a.userKey ∈ s.repo.users
  distinct : ∀ a ∈ s.approvals, ∀ b ∈ s.approvals, a.userKey = b.userKey → a = b
  approved : ∀ k row, s.repo.codes.lookup k = some row → row.status = .approved →
    ∃ a ∈ s.approvals, a.key = k

def KeepsDecisions (s s' : Pairings) : Prop :=
  Settled s.repo.codes s'.repo.codes ∧ s'.OneDecision

theorem Names.userKey_eq {a b : Approval} (ha : s.Names a) (hb : s.Names b) (h : a.key = b.key) :
    a.userKey = b.userKey := by
  obtain ⟨row, hrow, huser, htype⟩ := ha
  obtain ⟨row', hrow', huser', htype'⟩ := hb
  rw [h] at hrow
  obtain rfl := Option.some.inj (hrow.symm.trans hrow')
  have howner : a.ownerUserId = b.ownerUserId := congrArg Prod.fst h
  rw [Approval.userKey, Approval.userKey, howner, ← huser, ← htype, huser', htype']

section Rewrites

/-- A step that only writes statuses, and moves no call out of its last write. -/
structure Rewrites (s s' : Pairings) (g : String × String → PairingCodeRow → PairingStatus) :
    Prop where
  codes : ∀ k, s'.repo.codes.lookup k =
    (s.repo.codes.lookup k).map fun row ↦ { row with status := g k row }
  users : s'.repo.users = s.repo.users
  approvals : s'.approvals = s.approvals
  creating : ∀ n a, s'.calls.lookup n = some (.approveCreate a) →
    s.calls.lookup n = some (.approveCreate a) ∨ a.Decided ∧ s.Names a
  updating : ∀ n a, s'.calls.lookup n = some (.approveUpdate a) ↔
    s.calls.lookup n = some (.approveUpdate a)
  refuses : ∀ k row, g k row = row.status ∨ g k row = .expired ∨ g k row = .rejected

variable {g : String × String → PairingCodeRow → PairingStatus}

def Rewrites.Undecided (s : Pairings) (g : String × String → PairingCodeRow → PairingStatus) :
    Prop :=
  ∀ k row, s.repo.codes.lookup k = some row → g k row ≠ row.status →
    row.status = .pending ∧ ∀ a ∈ s.approvals, a.key ≠ k

theorem Rewrites.lookup (h : Rewrites s s' g) {k : String × String} {row : PairingCodeRow}
    (hrow : s.repo.codes.lookup k = some row) :
    s'.repo.codes.lookup k = some { row with status := g k row } := by
  rw [h.codes, hrow, Option.map_some]

theorem Rewrites.exists_of_lookup (h : Rewrites s s' g) {k : String × String}
    {row' : PairingCodeRow} (hrow' : s'.repo.codes.lookup k = some row') :
    ∃ row, s.repo.codes.lookup k = some row ∧ row' = { row with status := g k row } := by
  rw [h.codes, Option.map_eq_some_iff] at hrow'
  obtain ⟨row, hrow, heq⟩ := hrow'
  exact ⟨row, hrow, heq.symm⟩

theorem Rewrites.status_eq (h : Rewrites s s' g) {k : String × String} {row : PairingCodeRow}
    (hopen : g k row = .pending ∨ g k row = .approved) : g k row = row.status := by
  rcases h.refuses k row with hsame | hexpired | hrejected
  · exact hsame
  · rw [hexpired] at hopen
    simp at hopen
  · rw [hrejected] at hopen
    simp at hopen

theorem Rewrites.Undecided.status_eq (hundecided : Rewrites.Undecided s g) {a : Approval}
    (ha : a ∈ s.approvals) {row : PairingCodeRow} (hrow : s.repo.codes.lookup a.key = some row) :
    g a.key row = row.status := by
  by_contra hne
  exact (hundecided a.key row hrow hne).2 a ha rfl

theorem Rewrites.oneDecision (h : Rewrites s s' g) (hs : s.OneDecision)
    (hundecided : Rewrites.Undecided s g) : s'.OneDecision where
  authorized k hk := by
    rw [h.approvals]
    exact hs.authorized k (h.users ▸ hk)
  decided a ha := hs.decided a (h.approvals ▸ ha)
  outcome a ha := by
    rw [h.approvals] at ha
    obtain ⟨row, hrow, hout⟩ := hs.outcome a ha
    have hsame := hundecided.status_eq ha hrow
    refine ⟨_, h.lookup hrow, hout.imp hsame.trans fun hpending ↦ ?_⟩
    obtain ⟨n, hn⟩ := hpending.2
    exact ⟨hsame.trans hpending.1, n, (h.updating n a).mpr hn⟩
  single k k' row row' hrow hrow' hpending hpending' howner huser htype := by
    obtain ⟨old, hold, rfl⟩ := h.exists_of_lookup hrow
    obtain ⟨old', hold', rfl⟩ := h.exists_of_lookup hrow'
    refine hs.single k k' old old' hold hold' ?_ ?_ howner huser htype
    · exact (h.status_eq (.inl hpending)).symm.trans hpending
    · exact (h.status_eq (.inl hpending')).symm.trans hpending'

theorem Rewrites.keepsDecisions_iff (h : Rewrites s s' g) (hs : s.Consistent) :
    KeepsDecisions s s' ↔ Rewrites.Undecided s g := by
  constructor
  · rintro ⟨hsettled, hone⟩ k row hrow hne
    have hrow' := h.lookup hrow
    refine ⟨?_, ?_⟩
    · by_contra hpending
      obtain ⟨row', hlookup, hstatus⟩ := hsettled k row hrow hpending
      obtain rfl := Option.some.inj (hrow'.symm.trans hlookup)
      exact hne hstatus
    · rintro a ha rfl
      obtain ⟨row', hlookup, hout⟩ := hone.outcome a (h.approvals ▸ ha)
      obtain rfl := Option.some.inj (hrow'.symm.trans hlookup)
      exact hne (h.status_eq (hout.symm.imp_left And.left))
  · intro hundecided
    refine ⟨fun k row hrow hsettled ↦ ⟨_, h.lookup hrow, ?_⟩, h.oneDecision hs.decision hundecided⟩
    by_contra hne
    exact hsettled (hundecided k row hrow hne).1

theorem Rewrites.names (h : Rewrites s s' g) {a : Approval} (ha : s.Names a) : s'.Names a := by
  obtain ⟨row, hrow, hids⟩ := ha
  exact ⟨_, h.lookup hrow, hids⟩

theorem Rewrites.consistent (h : Rewrites s s' g) (hs : s.Consistent)
    (hundecided : Rewrites.Undecided s g) : s'.Consistent where
  decision := h.oneDecision hs.decision hundecided
  creating n a hn := by
    rcases h.creating n a hn with hold | ⟨hdecided, hnames⟩
    · exact (hs.creating n a hold).imp_right h.names
    · exact ⟨hdecided, h.names hnames⟩
  updating n a hn := by
    obtain ⟨ha, hpending⟩ := hs.updating n a ((h.updating n a).mp hn)
    refine ⟨h.approvals ▸ ha, fun row hrow ↦ ?_⟩
    obtain ⟨old, hold, rfl⟩ := h.exists_of_lookup hrow
    exact (hundecided.status_eq ha hold).trans (hpending old hold)
  sole n m a hn hm := hs.sole n m a ((h.updating n a).mp hn) ((h.updating m a).mp hm)
  names a ha := h.names (hs.names a (h.approvals ▸ ha))
  users a ha := h.users ▸ hs.users a (h.approvals ▸ ha)
  distinct a ha b hb := hs.distinct a (h.approvals ▸ ha) b (h.approvals ▸ hb)
  approved k row hrow happroved := by
    obtain ⟨old, hold, rfl⟩ := h.exists_of_lookup hrow
    rw [h.approvals]
    exact hs.approved k old hold ((h.status_eq (.inr happroved)).symm.trans happroved)

end Rewrites

section Create

variable {n : ℕ} {k : String × String} {row : PairingCodeRow} {call : PairingCall}
  {results : Table ℕ (Except ChannelError Unit)}

def created (s : Pairings) (n : ℕ) (k : String × String) (row : PairingCodeRow)
    (results : Table ℕ (Except ChannelError Unit)) : Pairings :=
  { s with
    repo := { s.repo with codes := s.repo.codes.insert k row }
    calls := s.calls.erase n
    results }

def NonePending (s : Pairings) (ownerUserId platformUserId platformType : String) : Prop :=
  ∀ k row, s.repo.codes.lookup k = some row → row.status = .pending → k.1 = ownerUserId →
    row.platformUserId = platformUserId → row.platformType ≠ platformType

theorem lookup_created (hfresh : k ∉ s.repo.codes) {k' : String × String} {row' : PairingCodeRow}
    (hrow' : s.repo.codes.lookup k' = some row') :
    (s.created n k row results).repo.codes.lookup k' = some row' := by
  have hne : k' ≠ k := by
    rintro rfl
    exact hfresh (AList.lookup_isSome.mp (by simp [hrow']))
  exact (Table.lookup_insert_eq row).trans ((if_neg hne).trans hrow')

theorem lookup_of_created {k' : String × String} {row' : PairingCodeRow}
    (hrow' : (s.created n k row results).repo.codes.lookup k' = some row') :
    k' = k ∧ row' = row ∨ k' ≠ k ∧ s.repo.codes.lookup k' = some row' := by
  replace hrow' := (Table.lookup_insert_eq row).symm.trans hrow'
  split at hrow'
  · next heq => exact .inl ⟨heq, (Option.some.inj hrow').symm⟩
  · next hne => exact .inr ⟨hne, hrow'⟩

theorem names_created (hfresh : k ∉ s.repo.codes) {a : Approval} (ha : s.Names a) :
    (s.created n k row results).Names a := by
  obtain ⟨row', hrow', hids⟩ := ha
  exact ⟨row', lookup_created hfresh hrow', hids⟩

theorem calls_erase {m : ℕ} {call' : PairingCall} (hcall : s.calls.lookup n = some call)
    (hne : call' ≠ call) :
    (s.calls.erase n).lookup m = some call' ↔ s.calls.lookup m = some call' := by
  rw [Table.lookup_erase_eq]
  split
  · next heq =>
      refine iff_of_false (by simp) fun h ↦ hne ?_
      exact Option.some.inj (h.symm.trans (heq ▸ hcall))
  · rfl

theorem of_calls_erase {m : ℕ} {call' : PairingCall}
    (h : (s.calls.erase n).lookup m = some call') : s.calls.lookup m = some call' := by
  rw [Table.lookup_erase_eq] at h
  split at h
  · cases h
  · exact h

theorem created_oneDecision_iff (hs : s.Consistent) (hfresh : k ∉ s.repo.codes)
    (hpending : row.status = .pending) (hcall : s.calls.lookup n = some call)
    (hquiet : ∀ a, PairingCall.approveUpdate a ≠ call) :
    (s.created n k row results).OneDecision ↔
      s.NonePending k.1 row.platformUserId row.platformType := by
  constructor
  · intro hone k' row' hrow' hpending' howner huser htype
    have hnew : (s.created n k row results).repo.codes.lookup k = some row :=
      AList.lookup_insert s.repo.codes
    have heq := hone.single k' k row' row (lookup_created hfresh hrow') hnew hpending' hpending
      howner huser htype
    exact hfresh (heq ▸ AList.lookup_isSome.mp (by simp [hrow']))
  · intro hnone
    refine ⟨hs.decision.authorized, hs.decision.decided, fun a ha ↦ ?_, ?_⟩
    · obtain ⟨row', hrow', hout⟩ := hs.decision.outcome a ha
      refine ⟨row', lookup_created hfresh hrow', hout.imp_right fun h ↦ ⟨h.1, ?_⟩⟩
      obtain ⟨m, hm⟩ := h.2
      exact ⟨m, (calls_erase hcall (hquiet a)).mpr hm⟩
    · intro k₁ k₂ row₁ row₂ hrow₁ hrow₂ hpending₁ hpending₂ howner huser htype
      rcases lookup_of_created hrow₁ with ⟨rfl, rfl⟩ | ⟨-, hold₁⟩ <;>
        rcases lookup_of_created hrow₂ with ⟨rfl, rfl⟩ | ⟨-, hold₂⟩
      · rfl
      · exact absurd htype.symm (hnone k₂ row₂ hold₂ hpending₂ howner.symm huser.symm)
      · exact absurd htype (hnone k₁ row₁ hold₁ hpending₁ howner huser)
      · exact hs.decision.single k₁ k₂ row₁ row₂ hold₁ hold₂ hpending₁ hpending₂ howner huser htype

theorem created_consistent (hs : s.Consistent) (hfresh : k ∉ s.repo.codes)
    (hpending : row.status = .pending) (hone : (s.created n k row results).OneDecision) :
    (s.created n k row results).Consistent where
  decision := hone
  creating m a hm := (hs.creating m a (of_calls_erase hm)).imp_right (names_created hfresh)
  updating m a hm := by
    obtain ⟨ha, hopen⟩ := hs.updating m a (of_calls_erase hm)
    refine ⟨ha, fun row' hrow' ↦ ?_⟩
    rcases lookup_of_created hrow' with ⟨-, rfl⟩ | ⟨-, hold⟩
    · exact hpending
    · exact hopen row' hold
  sole m m' a hm hm' := hs.sole m m' a (of_calls_erase hm) (of_calls_erase hm')
  names a ha := names_created hfresh (hs.names a ha)
  users := hs.users
  distinct := hs.distinct
  approved k' row' hrow' happroved := by
    rcases lookup_of_created hrow' with ⟨-, rfl⟩ | ⟨-, hold⟩
    · rw [hpending] at happroved
      cases happroved
    · exact hs.approved k' row' hold happroved

end Create

section Approve

variable {n : ℕ} {a : Approval} {results : Table ℕ (Except ChannelError Unit)}

def authorizedBy (s : Pairings) (n : ℕ) (a : Approval) (user : AssistantUserRow) : Pairings :=
  { s with
    repo := { s.repo with users := s.repo.users.insert a.userKey user }
    calls := s.calls.insert n (.approveUpdate a)
    approvals := a :: s.approvals }

def approvedBy (s : Pairings) (n : ℕ) (a : Approval)
    (results : Table ℕ (Except ChannelError Unit)) : Pairings :=
  { s with
    repo := { s.repo with
      codes := s.repo.codes.modify a.key fun row ↦ { row with status := .approved } }
    calls := s.calls.erase n
    results }

variable {user : AssistantUserRow}

theorem lookup_authorizedBy {m : ℕ} {call : PairingCall} :
    (s.authorizedBy n a user).calls.lookup m = some call ↔
      m = n ∧ call = .approveUpdate a ∨ m ≠ n ∧ s.calls.lookup m = some call := by
  change (s.calls.insert n (.approveUpdate a)).lookup m = some call ↔ _
  rw [Table.lookup_insert_eq]
  by_cases hm : m = n
  · simp [hm, eq_comm]
  · simp [hm]

theorem mem_users_of_approved (hs : s.Consistent) (ha : s.Names a) {row : PairingCodeRow}
    (hrow : s.repo.codes.lookup a.key = some row) (happroved : row.status = .approved) :
    a.userKey ∈ s.repo.users := by
  obtain ⟨b, hb, hkey⟩ := hs.approved a.key row hrow happroved
  rw [← (hs.names b hb).userKey_eq ha hkey]
  exact hs.users b hb

theorem authorizedBy_oneDecision_iff (hs : s.Consistent)
    (hcall : s.calls.lookup n = some (.approveCreate a)) (hfree : a.userKey ∉ s.repo.users) :
    (s.authorizedBy n a user).OneDecision ↔
      ∀ row, s.repo.codes.lookup a.key = some row → row.status = .pending := by
  obtain ⟨hdecided, hnames⟩ := hs.creating n a hcall
  constructor
  · intro hone row hrow
    obtain ⟨row', hrow', hout⟩ := hone.outcome a List.mem_cons_self
    obtain rfl := Option.some.inj (hrow.symm.trans hrow')
    rcases hout with happroved | ⟨hpending, -⟩
    · exact absurd (mem_users_of_approved hs hnames hrow happroved) hfree
    · exact hpending
  · intro hpending
    refine ⟨fun k hk ↦ ?_, ?_, ?_, hs.decision.single⟩
    · rcases (AList.mem_insert _).mp hk with rfl | hk
      · exact ⟨a, List.mem_cons_self, rfl⟩
      · obtain ⟨b, hb, hkey⟩ := hs.decision.authorized k hk
        exact ⟨b, List.mem_cons_of_mem a hb, hkey⟩
    · exact List.forall_mem_cons.mpr ⟨hdecided, hs.decision.decided⟩
    · refine List.forall_mem_cons.mpr ⟨?_, fun b hb ↦ ?_⟩
      · obtain ⟨row, hrow, -⟩ := hnames
        exact ⟨row, hrow, .inr ⟨hpending row hrow, n, lookup_authorizedBy.mpr (.inl ⟨rfl, rfl⟩)⟩⟩
      · obtain ⟨row, hrow, hout⟩ := hs.decision.outcome b hb
        refine ⟨row, hrow, hout.imp_right fun h ↦ ⟨h.1, ?_⟩⟩
        obtain ⟨m, hm⟩ := h.2
        refine ⟨m, lookup_authorizedBy.mpr (.inr ⟨?_, hm⟩)⟩
        rintro rfl
        rw [hcall] at hm
        cases hm

theorem authorizedBy_consistent (hs : s.Consistent)
    (hcall : s.calls.lookup n = some (.approveCreate a)) (hfree : a.userKey ∉ s.repo.users)
    (hpending : ∀ row, s.repo.codes.lookup a.key = some row → row.status = .pending)
    (hone : (s.authorizedBy n a user).OneDecision) : (s.authorizedBy n a user).Consistent where
  decision := hone
  creating m b hm := by
    rcases lookup_authorizedBy.mp hm with ⟨-, hb⟩ | ⟨-, hm⟩
    · cases hb
    · exact hs.creating m b hm
  updating m b hm := by
    rcases lookup_authorizedBy.mp hm with ⟨-, hb⟩ | ⟨-, hm⟩
    · cases hb
      exact ⟨List.mem_cons_self, hpending⟩
    · exact (hs.updating m b hm).imp_left (List.mem_cons_of_mem a)
  sole m m' b hm hm' := by
    have hold : ∀ m, s.calls.lookup m ≠ some (.approveUpdate a) := fun m hm ↦
      hfree (hs.users a (hs.updating m a hm).1)
    rcases lookup_authorizedBy.mp hm with ⟨hmn, hb⟩ | ⟨-, hm₁⟩ <;>
      rcases lookup_authorizedBy.mp hm' with ⟨hmn', hb'⟩ | ⟨-, hm₂⟩
    · exact hmn.trans hmn'.symm
    · cases hb
      exact absurd hm₂ (hold m')
    · cases hb'
      exact absurd hm₁ (hold m)
    · exact hs.sole m m' b hm₁ hm₂
  names := List.forall_mem_cons.mpr ⟨(hs.creating n a hcall).2, hs.names⟩
  users := List.forall_mem_cons.mpr ⟨(AList.mem_insert _).mpr (.inl rfl), fun b hb ↦
    (AList.mem_insert _).mpr (.inr (hs.users b hb))⟩
  distinct b hb c hc heq := by
    rcases List.mem_cons.mp hb with hba | hb₁ <;> rcases List.mem_cons.mp hc with hca | hc₁
    · exact hba.trans hca.symm
    · exact absurd (hs.users c hc₁) (heq ▸ hba ▸ hfree)
    · exact absurd (hs.users b hb₁) (heq ▸ hca ▸ hfree)
    · exact hs.distinct b hb₁ c hc₁ heq
  approved k row hrow happroved := by
    obtain ⟨b, hb, hkey⟩ := hs.approved k row hrow happroved
    exact ⟨b, List.mem_cons_of_mem a hb, hkey⟩

theorem lookup_approvedBy {k : String × String} :
    (s.approvedBy n a results).repo.codes.lookup k =
      if k = a.key then (s.repo.codes.lookup k).map fun row ↦ { row with status := .approved }
      else s.repo.codes.lookup k :=
  Table.lookup_modify _

theorem approvedBy_oneDecision (hs : s.Consistent)
    (hcall : s.calls.lookup n = some (.approveUpdate a)) :
    (s.approvedBy n a results).OneDecision where
  authorized := hs.decision.authorized
  decided := hs.decision.decided
  outcome b hb := by
    obtain ⟨row, hrow, hout⟩ := hs.decision.outcome b hb
    rw [lookup_approvedBy]
    by_cases hkey : b.key = a.key
    · rw [if_pos hkey, hrow]
      exact ⟨_, rfl, .inl rfl⟩
    · rw [if_neg hkey]
      refine ⟨row, hrow, hout.imp_right fun h ↦ ⟨h.1, ?_⟩⟩
      obtain ⟨m, hm⟩ := h.2
      refine ⟨m, (calls_erase hcall ?_).mpr hm⟩
      rintro heq
      exact hkey (congrArg Approval.key (PairingCall.approveUpdate.inj heq))
  single k k' row row' hrow hrow' hpending hpending' howner huser htype := by
    have hold : ∀ {k row}, (s.approvedBy n a results).repo.codes.lookup k = some row →
        row.status = .pending → s.repo.codes.lookup k = some row := by
      intro k row hrow hpending
      rw [lookup_approvedBy] at hrow
      split at hrow
      · obtain ⟨old, -, rfl⟩ := Option.map_eq_some_iff.mp hrow
        cases hpending
      · exact hrow
    exact hs.decision.single k k' row row' (hold hrow hpending) (hold hrow' hpending') hpending
      hpending' howner huser htype

theorem approvedBy_keepsDecisions (hs : s.Consistent)
    (hcall : s.calls.lookup n = some (.approveUpdate a)) :
    KeepsDecisions s (s.approvedBy n a results) := by
  refine ⟨fun k row hrow hsettled ↦ ⟨row, ?_, rfl⟩, approvedBy_oneDecision hs hcall⟩
  rw [lookup_approvedBy, if_neg, hrow]
  rintro rfl
  exact hsettled ((hs.updating n a hcall).2 row hrow)

theorem approvedBy_consistent (hs : s.Consistent)
    (hcall : s.calls.lookup n = some (.approveUpdate a)) :
    (s.approvedBy n a results).Consistent := by
  have hnames : ∀ {b}, s.Names b → (s.approvedBy n a results).Names b := by
    rintro b ⟨row, hrow, hids⟩
    by_cases hkey : b.key = a.key
    · refine ⟨{ row with status := .approved }, ?_, hids⟩
      rw [lookup_approvedBy, if_pos hkey, hrow, Option.map_some]
    · exact ⟨row, by rw [lookup_approvedBy, if_neg hkey, hrow], hids⟩
  refine
    { decision := approvedBy_oneDecision hs hcall
      creating := fun m b hm ↦ (hs.creating m b (of_calls_erase hm)).imp_right hnames
      updating := fun m b hm ↦ ?_
      sole := fun m m' b hm hm' ↦ hs.sole m m' b (of_calls_erase hm) (of_calls_erase hm')
      names := fun b hb ↦ hnames (hs.names b hb)
      users := hs.users
      distinct := hs.distinct
      approved := fun k row hrow happroved ↦ ?_ }
  · have hold : s.calls.lookup m = some (.approveUpdate b) := of_calls_erase hm
    obtain ⟨hb, hpending⟩ := hs.updating m b hold
    refine ⟨hb, fun row hrow ↦ ?_⟩
    have hkey : b.key ≠ a.key := by
      intro hkey
      have ha := (hs.updating n a hcall).1
      have heq := hs.distinct b hb a ha ((hs.names b hb).userKey_eq (hs.names a ha) hkey)
      obtain rfl := hs.sole m n a (heq ▸ hold) hcall
      have hnone : (s.calls.erase m).lookup m = none := AList.lookup_erase m s.calls
      exact absurd (hnone.symm.trans hm) (by simp)
    rw [lookup_approvedBy, if_neg hkey] at hrow
    exact hpending row hrow
  · rw [lookup_approvedBy] at hrow
    split at hrow
    · next hkey => exact ⟨a, (hs.updating n a hcall).1, hkey.symm⟩
    · exact hs.approved k row hrow happroved

theorem not_oneDecision_of_failed (hs : s.Consistent)
    (hcall : s.calls.lookup n = some (.approveUpdate a)) :
    ¬({ s with calls := s.calls.erase n, results } : Pairings).OneDecision := by
  intro hone
  obtain ⟨ha, hpending⟩ := hs.updating n a hcall
  obtain ⟨row, hrow, happroved | ⟨-, m, hm⟩⟩ := hone.outcome a ha
  · have hstatus := hpending row hrow
    rw [happroved] at hstatus
    cases hstatus
  · obtain rfl := hs.sole m n a (of_calls_erase hm) hcall
    have hnone : (s.calls.erase m).lookup m = none := AList.lookup_erase m s.calls
    exact absurd (hnone.symm.trans hm) (by simp)

end Approve

section Step

variable {n : ℕ} {ok : Bool} {drawn : String} {call : PairingCall}
  {g : String × String → PairingCodeRow → PairingStatus}

def Open (s : Pairings) (k : String × String) (status : PairingStatus) : Prop :=
  ∀ row, s.repo.codes.lookup k = some row → row.status ≠ status →
    row.status = .pending ∧ ∀ a ∈ s.approvals, a.key ≠ k

/-- What the next call of an operation has to find. -/
def CallUndisturbed (s : Pairings) (ok : Bool) : PairingCall → Prop
  | .requestExpire q (code :: _) => ok = true → s.Open (q.ownerUserId, code) .expired
  | .requestCreate q code _ => ok = true → (q.ownerUserId, code) ∉ s.repo.codes →
      s.NonePending q.ownerUserId q.platformUserId q.platformType
  | .approveCreate a => ok = true → a.userKey ∉ s.repo.users →
      ∀ row, s.repo.codes.lookup a.key = some row → row.status = .pending
  | .approveUpdate _ => ok = true
  | .rejectUpdate ownerUserId code => ok = true → s.Open (ownerUserId, code) .rejected
  | .markExpired ownerUserId code => ok = true → s.Open (ownerUserId, code) .expired
  | .requestList _ | .requestExpire _ [] | .approveRead _ _ | .rejectRead _ _ => True

/-- Every write finds its code as the operation has read it, no other operation writes to a code
from which a user has been created, and the last write of an approval succeeds. -/
def Undisturbed (s : Pairings) : PairingAction → Prop
  | .advance n ok _ => ∀ call ∈ s.calls.lookup n, s.CallUndisturbed ok call
  | .cleanup ownerUserId now => now ≤ s.now → ∀ a ∈ s.approvals, a.ownerUserId = ownerUserId →
      ∀ row, s.repo.codes.lookup a.key = some row → row.status = .pending → now < row.expiresAt
  | .requestPairing _ _ | .approvePairing _ _ _ | .rejectPairing _ _ _ | .wait _ => True

def StepSpec (s s' : Pairings) (condition : Prop) : Prop :=
  (KeepsDecisions s s' ↔ condition) ∧ (condition → s'.Consistent)

theorem Rewrites.spec (h : Rewrites s s' g) (hs : s.Consistent) :
    StepSpec s s' (Rewrites.Undecided s g) :=
  ⟨h.keepsDecisions_iff hs, h.consistent hs⟩

theorem StepSpec.congr {condition condition' : Prop} (h : StepSpec s s' condition)
    (hiff : condition ↔ condition') : StepSpec s s' condition' :=
  ⟨h.1.trans hiff, fun h' ↦ h.2 (hiff.mpr h')⟩

theorem spec_of_quiet (hs : s.Consistent) (hrepo : s'.repo = s.repo)
    (happrovals : s'.approvals = s.approvals)
    (hcreating : ∀ n a, s'.calls.lookup n = some (.approveCreate a) →
      s.calls.lookup n = some (.approveCreate a) ∨ a.Decided ∧ s.Names a)
    (hupdating : ∀ n a, s'.calls.lookup n = some (.approveUpdate a) ↔
      s.calls.lookup n = some (.approveUpdate a)) : StepSpec s s' True := by
  have hrewrites : Rewrites s s' fun _ row ↦ row.status :=
    { codes := fun k ↦ by rw [hrepo]; simp
      users := by rw [hrepo]
      approvals := happrovals
      creating := hcreating
      updating := hupdating
      refuses := fun k row ↦ .inl rfl }
  exact (hrewrites.spec hs).congr (iff_true_intro fun k row _ hne ↦ absurd rfl hne)

theorem begin_spec (hs : s.Consistent) (hcreate : ∀ a, call ≠ .approveCreate a)
    (hupdate : ∀ a, call ≠ .approveUpdate a) : StepSpec s (s.begin n call) True := by
  rw [Pairings.begin]
  split
  · exact spec_of_quiet hs rfl rfl (fun m a hm ↦ .inl hm) fun m a ↦ Iff.rfl
  · next hfree =>
      have hlookup : ∀ {m call'}, call ≠ call' →
          ((s.calls.insert n call).lookup m = some call' ↔ s.calls.lookup m = some call') := by
        intro m call' hne
        rw [Table.lookup_insert_eq]
        split
        · next heq =>
            have hnone : s.calls.lookup m = none := AList.lookup_eq_none.mpr (heq ▸ hfree)
            simp [hne, hnone]
        · rfl
      exact spec_of_quiet hs rfl rfl (fun m a hm ↦ .inl ((hlookup (hcreate a)).mp hm))
        fun m a ↦ hlookup (hupdate a)

def overwrite (k : String × String) (status : PairingStatus) (k' : String × String)
    (row : PairingCodeRow) : PairingStatus :=
  if k' = k then status else row.status

theorem undecided_overwrite_iff {k : String × String} {status : PairingStatus} :
    Rewrites.Undecided s (overwrite k status) ↔ s.Open k status := by
  constructor
  · intro h row hrow hne
    refine h k row hrow ?_
    rw [overwrite, if_pos rfl]
    exact hne.symm
  · intro h k' row hrow hne
    rw [overwrite] at hne
    split at hne
    · next heq =>
        subst heq
        exact h row hrow hne.symm
    · exact absurd rfl hne

theorem lookup_updatePairingStatus {r r' : ChannelRepository} {ownerUserId code : String}
    {status : PairingStatus} (h : r.updatePairingStatus ownerUserId code status = some r')
    (k : String × String) : r'.codes.lookup k = (r.codes.lookup k).map fun row ↦
      { row with status := overwrite (ownerUserId, code) status k row } := by
  rw [ChannelRepository.updatePairingStatus] at h
  split at h
  · cases h
    rw [Table.lookup_modify]
    split
    · next heq => simp [overwrite, heq]
    · next hne => simp [overwrite, hne]
  · cases h

theorem users_updatePairingStatus {r r' : ChannelRepository} {ownerUserId code : String}
    {status : PairingStatus} (h : r.updatePairingStatus ownerUserId code status = some r') :
    r'.users = r.users := by
  rw [ChannelRepository.updatePairingStatus] at h
  split at h <;> cases h
  rfl

theorem lookup_moved_iff (hcall : s.calls.lookup n = some call)
    (hquiet : ∀ a, call ≠ .approveUpdate a) {calls : Table ℕ PairingCall}
    (hcalls : calls = s.calls.erase n ∨
      ∃ call', calls = s.calls.insert n call' ∧ ∀ a, call' ≠ .approveUpdate a) (m : ℕ)
    (a : Approval) :
    calls.lookup m = some (.approveUpdate a) ↔ s.calls.lookup m = some (.approveUpdate a) := by
  rcases hcalls with rfl | ⟨call', rfl, hnext⟩
  · exact calls_erase hcall fun heq ↦ hquiet a heq.symm
  · rw [Table.lookup_insert_eq]
    split
    · next heq =>
        subst heq
        rw [hcall]
        refine iff_of_false ?_ ?_
        · exact fun h ↦ hnext a (Option.some.inj h)
        · exact fun h ↦ hquiet a (Option.some.inj h)
    · rfl

theorem spec_of_write (hs : s.Consistent) (hcall : s.calls.lookup n = some call)
    (hquiet : ∀ a, call ≠ .approveUpdate a) {ownerUserId code : String} {status : PairingStatus}
    (hstatus : status = .expired ∨ status = .rejected)
    (hwrite : s.repo.updatePairingStatus ownerUserId code status = some s'.repo)
    (happrovals : s'.approvals = s.approvals)
    (hcalls : s'.calls = s.calls.erase n ∨ ∃ call', s'.calls = s.calls.insert n call' ∧
      (∀ a, call' ≠ .approveUpdate a) ∧ ∀ a, call' ≠ .approveCreate a) :
    StepSpec s s' (s.Open (ownerUserId, code) status) := by
  have hrewrites : Rewrites s s' (overwrite (ownerUserId, code) status) :=
    { codes := lookup_updatePairingStatus hwrite
      users := users_updatePairingStatus hwrite
      approvals := happrovals
      creating := fun m a hm ↦ .inl ?_
      updating := lookup_moved_iff hcall hquiet
        (hcalls.imp_right fun ⟨call', h⟩ ↦ ⟨call', h.1, h.2.1⟩)
      refuses := fun k row ↦ ?_ }
  · exact (hrewrites.spec hs).congr undecided_overwrite_iff
  · rcases hcalls with h | ⟨call', h, -, hcreate⟩
    · rw [h] at hm
      exact of_calls_erase hm
    · rw [h, Table.lookup_insert_eq] at hm
      split at hm
      · exact absurd (Option.some.inj hm) (hcreate a)
      · exact hm
  · rw [overwrite]
    split
    · exact .inr hstatus
    · exact .inl rfl

theorem spec_of_read (hs : s.Consistent) (hcall : s.calls.lookup n = some call)
    (hquiet : ∀ a, call ≠ .approveUpdate a) (hrepo : s'.repo = s.repo)
    (happrovals : s'.approvals = s.approvals)
    (hcalls : s'.calls = s.calls.erase n ∨ ∃ call', s'.calls = s.calls.insert n call' ∧
      (∀ a, call' ≠ .approveUpdate a) ∧ ∀ a, call' = .approveCreate a → a.Decided ∧ s.Names a) :
    StepSpec s s' True := by
  refine spec_of_quiet hs hrepo happrovals (fun m a hm ↦ ?_)
    (lookup_moved_iff hcall hquiet (hcalls.imp_right fun ⟨call', h⟩ ↦ ⟨call', h.1, h.2.1⟩))
  rcases hcalls with h | ⟨call', h, -, hcreate⟩
  · rw [h] at hm
    exact .inl (of_calls_erase hm)
  · rw [h, Table.lookup_insert_eq] at hm
    split at hm
    · exact .inr (hcreate a (Option.some.inj hm))
    · exact .inl hm

theorem advance_done (hcall : s.calls.lookup n = some call) {repo : ChannelRepository}
    {result : Except ChannelError Unit}
    (hadvance : call.advance s.repo s.now ok drawn = (repo, .done result)) :
    s.advance n ok drawn = { s with
      repo
      calls := s.calls.erase n
      results := s.results.insert n result } := by
  simp only [Pairings.advance, hcall, hadvance]

theorem advance_next (hcall : s.calls.lookup n = some call) {repo : ChannelRepository}
    {call' : PairingCall} (hcreate : ∀ a, call ≠ .approveCreate a)
    (hadvance : call.advance s.repo s.now ok drawn = (repo, .next call')) :
    s.advance n ok drawn = { s with
      repo
      calls := s.calls.insert n call' } := by
  cases call with
  | approveCreate a => exact absurd rfl (hcreate a)
  | _ => simp only [Pairings.advance, hcall, hadvance]

theorem open_of_update_none {ownerUserId code : String} {status status' : PairingStatus}
    (h : s.repo.updatePairingStatus ownerUserId code status = none) :
    s.Open (ownerUserId, code) status' := by
  intro row hrow
  rw [ChannelRepository.updatePairingStatus, if_pos] at h
  · cases h
  · exact AList.lookup_isSome.mp (by simp [hrow])

theorem failed_spec (hs : s.Consistent) (hcall : s.calls.lookup n = some call)
    (hquiet : ∀ a, call ≠ .approveUpdate a) {result : Except ChannelError Unit}
    (hadvance : call.advance s.repo s.now ok drawn = (s.repo, .done result)) {condition : Prop}
    (hcondition : condition) : StepSpec s (s.advance n ok drawn) condition := by
  rw [advance_done hcall hadvance]
  exact StepSpec.congr (spec_of_read hs hcall hquiet rfl rfl (.inl rfl))
    (iff_of_true trivial hcondition)

theorem requestList_spec (hs : s.Consistent) {q : PairingRequest}
    (hcall : s.calls.lookup n = some (.requestList q)) :
    StepSpec s (s.advance n ok drawn) True := by
  cases ok with
  | false => exact failed_spec hs hcall (by simp) rfl trivial
  | true =>
      rw [advance_next hcall (by simp) rfl]
      exact spec_of_read hs hcall (by simp) rfl rfl (.inr ⟨_, rfl, by simp, by simp⟩)

theorem statusWrite_spec (hs : s.Consistent) (hcall : s.calls.lookup n = some call)
    {ownerUserId code : String} {status : PairingStatus} (failed : Except ChannelError Unit)
    (progress : Progress) (hupdate : ∀ a, call ≠ .approveUpdate a)
    (hcreate : ∀ a, call ≠ .approveCreate a)
    (hstatus : status = .expired ∨ status = .rejected)
    (hquiet : s.CallUndisturbed true call ↔ s.Open (ownerUserId, code) status)
    (hnone : s.repo.updatePairingStatus ownerUserId code status = none →
      call.advance s.repo s.now true drawn = (s.repo, .done failed))
    (hsome : ∀ repo, s.repo.updatePairingStatus ownerUserId code status = some repo →
      call.advance s.repo s.now true drawn = (repo, progress))
    (hprogress : (∃ result, progress = .done result) ∨ ∃ call', progress = .next call' ∧
      (∀ a, call' ≠ .approveUpdate a) ∧ ∀ a, call' ≠ .approveCreate a) :
    StepSpec s (s.advance n true drawn) (s.CallUndisturbed true call) := by
  cases hwrite : s.repo.updatePairingStatus ownerUserId code status with
  | none =>
      exact failed_spec hs hcall hupdate (hnone hwrite) (hquiet.mpr (open_of_update_none hwrite))
  | some repo =>
      have hadvance := hsome repo hwrite
      rcases hprogress with ⟨result, rfl⟩ | ⟨call', rfl, hnext⟩
      · rw [advance_done hcall hadvance]
        exact StepSpec.congr (spec_of_write hs hcall hupdate hstatus hwrite rfl (.inl rfl))
          hquiet.symm
      · rw [advance_next hcall hcreate hadvance]
        exact StepSpec.congr (spec_of_write hs hcall hupdate hstatus hwrite rfl
          (.inr ⟨call', rfl, hnext⟩)) hquiet.symm

theorem requestExpire_spec (hs : s.Consistent) {q : PairingRequest} {codes : List String}
    (hcall : s.calls.lookup n = some (.requestExpire q codes)) :
    StepSpec s (s.advance n ok drawn) (s.CallUndisturbed ok (.requestExpire q codes)) := by
  cases codes with
  | nil =>
      cases ok with
      | false => exact failed_spec hs hcall (by simp) rfl trivial
      | true =>
          rw [advance_next hcall (by simp) rfl]
          exact spec_of_read hs hcall (by simp) rfl rfl (.inr ⟨_, rfl, by simp, by simp⟩)
  | cons code codes =>
      cases ok with
      | false => exact failed_spec hs hcall (by simp) rfl fun h ↦ (nomatch h)
      | true =>
          apply statusWrite_spec hs hcall (.error .database) (.next (.requestExpire q codes))
            (by simp) (by simp) (.inl rfl) ⟨fun h ↦ h rfl, fun h _ ↦ h⟩
          · exact fun hwrite ↦ by simp only [PairingCall.advance, if_true, hwrite]
          · exact fun repo hwrite ↦ by simp only [PairingCall.advance, if_true, hwrite]
          · exact .inr ⟨_, rfl, by simp, by simp⟩

theorem rejectUpdate_spec (hs : s.Consistent) {ownerUserId code : String}
    (hcall : s.calls.lookup n = some (.rejectUpdate ownerUserId code)) :
    StepSpec s (s.advance n ok drawn) (s.CallUndisturbed ok (.rejectUpdate ownerUserId code)) := by
  cases ok with
  | false => exact failed_spec hs hcall (by simp) rfl fun h ↦ (nomatch h)
  | true =>
      apply statusWrite_spec hs hcall (.error .database) (.done (.ok ())) (by simp) (by simp)
        (.inr rfl) ⟨fun h ↦ h rfl, fun h _ ↦ h⟩
      · exact fun hwrite ↦ by simp only [PairingCall.advance, if_true, hwrite]
      · exact fun repo hwrite ↦ by simp only [PairingCall.advance, if_true, hwrite]
      · exact .inl ⟨_, rfl⟩

theorem markExpired_spec (hs : s.Consistent) {ownerUserId code : String}
    (hcall : s.calls.lookup n = some (.markExpired ownerUserId code)) :
    StepSpec s (s.advance n ok drawn) (s.CallUndisturbed ok (.markExpired ownerUserId code)) := by
  cases ok with
  | false => exact failed_spec hs hcall (by simp) rfl fun h ↦ (nomatch h)
  | true =>
      apply statusWrite_spec hs hcall (.error (.pairingExpired code))
        (.done (.error (.pairingExpired code))) (by simp) (by simp) (.inl rfl)
        ⟨fun h ↦ h rfl, fun h _ ↦ h⟩
      · exact fun hwrite ↦ by
          simp only [PairingCall.advance, if_true, hwrite, Option.getD_none]
      · exact fun repo hwrite ↦ by
          simp only [PairingCall.advance, if_true, hwrite, Option.getD_some]
      · exact .inl ⟨_, rfl⟩

theorem requestCreate_spec (hs : s.Consistent) {q : PairingRequest} {code : String}
    {requestedAt : ℤ} (hcall : s.calls.lookup n = some (.requestCreate q code requestedAt)) :
    StepSpec s (s.advance n ok drawn) (s.CallUndisturbed ok (.requestCreate q code requestedAt)) := by
  cases ok with
  | false => exact failed_spec hs hcall (by simp) rfl fun h ↦ (nomatch h)
  | true =>
      let row : PairingCodeRow := ⟨q.platformUserId, q.platformType, q.displayName, requestedAt,
        requestedAt + pairingCodeTtl, .pending⟩
      by_cases hmem : (q.ownerUserId, code) ∈ s.repo.codes
      · have hdone : (PairingCall.requestCreate q code requestedAt).advance s.repo s.now true
            drawn = (s.repo, .done (.error .database)) := by
          simp only [PairingCall.advance, if_true, ChannelRepository.createPairing, if_pos hmem]
        exact failed_spec hs hcall (by simp) hdone fun _ hfresh ↦ absurd hmem hfresh
      · have hdone : (PairingCall.requestCreate q code requestedAt).advance s.repo s.now true
            drawn = ({ s.repo with codes := s.repo.codes.insert (q.ownerUserId, code) row },
              .done (.ok ())) := by
          simp only [PairingCall.advance, if_true, ChannelRepository.createPairing, if_neg hmem]
          rfl
        rw [advance_done hcall hdone]
        let results := s.results.insert n (.ok ())
        have hiff : (s.created n (q.ownerUserId, code) row results).OneDecision ↔
            s.NonePending q.ownerUserId q.platformUserId q.platformType :=
          created_oneDecision_iff hs hmem rfl hcall (by simp)
        refine ⟨⟨fun h _ _ ↦ hiff.mp h.2, fun h ↦ ⟨?_, hiff.mpr (h rfl hmem)⟩⟩, fun h ↦ ?_⟩
        · intro k row' hrow' _
          exact ⟨row', lookup_created hmem hrow', rfl⟩
        · exact created_consistent hs hmem rfl (hiff.mpr (h rfl hmem))

theorem validPendingPairing_cases (ownerUserId code : String) (now : ℤ)
    (proceed : PairingCodeRow → Progress) (row? : Option PairingCodeRow) :
    (∃ e, validPendingPairing ownerUserId code now proceed row? = .done (.error e)) ∨
      validPendingPairing ownerUserId code now proceed row? =
        .next (.markExpired ownerUserId code) ∨
      ∃ row, row? = some row ∧ row.status = .pending ∧ now < row.expiresAt ∧
        validPendingPairing ownerUserId code now proceed row? = proceed row := by
  cases row? with
  | none => exact .inl ⟨_, rfl⟩
  | some row =>
      rw [validPendingPairing]
      split
      · exact .inl ⟨_, rfl⟩
      · next hpending =>
          split
          · exact .inr (.inl rfl)
          · next hvalid => exact .inr (.inr ⟨row, rfl, not_not.mp hpending, not_le.mp hvalid, rfl⟩)

theorem rowRead_spec (hs : s.Consistent) (hcall : s.calls.lookup n = some call)
    (hupdate : ∀ a, call ≠ .approveUpdate a) (hcreate : ∀ a, call ≠ .approveCreate a)
    {ownerUserId code : String} {proceed : PairingCodeRow → PairingCall}
    (hread : call.advance s.repo s.now true drawn =
      (s.repo, validPendingPairing ownerUserId code s.now (fun row ↦ .next (proceed row))
        (s.repo.getPairingByCode ownerUserId code)))
    (hproceed : ∀ row, s.repo.getPairingByCode ownerUserId code = some row →
      row.status = .pending → s.now < row.expiresAt → (∀ a, proceed row ≠ .approveUpdate a) ∧
        ∀ a, proceed row = .approveCreate a → a.Decided ∧ s.Names a) :
    StepSpec s (s.advance n true drawn) True := by
  obtain ⟨e, he⟩ | hmark | ⟨row, hrow, hpending, hvalid, hnext⟩ :=
    validPendingPairing_cases ownerUserId code s.now (fun row ↦ .next (proceed row))
      (s.repo.getPairingByCode ownerUserId code)
  · rw [he] at hread
    exact failed_spec hs hcall hupdate hread trivial
  · rw [hmark] at hread
    rw [advance_next hcall hcreate hread]
    exact spec_of_read hs hcall hupdate rfl rfl (.inr ⟨_, rfl, by simp, by simp⟩)
  · rw [hnext] at hread
    rw [advance_next hcall hcreate hread]
    exact spec_of_read hs hcall hupdate rfl rfl (.inr ⟨_, rfl, hproceed row hrow hpending hvalid⟩)

theorem approveRead_spec (hs : s.Consistent) {ownerUserId code : String}
    (hcall : s.calls.lookup n = some (.approveRead ownerUserId code)) :
    StepSpec s (s.advance n ok drawn) True := by
  cases ok with
  | false => exact failed_spec hs hcall (by simp) rfl trivial
  | true =>
      apply rowRead_spec hs hcall (by simp) (by simp) rfl
      intro row hrow hpending hvalid
      refine ⟨by simp, ?_⟩
      rintro a heq
      cases heq
      exact ⟨⟨hpending, hvalid⟩, row, hrow, rfl, rfl⟩

theorem rejectRead_spec (hs : s.Consistent) {ownerUserId code : String}
    (hcall : s.calls.lookup n = some (.rejectRead ownerUserId code)) :
    StepSpec s (s.advance n ok drawn) True := by
  cases ok with
  | false => exact failed_spec hs hcall (by simp) rfl trivial
  | true => exact rowRead_spec hs hcall (by simp) (by simp) rfl fun _ _ _ _ ↦ ⟨by simp, by simp⟩

theorem approveCreate_spec (hs : s.Consistent) {a : Approval}
    (hcall : s.calls.lookup n = some (.approveCreate a)) :
    StepSpec s (s.advance n ok drawn) (s.CallUndisturbed ok (.approveCreate a)) := by
  cases ok with
  | false => exact failed_spec hs hcall (by simp) rfl fun h ↦ (nomatch h)
  | true =>
      let user : AssistantUserRow := ⟨a.row.displayName, a.decidedAt⟩
      have hcreate : s.repo.createUser a.ownerUserId a.row.platformUserId a.row.platformType user =
          if a.userKey ∈ s.repo.users then none
          else some { s.repo with users := s.repo.users.insert a.userKey user } := rfl
      by_cases hmem : a.userKey ∈ s.repo.users
      · rw [if_pos hmem] at hcreate
        have hdone : (PairingCall.approveCreate a).advance s.repo s.now true drawn =
            (s.repo, .done (.error .database)) := by
          simp only [PairingCall.advance, if_true, user] at hcreate ⊢
          rw [hcreate]
        exact failed_spec hs hcall (by simp) hdone fun _ hfree ↦ absurd hmem hfree
      · rw [if_neg hmem] at hcreate
        have hnext : s.advance n true drawn = s.authorizedBy n a user := by
          simp only [Pairings.advance, hcall, PairingCall.advance, if_true, user] at hcreate ⊢
          rw [hcreate]
          rfl
        rw [hnext]
        have hiff : (s.authorizedBy n a user).OneDecision ↔
            ∀ row, s.repo.codes.lookup a.key = some row → row.status = .pending :=
          authorizedBy_oneDecision_iff hs hcall hmem
        refine ⟨⟨fun h _ _ ↦ hiff.mp h.2, fun h ↦ ⟨?_, hiff.mpr (h rfl hmem)⟩⟩, fun h ↦ ?_⟩
        · exact fun k row hrow _ ↦ ⟨row, hrow, rfl⟩
        · exact authorizedBy_consistent hs hcall hmem (h rfl hmem) (hiff.mpr (h rfl hmem))

theorem approveUpdate_spec (hs : s.Consistent) {a : Approval}
    (hcall : s.calls.lookup n = some (.approveUpdate a)) :
    StepSpec s (s.advance n ok drawn) (s.CallUndisturbed ok (.approveUpdate a)) := by
  cases ok with
  | false =>
      rw [advance_done hcall rfl]
      have hfailed : ¬({ s with
          calls := s.calls.erase n
          results := s.results.insert n (.error .database) } : Pairings).OneDecision :=
        not_oneDecision_of_failed hs hcall
      exact ⟨iff_of_false (fun h ↦ hfailed h.2) (by simp [CallUndisturbed]), fun h ↦ nomatch h⟩
  | true =>
      have hmem : a.key ∈ s.repo.codes := by
        obtain ⟨row, hrow, -⟩ := hs.names a (hs.updating n a hcall).1
        exact AList.lookup_isSome.mp (by simp [hrow])
      have hdone : (PairingCall.approveUpdate a).advance s.repo s.now true drawn =
          ((s.approvedBy n a (s.results.insert n (.ok ()))).repo, .done (.ok ())) := by
        have hwrite : s.repo.updatePairingStatus a.ownerUserId a.code .approved =
            some (s.approvedBy n a (s.results.insert n (.ok ()))).repo := if_pos hmem
        simp only [PairingCall.advance, if_true, hwrite]
      rw [advance_done hcall hdone]
      exact ⟨iff_of_true (approvedBy_keepsDecisions hs hcall) rfl,
        fun _ ↦ approvedBy_consistent hs hcall⟩

theorem advance_spec (hs : s.Consistent) :
    StepSpec s (s.advance n ok drawn) (s.Undisturbed (.advance n ok drawn)) := by
  cases hcall : s.calls.lookup n with
  | none =>
      have hstay : s.advance n ok drawn = s := by simp only [Pairings.advance, hcall]
      rw [hstay]
      refine (spec_of_quiet hs rfl rfl (fun m a hm ↦ .inl hm) fun m a ↦ Iff.rfl).congr ?_
      exact iff_of_true trivial fun call h ↦ by simp [hcall] at h
  | some call =>
      have hiff : s.CallUndisturbed ok call ↔ s.Undisturbed (.advance n ok drawn) := by
        simp [Undisturbed, hcall]
      refine StepSpec.congr ?_ hiff
      cases call with
      | requestList q => exact requestList_spec hs hcall
      | requestExpire q codes => exact requestExpire_spec hs hcall
      | requestCreate q code requestedAt => exact requestCreate_spec hs hcall
      | approveRead ownerUserId code => exact approveRead_spec hs hcall
      | approveCreate a => exact approveCreate_spec hs hcall
      | approveUpdate a => exact approveUpdate_spec hs hcall
      | rejectRead ownerUserId code => exact rejectRead_spec hs hcall
      | rejectUpdate ownerUserId code => exact rejectUpdate_spec hs hcall
      | markExpired ownerUserId code => exact markExpired_spec hs hcall

def swept (ownerUserId : String) (now : ℤ) (k : String × String) (row : PairingCodeRow) :
    PairingStatus :=
  if k.1 = ownerUserId ∧ row.status = .pending ∧ row.expiresAt ≤ now then .expired else row.status

theorem cleanup_rewrites (ownerUserId : String) (now : ℤ) :
    Rewrites s { s with repo := s.repo.cleanupExpiredPairings ownerUserId now }
      (swept ownerUserId now) where
  codes k := by
    change (s.repo.codes.mapValues _).lookup k = _
    rw [Table.lookup_mapValues]
    cases s.repo.codes.lookup k with
    | none => rfl
    | some row =>
        simp only [Option.map_some, swept]
        split <;> rfl
  users := rfl
  approvals := rfl
  creating n a hn := .inl hn
  updating n a := Iff.rfl
  refuses k row := by
    rw [swept]
    split
    · exact .inr (.inl rfl)
    · exact .inl rfl

theorem cleanup_spec (hs : s.Consistent) (ownerUserId : String) (now : ℤ) :
    StepSpec s (s.step (.cleanup ownerUserId now)) (s.Undisturbed (.cleanup ownerUserId now)) := by
  rw [Pairings.step]
  by_cases hnow : now ≤ s.now
  · rw [if_pos hnow]
    refine ((cleanup_rewrites ownerUserId now).spec hs).congr
      ⟨fun h _ a ha howner row hrow hpending ↦ ?_, fun h k row hrow hne ↦ ?_⟩
    · by_contra hexpired
      have hsame : swept ownerUserId now a.key row = row.status := h.status_eq ha hrow
      rw [swept, if_pos ⟨howner, hpending, not_lt.mp hexpired⟩, hpending] at hsame
      cases hsame
    · rw [swept] at hne
      split at hne
      · next hswept =>
          refine ⟨hswept.2.1, fun a ha hkey ↦ ?_⟩
          subst hkey
          exact absurd (h hnow a ha hswept.1 row hrow hswept.2.1) (not_lt.mpr hswept.2.2)
      · exact absurd rfl hne
  · rw [if_neg hnow]
    refine (spec_of_quiet hs rfl rfl (fun m a hm ↦ .inl hm) fun m a ↦ Iff.rfl).congr ?_
    exact iff_of_true trivial fun h ↦ absurd h hnow

theorem step_spec (hs : s.Consistent) (a : PairingAction) :
    StepSpec s (s.step a) (s.Undisturbed a) := by
  cases a with
  | requestPairing number r => exact begin_spec hs (by simp) (by simp)
  | approvePairing number ownerUserId code => exact begin_spec hs (by simp) (by simp)
  | rejectPairing number ownerUserId code => exact begin_spec hs (by simp) (by simp)
  | advance number ok drawn => exact advance_spec hs
  | cleanup ownerUserId now => exact cleanup_spec hs ownerUserId now
  | wait ms => exact spec_of_quiet hs rfl rfl (fun m a hm ↦ .inl hm) fun m a ↦ Iff.rfl

end Step

theorem consistent_new (now : ℤ) : (Pairings.new now).Consistent where
  decision :=
    { authorized := fun k hk ↦ absurd hk (AList.notMem_empty k)
      decided := fun _ ha ↦ nomatch ha
      outcome := fun _ ha ↦ nomatch ha
      single := fun _ _ _ _ hrow ↦ nomatch hrow }
  creating _ _ hn := nomatch hn
  updating _ _ hn := nomatch hn
  sole _ _ _ hn := nomatch hn
  names _ ha := nomatch ha
  users _ ha := nomatch ha
  distinct _ ha := nomatch ha
  approved _ _ hrow := nomatch hrow

/-- Every code is decided once and every user comes from its approval exactly as long as no
operation is disturbed. -/
theorem oneDecision_iff_undisturbed (now : ℤ) (as : List PairingAction) :
    Throughout step OneDecision (Pairings.new now) as ∧
        Meets step (fun s a ↦ Settled s.repo.codes (s.step a).repo.codes) (Pairings.new now) as ↔
      Meets step Undisturbed (Pairings.new now) as := by
  have hone := (consistent_new now).decision
  rw [throughout_and_meets, and_iff_right hone]
  have hinv : ∀ (s : Pairings) a, s.Consistent → s.Undisturbed a → (s.step a).Consistent :=
    fun s a hs ↦ (step_spec hs a).2
  refine meets_iff_meets hinv (fun s a hs ↦ ?_) (consistent_new now)
  rw [and_comm]
  exact (step_spec hs a).1

/-- The code is rejected after the approval has read it and before it creates the user. -/
def rejectedWhileApproving : List PairingAction :=
  [.requestPairing 0 ⟨"owner", "user", "telegram", none⟩, .advance 0 true "483920",
    .advance 0 true "483920", .advance 0 true "483920",
    .approvePairing 1 "owner" "483920", .advance 1 true "",
    .rejectPairing 2 "owner" "483920", .advance 2 true "", .advance 2 true "",
    .advance 1 true ""]

theorem rejected_code_authorizes :
    ¬Throughout step OneDecision (Pairings.new 0) rejectedWhileApproving := by
  intro h
  have hlast := h.last
  let row : PairingCodeRow := ⟨"user", "telegram", none, 0, pairingCodeTtl, .pending⟩
  let a : Approval := ⟨"owner", "483920", row, 0⟩
  obtain ⟨row', hrow', hout⟩ := hlast.outcome a (by decide)
  have hrejected : (run step (Pairings.new 0) rejectedWhileApproving).repo.codes.lookup a.key =
      some { row with status := .rejected } := by decide
  obtain rfl := Option.some.inj (hrejected.symm.trans hrow')
  rcases hout with happroved | ⟨hpending, -⟩
  · cases happroved
  · cases hpending

end Pairings

end Zaowutai.Channel
