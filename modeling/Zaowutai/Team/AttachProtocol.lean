import Zaowutai.Team.RegistryChannels

/-!
# The lease protocol of the member runtimes

Every operation that is started has a channel of its own, so that the outcome of
an operation is final.  Operation ids name the operations until the counter has
wrapped around, and a lease commits exactly while its operation is the current
entry of its agent.
-/

namespace Zaowutai.Team

open Zaowutai.Lib

structure RegistryHistory where
  registry : MemberRuntimeRegistry
  started : List StartedOperation
  waiters : List AttachWaiter

namespace RegistryHistory

def initial (sessionGeneration : String) : RegistryHistory := ⟨.new sessionGeneration, [], []⟩

def step (h : RegistryHistory) (op : RegistryOp) : RegistryHistory :=
  let (registry, result) := h.registry.perform op
  ⟨registry, h.started ++ (result.startedOn h.registry.channels.length).toList,
    h.waiters ++ result.waiter?.toList⟩

def signal (h : RegistryHistory) (op : StartedOperation) : Option AttachSignal :=
  h.registry.channels[op.channel]?

end RegistryHistory

def registryAfter (g : String) (ops : List RegistryOp) : RegistryHistory :=
  run RegistryHistory.step (.initial g) ops

section Protocol

variable {g : String} {h : RegistryHistory}

structure ProtocolInvariant (g : String) (h : RegistryHistory) : Prop where
  generation : h.registry.sessionGeneration = g
  next : h.registry.nextOperationId = (1 + h.started.length) % 2 ^ 64
  channels : h.registry.channels.length = h.started.length
  started : ∀ k op, h.started[k]? = some op → op.operationId = (1 + k) % 2 ^ 64 ∧ op.channel = k
  named : ∀ agentId entry operationId channel, h.registry.entries.lookup agentId = some entry →
    entry.operation? = some (operationId, channel) → ⟨operationId, agentId, channel⟩ ∈ h.started
  waiting : ∀ waiter ∈ h.waiters,
    ∃ op ∈ h.started, op.operationId = waiter.operationId ∧ op.channel = waiter.channel
  agree : ChannelsAgree h.registry

theorem protocolInvariant_initial (g : String) : ProtocolInvariant g (.initial g) where
  generation := rfl
  next := rfl
  channels := rfl
  started := by simp [RegistryHistory.initial]
  named := by simp [RegistryHistory.initial, MemberRuntimeRegistry.new]
  waiting := by simp [RegistryHistory.initial]
  agree := ⟨by simp [RegistryHistory.initial, MemberRuntimeRegistry.new],
    by simp [RegistryHistory.initial, MemberRuntimeRegistry.new],
    by simp [RegistryHistory.initial, MemberRuntimeRegistry.new]⟩

variable {r' : MemberRuntimeRegistry}

theorem ProtocolInvariant.start {agentId : String} {waiter : Option AttachWaiter}
    (hinv : ProtocolInvariant g h) (hagree : ChannelsAgree r')
    (hgeneration : r'.sessionGeneration = h.registry.sessionGeneration)
    (hnext : r'.nextOperationId = h.registry.bumpOperationId)
    (hchannels : r'.channels.length = h.registry.channels.length + 1)
    (hentries : ∀ other entry, r'.entries.lookup other = some entry →
      (other = agentId ∧
        entry.operation? = some (h.registry.nextOperationId, h.registry.channels.length)) ∨
      h.registry.entries.lookup other = some entry)
    (hwaiter : ∀ w ∈ waiter, w = ⟨h.registry.nextOperationId, h.registry.channels.length⟩) :
    ProtocolInvariant g
      ⟨r', h.started ++ [⟨h.registry.nextOperationId, agentId, h.registry.channels.length⟩],
        h.waiters ++ waiter.toList⟩ where
  generation := hgeneration.trans hinv.generation
  next := by
    have hcounter := hinv.next
    simp only [hnext, MemberRuntimeRegistry.bumpOperationId, List.length_append, List.length_singleton]
    omega
  channels := by
    rw [hchannels, hinv.channels, List.length_append, List.length_singleton]
  started := by
    intro k op hop
    rcases Nat.lt_trichotomy k h.started.length with hlt | rfl | hgt
    · rw [List.getElem?_append_left hlt] at hop
      exact hinv.started k op hop
    · rw [List.getElem?_append_right le_rfl, Nat.sub_self] at hop
      obtain rfl := Option.some.inj hop
      exact ⟨hinv.next, hinv.channels⟩
    · rw [List.getElem?_eq_none (by simp; omega)] at hop
      cases hop
  named := by
    intro other entry operationId channel hentry hoperation
    rcases hentries other entry hentry with ⟨rfl, hnew⟩ | hold
    · obtain ⟨rfl, rfl⟩ := Prod.mk.inj (Option.some.inj (hoperation.symm.trans hnew))
      exact List.mem_append_right _ List.mem_cons_self
    · exact List.mem_append_left _ (hinv.named other entry operationId channel hold hoperation)
  waiting := by
    intro w hw
    rcases List.mem_append.mp hw with hold | hnew
    · obtain ⟨op, hop, hid⟩ := hinv.waiting w hold
      exact ⟨op, List.mem_append_left _ hop, hid⟩
    · obtain rfl := hwaiter w (Option.mem_toList.mp hnew)
      exact ⟨_, List.mem_append_right _ List.mem_cons_self, rfl, rfl⟩
  agree := hagree

theorem ProtocolInvariant.keep {waiter : Option AttachWaiter}
    (hinv : ProtocolInvariant g h) (hagree : ChannelsAgree r')
    (hgeneration : r'.sessionGeneration = h.registry.sessionGeneration)
    (hnext : r'.nextOperationId = h.registry.nextOperationId)
    (hchannels : r'.channels.length = h.registry.channels.length)
    (hentries : ∀ agentId entry p, r'.entries.lookup agentId = some entry →
      entry.operation? = some p → ∃ old, h.registry.entries.lookup agentId = some old ∧
        old.operation? = some p)
    (hwaiter : ∀ w ∈ waiter, ∃ agentId entry, h.registry.entries.lookup agentId = some entry ∧
      entry.operation? = some (w.operationId, w.channel)) :
    ProtocolInvariant g ⟨r', h.started ++ [], h.waiters ++ waiter.toList⟩ where
  generation := hgeneration.trans hinv.generation
  next := by rw [hnext, hinv.next, List.append_nil]
  channels := by rw [hchannels, hinv.channels, List.append_nil]
  started := by
    rw [List.append_nil]
    exact hinv.started
  named := by
    intro agentId entry operationId channel hentry hoperation
    obtain ⟨old, hold, hold'⟩ := hentries agentId entry _ hentry hoperation
    rw [List.append_nil]
    exact hinv.named agentId old operationId channel hold hold'
  waiting := by
    intro w hw
    rw [List.append_nil]
    rcases List.mem_append.mp hw with hold | hnew
    · exact hinv.waiting w hold
    · obtain ⟨agentId, entry, hentry, hoperation⟩ := hwaiter w (Option.mem_toList.mp hnew)
      exact ⟨_, hinv.named agentId entry _ _ hentry hoperation, rfl, rfl⟩
  agree := hagree

theorem protocolInvariant_move {started : Option StartedOperation} {waiter : Option AttachWaiter}
    (hinv : ProtocolInvariant g h) (hmove : RegistryMove h.registry r' started waiter) :
    ProtocolInvariant g ⟨r', h.started ++ started.toList, h.waiters ++ waiter.toList⟩ := by
  have hagree := (agree_move hinv.agree hmove).1
  cases hmove with
  | idle => exact hinv.keep hagree rfl rfl rfl (fun _ old _ hold hp ↦ ⟨old, hold, hp⟩) (by simp)
  | joined agentId entry operationId channel hentry hoperation =>
      refine hinv.keep hagree rfl rfl rfl (fun _ old _ hold hp ↦ ⟨old, hold, hp⟩) fun w hw ↦ ?_
      obtain rfl := Option.some.inj hw
      exact ⟨agentId, entry, hentry, hoperation⟩
  | opened agentId entry waiter hentry hold hwaiter =>
      refine hinv.start hagree rfl rfl (by simp [MemberRuntimeRegistry.openOperation])
        (fun other e he ↦ ?_) hwaiter
      by_cases hother : other = agentId
      · have hnew : e = entry h.registry.nextOperationId h.registry.channels.length := by
          subst hother
          exact Option.some.inj (he.symm.trans (AList.lookup_insert h.registry.entries))
        exact Or.inl ⟨hother, hnew ▸ MemberRuntimeEntry.operation_of_inProgress (hentry _ _)⟩
      · exact Or.inr ((AList.lookup_insert_ne hother).symm.trans he)
  | replaced agentId operationId channel hentry =>
      refine hinv.start hagree rfl rfl ?_ (fun other e he ↦ ?_) (by simp)
      · simp [MemberRuntimeRegistry.openOperation, MemberRuntimeRegistry.send]
      · by_cases hother : other = agentId
        · subst hother
          obtain rfl := Option.some.inj (he.symm.trans (AList.lookup_insert h.registry.entries))
          exact Or.inl ⟨rfl, rfl⟩
        · exact Or.inr ((AList.lookup_insert_ne hother).symm.trans he)
  | settled agentId entry operationId channel after outcome hentry hprogress hafter =>
      refine hinv.keep hagree rfl rfl (by simp [MemberRuntimeRegistry.send])
        (fun other e p he hp ↦ ?_) (by simp)
      have hlookup := lookup_settledEntries.symm.trans he
      by_cases hother : other = agentId
      · rw [if_pos hother] at hlookup
        obtain rfl := (hafter e hlookup).2 p hp
        exact ⟨entry, hother ▸ hentry, MemberRuntimeEntry.operation_of_inProgress hprogress⟩
      · rw [if_neg hother] at hlookup
        exact ⟨e, hlookup, hp⟩
  | stopped =>
      obtain ⟨hnext, hgeneration, hlength⟩ :=
        drain_counter (r := h.registry) h.registry.entries.values
      exact hinv.keep hagree hgeneration hnext hlength (by simp) (by simp)

theorem protocolInvariant_step (op : RegistryOp) (hinv : ProtocolInvariant g h) :
    ProtocolInvariant g (h.step op) :=
  protocolInvariant_move hinv (registryMove op)

theorem protocolInvariant_run (g : String) (ops : List RegistryOp) :
    ProtocolInvariant g (registryAfter g ops) :=
  run_invariant (fun _ op ↦ protocolInvariant_step op) (protocolInvariant_initial g) ops

structure SignalProtocol (g : String) (ops : List RegistryOp) : Prop where
  pending : ∀ op started, started ∈ ((registryAfter g ops).step op).started →
    started ∉ (registryAfter g ops).started →
      ((registryAfter g ops).step op).signal started = some .pending
  once : ∀ pre, pre <+: ops → ∀ started outcome,
    (registryAfter g pre).signal started = some (.terminal outcome) →
      (registryAfter g ops).signal started = some (.terminal outcome)
  waiters : ∀ waiter ∈ (registryAfter g ops).waiters,
    (registryAfter g ops).registry.channels[waiter.channel]? = some .pending →
      ∃ agentId entry, (registryAfter g ops).registry.entries.lookup agentId = some entry ∧
        entry.inProgress? = some (waiter.operationId, waiter.channel)
  commit : ∀ op lease, op.lease? = some lease →
    ((registryAfter g ops).registry.Commits op ↔
      (registryAfter g ops).registry.stopped = false ∧ lease.Current (registryAfter g ops).registry)

structure OperationIds (g : String) (ops : List RegistryOp) : Prop where
  fresh : ((registryAfter g ops).started.map StartedOperation.operationId).Nodup
  pending : ∀ started ∈ (registryAfter g ops).started,
    (registryAfter g ops).signal started = some .pending ↔
      ∃ agentId entry channel,
        (registryAfter g ops).registry.entries.lookup agentId = some entry ∧
          entry.inProgress? = some (started.operationId, channel)
  exclusive : ∀ pre op lease rest, ops = pre ++ op :: rest → op.lease? = some lease →
    (registryAfter g pre).registry.Commits op →
      ∀ op' lease', op'.lease? = some lease' → lease'.operationId = lease.operationId →
        ¬ (registryAfter g ops).registry.Commits op'

section Run

variable {ops pre : List RegistryOp}

theorem started_mono (hpre : pre <+: ops) {started : StartedOperation}
    (hmem : started ∈ (registryAfter g pre).started) : started ∈ (registryAfter g ops).started := by
  obtain ⟨post, rfl⟩ := hpre
  rw [registryAfter, run_append]
  exact run_invariant (P := fun k : RegistryHistory ↦ started ∈ k.started)
    (fun _ _ hk ↦ List.mem_append_left _ hk) hmem post

theorem terminal_mono (hpre : pre <+: ops) {channel : ℕ} {outcome : AttachOutcome}
    (hdone : (registryAfter g pre).registry.channels[channel]? = some (.terminal outcome)) :
    (registryAfter g ops).registry.channels[channel]? = some (.terminal outcome) := by
  obtain ⟨post, rfl⟩ := hpre
  rw [registryAfter, run_append]
  refine (run_invariant (P := fun k : RegistryHistory ↦ ProtocolInvariant g k ∧
    k.registry.channels[channel]? = some (.terminal outcome)) (fun k op hP ↦ ?_)
    ⟨protocolInvariant_run g pre, hdone⟩ post).2
  exact ⟨protocolInvariant_step op hP.1,
    (agree_move hP.1.agree (registryMove op)).2 channel outcome hP.2⟩

theorem started_eq_of_channel (hinv : ProtocolInvariant g h) {first second : StartedOperation}
    (hfirst : first ∈ h.started) (hsecond : second ∈ h.started)
    (hchannel : first.channel = second.channel) : first = second := by
  obtain ⟨k, hk⟩ := List.mem_iff_getElem?.mp hfirst
  obtain ⟨l, hl⟩ := List.mem_iff_getElem?.mp hsecond
  have hkl : k = l := by
    rw [← (hinv.started k first hk).2, ← (hinv.started l second hl).2, hchannel]
  subst hkl
  exact Option.some.inj (hk.symm.trans hl)

theorem started_eq_of_operationId (hinv : ProtocolInvariant g h)
    (hbound : h.started.length ≤ 2 ^ 64) {first second : StartedOperation}
    (hfirst : first ∈ h.started) (hsecond : second ∈ h.started)
    (hid : first.operationId = second.operationId) : first = second := by
  obtain ⟨k, hk⟩ := List.mem_iff_getElem?.mp hfirst
  obtain ⟨l, hl⟩ := List.mem_iff_getElem?.mp hsecond
  have hk' := (List.getElem?_eq_some_iff.mp hk).1
  have hl' := (List.getElem?_eq_some_iff.mp hl).1
  have hkl : k = l := by
    rw [(hinv.started k first hk).1, (hinv.started l second hl).1] at hid
    omega
  subst hkl
  exact Option.some.inj (hk.symm.trans hl)

theorem started_nodup (hinv : ProtocolInvariant g h) : h.started.Nodup := by
  rw [List.nodup_iff_getElem?_ne_getElem?]
  intro k l hkl hl heq
  obtain ⟨op, hop⟩ : ∃ op, h.started[l]? = some op := ⟨_, List.getElem?_eq_getElem hl⟩
  have hk := (hinv.started k op (heq.trans hop)).2
  have hl := (hinv.started l op hop).2
  omega

theorem signalProtocol (g : String) (ops : List RegistryOp) : SignalProtocol g ops where
  pending := by
    intro op started hmem hnew
    rcases List.mem_append.mp hmem with hold | hstarted
    · exact absurd hold hnew
    · have hmove := registryMove (r := (registryAfter g ops).registry) op
      have hsome : ((registryAfter g ops).registry.perform op).2.startedOn
          (registryAfter g ops).registry.channels.length = some started :=
        Option.mem_toList.mp hstarted
      rw [hsome] at hmove
      exact started_pending (protocolInvariant_run g ops).agree hmove
  once := fun pre hpre started outcome hdone ↦ terminal_mono hpre hdone
  waiters := by
    intro waiter hwaiter hpending
    have hinv := protocolInvariant_run g ops
    obtain ⟨agentId, entry, operationId, hentry, hprogress⟩ := hinv.agree.pending _ hpending
    obtain ⟨op, hop, hid, hchannel⟩ := hinv.waiting waiter hwaiter
    have hnamed := hinv.named agentId entry operationId waiter.channel hentry
      (MemberRuntimeEntry.operation_of_inProgress hprogress)
    have heq := started_eq_of_channel hinv hop hnamed hchannel
    refine ⟨agentId, entry, hentry, ?_⟩
    rw [← hid, heq, hprogress]
  commit := fun op lease hlease ↦ commits_iff hlease

theorem operationIds (hbound : (registryAfter g ops).started.length ≤ 2 ^ 64) :
    OperationIds g ops where
  fresh := by
    have hinv := protocolInvariant_run g ops
    exact List.Nodup.map_on (fun _ hfirst _ hsecond hid ↦
      started_eq_of_operationId hinv hbound hfirst hsecond hid) (started_nodup hinv)
  pending := by
    intro started hstarted
    have hinv := protocolInvariant_run g ops
    constructor
    · intro hpending
      obtain ⟨agentId, entry, operationId, hentry, hprogress⟩ := hinv.agree.pending _ hpending
      have hnamed := hinv.named agentId entry operationId started.channel hentry
        (MemberRuntimeEntry.operation_of_inProgress hprogress)
      have heq := started_eq_of_channel hinv hstarted hnamed rfl
      refine ⟨agentId, entry, started.channel, hentry, ?_⟩
      rw [heq, hprogress]
    · rintro ⟨agentId, entry, channel, hentry, hprogress⟩
      have hnamed := hinv.named agentId entry started.operationId channel hentry
        (MemberRuntimeEntry.operation_of_inProgress hprogress)
      have heq := started_eq_of_operationId hinv hbound hstarted hnamed rfl
      rw [RegistryHistory.signal, heq]
      exact hinv.agree.held agentId entry _ channel hentry hprogress
  exclusive := by
    rintro pre op lease rest rfl hlease hcommits op' lease' hlease' hid hcommits'
    have hinv := protocolInvariant_run g pre
    have hinv' := protocolInvariant_run g (pre ++ op :: rest)
    have hpre : pre <+: pre ++ op :: rest := List.prefix_append pre _
    obtain ⟨_, _, channel, hentry⟩ := (commits_iff hlease).mp hcommits
    obtain ⟨_, _, channel', hentry'⟩ := (commits_iff hlease').mp hcommits'
    have hnamed := hinv.named _ _ _ _ hentry
      (MemberRuntimeEntry.operation_of_inProgress (lease.entry_inProgress channel))
    have hnamed' := hinv'.named _ _ _ _ hentry'
      (MemberRuntimeEntry.operation_of_inProgress (lease'.entry_inProgress channel'))
    have heq := started_eq_of_operationId hinv' hbound (started_mono hpre hnamed) hnamed' hid.symm
    obtain rfl : channel = channel' := congrArg StartedOperation.channel heq
    -- the outcome was sent when the first lease was committed
    have hheld := hinv.agree.held _ _ _ _ hentry (lease.entry_inProgress channel)
    have hheld' := hinv'.agree.held _ _ _ _ hentry' (lease'.entry_inProgress channel)
    obtain ⟨outcome, hsent⟩ := commits_sends hlease hcommits hentry
    have hdone : (registryAfter g (pre ++ [op])).registry.channels[channel]? =
        some (.terminal outcome) := by
      rw [registryAfter, run_append]
      exact (congrArg (·[channel]?) hsent).trans (List.getElem?_set_self (lt_of_signal hheld))
    have hprefix : pre ++ [op] <+: pre ++ op :: rest := ⟨rest, by simp⟩
    have hlater := terminal_mono hprefix hdone
    cases hheld'.symm.trans hlater

/-- After `2 ^ 64` operations the first operation id is given out again. -/
theorem operationId_reused (hlong : 2 ^ 64 < (registryAfter g ops).started.length) :
    ¬ OperationIds g ops := by
  intro hids
  have hinv := protocolInvariant_run g ops
  obtain ⟨first, hfirst⟩ : ∃ op, (registryAfter g ops).started[0]? = some op :=
    ⟨_, List.getElem?_eq_getElem (by omega)⟩
  obtain ⟨last, hlast⟩ : ∃ op, (registryAfter g ops).started[2 ^ 64]? = some op :=
    ⟨_, List.getElem?_eq_getElem hlong⟩
  have heq : first = last := by
    refine List.inj_on_of_nodup_map hids.fresh (List.mem_of_getElem? hfirst)
      (List.mem_of_getElem? hlast) ?_
    rw [(hinv.started _ first hfirst).1, (hinv.started _ last hlast).1, Nat.add_zero,
      Nat.add_mod_right]
  have hchannel := (hinv.started _ first hfirst).2
  rw [heq, (hinv.started _ last hlast).2] at hchannel
  omega

end Run

/-- The protocol of the leases; its operation ids wrap around with the counter. -/
theorem lease_protocol (g : String) (ops : List RegistryOp) : SignalProtocol g ops ∧
    (OperationIds g ops ↔ (registryAfter g ops).started.length ≤ 2 ^ 64) := by
  refine ⟨signalProtocol g ops, fun hids ↦ ?_, operationIds⟩
  by_contra hlong
  exact operationId_reused (by omega) hids

def agentName (i : ℕ) : String := String.ofList (List.replicate i '|')

theorem agentName_injective {i j : ℕ} (h : agentName i = agentName j) : i = j := by
  have hlists := congrArg List.length (String.ofList_injective h)
  simpa using hlists

def reserveAll (n : ℕ) : List RegistryOp :=
  (List.range n).map fun i ↦ .reserveAttach (agentName i) false

theorem reserveAll_started (n : ℕ) : (registryAfter g (reserveAll n)).registry.stopped = false ∧
    (∀ i, n ≤ i → (registryAfter g (reserveAll n)).registry.entries.lookup (agentName i) = none) ∧
      (registryAfter g (reserveAll n)).started.length = n := by
  induction n with
  | zero =>
      refine ⟨rfl, fun i _ ↦ ?_, rfl⟩
      exact AList.lookup_empty (agentName i)
  | succ n ih =>
      obtain ⟨hstopped, hfree, hlength⟩ := ih
      have hrun : registryAfter g (reserveAll (n + 1)) =
          (registryAfter g (reserveAll n)).step (.reserveAttach (agentName n) false) := by
        simp [registryAfter, reserveAll, List.range_succ]
      have hstart : (registryAfter g (reserveAll n)).registry.reserveAttach (agentName n) false =
          (registryAfter g (reserveAll n)).registry.startAttach (agentName n) := by
        simp [MemberRuntimeRegistry.reserveAttach, hstopped, hfree n le_rfl]
      rw [hrun, RegistryHistory.step, MemberRuntimeRegistry.perform, hstart]
      refine ⟨hstopped, fun i hi ↦ ?_, ?_⟩
      · have hne : agentName i ≠ agentName n := fun heq ↦ by
          have := agentName_injective heq
          omega
        exact (AList.lookup_insert_ne hne).trans (hfree i (by omega))
      · simp [MemberRuntimeRegistry.startAttach, RegistryResult.startedOn, hlength]

theorem reserveAll_reuses_id : ¬ OperationIds "s" (reserveAll (2 ^ 64 + 1)) := by
  refine operationId_reused ?_
  rw [(reserveAll_started (2 ^ 64 + 1)).2.2]
  exact Nat.lt_succ_self _

end Protocol

end Zaowutai.Team
