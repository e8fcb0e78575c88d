import Zaowutai.Team.SoleOwner

/-!
# The channels of the member runtimes

What one operation can do to the registry is a `RegistryMove`.  Every move keeps
the channels in agreement with the entries: a channel is pending exactly as
long as an entry works on the operation it belongs to, and its outcome is final.
-/

namespace Zaowutai.Team

open Zaowutai.Lib

inductive RegistryOp
  | reserveAttach (agentId : String) (retryFailed : Bool)
  | reserveRestart (agentId : String)
  | reserveRepair (agentId : String)
  | commitReady (lease : AttachLease)
  | commitFailed (lease : AttachLease) (failure : MemberRuntimeFailure)
  | beginRemove (agentId : String)
  | finishRemove (lease : RemoveLease)
  | restoreAttachRequiredAfterRemovePersistError (lease : RemoveLease)
      (failure : MemberRuntimeFailure)
  | stop

inductive RegistryResult
  | reserved (result : ReserveAttach)
  | began (result : BeginRemove)
  | committed (success : Bool)
  | stopped (first : Bool)
  deriving DecidableEq

namespace MemberRuntimeRegistry

variable (r : MemberRuntimeRegistry)

def perform : RegistryOp → MemberRuntimeRegistry × RegistryResult
  | .reserveAttach agentId retryFailed => (r.reserveAttach agentId retryFailed).map id .reserved
  | .reserveRestart agentId => (r.reserveRestart agentId).map id .reserved
  | .reserveRepair agentId => (r.reserveRepair agentId).map id .reserved
  | .commitReady lease => (r.commitReady lease).map id .committed
  | .commitFailed lease failure => (r.commitFailed lease failure).map id .committed
  | .beginRemove agentId => (r.beginRemove agentId).map id .began
  | .finishRemove lease => (r.finishRemove lease).map id .committed
  | .restoreAttachRequiredAfterRemovePersistError lease failure =>
      (r.restoreAttachRequiredAfterRemovePersistError lease failure).map id .committed
  | .stop => r.stop.map id .stopped

end MemberRuntimeRegistry

structure StartedOperation where
  operationId : ℕ
  agentId : String
  channel : ℕ
  deriving DecidableEq

def RegistryResult.startedOn (channel : ℕ) : RegistryResult → Option StartedOperation
  | reserved (.start lease) => some ⟨lease.operationId, lease.agentId, lease.waiter.channel⟩
  | began (.start lease) => some ⟨lease.operationId, lease.agentId, channel⟩
  | _ => none

def RegistryResult.waiter? : RegistryResult → Option AttachWaiter
  | reserved (.start lease) => some lease.waiter
  | reserved (.join waiter) | reserved (.removing waiter) | began (.join waiter) => some waiter
  | _ => none

namespace MemberRuntimeEntry

def operation? : MemberRuntimeEntry → Option (ℕ × ℕ)
  | attaching operationId channel | failed operationId _ channel
  | removing operationId channel => some (operationId, channel)
  | ready => none

def inProgress? : MemberRuntimeEntry → Option (ℕ × ℕ)
  | attaching operationId channel | removing operationId channel => some (operationId, channel)
  | ready | failed _ _ _ => none

theorem operation_of_inProgress {entry : MemberRuntimeEntry} {p : ℕ × ℕ}
    (h : entry.inProgress? = some p) : entry.operation? = some p := by
  cases entry with
  | attaching operationId channel => exact h
  | removing operationId channel => exact h
  | ready => cases h
  | failed operationId failure channel => cases h

end MemberRuntimeEntry

section Moves

variable {r r' : MemberRuntimeRegistry}

def settledEntries (r : MemberRuntimeRegistry) (agentId : String) (after : Option MemberRuntimeEntry) :
    Table String MemberRuntimeEntry :=
  after.elim (r.entries.erase agentId) (r.entries.insert agentId)

inductive RegistryMove (r : MemberRuntimeRegistry) :
    MemberRuntimeRegistry → Option StartedOperation → Option AttachWaiter → Prop
  | idle : RegistryMove r r none none
  | joined (agentId : String) (entry : MemberRuntimeEntry) (operationId channel : ℕ)
      (hentry : r.entries.lookup agentId = some entry)
      (hoperation : entry.operation? = some (operationId, channel)) :
      RegistryMove r r none (some ⟨operationId, channel⟩)
  | opened (agentId : String) (entry : ℕ → ℕ → MemberRuntimeEntry) (waiter : Option AttachWaiter)
      (hentry : ∀ operationId channel,
        (entry operationId channel).inProgress? = some (operationId, channel))
      (hold : ∀ old, r.entries.lookup agentId = some old → old.inProgress? = none)
      (hwaiter : ∀ w ∈ waiter, w = ⟨r.nextOperationId, r.channels.length⟩) :
      RegistryMove r (r.openOperation agentId entry)
        (some ⟨r.nextOperationId, agentId, r.channels.length⟩) waiter
  | replaced (agentId : String) (operationId channel : ℕ)
      (hentry : r.entries.lookup agentId = some (.attaching operationId channel)) :
      RegistryMove r ((r.openOperation agentId .removing).send channel .removed)
        (some ⟨r.nextOperationId, agentId, r.channels.length⟩) none
  | settled (agentId : String) (entry : MemberRuntimeEntry) (operationId channel : ℕ)
      (after : Option MemberRuntimeEntry) (outcome : AttachOutcome)
      (hentry : r.entries.lookup agentId = some entry)
      (hprogress : entry.inProgress? = some (operationId, channel))
      (hafter : ∀ e ∈ after, e.inProgress? = none ∧
        ∀ p, e.operation? = some p → p = (operationId, channel)) :
      RegistryMove r
        ({ r with entries := settledEntries r agentId after }.send channel outcome) none none
  | stopped : RegistryMove r
      { r.entries.values.foldl MemberRuntimeRegistry.drain r with entries := ∅, stopped := true }
      none none

theorem move_startAttach {agentId : String}
    (hold : ∀ old, r.entries.lookup agentId = some old → old.inProgress? = none) :
    RegistryMove r (r.startAttach agentId).1
      ((RegistryResult.reserved (r.startAttach agentId).2).startedOn r.channels.length)
      (RegistryResult.reserved (r.startAttach agentId).2).waiter? :=
  .opened agentId .attaching _ (fun _ _ ↦ rfl) hold fun _ hw ↦ (Option.some.inj hw).symm

theorem move_reserveAttach (agentId : String) (retryFailed : Bool) :
    RegistryMove r (r.reserveAttach agentId retryFailed).1
      ((RegistryResult.reserved (r.reserveAttach agentId retryFailed).2).startedOn
        r.channels.length)
      (RegistryResult.reserved (r.reserveAttach agentId retryFailed).2).waiter? := by
  unfold MemberRuntimeRegistry.reserveAttach
  split
  · exact .idle
  · split
    · next hentry => exact .joined agentId _ _ _ hentry rfl
    · exact .idle
    · next hentry =>
        split
        · exact move_startAttach (by simp [hentry, MemberRuntimeEntry.inProgress?])
        · exact .joined agentId _ _ _ hentry rfl
    · next hentry => exact .joined agentId _ _ _ hentry rfl
    · next hentry => exact move_startAttach (by simp [hentry])

theorem move_reserveRestart (agentId : String) :
    RegistryMove r (r.reserveRestart agentId).1
      ((RegistryResult.reserved (r.reserveRestart agentId).2).startedOn r.channels.length)
      (RegistryResult.reserved (r.reserveRestart agentId).2).waiter? := by
  unfold MemberRuntimeRegistry.reserveRestart
  split
  · exact .idle
  · split
    · next hentry => exact .joined agentId _ _ _ hentry rfl
    · next hentry => exact .joined agentId _ _ _ hentry rfl
    · next hentry => exact move_startAttach (by simp [hentry, MemberRuntimeEntry.inProgress?])
    · next hentry => exact move_startAttach (by simp [hentry, MemberRuntimeEntry.inProgress?])
    · next hentry => exact move_startAttach (by simp [hentry])

theorem move_reserveRepair (agentId : String) :
    RegistryMove r (r.reserveRepair agentId).1
      ((RegistryResult.reserved (r.reserveRepair agentId).2).startedOn r.channels.length)
      (RegistryResult.reserved (r.reserveRepair agentId).2).waiter? := by
  unfold MemberRuntimeRegistry.reserveRepair
  split
  · exact .idle
  · split
    · next hentry => exact .joined agentId _ _ _ hentry rfl
    · next hentry => exact move_startAttach (by simp [hentry, MemberRuntimeEntry.inProgress?])
    · next hentry => exact .joined agentId _ _ _ hentry rfl
    · next hentry => exact .joined agentId _ _ _ hentry rfl
    · next hentry => exact move_startAttach (by simp [hentry])

theorem move_commitAttach (lease : AttachLease) (entry : ℕ → MemberRuntimeEntry)
    (outcome : AttachOutcome)
    (hentry : ∀ channel, (entry channel).inProgress? = none ∧
      ∀ p, (entry channel).operation? = some p → p = (lease.operationId, channel)) :
    RegistryMove r (r.commitAttach lease entry outcome).1 none none := by
  unfold MemberRuntimeRegistry.commitAttach
  split
  · exact .idle
  · split
    · exact .idle
    · split
      · next operationId channel hlookup =>
          split
          · exact .idle
          · next hid =>
              obtain rfl := not_not.mp hid
              refine .settled lease.agentId _ lease.operationId channel (some (entry channel))
                outcome hlookup rfl fun e he ↦ ?_
              obtain rfl := Option.some.inj he
              exact hentry channel
      · exact .idle

theorem move_beginRemove (agentId : String) :
    RegistryMove r (r.beginRemove agentId).1
      ((RegistryResult.began (r.beginRemove agentId).2).startedOn r.channels.length)
      (RegistryResult.began (r.beginRemove agentId).2).waiter? := by
  have hopened : ∀ old, r.entries.lookup agentId = some old → old.inProgress? = none →
      RegistryMove r (r.openOperation agentId .removing)
        (some ⟨r.nextOperationId, agentId, r.channels.length⟩) none := by
    intro old hold hidle
    refine .opened agentId .removing none (fun _ _ ↦ rfl) (fun old' hold' ↦ ?_) (by simp)
    obtain rfl : old = old' := Option.some.inj (hold.symm.trans hold')
    exact hidle
  simp only [MemberRuntimeRegistry.beginRemove]
  split
  · exact .idle
  · split
    · next hentry => exact .joined agentId _ _ _ hentry rfl
    · next hentry => exact .replaced agentId _ _ hentry
    · next hentry => exact hopened _ hentry rfl
    · next hentry => exact hopened _ hentry rfl
    · exact .idle

theorem move_commitRemove (lease : RemoveLease) (after : ℕ → Option MemberRuntimeEntry)
    (outcome : AttachOutcome)
    (hafter : ∀ channel, ∀ e ∈ after channel, e.inProgress? = none ∧
      ∀ p, e.operation? = some p → p = (lease.operationId, channel)) :
    RegistryMove r (r.commitRemove lease after outcome).1 none none := by
  unfold MemberRuntimeRegistry.commitRemove
  split
  · exact .idle
  · split
    · exact .idle
    · split
      · next operationId channel hlookup =>
          split
          · exact .idle
          · next hid =>
              obtain rfl := not_not.mp hid
              have hsettled := RegistryMove.settled (r := r) lease.agentId _ lease.operationId channel
                (after channel) outcome hlookup rfl (hafter channel)
              split
              · next entry hentry =>
                  rw [hentry] at hsettled
                  exact hsettled
              · next hentry =>
                  rw [hentry] at hsettled
                  exact hsettled
      · exact .idle

theorem move_stop : RegistryMove r r.stop.1 none none := by
  unfold MemberRuntimeRegistry.stop
  split
  · exact .idle
  · exact .stopped

theorem registryMove (op : RegistryOp) : RegistryMove r (r.perform op).1
    ((r.perform op).2.startedOn r.channels.length) (r.perform op).2.waiter? := by
  cases op with
  | reserveAttach agentId retryFailed => exact move_reserveAttach agentId retryFailed
  | reserveRestart agentId => exact move_reserveRestart agentId
  | reserveRepair agentId => exact move_reserveRepair agentId
  | commitReady lease =>
      exact move_commitAttach lease (fun _ ↦ .ready) .ready fun _ ↦ ⟨rfl, fun _ hp ↦ by cases hp⟩
  | commitFailed lease failure =>
      exact move_commitAttach lease (.failed lease.operationId failure) (.failed failure) fun _ ↦
        ⟨rfl, fun _ hp ↦ (Option.some.inj hp).symm⟩
  | beginRemove agentId => exact move_beginRemove agentId
  | finishRemove lease =>
      exact move_commitRemove lease (fun _ ↦ none) .removed fun _ _ he ↦ by cases he
  | restoreAttachRequiredAfterRemovePersistError lease failure =>
      refine move_commitRemove lease (fun channel ↦ some (.failed lease.operationId failure channel))
        (.failed failure) fun channel e he ↦ ?_
      obtain rfl := Option.some.inj he
      exact ⟨rfl, fun _ hp ↦ (Option.some.inj hp).symm⟩
  | stop => exact move_stop

end Moves

section Channels

variable {r r' : MemberRuntimeRegistry}

structure ChannelsAgree (r : MemberRuntimeRegistry) : Prop where
  held : ∀ agentId entry operationId channel, r.entries.lookup agentId = some entry →
    entry.inProgress? = some (operationId, channel) → r.channels[channel]? = some .pending
  pending : ∀ channel, r.channels[channel]? = some .pending →
    ∃ agentId entry operationId, r.entries.lookup agentId = some entry ∧
      entry.inProgress? = some (operationId, channel)
  unique : ∀ agentId agentId' entry entry' operationId operationId' channel,
    r.entries.lookup agentId = some entry → entry.inProgress? = some (operationId, channel) →
    r.entries.lookup agentId' = some entry' → entry'.inProgress? = some (operationId', channel) →
      agentId = agentId'

def HeldBy (r : MemberRuntimeRegistry) (agentId : String) (channel : ℕ) : Prop :=
  ∃ entry operationId, r.entries.lookup agentId = some entry ∧
    entry.inProgress? = some (operationId, channel)

/-- The entry of one agent is replaced: what it worked on gets an outcome, and what it works on
afterwards has a new channel. -/
structure Reassigned (r r' : MemberRuntimeRegistry) (agentId : String) (outcome : AttachOutcome) :
    Prop where
  others : ∀ other, other ≠ agentId → r'.entries.lookup other = r.entries.lookup other
  fresh : ∀ channel, HeldBy r' agentId channel → channel = r.channels.length
  ended : ∀ channel, HeldBy r agentId channel →
    r'.channels[channel]? = some (.terminal outcome)
  kept : ∀ channel, channel < r.channels.length → ¬ HeldBy r agentId channel →
    r'.channels[channel]? = r.channels[channel]?
  last : r'.channels[r.channels.length]? = some .pending ↔ HeldBy r' agentId r.channels.length
  bound : r'.channels.length ≤ r.channels.length + 1

theorem lt_of_signal {channel : ℕ} {signal : AttachSignal}
    (h : r.channels[channel]? = some signal) : channel < r.channels.length :=
  (List.getElem?_eq_some_iff.mp h).1

theorem Reassigned.agree {agentId : String} {outcome : AttachOutcome}
    (h : Reassigned r r' agentId outcome) (hagree : ChannelsAgree r) : ChannelsAgree r' := by
  have hold : ∀ {other entry operationId channel}, other ≠ agentId →
      r'.entries.lookup other = some entry → entry.inProgress? = some (operationId, channel) →
        r.entries.lookup other = some entry ∧ channel < r.channels.length ∧
          ¬ HeldBy r agentId channel := by
    intro other entry operationId channel hne hentry hprogress
    rw [h.others other hne] at hentry
    refine ⟨hentry, lt_of_signal (hagree.held other entry operationId channel hentry hprogress), ?_⟩
    rintro ⟨entry', operationId', hentry', hprogress'⟩
    exact hne (hagree.unique other agentId entry entry' operationId operationId' channel hentry
      hprogress hentry' hprogress')
  refine ⟨?_, ?_, ?_⟩
  · intro other entry operationId channel hentry hprogress
    by_cases hother : other = agentId
    · have hheld : HeldBy r' agentId channel := ⟨entry, operationId, hother ▸ hentry, hprogress⟩
      obtain rfl := h.fresh channel hheld
      exact h.last.mpr hheld
    · obtain ⟨hentry', hlt, hnot⟩ := hold hother hentry hprogress
      rw [h.kept channel hlt hnot]
      exact hagree.held other entry operationId channel hentry' hprogress
  · intro channel hpending
    by_cases hlt : channel < r.channels.length
    · by_cases hheld : HeldBy r agentId channel
      · rw [h.ended channel hheld] at hpending
        cases hpending
      · rw [h.kept channel hlt hheld] at hpending
        obtain ⟨other, entry, operationId, hentry, hprogress⟩ := hagree.pending channel hpending
        have hne : other ≠ agentId := by
          rintro rfl
          exact hheld ⟨entry, operationId, hentry, hprogress⟩
        exact ⟨other, entry, operationId, (h.others other hne).trans hentry, hprogress⟩
    · have hlt' := lt_of_signal hpending
      have hbound := h.bound
      obtain rfl : channel = r.channels.length := by omega
      obtain ⟨entry, operationId, hentry, hprogress⟩ := h.last.mp hpending
      exact ⟨agentId, entry, operationId, hentry, hprogress⟩
  · intro first second entry entry' operationId operationId' channel hentry hprogress hentry'
      hprogress'
    by_cases hfirst : first = agentId <;> by_cases hsecond : second = agentId
    · rw [hfirst, hsecond]
    · have hlast := h.fresh channel ⟨entry, operationId, hfirst ▸ hentry, hprogress⟩
      have hlt := (hold hsecond hentry' hprogress').2.1
      omega
    · have hlast := h.fresh channel ⟨entry', operationId', hsecond ▸ hentry', hprogress'⟩
      have hlt := (hold hfirst hentry hprogress).2.1
      omega
    · exact hagree.unique first second entry entry' operationId operationId' channel
        (hold hfirst hentry hprogress).1 hprogress (hold hsecond hentry' hprogress').1 hprogress'

theorem Reassigned.terminal {agentId : String} {outcome : AttachOutcome}
    (h : Reassigned r r' agentId outcome) (hagree : ChannelsAgree r) {channel : ℕ}
    {done : AttachOutcome} (hdone : r.channels[channel]? = some (.terminal done)) :
    r'.channels[channel]? = some (.terminal done) := by
  rw [h.kept channel (lt_of_signal hdone), hdone]
  rintro ⟨entry, operationId, hentry, hprogress⟩
  rw [hagree.held agentId entry operationId channel hentry hprogress] at hdone
  cases hdone

theorem reassigned_opened {agentId : String} {entry : ℕ → ℕ → MemberRuntimeEntry}
    (hentry : ∀ operationId channel,
      (entry operationId channel).inProgress? = some (operationId, channel))
    (hold : ∀ old, r.entries.lookup agentId = some old → old.inProgress? = none) :
    Reassigned r (r.openOperation agentId entry) agentId .removed := by
  have hnew : (r.openOperation agentId entry).entries.lookup agentId =
      some (entry r.nextOperationId r.channels.length) := AList.lookup_insert r.entries
  have hchannels : (r.openOperation agentId entry).channels = r.channels ++ [AttachSignal.pending] := rfl
  have hidle : ∀ channel, ¬ HeldBy r agentId channel := by
    rintro channel ⟨old, operationId, hlookup, hprogress⟩
    rw [hold old hlookup] at hprogress
    cases hprogress
  refine ⟨fun other hne ↦ AList.lookup_insert_ne hne, ?_, fun channel hheld ↦
    absurd hheld (hidle channel), ?_, ?_, ?_⟩
  · rintro channel ⟨e, operationId, hlookup, hprogress⟩
    rw [hnew] at hlookup
    obtain rfl := Option.some.inj hlookup
    exact (Prod.mk.inj (Option.some.inj ((hentry _ _).symm.trans hprogress))).2.symm
  · intro channel hlt _
    rw [hchannels, List.getElem?_append_left hlt]
  · refine iff_of_true ?_ ⟨_, _, hnew, hentry _ _⟩
    rw [hchannels, List.getElem?_append_right le_rfl]
    simp
  · simp [hchannels]

theorem reassigned_replaced {agentId : String} {operationId channel : ℕ}
    (hentry : r.entries.lookup agentId = some (.attaching operationId channel))
    (hheld : r.channels[channel]? = some .pending) :
    Reassigned r ((r.openOperation agentId .removing).send channel .removed) agentId .removed := by
  have hlt := lt_of_signal hheld
  have hnew : ((r.openOperation agentId .removing).send channel .removed).entries.lookup agentId =
      some (.removing r.nextOperationId r.channels.length) := AList.lookup_insert r.entries
  have hchannels : ((r.openOperation agentId .removing).send channel .removed).channels =
      (r.channels ++ [AttachSignal.pending]).set channel (.terminal .removed) := rfl
  have hchannel : ∀ other, HeldBy r agentId other → other = channel := by
    rintro other ⟨e, id, hlookup, hprogress⟩
    rw [hentry] at hlookup
    obtain rfl := Option.some.inj hlookup
    exact (Prod.mk.inj (Option.some.inj hprogress)).2.symm
  refine ⟨fun other hne ↦ AList.lookup_insert_ne hne, ?_, ?_, ?_, ?_, ?_⟩
  · rintro other ⟨e, id, hlookup, hprogress⟩
    rw [hnew] at hlookup
    obtain rfl := Option.some.inj hlookup
    exact (Prod.mk.inj (Option.some.inj hprogress)).2.symm
  · intro other hother
    obtain rfl := hchannel other hother
    rw [hchannels, List.getElem?_set_self (by simp; omega)]
  · intro other hlt' hnot
    have hne : channel ≠ other := by
      rintro rfl
      exact hnot ⟨_, operationId, hentry, rfl⟩
    rw [hchannels, List.getElem?_set_ne hne, List.getElem?_append_left hlt']
  · refine iff_of_true ?_ ⟨_, _, hnew, rfl⟩
    rw [hchannels, List.getElem?_set_ne (by omega), List.getElem?_append_right le_rfl]
    simp
  · simp [hchannels]

theorem lookup_settledEntries {agentId other : String} {after : Option MemberRuntimeEntry} :
    (settledEntries r agentId after).lookup other =
      if other = agentId then after else r.entries.lookup other := by
  cases after with
  | none => exact Table.lookup_erase_eq
  | some entry => exact Table.lookup_insert_eq entry

theorem reassigned_settled {agentId : String} {entry : MemberRuntimeEntry}
    {operationId channel : ℕ} {after : Option MemberRuntimeEntry} (outcome : AttachOutcome)
    (hentry : r.entries.lookup agentId = some entry)
    (hprogress : entry.inProgress? = some (operationId, channel))
    (hheld : r.channels[channel]? = some .pending)
    (hafter : ∀ e ∈ after, e.inProgress? = none) :
    Reassigned r ({ r with entries := settledEntries r agentId after }.send channel outcome) agentId
      outcome := by
  have hlt := lt_of_signal hheld
  have hidle : ∀ other, ¬ HeldBy
      ({ r with entries := settledEntries r agentId after }.send channel outcome) agentId other := by
    rintro other ⟨e, id, hlookup, he⟩
    have hsome : after = some e := by
      rw [← hlookup]
      exact (lookup_settledEntries.trans (if_pos rfl)).symm
    rw [hafter e hsome] at he
    cases he
  have hchannel : ∀ other, HeldBy r agentId other ↔ other = channel := by
    intro other
    constructor
    · rintro ⟨e, id, hlookup, he⟩
      obtain rfl : entry = e := Option.some.inj (hentry.symm.trans hlookup)
      exact (Prod.mk.inj (Option.some.inj (hprogress.symm.trans he))).2.symm
    · rintro rfl
      exact ⟨entry, operationId, hentry, hprogress⟩
  have hchannels : ({ r with entries := settledEntries r agentId after }.send channel
      outcome).channels = r.channels.set channel (.terminal outcome) := rfl
  refine ⟨fun other hne ↦ lookup_settledEntries.trans (if_neg hne), fun other hother ↦
    absurd hother (hidle other), ?_, ?_, ?_, ?_⟩
  · intro other hother
    obtain rfl := (hchannel other).mp hother
    rw [hchannels, List.getElem?_set_self hlt]
  · intro other _ hnot
    rw [hchannels, List.getElem?_set_ne fun heq ↦ hnot ((hchannel other).mpr heq.symm)]
  · refine iff_of_false ?_ (hidle _)
    rw [hchannels, List.getElem?_eq_none (by simp)]
    simp
  · simp [hchannels]

def heldChannels (values : List MemberRuntimeEntry) : List ℕ :=
  values.filterMap fun entry ↦ entry.inProgress?.map Prod.snd

theorem getElem?_setAll {α : Type*} (value : α) (ks : List ℕ) (l : List α) (i : ℕ) :
    (ks.foldl (fun l k ↦ l.set k value) l)[i]? =
      if i ∈ ks then l[i]?.map fun _ ↦ value else l[i]? := by
  induction ks generalizing l with
  | nil => simp
  | cons k ks ih =>
      rw [List.foldl_cons, ih, List.getElem?_set]
      by_cases hk : k = i
      · subst hk
        by_cases hlt : k < l.length
        · simp [hlt]
        · simp [hlt]
      · simp [hk, Ne.symm hk]

theorem drain_channels (values : List MemberRuntimeEntry) (channel : ℕ) :
    (values.foldl MemberRuntimeRegistry.drain r).channels[channel]? =
      if channel ∈ heldChannels values then
        r.channels[channel]?.map fun _ ↦ .terminal .sessionStopped
      else r.channels[channel]? := by
  rw [← getElem?_setAll]
  congr 1
  induction values generalizing r with
  | nil => rfl
  | cons entry values ih => cases entry <;> exact ih

theorem drain_counter (values : List MemberRuntimeEntry) :
    (values.foldl MemberRuntimeRegistry.drain r).nextOperationId = r.nextOperationId ∧
      (values.foldl MemberRuntimeRegistry.drain r).sessionGeneration = r.sessionGeneration ∧
        (values.foldl MemberRuntimeRegistry.drain r).channels.length = r.channels.length := by
  induction values generalizing r with
  | nil => exact ⟨rfl, rfl, rfl⟩
  | cons entry values ih =>
      obtain ⟨hnext, hgen, hlength⟩ := ih (r := r.drain entry)
      cases entry <;>
        exact ⟨hnext, hgen, hlength.trans (by simp [MemberRuntimeRegistry.drain,
          MemberRuntimeRegistry.send])⟩

theorem mem_heldChannels {channel : ℕ} : channel ∈ heldChannels r.entries.values ↔
    ∃ agentId, HeldBy r agentId channel := by
  simp only [heldChannels, List.mem_filterMap, Table.mem_values_iff, Option.map_eq_some_iff]
  constructor
  · rintro ⟨entry, ⟨agentId, hentry⟩, ⟨operationId, _⟩, hprogress, rfl⟩
    exact ⟨agentId, entry, operationId, hentry, hprogress⟩
  · rintro ⟨agentId, entry, operationId, hentry, hprogress⟩
    exact ⟨entry, ⟨agentId, hentry⟩, ⟨operationId, channel⟩, hprogress, rfl⟩

theorem agree_move {started : Option StartedOperation} {waiter : Option AttachWaiter}
    (hagree : ChannelsAgree r) (hmove : RegistryMove r r' started waiter) :
    ChannelsAgree r' ∧ ∀ (channel : ℕ) (done : AttachOutcome),
      r.channels[channel]? = some (AttachSignal.terminal done) →
        r'.channels[channel]? = some (AttachSignal.terminal done) := by
  cases hmove with
  | idle => exact ⟨hagree, fun _ _ h ↦ h⟩
  | joined agentId entry operationId channel hentry hoperation => exact ⟨hagree, fun _ _ h ↦ h⟩
  | opened agentId entry waiter hentry hold hwaiter =>
      have hre := reassigned_opened hentry hold
      exact ⟨hre.agree hagree, fun _ _ h ↦ hre.terminal hagree h⟩
  | replaced agentId operationId channel hentry =>
      have hre := reassigned_replaced hentry
        (hagree.held agentId _ operationId channel hentry rfl)
      exact ⟨hre.agree hagree, fun _ _ h ↦ hre.terminal hagree h⟩
  | settled agentId entry operationId channel after outcome hentry hprogress hafter =>
      have hre := reassigned_settled outcome hentry hprogress
        (hagree.held agentId entry operationId channel hentry hprogress) fun e he ↦ (hafter e he).1
      exact ⟨hre.agree hagree, fun _ _ h ↦ hre.terminal hagree h⟩
  | stopped =>
      refine ⟨⟨by simp, fun channel hpending ↦ ?_, by simp⟩, fun channel done hdone ↦ ?_⟩
      · change (List.foldl MemberRuntimeRegistry.drain r _).channels[channel]? = _ at hpending
        rw [drain_channels] at hpending
        split at hpending
        · obtain ⟨signal, _, hsignal⟩ := Option.map_eq_some_iff.mp hpending
          cases hsignal
        · next hnot =>
            obtain ⟨agentId, hheld⟩ := hagree.pending channel hpending
            exact absurd (mem_heldChannels.mpr ⟨agentId, hheld⟩) hnot
      · change (List.foldl MemberRuntimeRegistry.drain r _).channels[channel]? = _
        rw [drain_channels, if_neg, hdone]
        intro hmem
        obtain ⟨agentId, entry, operationId, hentry, hprogress⟩ := mem_heldChannels.mp hmem
        rw [hagree.held agentId entry operationId channel hentry hprogress] at hdone
        cases hdone

theorem started_pending {started : StartedOperation} {waiter : Option AttachWaiter}
    (hagree : ChannelsAgree r) (hmove : RegistryMove r r' (some started) waiter) :
    r'.channels[started.channel]? = some .pending := by
  cases hmove with
  | opened agentId entry waiter hentry hold hwaiter =>
      have hnew := AList.lookup_insert (a := agentId)
        (b := entry r.nextOperationId r.channels.length) r.entries
      exact (reassigned_opened hentry hold).last.mpr ⟨_, _, hnew, hentry _ _⟩
  | replaced agentId operationId channel hentry =>
      have hnew := AList.lookup_insert (a := agentId)
        (b := MemberRuntimeEntry.removing r.nextOperationId r.channels.length) r.entries
      have hre := reassigned_replaced hentry (hagree.held agentId _ operationId channel hentry rfl)
      exact hre.last.mpr ⟨_, _, hnew, rfl⟩

end Channels

section Leases

inductive MemberLease
  | attach (lease : AttachLease)
  | remove (lease : RemoveLease)

namespace MemberLease

def sessionGeneration : MemberLease → String
  | attach lease => lease.sessionGeneration
  | remove lease => lease.sessionGeneration

def agentId : MemberLease → String
  | attach lease => lease.agentId
  | remove lease => lease.agentId

def operationId : MemberLease → ℕ
  | attach lease => lease.operationId
  | remove lease => lease.operationId

def entry (channel : ℕ) : MemberLease → MemberRuntimeEntry
  | attach lease => .attaching lease.operationId channel
  | remove lease => .removing lease.operationId channel

def Current (r : MemberRuntimeRegistry) (lease : MemberLease) : Prop :=
  lease.sessionGeneration = r.sessionGeneration ∧
    ∃ channel, r.entries.lookup lease.agentId = some (lease.entry channel)

theorem entry_inProgress (lease : MemberLease) (channel : ℕ) :
    (lease.entry channel).inProgress? = some (lease.operationId, channel) := by
  cases lease with
  | attach lease => rfl
  | remove lease => rfl

end MemberLease

def RegistryOp.lease? : RegistryOp → Option MemberLease
  | commitReady lease | commitFailed lease _ => some (.attach lease)
  | finishRemove lease | restoreAttachRequiredAfterRemovePersistError lease _ =>
      some (.remove lease)
  | _ => none

def MemberRuntimeRegistry.Commits (r : MemberRuntimeRegistry) (op : RegistryOp) : Prop :=
  (r.perform op).2 = .committed true

variable {r : MemberRuntimeRegistry}

theorem commitAttach_iff (lease : AttachLease) (entry : ℕ → MemberRuntimeEntry)
    (outcome : AttachOutcome) : (r.commitAttach lease entry outcome).2 = true ↔
      r.stopped = false ∧ (MemberLease.attach lease).Current r := by
  unfold MemberRuntimeRegistry.commitAttach
  split
  · next hgeneration => exact iff_of_false Bool.false_ne_true fun h ↦ hgeneration h.2.1
  · next hgeneration =>
      split
      · next hstopped => exact iff_of_false Bool.false_ne_true fun h ↦ by simp [hstopped] at h
      · next hstopped =>
          split
          · next operationId channel hlookup =>
              split
              · next hid =>
                  refine iff_of_false Bool.false_ne_true fun h ↦ hid ?_
                  obtain ⟨_, _, _, hcurrent⟩ := h
                  injection Option.some.inj (hlookup.symm.trans hcurrent)
              · next hid =>
                  obtain rfl := not_not.mp hid
                  exact iff_of_true rfl
                    ⟨eq_false_of_ne_true hstopped, not_not.mp hgeneration, channel, hlookup⟩
          · next hother =>
              refine iff_of_false Bool.false_ne_true fun h ↦ ?_
              obtain ⟨_, _, channel, hcurrent⟩ := h
              exact hother _ channel hcurrent

theorem commitRemove_iff (lease : RemoveLease) (after : ℕ → Option MemberRuntimeEntry)
    (outcome : AttachOutcome) : (r.commitRemove lease after outcome).2 = true ↔
      r.stopped = false ∧ (MemberLease.remove lease).Current r := by
  unfold MemberRuntimeRegistry.commitRemove
  split
  · next hgeneration => exact iff_of_false Bool.false_ne_true fun h ↦ hgeneration h.2.1
  · next hgeneration =>
      split
      · next hstopped => exact iff_of_false Bool.false_ne_true fun h ↦ by simp [hstopped] at h
      · next hstopped =>
          split
          · next operationId channel hlookup =>
              split
              · next hid =>
                  refine iff_of_false Bool.false_ne_true fun h ↦ hid ?_
                  obtain ⟨_, _, _, hcurrent⟩ := h
                  injection Option.some.inj (hlookup.symm.trans hcurrent)
              · next hid =>
                  obtain rfl := not_not.mp hid
                  have hcurrent : (MemberLease.remove lease).Current r :=
                    ⟨not_not.mp hgeneration, channel, hlookup⟩
                  split <;> exact iff_of_true rfl ⟨eq_false_of_ne_true hstopped, hcurrent⟩
          · next hother =>
              refine iff_of_false Bool.false_ne_true fun h ↦ ?_
              obtain ⟨_, _, channel, hcurrent⟩ := h
              exact hother _ channel hcurrent

theorem commits_iff {op : RegistryOp} {lease : MemberLease} (hlease : op.lease? = some lease) :
    r.Commits op ↔ r.stopped = false ∧ lease.Current r := by
  have hcommitted : ∀ success, RegistryResult.committed success = .committed true ↔
      success = true := fun _ ↦ by simp
  cases op with
  | commitReady lease' =>
      obtain rfl := Option.some.inj hlease
      exact (hcommitted _).trans (commitAttach_iff lease' _ _)
  | commitFailed lease' failure =>
      obtain rfl := Option.some.inj hlease
      exact (hcommitted _).trans (commitAttach_iff lease' _ _)
  | finishRemove lease' =>
      obtain rfl := Option.some.inj hlease
      exact (hcommitted _).trans (commitRemove_iff lease' (fun _ ↦ none) .removed)
  | restoreAttachRequiredAfterRemovePersistError lease' failure =>
      obtain rfl := Option.some.inj hlease
      exact (hcommitted _).trans (commitRemove_iff lease'
        (fun channel ↦ some (.failed lease'.operationId failure channel)) (.failed failure))
  | _ => cases hlease

theorem commitAttach_sends {lease : AttachLease} {channel : ℕ} (hstopped : r.stopped = false)
    (hgeneration : lease.sessionGeneration = r.sessionGeneration)
    (hentry : r.entries.lookup lease.agentId = some (.attaching lease.operationId channel))
    (entry : ℕ → MemberRuntimeEntry) (outcome : AttachOutcome) :
    (r.commitAttach lease entry outcome).1.channels =
      r.channels.set channel (.terminal outcome) := by
  simp [MemberRuntimeRegistry.commitAttach, hstopped, hgeneration, hentry,
    MemberRuntimeRegistry.send, MemberRuntimeRegistry.setEntry]

theorem commitRemove_sends {lease : RemoveLease} {channel : ℕ} (hstopped : r.stopped = false)
    (hgeneration : lease.sessionGeneration = r.sessionGeneration)
    (hentry : r.entries.lookup lease.agentId = some (.removing lease.operationId channel))
    (after : ℕ → Option MemberRuntimeEntry) (outcome : AttachOutcome) :
    (r.commitRemove lease after outcome).1.channels =
      r.channels.set channel (.terminal outcome) := by
  cases h : after channel <;>
    simp [MemberRuntimeRegistry.commitRemove, hstopped, hgeneration, hentry, h,
      MemberRuntimeRegistry.send, MemberRuntimeRegistry.setEntry]

theorem commits_sends {op : RegistryOp} {lease : MemberLease} {channel : ℕ}
    (hlease : op.lease? = some lease) (hcommits : r.Commits op)
    (hentry : r.entries.lookup lease.agentId = some (lease.entry channel)) :
    ∃ outcome, (r.perform op).1.channels = r.channels.set channel (.terminal outcome) := by
  obtain ⟨hstopped, hgeneration, _⟩ := (commits_iff hlease).mp hcommits
  cases op with
  | commitReady lease' =>
      obtain rfl := Option.some.inj hlease
      exact ⟨_, commitAttach_sends hstopped hgeneration hentry _ _⟩
  | commitFailed lease' failure =>
      obtain rfl := Option.some.inj hlease
      exact ⟨_, commitAttach_sends hstopped hgeneration hentry _ _⟩
  | finishRemove lease' =>
      obtain rfl := Option.some.inj hlease
      exact ⟨.removed, commitRemove_sends hstopped hgeneration hentry (fun _ ↦ none) .removed⟩
  | restoreAttachRequiredAfterRemovePersistError lease' failure =>
      obtain rfl := Option.some.inj hlease
      exact ⟨.failed failure, commitRemove_sends hstopped hgeneration hentry
        (fun channel ↦ some (.failed lease'.operationId failure channel)) (.failed failure)⟩
  | _ => cases hlease

end Leases

end Zaowutai.Team
