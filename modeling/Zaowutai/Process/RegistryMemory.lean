import Zaowutai.Process.ReapTrace

/-!
# What the registry forgets

A prune removes every row with the pid, whatever became of the kill before it.
The reap therefore forgets a process that it may still have to reap when the
kill was refused, when the row belongs to the current run, or when the row was
recorded under the pid in the meantime.
-/

namespace Zaowutai.Process

open Zaowutai.Lib

/-- The start time of the process that holds a pid at some point of a trace. -/
abbrev Holder := List Event → UInt32 → Option UInt64

def KeepsIdentity (holder : Holder) (trace : List Event) (id : ProcessIdentity) : Prop :=
  id.startTimeTicks.isSome ∧ holder trace id.pid = id.startTimeTicks

def Event.KillDeclined (row : RegisteredProcess) (e : Event) : Prop :=
  e = .refused row.pid row.pgid row.startTimeTicks ∨
    e = .reapFailed row.pid row.pgid row.startTimeTicks

structure MayForget (os : Os) (holder : Holder) (found : Rows) (currentEpoch : Uuid)
    (currentMachine : String) (before : List Event) (id : ProcessIdentity) : Prop where
  notOwn : id.instanceEpoch = currentEpoch → ¬ KeepsIdentity holder before id
  classified : ∃ row ∈ found, row.identity = id
  declined : ∀ row ticks, IsOrphan os found currentEpoch currentMachine row ticks →
    row.identity = id → (∃ e ∈ before, e.KillDeclined row) → ¬ KeepsIdentity holder before id

/-- The law of the removals of a reap that has read the rows `found`. -/
def RemovalSafe (os : Os) (holder : Holder) (found : Rows) (currentEpoch : Uuid)
    (currentMachine : String) (before : List Event) : Event → Prop
  | .unregistered id => MayForget os holder found currentEpoch currentMachine before id
  | _ => True

def foundRows (os : Os) (rows : Rows) : Rows := (os.calls []).foldl StoreCall.perform rows

/-- What the registry, the other tasks and the operating system have to be like. -/
structure PrunesInnocently (os : Os) (holder : Holder) (found : Rows) (currentEpoch : Uuid)
    (currentMachine : String) : Prop where
  own : ∀ row ∈ found, row.instanceEpoch = currentEpoch → ∀ trace,
    gatherTrace os found <+: trace → ¬ KeepsIdentity holder trace row.identity
  recorded : ∀ trace entry, gatherTrace os found <+: trace → .record entry ∈ os.calls trace →
    (∃ row ∈ found, row.pid = entry.pid) → ∃ row ∈ found, row.identity = entry.identity
  killed : ∀ row ticks, IsOrphan os found currentEpoch currentMachine row ticks →
    ∀ trace later, gatherTrace os found <+: trace → trace <+: later →
      KeepsIdentity holder later row.identity →
      (∀ group, row.pgid = some group → os.getpgrp trace ≠ group.toNat) ∧
        ∀ target, KillTarget row.pid row.pgid target → KillAccepted (os.sigkill trace target)

section Proof

variable {os : Os} {holder : Holder} {found : Rows} {lockState : LockState} {currentEpoch : Uuid}
  {currentMachine : String}

theorem of_pruneRegistryEntry_mem {canKill : Bool} {liveness : List Liveness} {pid : UInt32}
    (h : .pruneRegistryEntry pid ∈ reconcileWithCapability
      ⟨found, liveness, lockState, currentEpoch, currentMachine⟩ canKill) :
    ∃ row ∈ found, row.pid = pid := by
  rw [reconcileWithCapability] at h
  split at h
  · cases h
  · obtain ⟨⟨row, live⟩, hmem, haction⟩ := List.mem_flatMap.mp h
    refine ⟨row, (List.of_mem_zip hmem).1, ?_⟩
    simp only [rowActions] at haction
    split at haction
    · simpa [eq_comm] using haction
    · split at haction
      · split at haction
        all_goals simpa [eq_comm] using haction
      all_goals simpa [eq_comm] using haction

def DeclinesGone (os : Os) (holder : Holder) (found : Rows) (currentEpoch : Uuid)
    (currentMachine : String) (before : List Event) (e : Event) : Prop :=
  ∀ row ticks, IsOrphan os found currentEpoch currentMachine row ticks → e.KillDeclined row →
    ∀ later, before <+: later → ¬ KeepsIdentity holder later row.identity

def RowsClassified (found rows : Rows) : Prop :=
  ∀ row ∈ rows, (∃ r ∈ found, r.pid = row.pid) → ∃ r ∈ found, r.identity = row.identity

/-- What a reap keeps while the inputs are as they have to be. -/
structure Remembers (os : Os) (holder : Holder) (found : Rows) (currentEpoch : Uuid)
    (currentMachine : String) (w : World) : Prop where
  gathered : gatherTrace os found <+: w.trace
  removals : Lawful (RemovalSafe os holder found currentEpoch currentMachine) w.trace
  declines : Lawful (DeclinesGone os holder found currentEpoch currentMachine) w.trace
  rows : RowsClassified found w.rows

theorem declinesGone_of_ne {before : List Event} {e : Event}
    (h : ∀ row, ¬ e.KillDeclined row) :
    DeclinesGone os holder found currentEpoch currentMachine before e :=
  fun row _ _ hdeclined ↦ absurd hdeclined (h row)

theorem rowsClassified_calls {w : World} (hgathered : gatherTrace os found <+: w.trace)
    (h : PrunesInnocently os holder found currentEpoch currentMachine)
    (hrows : RowsClassified found w.rows) : RowsClassified found (interleave os w).rows := by
  have hfold : ∀ (calls : List StoreCall), (∀ call ∈ calls, call ∈ os.calls w.trace) →
      ∀ rows, RowsClassified found rows →
        RowsClassified found (calls.foldl StoreCall.perform rows) := by
    intro calls
    induction calls with
    | nil => exact fun _ _ hrows ↦ hrows
    | cons call calls ih =>
        intro hcalls rows hrows
        refine ih (fun c hc ↦ hcalls c (List.mem_cons_of_mem _ hc)) _ ?_
        have hcall := hcalls call List.mem_cons_self
        cases call with
        | record entry =>
            intro row hrow hpid
            obtain ⟨hold, -⟩ | rfl := Rows.mem_record.mp hrow
            · exact hrows row hold hpid
            · exact h.recorded w.trace row hgathered hcall hpid
        | unregister id =>
            intro row hrow hpid
            exact hrows row (Rows.mem_unregister.mp hrow).1 hpid
  exact hfold _ (fun _ h ↦ h) _ hrows

theorem Remembers.log {w : World} {e : Event}
    (hw : Remembers os holder found currentEpoch currentMachine w)
    (hremoval : RemovalSafe os holder found currentEpoch currentMachine w.trace e)
    (hdecline : DeclinesGone os holder found currentEpoch currentMachine w.trace e) :
    Remembers os holder found currentEpoch currentMachine (w.log e) where
  gathered := hw.gathered.trans (List.prefix_append _ _)
  removals := lawful_snoc.mpr ⟨hw.removals, hremoval⟩
  declines := lawful_snoc.mpr ⟨hw.declines, hdecline⟩
  rows := hw.rows

theorem toU32_eq_some {n : ℤ} {m : UInt32} (h : toU32 n = some m) : n = m.toNat := by
  rw [toU32] at h
  split at h
  · next hrange =>
      obtain rfl := Option.some.inj h
      have hnat : (UInt32.ofNat n.toNat).toNat = n.toNat := UInt32.toNat_ofNat_of_lt' hrange.2
      rw [hnat]
      omega
  · cases h

theorem Remembers.remove {w : World} {id : ProcessIdentity}
    (h : PrunesInnocently os holder found currentEpoch currentMachine)
    (hid : ∃ row ∈ found, row.identity = id)
    (hw : Remembers os holder found currentEpoch currentMachine w) :
    Remembers os holder found currentEpoch currentMachine (w.remove id) := by
  have hforget : MayForget os holder found currentEpoch currentMachine w.trace id := by
    refine ⟨fun hepoch ↦ ?_, hid, ?_⟩
    · obtain ⟨row, hrow, rfl⟩ := hid
      exact h.own row hrow hepoch w.trace hw.gathered
    · rintro row ticks horphan rfl ⟨e, he, hdeclined⟩
      obtain ⟨before, after, htrace⟩ := List.append_of_mem he
      have hlaw := lawful_iff.mp hw.declines before e after htrace
      refine hlaw row ticks horphan hdeclined w.trace ?_
      rw [htrace]
      exact List.prefix_append _ _
  have hrows : RowsClassified found (w.rows.unregister id) :=
    fun row hrow ↦ hw.rows row (Rows.mem_unregister.mp hrow).1
  have hkept : Remembers os holder found currentEpoch currentMachine
      (World.mk (w.rows.unregister id) w.trace) := ⟨hw.gathered, hw.removals, hw.declines, hrows⟩
  exact hkept.log hforget (declinesGone_of_ne fun row ↦ by simp [Event.KillDeclined])

theorem Remembers.reaped {w : World} {pid : UInt32} {pgid : Option UInt32}
    {recordedStartTicks : Option UInt64} {events : List Event}
    (h : PrunesInnocently os holder found currentEpoch currentMachine)
    (hw : Remembers os holder found currentEpoch currentMachine w)
    (houtcome : ReapOutcome os w.trace pid pgid recordedStartTicks events) :
    Remembers os holder found currentEpoch currentMachine
      { w with trace := recheckTrace os w.trace pid ++ events } := by
  have hprobed : Remembers os holder found currentEpoch currentMachine
      (w.log (.probed pid (observe os w.trace pid))) :=
    hw.log trivial (declinesGone_of_ne fun row ↦ by simp [Event.KillDeclined])
  have hrecheck : Remembers os holder found currentEpoch currentMachine (recheck os w pid) :=
    hprobed.log trivial (declinesGone_of_ne fun row ↦ by simp [Event.KillDeclined])
  cases houtcome with
  | skipped =>
      exact hrecheck.log trivial (declinesGone_of_ne fun row ↦ by simp [Event.KillDeclined])
  | refused halive hown =>
      obtain ⟨group, hgroup, hown⟩ := hown
      refine hrecheck.log trivial ?_
      rintro row ticks horphan hdeclined later hlater hkeeps
      have hpgid : row.pgid = some group := by
        obtain heq | heq := hdeclined
        · injection heq with _ hsame
          rw [← hsame, hgroup]
        · cases heq
      have hasked := (h.killed row ticks horphan _ later hprobed.gathered
        ((List.prefix_append _ _).trans hlater) hkeeps).1 group hpgid
      exact hasked (toU32_eq_some hown)
  | killed target answer halive hforeign htarget haccepted =>
      exact hrecheck.log trivial (declinesGone_of_ne fun row ↦ by simp [Event.KillDeclined])
  | failed target answer halive hforeign htarget hanswer hrejected =>
      have hkilled : Remembers os holder found currentEpoch currentMachine
          ((recheck os w pid).log (.killed target answer)) :=
        hrecheck.log trivial (declinesGone_of_ne fun row ↦ by simp [Event.KillDeclined])
      have hfailed : Remembers os holder found currentEpoch currentMachine
          (((recheck os w pid).log (.killed target answer)).log
            (.reapFailed pid pgid recordedStartTicks)) := by
        refine hkilled.log trivial ?_
        rintro row ticks horphan hdeclined later hlater hkeeps
        have hsame : pid = row.pid ∧ pgid = row.pgid := by
          obtain heq | heq := hdeclined
          · cases heq
          · injection heq with hpid hpgid
            exact ⟨hpid, hpgid⟩
        have hasked := (h.killed row ticks horphan _ later hrecheck.gathered
          ((List.prefix_append _ _).trans hlater) hkeeps).2 target (hsame.1 ▸ hsame.2 ▸ htarget)
        exact hrejected (hanswer ▸ hasked)
      have hsame : recheckTrace os w.trace pid ++
          [.killed target answer, .reapFailed pid pgid recordedStartTicks] =
          recheckTrace os w.trace pid ++ [.killed target answer] ++
            [.reapFailed pid pgid recordedStartTicks] := by simp
      rw [hsame]
      exact hfailed

theorem kept_remembers {canKill : Bool} {liveness : List Liveness}
    (h : PrunesInnocently os holder found currentEpoch currentMachine) :
    Kept os (reconcileWithCapability
      ⟨found, liveness, lockState, currentEpoch, currentMachine⟩ canKill)
      (Remembers os holder found currentEpoch currentMachine)
      (fun id ↦ ∃ row ∈ found, row.identity = id) where
  calls _ hw := ⟨hw.gathered, hw.removals, hw.declines, rowsClassified_calls hw.gathered h hw.rows⟩
  read _ hw := hw.log trivial (declinesGone_of_ne fun row ↦ by simp [Event.KillDeclined])
  removed _ _ hid hw := hw.remove h hid
  good _ _ hw hprune row hrow hpid := by
    obtain ⟨r, hr, hrpid⟩ := of_pruneRegistryEntry_mem hprune
    exact hw.rows row hrow ⟨r, hr, hrpid.trans hpid.symm⟩
  reaped _ _ _ _ _ hw _ houtcome := hw.reaped h houtcome

theorem remembers_gathered :
    Remembers os holder found currentEpoch currentMachine ⟨found, gatherTrace os found⟩ where
  gathered := List.prefix_rfl
  removals := by
    rw [← List.nil_append (gatherTrace os found)]
    refine lawful_nil.append fun e he before ↦ ?_
    obtain rfl | ⟨pid, observed, rfl⟩ := mem_gatherTrace he <;> trivial
  declines := by
    rw [← List.nil_append (gatherTrace os found)]
    refine lawful_nil.append fun e he before ↦ declinesGone_of_ne fun row ↦ ?_
    obtain rfl | ⟨pid, observed, rfl⟩ := mem_gatherTrace he <;> simp [Event.KillDeclined]
  rows row hrow _ := ⟨row, hrow, rfl⟩

end Proof

/-- A reap removes only rows that may be forgotten, if it does not hold the lock or nothing of the
current run is among the rows that it reads, no row is recorded under their pids meanwhile, and no
kill is declined of a process that stays. -/
theorem reap_forgets_safely (os : Os) (holder : Holder) (rows : Rows) (lockState : LockState)
    (currentEpoch : Uuid) (currentMachine : String)
    (h : lockState = .acquired →
      PrunesInnocently os holder (foundRows os rows) currentEpoch currentMachine) :
    Lawful (RemovalSafe os holder (foundRows os rows) currentEpoch currentMachine)
      (runStartupReap os ⟨rows, []⟩ lockState currentEpoch currentMachine).2.trace := by
  rw [runStartupReap]
  obtain ⟨e, hgather⟩ | ⟨found, hfound, hgather⟩ :=
    gatherObserved_cases os rows lockState currentEpoch currentMachine
  · rw [hgather]
    exact lawful_nil
  · have hsame : foundRows os rows = found := hfound.symm
    rw [hgather]
    rw [hsame] at h ⊢
    by_cases hlock : lockState = .acquired
    · exact ((kept_remembers (h hlock)).executeActions remembers_gathered).removals
    · have hnone : reconcile os ⟨found, List.zipWith (fun row observed ↦
          classifyLiveness row.startTimeTicks observed row.instanceEpoch currentEpoch)
          found (observations os [.read found] found), lockState, currentEpoch, currentMachine⟩ =
          [] := if_pos hlock
      simp only [hnone]
      exact (@remembers_gathered os holder found currentEpoch currentMachine).removals

section Runs

def leftBehind : RegisteredProcess where
  pid := 7
  pgid := some 7
  startTimeTicks := some 5
  instanceEpoch := 0
  machineId := "m"
  containmentId := none

def steadyOs (pgrp : ℤ) : Os where
  canKill := true
  signalZero _ _ := none
  startTime _ _ := some 5
  getpgrp _ := pgrp
  sigkill _ _ := none
  readFails _ := false
  writeFails _ := false
  calls _ := []

theorem prunesInnocently_steadyOs :
    PrunesInnocently (steadyOs 1) (fun _ _ ↦ some 5) [leftBehind] 1 "m" where
  own row hrow hepoch := by
    obtain rfl := List.mem_singleton.mp hrow
    exact absurd hepoch (by decide)
  recorded _ _ _ hcall := by cases hcall
  killed row ticks horphan trace later _ _ _ := by
    refine ⟨fun group hgroup hown ↦ ?_, fun _ _ ↦ Or.inl rfl⟩
    obtain ⟨i, hrow, -⟩ := horphan.probed
    obtain rfl : row = leftBehind := List.mem_singleton.mp (List.mem_of_getElem? hrow)
    obtain rfl := Option.some.inj hgroup
    exact absurd hown (by change ¬ (1 : ℤ) = 7; decide)

theorem leftBehind_forgotten_safely :
    Lawful (RemovalSafe (steadyOs 1) (fun _ _ ↦ some 5) [leftBehind] 1 "m")
      (runStartupReap (steadyOs 1) ⟨[leftBehind], []⟩ .acquired 1 "m").2.trace :=
  reap_forgets_safely (steadyOs 1) (fun _ _ ↦ some 5) [leftBehind] .acquired 1 "m"
    fun _ ↦ prunesInnocently_steadyOs

/-- The reaper was started from the group of the orphan: it refuses to kill it and forgets it. -/
theorem declined_orphan_forgotten :
    ¬ ∀ (os : Os) (holder : Holder) (rows : Rows) (lockState : LockState) (currentEpoch : Uuid)
      (currentMachine : String), (∀ trace pid, os.startTime trace pid = holder trace pid) →
      Lawful (RemovalSafe os holder (foundRows os rows) currentEpoch currentMachine)
        (runStartupReap os ⟨rows, []⟩ lockState currentEpoch currentMachine).2.trace := by
  intro h
  have hlawful := h (steadyOs 7) (fun _ _ ↦ some 5) [leftBehind] .acquired 1 "m" fun _ _ ↦ rfl
  have htrace : (runStartupReap (steadyOs 7) ⟨[leftBehind], []⟩ .acquired 1 "m").2.trace =
      [.read [leftBehind], .probed 7 (.alive (some 5)), .probed 7 (.alive (some 5)),
        .processGroup 7, .refused 7 (some 7) (some 5), .read [leftBehind]] ++
      .unregistered leftBehind.identity :: [] := by decide
  have hforget : MayForget (steadyOs 7) (fun _ _ ↦ some 5) [leftBehind] 1 "m" _
      leftBehind.identity := lawful_iff.mp hlawful _ _ _ htrace
  have horphan : IsOrphan (steadyOs 7) [leftBehind] 1 "m" leftBehind 5 :=
    ⟨rfl, by decide, rfl, by decide, 0, rfl, by decide⟩
  exact hforget.declined leftBehind 5 horphan rfl
    ⟨.refused 7 (some 7) (some 5), by decide, Or.inl rfl⟩ ⟨rfl, rfl⟩

end Runs

end Zaowutai.Process
