import Zaowutai.Process.ReapTrace

/-!
# The reap kills no innocent process

Whatever the registry holds and the operating system answers, a kill is sent for
a row only after two probes, the last one just before the kill, have found its
process alive with the recorded start time.
-/

namespace Zaowutai.Process

open Zaowutai.Lib

def Event.probe? : Event → Option (UInt32 × ObservedLiveness)
  | .probed pid observed => some (pid, observed)
  | _ => none

def Event.processGroup? : Event → Option ℤ
  | .processGroup pgrp => some pgrp
  | _ => none

def lastProbe (trace : List Event) : Option (UInt32 × ObservedLiveness) :=
  (trace.filterMap Event.probe?).getLast?

def lastGroup (trace : List Event) : Option ℤ := (trace.filterMap Event.processGroup?).getLast?

def GatheredAs (before : List Event) (row : RegisteredProcess) (observed : ObservedLiveness) :
    Prop :=
  ∃ found i, before[0]? = some (.read found) ∧ found[i]? = some row ∧
    before[i + 1]? = some (.probed row.pid observed)

/-- Everything that has to be known before a kill is sent for a row. -/
structure ConfirmedOrphan (lockState : LockState) (currentEpoch : Uuid) (currentMachine : String)
    (before : List Event) (target : ℤ) (row : RegisteredProcess) (ticks : UInt64) : Prop where
  lock : lockState = .acquired
  machine : row.machineId = currentMachine
  epoch : row.instanceEpoch ≠ currentEpoch
  recorded : row.startTimeTicks = some ticks
  nonzero : ticks ≠ 0
  gathered : GatheredAs before row (.alive (some ticks))
  reprobed : lastProbe before = some (row.pid, .alive (some ticks))
  target :
    (∃ group, row.pgid = some group ∧ 1 < group.toNat ∧ group.toNat ≤ i32Max ∧
      target = -(group.toNat : ℤ) ∧ ∃ pgrp, lastGroup before = some pgrp ∧ pgrp ≠ group.toNat) ∨
    (0 < row.pid.toNat ∧ row.pid.toNat ≤ i32Max ∧ target = row.pid.toNat)

def KillConfirmed (lockState : LockState) (currentEpoch : Uuid) (currentMachine : String)
    (before : List Event) : Event → Prop
  | .killed target _ =>
      ∃ row ticks, ConfirmedOrphan lockState currentEpoch currentMachine before target row ticks
  | _ => True

/-- Nothing but the answers of the store and the probes. -/
def Event.onlyObserves : Event → Bool
  | .read _ | .probed _ _ => true
  | _ => false

section Proof

variable {os : Os} {found : Rows} {lockState : LockState} {currentEpoch : Uuid}
  {currentMachine : String}

theorem toU32_toNat (n : UInt32) : toU32 n.toNat = some n := by
  rw [toU32, if_pos ⟨Int.natCast_nonneg _, by simpa using n.toNat_lt⟩]
  simp

theorem lastProbe_recheckTrace (os : Os) (trace : List Event) (pid : UInt32) :
    lastProbe (recheckTrace os trace pid) = some (pid, observe os trace pid) := by
  simp [lastProbe, recheckTrace, List.filterMap_cons, Event.probe?]

theorem lastGroup_recheckTrace (os : Os) (trace : List Event) (pid : UInt32) :
    lastGroup (recheckTrace os trace pid) = some (ownGroup os trace pid) := by
  simp [lastGroup, recheckTrace, ownGroup, List.filterMap_append, List.filterMap_cons,
    Event.processGroup?, -List.getLast?_filterMap]

theorem gatheredAs_of_prefix {before : List Event} {row : RegisteredProcess} {ticks : UInt64}
    (hstart : gatherTrace os found <+: before)
    (horphan : IsOrphan os found currentEpoch currentMachine row ticks) :
    GatheredAs before row (.alive (some ticks)) := by
  obtain ⟨after, rfl⟩ := hstart
  obtain ⟨i, hrow, hprobed⟩ := horphan.probed
  refine ⟨found, i, rfl, hrow, ?_⟩
  rw [List.getElem?_append_left (List.getElem?_eq_some_iff.mp hprobed).1]
  exact hprobed

theorem confirmedOrphan_of_target {trace : List Event} {row : RegisteredProcess} {ticks : UInt64}
    {target : ℤ} (hlock : lockState = .acquired)
    (horphan : IsOrphan os found currentEpoch currentMachine row ticks)
    (hstart : gatherTrace os found <+: trace)
    (halive : observe os trace row.pid = .alive (some ticks))
    (hforeign : ∀ group, row.pgid = some group → toU32 (ownGroup os trace row.pid) ≠ some group)
    (htarget : KillTarget row.pid row.pgid target) :
    ConfirmedOrphan lockState currentEpoch currentMachine (recheckTrace os trace row.pid) target row
      ticks where
  lock := hlock
  machine := horphan.machine
  epoch := horphan.epoch
  recorded := horphan.recorded
  nonzero := horphan.nonzero
  gathered := by
    refine gatheredAs_of_prefix (hstart.trans ?_) horphan
    rw [recheckTrace, List.append_assoc]
    exact List.prefix_append _ _
  reprobed := by rw [lastProbe_recheckTrace, halive]
  target := by
    obtain ⟨group, hgroup, hkill⟩ | hpid := htarget
    · obtain ⟨rfl, hone, hmax⟩ := groupKillTarget_eq_some.mp hkill
      refine Or.inl ⟨group, hgroup, hone, hmax, rfl, _, lastGroup_recheckTrace os trace row.pid, ?_⟩
      intro hown
      apply hforeign group hgroup
      rw [hown, toU32_toNat]
    · obtain ⟨rfl, hpos, hmax⟩ := pidSignalTarget_eq_some.mp hpid
      exact Or.inr ⟨hpos, hmax, rfl⟩

theorem killConfirmed_of_ne {before : List Event} {e : Event}
    (h : ∀ target answer, e ≠ .killed target answer) :
    KillConfirmed lockState currentEpoch currentMachine before e := by
  cases e with
  | killed target answer => exact absurd rfl (h target answer)
  | _ => trivial

theorem lawful_gatherTrace :
    Lawful (KillConfirmed lockState currentEpoch currentMachine) (gatherTrace os found) := by
  rw [← List.nil_append (gatherTrace os found)]
  refine lawful_nil.append fun e he before ↦ killConfirmed_of_ne ?_
  rintro target answer rfl
  obtain hread | ⟨pid, observed, hprobed⟩ := mem_gatherTrace he
  · cases hread
  · cases hprobed

theorem kept_killConfirmed {canKill : Bool} :
    Kept os (reconcileWithCapability
      ⟨found, List.zipWith (fun row observed ↦
        classifyLiveness row.startTimeTicks observed row.instanceEpoch currentEpoch)
        found (observations os [.read found] found), lockState, currentEpoch, currentMachine⟩
      canKill)
      (fun w ↦ gatherTrace os found <+: w.trace ∧
        Lawful (KillConfirmed lockState currentEpoch currentMachine) w.trace)
      (fun _ ↦ True) where
  calls _ hw := hw
  read _ hw := ⟨hw.1.trans (List.prefix_append _ _), lawful_snoc.mpr ⟨hw.2, trivial⟩⟩
  removed _ _ _ hw := ⟨hw.1.trans (List.prefix_append _ _), lawful_snoc.mpr ⟨hw.2, trivial⟩⟩
  good _ _ _ _ _ _ _ := trivial
  reaped w pid pgid recordedStartTicks events hw haction houtcome := by
    obtain ⟨hlock, row, ticks, horphan, rfl, rfl, rfl⟩ := of_reapOrphanGroup_mem haction
    obtain ⟨hstart, hlawful⟩ := hw
    have hrecheck : Lawful (KillConfirmed lockState currentEpoch currentMachine)
        (recheckTrace os w.trace row.pid) :=
      lawful_snoc.mpr ⟨lawful_snoc.mpr ⟨hlawful, trivial⟩, trivial⟩
    refine ⟨?_, ?_⟩
    · refine hstart.trans ?_
      simp only [recheckTrace, List.append_assoc]
      exact List.prefix_append _ _
    · cases houtcome with
      | skipped => exact lawful_snoc.mpr ⟨hrecheck, trivial⟩
      | refused halive hown => exact lawful_snoc.mpr ⟨hrecheck, trivial⟩
      | killed target answer halive hforeign htarget haccepted =>
          have hkill : KillConfirmed lockState currentEpoch currentMachine
              (recheckTrace os w.trace row.pid) (.killed target answer) :=
            ⟨row, ticks,
              confirmedOrphan_of_target hlock horphan hstart halive hforeign htarget⟩
          exact lawful_snoc.mpr ⟨hrecheck, hkill⟩
      | failed target answer halive hforeign htarget hanswer hrejected =>
          have hkill : KillConfirmed lockState currentEpoch currentMachine
              (recheckTrace os w.trace row.pid) (.killed target answer) :=
            ⟨row, ticks,
              confirmedOrphan_of_target hlock horphan hstart halive hforeign htarget⟩
          have hkilled := lawful_snoc.mpr ⟨hrecheck, hkill⟩
          change Lawful _ (recheckTrace os w.trace row.pid ++
            ([.killed target answer] ++ [.reapFailed row.pid row.pgid (some ticks)]))
          rw [← List.append_assoc]
          exact lawful_snoc.mpr ⟨hkilled, trivial⟩

end Proof

/-- Every kill of a startup reap is sent for a confirmed orphan, and without the lock the reap only
observes. -/
theorem reap_kills_confirmed_orphans (os : Os) (rows : Rows) (lockState : LockState)
    (currentEpoch : Uuid) (currentMachine : String) :
    Lawful (KillConfirmed lockState currentEpoch currentMachine)
        (runStartupReap os ⟨rows, []⟩ lockState currentEpoch currentMachine).2.trace ∧
      (lockState ≠ .acquired →
        (runStartupReap os ⟨rows, []⟩ lockState currentEpoch currentMachine).2.rows =
            (os.calls []).foldl StoreCall.perform rows ∧
          ∀ e ∈ (runStartupReap os ⟨rows, []⟩ lockState currentEpoch currentMachine).2.trace,
            e.onlyObserves = true) := by
  rw [runStartupReap]
  obtain ⟨e, hgather⟩ | ⟨found, hfound, hgather⟩ :=
    gatherObserved_cases os rows lockState currentEpoch currentMachine
  · rw [hgather]
    exact ⟨lawful_nil, fun _ ↦ ⟨rfl, by simp [interleave]⟩⟩
  · rw [hgather]
    refine ⟨?_, fun hlock ↦ ?_⟩
    · exact (kept_killConfirmed.executeActions
        ⟨List.prefix_rfl, lawful_gatherTrace⟩).2
    · have hnone : reconcile os ⟨found, List.zipWith (fun row observed ↦
          classifyLiveness row.startTimeTicks observed row.instanceEpoch currentEpoch)
          found (observations os [.read found] found), lockState, currentEpoch, currentMachine⟩ =
          [] := if_pos hlock
      simp only [hnone]
      refine ⟨hfound, fun e he ↦ ?_⟩
      obtain rfl | ⟨pid, observed, rfl⟩ := mem_gatherTrace he
      · rfl
      · rfl

end Zaowutai.Process
