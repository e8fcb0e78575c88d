import Zaowutai.Lib.Run
import Zaowutai.Process.Supervisor

/-!
# What a reap does to the trace

Each part of the reap has one lemma: which events it appends, and what they say.
-/

namespace Zaowutai.Process

open Zaowutai.Lib

variable {os : Os} {w : World}

@[simp] theorem World.log_trace (w : World) (e : Event) : (w.log e).trace = w.trace ++ [e] := rfl

@[simp] theorem World.log_rows (w : World) (e : Event) : (w.log e).rows = w.rows := rfl

section Gather

theorem readAll_cases (os : Os) (w : World) :
    (readAll os w = (.error .io, interleave os w)) ∨
      (readAll os w = (.ok (interleave os w).rows,
        (interleave os w).log (.read (interleave os w).rows))) := by
  rw [readAll]
  split
  · exact Or.inl rfl
  · exact Or.inr rfl

def observations (os : Os) : List Event → Rows → List ObservedLiveness
  | _, [] => []
  | trace, row :: rows =>
      observe os trace row.pid ::
        observations os (trace ++ [.probed row.pid (observe os trace row.pid)]) rows

def probedEvent (row : RegisteredProcess) (observed : ObservedLiveness) : Event :=
  .probed row.pid observed

theorem probeRows_eq (currentEpoch : Uuid) (w : World) (rows : Rows) :
    probeRows os currentEpoch w rows =
      (List.zipWith (fun row observed ↦
          classifyLiveness row.startTimeTicks observed row.instanceEpoch currentEpoch)
          rows (observations os w.trace rows),
        { w with trace :=
            w.trace ++ List.zipWith probedEvent rows (observations os w.trace rows) }) := by
  induction rows generalizing w with
  | nil =>
      rw [probeRows]
      simp
  | cons row rows ih =>
      rw [probeRows, observations]
      simp only [ih, probe, World.log_trace, World.log_rows, List.zipWith_cons_cons,
        List.append_assoc, List.singleton_append]
      rfl

def gatherTrace (os : Os) (rows : Rows) : List Event :=
  .read rows :: List.zipWith probedEvent rows (observations os [.read rows] rows)

theorem mem_gatherTrace {rows : Rows} {e : Event} (h : e ∈ gatherTrace os rows) :
    e = .read rows ∨ ∃ pid observed, e = .probed pid observed := by
  obtain hread | hprobed := List.mem_cons.mp h
  · exact Or.inl hread
  · obtain ⟨i, hi⟩ := List.mem_iff_getElem?.mp hprobed
    obtain ⟨row, observed, -, -, rfl⟩ := List.getElem?_zipWith_eq_some.mp hi
    exact Or.inr ⟨row.pid, observed, rfl⟩

theorem gatherObserved_cases (os : Os) (rows : Rows) (lockState : LockState) (currentEpoch : Uuid)
    (currentMachine : String) :
    (∃ e, gatherObserved os ⟨rows, []⟩ lockState currentEpoch currentMachine =
        (.error e, interleave os ⟨rows, []⟩)) ∨
      ∃ found, found = (interleave os ⟨rows, []⟩).rows ∧
        gatherObserved os ⟨rows, []⟩ lockState currentEpoch currentMachine =
          (.ok ⟨found, List.zipWith (fun row observed ↦
              classifyLiveness row.startTimeTicks observed row.instanceEpoch currentEpoch)
              found (observations os [.read found] found), lockState, currentEpoch,
              currentMachine⟩,
            ⟨found, gatherTrace os found⟩) := by
  rw [gatherObserved]
  obtain hread | hread := readAll_cases os ⟨rows, []⟩
  · rw [hread]
    exact Or.inl ⟨.io, rfl⟩
  · rw [hread]
    refine Or.inr ⟨_, rfl, ?_⟩
    simp only [probeRows_eq]
    rfl

end Gather

section Kernel

variable {found : Rows} {lockState : LockState} {currentEpoch : Uuid} {currentMachine : String}

structure IsOrphan (os : Os) (found : Rows) (currentEpoch : Uuid) (currentMachine : String)
    (row : RegisteredProcess) (ticks : UInt64) : Prop where
  machine : row.machineId = currentMachine
  epoch : row.instanceEpoch ≠ currentEpoch
  recorded : row.startTimeTicks = some ticks
  nonzero : ticks ≠ 0
  probed : ∃ i : ℕ, found[i]? = some row ∧
    (gatherTrace os found)[i + 1]? = some (.probed row.pid (.alive (some ticks)))

theorem of_reapOrphanGroup_mem {canKill : Bool} {pid : UInt32} {pgid : Option UInt32}
    {recordedStartTicks : Option UInt64}
    (h : .reapOrphanGroup pid pgid recordedStartTicks ∈ reconcileWithCapability
      ⟨found, List.zipWith (fun row observed ↦
        classifyLiveness row.startTimeTicks observed row.instanceEpoch currentEpoch)
        found (observations os [.read found] found), lockState, currentEpoch, currentMachine⟩
      canKill) :
    lockState = .acquired ∧ ∃ row ticks, IsOrphan os found currentEpoch currentMachine row ticks ∧
      pid = row.pid ∧ pgid = row.pgid ∧ recordedStartTicks = some ticks := by
  rw [reconcileWithCapability] at h
  split at h
  · cases h
  · next hlock =>
      refine ⟨Decidable.not_not.mp hlock, ?_⟩
      obtain ⟨⟨row', live⟩, hmem, haction⟩ := List.mem_flatMap.mp h
      obtain ⟨i, hi⟩ := List.mem_iff_getElem?.mp hmem
      obtain ⟨hrow, hlive⟩ := List.getElem?_zip_eq_some.mp hi
      obtain ⟨row, observed, hrow', hobserved, hclass⟩ := List.getElem?_zipWith_eq_some.mp hlive
      have hsame : row = row' := Option.some.inj (hrow'.symm.trans hrow)
      subst hsame
      change _ = live at hclass
      subst hclass
      simp only [rowActions] at haction
      split at haction
      · simp at haction
      · next hmachine =>
          split at haction
          · next hmatch =>
              obtain ⟨ticks, hrecorded, rfl, hzero, hepoch⟩ := classifyLiveness_eq_match hmatch
              have hprobed : (gatherTrace os found)[i + 1]? =
                  some (.probed row.pid (.alive (some ticks))) := by
                rw [gatherTrace, List.getElem?_cons_succ]
                exact List.getElem?_zipWith_eq_some.mpr ⟨row, _, hrow, hobserved, rfl⟩
              refine ⟨row, ticks, ⟨Decidable.not_not.mp hmachine, hepoch, hrecorded, hzero, i, hrow,
                hprobed⟩, ?_⟩
              split at haction
              · simp only [List.mem_append, List.mem_map, reduceCtorEq, and_false, exists_false,
                  List.mem_cons, Action.reapOrphanGroup.injEq, List.not_mem_nil, or_false,
                  false_or] at haction
                exact ⟨haction.1, haction.2.1, haction.2.2.trans hrecorded⟩
              · simp at haction
          all_goals simp at haction

end Kernel

section Kills

variable {pid : UInt32} {pgid : Option UInt32} {recordedStartTicks : Option UInt64}

/-- A target that `forceKill` may pass to the operating system. -/
def KillTarget (pid : UInt32) (pgid : Option UInt32) (target : ℤ) : Prop :=
  (∃ group, pgid = some group ∧ groupKillTarget group = some target) ∨
    pidSignalTarget pid = some target

/-- Nothing can be signalled. -/
def Unsignalable (pid : UInt32) (pgid : Option UInt32) : Prop :=
  pgid.bind groupKillTarget = none ∧ pidSignalTarget pid = none

def KillAccepted (answer : Option Errno) : Prop := answer = none ∨ answer = some .esrch

theorem killTarget_cases (os : Os) (w : World) (target : ℤ) :
    (killTarget os w target = (.ok (), w.log (.killed target (os.sigkill w.trace target))) ∧
        KillAccepted (os.sigkill w.trace target)) ∨
      ∃ error, killTarget os w target =
          (.error ⟨false, error⟩, w.log (.killed target (os.sigkill w.trace target))) ∧
        ¬ KillAccepted (os.sigkill w.trace target) := by
  simp only [killTarget, KillAccepted]
  cases os.sigkill w.trace target with
  | none => exact Or.inl ⟨rfl, Or.inl rfl⟩
  | some error =>
      cases error with
      | esrch => exact Or.inl ⟨rfl, Or.inr rfl⟩
      | eperm => exact Or.inr ⟨_, rfl, by simp⟩
      | other code => exact Or.inr ⟨_, rfl, by simp⟩

theorem forceKill_cases (os : Os) (w : World) (pid : UInt32) (pgid : Option UInt32) :
    (∃ target, KillTarget pid pgid target ∧
      ((forceKill os w pid pgid = (.ok (), w.log (.killed target (os.sigkill w.trace target))) ∧
          KillAccepted (os.sigkill w.trace target)) ∨
        ∃ error, forceKill os w pid pgid =
            (.error error, w.log (.killed target (os.sigkill w.trace target))) ∧
          ¬ KillAccepted (os.sigkill w.trace target))) ∨
      (Unsignalable pid pgid ∧ ∃ error, forceKill os w pid pgid = (.error error, w)) := by
  simp only [forceKill, killPid]
  cases hgroup : pgid.bind groupKillTarget with
  | some target =>
      have htarget : KillTarget pid pgid target := Or.inl (Option.bind_eq_some_iff.mp hgroup)
      refine Or.inl ⟨target, htarget, ?_⟩
      obtain ⟨hkill, haccepted⟩ | ⟨error, hkill, hrefused⟩ := killTarget_cases os w target
      · exact Or.inl ⟨by simp only [hkill], haccepted⟩
      · exact Or.inr ⟨error, by simp [hkill], hrefused⟩
  | none =>
      cases hpid : pidSignalTarget pid with
      | some target =>
          refine Or.inl ⟨target, Or.inr hpid, ?_⟩
          obtain ⟨hkill, haccepted⟩ | ⟨error, hkill, hrefused⟩ := killTarget_cases os w target
          · exact Or.inl ⟨by simp only [hkill], haccepted⟩
          · exact Or.inr ⟨error, by simp only [hkill], hrefused⟩
      | none => exact Or.inr ⟨⟨hgroup, hpid⟩, _, rfl⟩

def recheckTrace (os : Os) (trace : List Event) (pid : UInt32) : List Event :=
  let probed := trace ++ [.probed pid (observe os trace pid)]
  probed ++ [.processGroup (os.getpgrp probed)]

/-- The reaper's own group, as the operating system tells it before the kill. -/
def ownGroup (os : Os) (trace : List Event) (pid : UInt32) : ℤ :=
  os.getpgrp (trace ++ [.probed pid (observe os trace pid)])

inductive ReapOutcome (os : Os) (trace : List Event) (pid : UInt32) (pgid : Option UInt32)
    (recordedStartTicks : Option UInt64) : List Event → Prop
  | skipped : ReapOutcome os trace pid pgid recordedStartTicks [.skipped pid]
  | refused (alive : observe os trace pid = .alive recordedStartTicks)
      (own : ∃ group, pgid = some group ∧ toU32 (ownGroup os trace pid) = some group) :
      ReapOutcome os trace pid pgid recordedStartTicks [.refused pid pgid recordedStartTicks]
  | killed (target : ℤ) (answer : Option Errno)
      (alive : observe os trace pid = .alive recordedStartTicks)
      (foreign : ∀ group, pgid = some group → toU32 (ownGroup os trace pid) ≠ some group)
      (isTarget : KillTarget pid pgid target) (accepted : KillAccepted answer) :
      ReapOutcome os trace pid pgid recordedStartTicks [.killed target answer]
  | failed (target : ℤ) (answer : Option Errno)
      (alive : observe os trace pid = .alive recordedStartTicks)
      (foreign : ∀ group, pgid = some group → toU32 (ownGroup os trace pid) ≠ some group)
      (isTarget : KillTarget pid pgid target)
      (answered : answer = os.sigkill (recheckTrace os trace pid) target)
      (rejected : ¬ KillAccepted answer) :
      ReapOutcome os trace pid pgid recordedStartTicks
        [.killed target answer, .reapFailed pid pgid recordedStartTicks]

theorem not_unsignalable {trace : List Event} {startTicks : Option UInt64}
    (h : observe os trace pid = .alive startTicks) : ¬ Unsignalable pid pgid := by
  rintro ⟨-, hpid⟩
  rw [observe, hpid] at h
  cases h

theorem alive_of_stillOurs {observed : ObservedLiveness}
    (h : stillOurs recordedStartTicks observed = true) :
    observed = .alive recordedStartTicks := by
  cases observed with
  | alive startTicks =>
      have hboth : startTicks = recordedStartTicks ∧ startTicks.isSome := of_decide_eq_true h
      rw [hboth.1]
  | gone => cases h
  | epermAlive => cases h

theorem targetsOwnGroup_eq_true {own : Option UInt32} :
    targetsOwnGroup pgid own = true ↔ ∃ group, pgid = some group ∧ own = some group := by
  cases pgid with
  | none => simp [targetsOwnGroup]
  | some group =>
      cases own with
      | none => simp [targetsOwnGroup]
      | some o => simp [targetsOwnGroup, eq_comm]

def recheck (os : Os) (w : World) (pid : UInt32) : World :=
  { w with trace := recheckTrace os w.trace pid }

theorem executeReap_eq (os : Os) (w : World) (pid : UInt32) (pgid : Option UInt32)
    (recordedStartTicks : Option UInt64) :
    executeReap os w pid pgid recordedStartTicks =
      if stillOurs recordedStartTicks (observe os w.trace pid) = false then
        (recheck os w pid).log (.skipped pid)
      else if targetsOwnGroup pgid (toU32 (ownGroup os w.trace pid)) then
        (recheck os w pid).log (.refused pid pgid recordedStartTicks)
      else
        match forceKill os (recheck os w pid) pid pgid with
        | (.error _, w) => w.log (.reapFailed pid pgid recordedStartTicks)
        | (.ok (), w) => w := rfl

theorem executeReap_outcome (os : Os) (w : World) (pid : UInt32) (pgid : Option UInt32)
    (recordedStartTicks : Option UInt64) :
    ∃ events, ReapOutcome os w.trace pid pgid recordedStartTicks events ∧
      executeReap os w pid pgid recordedStartTicks =
        { w with trace := recheckTrace os w.trace pid ++ events } := by
  rw [executeReap_eq]
  by_cases hours : stillOurs recordedStartTicks (observe os w.trace pid) = false
  · rw [if_pos hours]
    exact ⟨_, .skipped, rfl⟩
  · have halive := alive_of_stillOurs (Bool.of_not_eq_false hours)
    rw [if_neg hours]
    by_cases hown : targetsOwnGroup pgid (toU32 (ownGroup os w.trace pid)) = true
    · rw [if_pos hown]
      exact ⟨_, .refused halive (targetsOwnGroup_eq_true.mp hown), rfl⟩
    · have hforeign : ∀ group, pgid = some group →
          toU32 (ownGroup os w.trace pid) ≠ some group :=
        fun group hpgid hgroup ↦ hown (targetsOwnGroup_eq_true.mpr ⟨group, hpgid, hgroup⟩)
      rw [if_neg hown]
      obtain ⟨target, htarget, ⟨hkill, haccepted⟩ | ⟨error, hkill, hrejected⟩⟩ | ⟨hnone, -⟩ :=
        forceKill_cases os (recheck os w pid) pid pgid
      · rw [hkill]
        exact ⟨_, .killed target _ halive hforeign htarget haccepted, rfl⟩
      · rw [hkill]
        refine ⟨_, .failed target _ halive hforeign htarget rfl hrejected, ?_⟩
        simp [World.log, recheck]
      · exact absurd hnone (not_unsignalable halive)

end Kills

section Rule

def World.remove (w : World) (id : ProcessIdentity) : World :=
  (World.mk (w.rows.unregister id) w.trace).log (.unregistered id)

theorem unregister_cases (os : Os) (w : World) (id : ProcessIdentity) :
    (unregister os w id).2 = interleave os w ∨
      (unregister os w id).2 = (interleave os w).remove id := by
  simp only [unregister]
  split
  · exact Or.inl rfl
  · split
    · exact Or.inl rfl
    · split
      · exact Or.inl rfl
      · exact Or.inr rfl

/-- What has to be shown of a property so that executing the actions keeps it.  `Good` is what is
known of an identity that a prune has read. -/
structure Kept (os : Os) (actions : List Action) (P : World → Prop)
    (Good : ProcessIdentity → Prop) : Prop where
  calls : ∀ w, P w → P (interleave os w)
  read : ∀ w, P w → P (w.log (.read w.rows))
  removed : ∀ w id, Good id → P w → P (w.remove id)
  good : ∀ w pid, P w → .pruneRegistryEntry pid ∈ actions → ∀ row ∈ w.rows, row.pid = pid →
    Good row.identity
  reaped : ∀ w pid pgid recordedStartTicks events, P w →
    .reapOrphanGroup pid pgid recordedStartTicks ∈ actions →
    ReapOutcome os w.trace pid pgid recordedStartTicks events →
    P { w with trace := recheckTrace os w.trace pid ++ events }

variable {actions : List Action} {P : World → Prop} {Good : ProcessIdentity → Prop} {pid : UInt32}

theorem Kept.pruneRows (h : Kept os actions P Good) {rows : Rows}
    (hgood : ∀ row ∈ rows, row.pid = pid → Good row.identity) (hw : P w) :
    P (pruneRows os pid w rows).2 := by
  induction rows generalizing w with
  | nil => exact hw
  | cons row rows ih =>
      have hrest := fun w ↦ @ih w fun row hrow ↦ hgood row (List.mem_cons_of_mem _ hrow)
      rw [Process.pruneRows]
      split
      · next hpid =>
          have hnext : P (unregister os w row.identity).2 := by
            obtain hsame | hremoved := unregister_cases os w row.identity
            · rw [hsame]
              exact h.calls w hw
            · rw [hremoved]
              exact h.removed _ _ (hgood row List.mem_cons_self hpid) (h.calls w hw)
          cases hresult : unregister os w row.identity with
          | mk result w' =>
              rw [hresult] at hnext
              cases result with
              | error e => exact hnext
              | ok done => exact hrest w' hnext
      · exact hrest w hw

theorem Kept.prunePid (h : Kept os actions P Good) (hprune : .pruneRegistryEntry pid ∈ actions)
    (hw : P w) : P (prunePid os w pid).2 := by
  rw [Process.prunePid]
  have hcalls := h.calls w hw
  obtain hread | hread := readAll_cases os w
  · rw [hread]
    exact hcalls
  · rw [hread]
    exact h.pruneRows (h.good _ pid hcalls hprune) (h.read _ hcalls)

theorem Kept.executeActions (h : Kept os actions P Good) (hw : P w) :
    P (executeActions os w actions) := by
  have hall : ∀ rest : List Action, (∀ action ∈ rest, action ∈ actions) → ∀ w, P w →
      P (Process.executeActions os w rest) := by
    intro rest
    induction rest with
    | nil => exact fun _ _ hw ↦ hw
    | cons action rest ih =>
        intro hrest w hw
        have haction := hrest action List.mem_cons_self
        refine ih (fun a ha ↦ hrest a (List.mem_cons_of_mem _ ha)) _ ?_
        cases action with
        | reapOrphanGroup pid pgid recordedStartTicks =>
            obtain ⟨events, houtcome, heq⟩ := executeReap_outcome os w pid pgid recordedStartTicks
            rw [executeAction, heq]
            exact h.reaped w pid pgid recordedStartTicks events hw haction houtcome
        | reapContainment containmentId => exact hw
        | pruneRegistryEntry pid => exact h.prunePid haction hw
  exact hall actions (fun _ ha ↦ ha) w hw

end Rule

end Zaowutai.Process
