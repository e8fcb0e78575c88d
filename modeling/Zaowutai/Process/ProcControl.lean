import Zaowutai.Process.Registry

/-!
# Signals and liveness

What the operating system answers may differ from one question to the next: a
process may end and its pid be taken over between any two of them.  The answers
are therefore functions of everything that has happened before, which is kept as
a trace.  Signals are sent as on Unix, where a negative target is a group.
-/

namespace Zaowutai.Process

inductive Liveness
  | isMatch
  | recycledPid
  | diffEpoch
  | gone
  | unknown
  | epermAlive
  deriving DecidableEq, Repr

inductive ObservedLiveness
  | alive (startTicks : Option UInt64)
  | gone
  | epermAlive
  deriving DecidableEq, Repr

def classifyLiveness (recordedStartTicks : Option UInt64) (observed : ObservedLiveness)
    (recordedEpoch currentEpoch : Uuid) : Liveness :=
  match observed with
  | .gone => .gone
  | .epermAlive => .epermAlive
  | .alive startTicks =>
      match recordedStartTicks, startTicks with
      | none, _ => .unknown
      | _, none => .unknown
      | some recorded, some observed =>
          if recorded = 0 then .unknown
          else if observed = 0 then .unknown
          else if recorded = observed then
            if recordedEpoch = currentEpoch then .diffEpoch else .isMatch
          else .recycledPid

theorem classifyLiveness_eq_match {recorded : Option UInt64} {observed : ObservedLiveness}
    {recordedEpoch currentEpoch : Uuid}
    (h : classifyLiveness recorded observed recordedEpoch currentEpoch = .isMatch) :
    ∃ ticks, recorded = some ticks ∧ observed = .alive (some ticks) ∧ ticks ≠ 0 ∧
      recordedEpoch ≠ currentEpoch := by
  cases observed with
  | gone => cases h
  | epermAlive => cases h
  | alive startTicks =>
      cases recorded with
      | none => cases h
      | some ticks =>
          cases startTicks with
          | none => cases h
          | some seen =>
              simp only [classifyLiveness] at h
              split at h
              · cases h
              · next hzero =>
                  split at h
                  · cases h
                  · split at h
                    · next heq =>
                        split at h
                        · cases h
                        · next hepoch => exact ⟨ticks, rfl, by rw [heq], hzero, hepoch⟩
                    · cases h

def i32Max : ℕ := 2147483647

def toI32 (n : UInt32) : Option ℤ := if n.toNat ≤ i32Max then some n.toNat else none

def pidSignalTarget (pid : UInt32) : Option ℤ := (toI32 pid).filter (0 < ·)

def groupKillTarget (pgid : UInt32) : Option ℤ :=
  if pgid ≤ 1 then none else (toI32 pgid).map (- ·)

theorem pidSignalTarget_eq_some {pid : UInt32} {target : ℤ} :
    pidSignalTarget pid = some target ↔
      target = pid.toNat ∧ 0 < pid.toNat ∧ pid.toNat ≤ i32Max := by
  rw [pidSignalTarget, toI32]
  split
  · next hfits =>
      simp only [Option.filter_eq_some_iff, Option.some.injEq, decide_eq_true_eq]
      constructor
      · rintro ⟨rfl, hpos⟩
        exact ⟨rfl, by omega, hfits⟩
      · rintro ⟨rfl, hpos, -⟩
        exact ⟨rfl, by omega⟩
  · next hlarge =>
      constructor
      · intro hnone
        cases hnone
      · rintro ⟨-, -, hfits⟩
        exact absurd hfits hlarge

theorem groupKillTarget_eq_some {pgid : UInt32} {target : ℤ} :
    groupKillTarget pgid = some target ↔
      target = - (pgid.toNat : ℤ) ∧ 1 < pgid.toNat ∧ pgid.toNat ≤ i32Max := by
  rw [groupKillTarget, toI32]
  have hone : pgid ≤ 1 ↔ pgid.toNat ≤ 1 := UInt32.le_iff_toNat_le
  split
  · next hle =>
      constructor
      · intro hnone
        cases hnone
      · rintro ⟨-, hlt, -⟩
        have := hone.mp hle
        omega
  · next hgt =>
      have hlt : 1 < pgid.toNat := Nat.lt_of_not_le fun hle ↦ hgt (hone.mpr hle)
      split
      · next hfits =>
          constructor
          · rintro ⟨rfl⟩
            exact ⟨rfl, hlt, hfits⟩
          · rintro ⟨rfl, -, -⟩
            rfl
      · next hlarge =>
          constructor
          · intro hnone
            cases hnone
          · rintro ⟨-, -, hfits⟩
            exact absurd hfits hlarge

inductive Errno
  | esrch
  | eperm
  | other (code : ℕ)
  deriving DecidableEq, Repr

inductive Event
  | read (rows : Rows)
  | probed (pid : UInt32) (observed : ObservedLiveness)
  | processGroup (pgrp : ℤ)
  | skipped (pid : UInt32)
  | refused (pid : UInt32) (pgid : Option UInt32) (recordedStartTicks : Option UInt64)
  | killed (target : ℤ) (error : Option Errno)
  | reapFailed (pid : UInt32) (pgid : Option UInt32) (recordedStartTicks : Option UInt64)
  | unregistered (id : ProcessIdentity)
  deriving DecidableEq, Repr

/-- The answers of the operating system, the faults of the store, and the calls that other tasks
make on it before the next call of the reaper. -/
structure Os where
  canKill : Bool
  signalZero : List Event → ℤ → Option Errno
  startTime : List Event → UInt32 → Option UInt64
  getpgrp : List Event → ℤ
  sigkill : List Event → ℤ → Option Errno
  readFails : List Event → Bool
  writeFails : List Event → Bool
  calls : List Event → List StoreCall

structure World where
  rows : Rows
  trace : List Event

def World.log (w : World) (e : Event) : World := { w with trace := w.trace ++ [e] }

inductive ProcessError
  | io
  | killFailed (target : ℤ) (error : Errno)
  | outOfRange (pid : UInt32)
  deriving DecidableEq, Repr

variable (os : Os)

def observe (trace : List Event) (pid : UInt32) : ObservedLiveness :=
  match pidSignalTarget pid with
  | none => .gone
  | some target =>
      match os.signalZero trace target with
      | none => .alive (os.startTime trace pid)
      | some .esrch => .gone
      | some .eperm => .epermAlive
      | some (.other _) => .gone

def probe (w : World) (pid : UInt32) : ObservedLiveness × World :=
  let observed := observe os w.trace pid
  (observed, w.log (.probed pid observed))

def toU32 (n : ℤ) : Option UInt32 :=
  if 0 ≤ n ∧ n.toNat < UInt32.size then some (.ofNat n.toNat) else none

def currentProcessGroup (w : World) : Option UInt32 × World :=
  let pgrp := os.getpgrp w.trace
  (toU32 pgrp, w.log (.processGroup pgrp))

structure KillErr where
  alreadyGone : Bool
  error : ProcessError

def killTarget (w : World) (target : ℤ) : Except KillErr Unit × World :=
  let answer := os.sigkill w.trace target
  let w := w.log (.killed target answer)
  match answer with
  | none => (.ok (), w)
  | some .esrch => (.ok (), w)
  | some error => (.error ⟨false, .killFailed target error⟩, w)

def killPid (w : World) (pid : UInt32) (unsignalable : Except ProcessError Unit) :
    Except ProcessError Unit × World :=
  match pidSignalTarget pid with
  | some target =>
      match killTarget os w target with
      | (.ok (), w) => (.ok (), w)
      | (.error e, w) => (.error e.error, w)
  | none => (unsignalable, w)

def forceKill (w : World) (pid : UInt32) (processGroupId : Option UInt32) :
    Except ProcessError Unit × World :=
  match processGroupId.bind groupKillTarget with
  | some target =>
      match killTarget os w target with
      | (.ok (), w) => (.ok (), w)
      | (.error e, w) =>
          -- the group leader may be gone: fall back to the bare pid
          if e.alreadyGone then killPid os w pid (.ok ()) else (.error e.error, w)
  | none => killPid os w pid (.error (.outOfRange pid))

end Zaowutai.Process
