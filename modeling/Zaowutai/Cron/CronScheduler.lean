import Mathlib.Data.Int.Basic
import Mathlib.Tactic.Ring
import Zaowutai.Cron.RunLedger
import Zaowutai.Lib.Grid

/-!
# Schedules and timers

The next time of a cron expression comes from the cron library, which is a
parameter here.  A job has at most one timer: one for its schedule, which
fires again and again unless the schedule is a single time, or one for the
retry of a single occurrence.
-/

namespace Zaowutai.Cron

inductive CronSchedule
  | at (atMs : ℤ)
  | every (everyMs : ℤ)
  | cron (expr : String) (tz : Option String)
  deriving DecidableEq, Repr

namespace CronSchedule

def isAt : CronSchedule → Bool
  | .at _ => true
  | .every _ | .cron _ _ => false

end CronSchedule

/-- What is used of the library for cron expressions: whether an expression in a time zone is
accepted, as a blank one is without the library, and the first time of the expression after a
moment. -/
structure CronLibrary where
  accepts : String → Option String → Bool
  nextAfter : String → Option String → ℤ → Option ℤ

def i64Max : ℤ := 9223372036854775807

def checkedI64 (x : ℤ) : Option ℤ := if -i64Max - 1 ≤ x ∧ x ≤ i64Max then some x else none

def saturatingI64 (x : ℤ) : ℤ := max (-i64Max - 1) (min i64Max x)

section Schedules

variable (lib : CronLibrary)

def validateSchedule : CronSchedule → Bool
  | .at _ => true
  | .every everyMs => 0 < everyMs
  | .cron expr tz => lib.accepts expr tz

def computeNextRun (schedule : CronSchedule) (now : ℤ) : Option ℤ :=
  match schedule with
  | .at atMs => some atMs
  | .every everyMs => if everyMs ≤ 0 then none else some (now + everyMs)
  | .cron expr tz => lib.nextAfter expr tz now

def computeNextRunAfterOccurrence (schedule : CronSchedule) (scheduledAt now : ℤ) : Option ℤ :=
  match schedule with
  | .at _ => none
  | .every everyMs =>
      if everyMs ≤ 0 then none
      else do
        let elapsed := saturatingI64 (now - scheduledAt)
        let steps := elapsed / everyMs + 1
        let offset ← checkedI64 (steps * everyMs)
        checkedI64 (scheduledAt + offset)
  | .cron expr tz => lib.nextAfter expr tz (max now scheduledAt)

end Schedules

/-- A row of `cron_jobs`, as far as its timer depends on it. -/
structure CronJob where
  enabled : Bool
  schedule : CronSchedule
  nextRunAt : Option ℤ
  queueEnabled : Bool
  deriving DecidableEq, Repr

inductive CronTimer
  | schedule (schedule : CronSchedule) (nextAt : ℤ)
  | occurrence (scheduledAt runAt : ℤ)
  deriving DecidableEq, Repr

def scheduleJob (job : CronJob) : Option CronTimer :=
  if job.enabled then job.nextRunAt.map (.schedule job.schedule) else none

namespace CronTimer

def scheduledAt : CronTimer → ℤ
  | .schedule _ nextAt => nextAt
  | .occurrence scheduledAt _ => scheduledAt

def rest (lib : CronLibrary) (now : ℤ) : CronTimer → Option CronTimer
  | .schedule (.every everyMs) nextAt => some (.schedule (.every everyMs) (nextAt + everyMs))
  | .schedule (.cron expr tz) _ => (lib.nextAfter expr tz now).map (.schedule (.cron expr tz))
  | .schedule (.at _) _ | .occurrence _ _ => none

end CronTimer

theorem scheduleJob_eq_some {job : CronJob} {timer : CronTimer} :
    scheduleJob job = some timer ↔
      job.enabled = true ∧ ∃ next, job.nextRunAt = some next ∧ timer = .schedule job.schedule next := by
  rw [scheduleJob]
  split
  · next henabled => simp [henabled, eq_comm]
  · next hdisabled => simp [hdisabled]

/-!
## The arithmetic of the next time

The plain operators of the source are checked in a debug build: a result
outside the 64-bit integers ends the call.  A call for the time after an
occurrence stays on the grid of the schedule as long as the occurrence is not
later than the moment of the call.
-/

open Zaowutai.Lib

def FitsI64 (x : ℤ) : Prop := -i64Max - 1 ≤ x ∧ x ≤ i64Max

instance (x : ℤ) : Decidable (FitsI64 x) := inferInstanceAs (Decidable (_ ∧ _))

inductive ArithmeticError
  | overflow
  deriving DecidableEq, Repr

def plainI64 (x : ℤ) : Except ArithmeticError ℤ :=
  if FitsI64 x then .ok x else .error .overflow

section Checked

variable (lib : CronLibrary)

def computeNextRunPlain (schedule : CronSchedule) (now : ℤ) :
    Except ArithmeticError (Option ℤ) :=
  match schedule with
  | .at atMs => .ok (some atMs)
  | .every everyMs =>
      if everyMs ≤ 0 then .ok none
      else do
        let next ← plainI64 (now + everyMs)
        .ok (some next)
  | .cron expr tz => .ok (lib.nextAfter expr tz now)

/-- `compute_next_run_after_occurrence`, whose steps are counted with a plain addition. -/
def computeNextRunAfterOccurrencePlain (schedule : CronSchedule) (scheduledAt now : ℤ) :
    Except ArithmeticError (Option ℤ) :=
  match schedule with
  | .at _ => .ok none
  | .every everyMs =>
      if everyMs ≤ 0 then .ok none
      else do
        let elapsed := saturatingI64 (now - scheduledAt)
        let steps ← plainI64 (elapsed / everyMs + 1)
        .ok do
          let offset ← checkedI64 (steps * everyMs)
          checkedI64 (scheduledAt + offset)
  | .cron expr tz => .ok (lib.nextAfter expr tz (max now scheduledAt))

/-- The occurrences that follow one another when the times are those at which they end. -/
def occurrences (schedule : CronSchedule) : ℤ → List ℤ → List ℤ
  | _, [] => []
  | scheduledAt, now :: times =>
      match computeNextRunAfterOccurrencePlain lib schedule scheduledAt now with
      | .ok (some next) => next :: occurrences schedule next times
      | .ok none | .error _ => []

def endings (schedule : CronSchedule) : ℤ → List ℤ → List (ℤ × ℤ)
  | _, [] => []
  | scheduledAt, now :: times =>
      (scheduledAt, now) ::
        match computeNextRunAfterOccurrencePlain lib schedule scheduledAt now with
        | .ok (some next) => endings schedule next times
        | .ok none | .error _ => []

/-- No operation of the two calls leaves the 64-bit integers, and of a repeated schedule the
result is the first later time of its grid, if that is a 64-bit integer. -/
structure Exact (schedule : CronSchedule) (scheduledAt now : ℤ) : Prop where
  nextRun : ∃ next, computeNextRunPlain lib schedule now = .ok next
  afterOccurrence :
    ∃ next, computeNextRunAfterOccurrencePlain lib schedule scheduledAt now = .ok next
  least : ∀ everyMs, schedule = .every everyMs → ∀ next,
    IsLeast (laterOnGrid everyMs scheduledAt now) next → FitsI64 next →
      computeNextRunAfterOccurrencePlain lib schedule scheduledAt now = .ok (some next)

structure KeepsGrid (schedule : CronSchedule) (scheduledAt : ℤ) (times : List ℤ) : Prop where
  exact : ∀ ending ∈ endings lib schedule scheduledAt times,
    Exact lib schedule ending.1 ending.2
  increasing : ∀ everyMs, schedule = .every everyMs →
    (scheduledAt :: occurrences lib schedule scheduledAt times).Pairwise (· < ·)
  onGrid : ∀ everyMs, schedule = .every everyMs →
    ∀ time ∈ occurrences lib schedule scheduledAt times,
      ∃ k : ℤ, 1 ≤ k ∧ time = scheduledAt + k * everyMs

end Checked

/-- Each occurrence has come when it ends, and neither a period from then nor the distance to the
next time of the grid leaves the 64-bit integers. -/
def InStep (everyMs : ℤ) : ℤ → List ℤ → Prop
  | _, [] => True
  | scheduledAt, now :: times =>
      scheduledAt ≤ now ∧ now + everyMs ≤ i64Max ∧
        nextOnGrid everyMs scheduledAt now - scheduledAt ≤ i64Max ∧
          InStep everyMs (nextOnGrid everyMs scheduledAt now) times

namespace CronSchedule

/-- The endings are in step with the schedule, if it is repeated after a period. -/
def KeepsStep : CronSchedule → ℤ → List ℤ → Prop
  | .every everyMs, scheduledAt, times => InStep everyMs scheduledAt times
  | .at _, _, _ | .cron _ _, _, _ => True

end CronSchedule

theorem checkedI64_eq_some {x y : ℤ} : checkedI64 x = some y ↔ FitsI64 x ∧ x = y := by
  rw [checkedI64]
  split
  · next hfits => exact ⟨fun h ↦ ⟨hfits, Option.some.inj h⟩, fun h ↦ congrArg some h.2⟩
  · next hfits => exact ⟨fun h ↦ (by cases h), fun h ↦ absurd h.1 hfits⟩

theorem plainI64_eq_ok {x y : ℤ} : plainI64 x = .ok y ↔ FitsI64 x ∧ x = y := by
  rw [plainI64]
  split
  · next hfits => exact ⟨fun h ↦ ⟨hfits, Except.ok.inj h⟩, fun h ↦ congrArg _ h.2⟩
  · next hfits => exact ⟨fun h ↦ (by cases h), fun h ↦ absurd h.1 hfits⟩

theorem saturatingI64_of_fits {x : ℤ} (h : FitsI64 x) : saturatingI64 x = x := by
  obtain ⟨hlow, hhigh⟩ := h
  rw [saturatingI64, min_eq_right hhigh, max_eq_right hlow]

theorem saturatingI64_of_lt {x : ℤ} (h : i64Max < x) : saturatingI64 x = i64Max := by
  rw [saturatingI64, min_eq_left h.le]
  decide

theorem le_saturatingI64 {x : ℤ} (h : x ≤ i64Max) : x ≤ saturatingI64 x := by
  rw [saturatingI64, min_eq_right h]
  exact le_max_right _ _

theorem saturatingI64_neg {x : ℤ} (h : x < 0) : saturatingI64 x < 0 := by
  rw [saturatingI64, max_lt_iff]
  exact ⟨by decide, (min_le_right _ _).trans_lt h⟩

theorem neg_le_saturatingI64 (x : ℤ) : -i64Max - 1 ≤ saturatingI64 x := le_max_left _ _

theorem i64Max_pos : 0 < i64Max := by decide

section Every

variable {lib : CronLibrary} {everyMs scheduledAt now next : ℤ}

theorem computeNextRunPlain_every (h : 0 < everyMs) :
    (∃ next, computeNextRunPlain lib (.every everyMs) now = .ok next) ↔
      FitsI64 (now + everyMs) := by
  rw [computeNextRunPlain, if_neg h.not_ge, plainI64]
  split
  · next hfits => exact ⟨fun _ ↦ hfits, fun _ ↦ ⟨_, rfl⟩⟩
  · next hfits =>
      refine ⟨?_, fun h ↦ absurd h hfits⟩
      rintro ⟨next, hnext⟩
      cases hnext

theorem computeNextRunAfterOccurrencePlain_every (h : 0 < everyMs) :
    computeNextRunAfterOccurrencePlain lib (.every everyMs) scheduledAt now = .ok (some next) ↔
      ∃ steps, steps = saturatingI64 (now - scheduledAt) / everyMs + 1 ∧ FitsI64 steps ∧
        FitsI64 (steps * everyMs) ∧ FitsI64 (scheduledAt + steps * everyMs) ∧
          scheduledAt + steps * everyMs = next := by
  rw [computeNextRunAfterOccurrencePlain, if_neg h.not_ge]
  dsimp only
  constructor
  · intro hnext
    cases hsteps : plainI64 (saturatingI64 (now - scheduledAt) / everyMs + 1) with
    | error _ =>
        rw [hsteps] at hnext
        cases hnext
    | ok steps =>
        rw [hsteps] at hnext
        obtain ⟨hfits, rfl⟩ := plainI64_eq_ok.mp hsteps
        obtain ⟨offset, hoffset, hsum⟩ := Option.bind_eq_some_iff.mp (Except.ok.inj hnext)
        obtain ⟨hfitsOffset, rfl⟩ := checkedI64_eq_some.mp hoffset
        obtain ⟨hfitsSum, hsum⟩ := checkedI64_eq_some.mp hsum
        exact ⟨_, rfl, hfits, hfitsOffset, hfitsSum, hsum⟩
  · rintro ⟨_, rfl, hfits, hfitsOffset, hfitsSum, hsum⟩
    rw [plainI64_eq_ok.mpr ⟨hfits, rfl⟩]
    have hoffset := checkedI64_eq_some.mpr ⟨hfitsOffset, rfl⟩
    exact congrArg Except.ok (Option.bind_eq_some_iff.mpr
      ⟨_, hoffset, checkedI64_eq_some.mpr ⟨hfitsSum, hsum⟩⟩)

theorem afterOccurrence_of_inStep (lib : CronLibrary) (h : 0 < everyMs) (hnow : FitsI64 now)
    (hle : scheduledAt ≤ now) (hmax : now + everyMs ≤ i64Max)
    (hdistance : nextOnGrid everyMs scheduledAt now - scheduledAt ≤ i64Max) :
    computeNextRunAfterOccurrencePlain lib (.every everyMs) scheduledAt now =
      .ok (some (nextOnGrid everyMs scheduledAt now)) := by
  have hnext := lt_nextOnGrid scheduledAt now h
  have hbound := nextOnGrid_le scheduledAt now h
  have hzero := i64Max_pos
  have helapsed : FitsI64 (now - scheduledAt) := ⟨by omega, by omega⟩
  have hsteps := one_le_ediv_add_one h hle
  have hcount : (now - scheduledAt) / everyMs + 1 ≤
      ((now - scheduledAt) / everyMs + 1) * everyMs :=
    le_mul_of_one_le_right (by omega) h
  have hlow := hnow.1
  rw [nextOnGrid] at hnext hbound hdistance
  refine (computeNextRunAfterOccurrencePlain_every h).mpr ⟨_, rfl, ?_⟩
  rw [saturatingI64_of_fits helapsed]
  exact ⟨⟨by omega, by omega⟩, ⟨by omega, by omega⟩, ⟨by omega, by omega⟩, rfl⟩

theorem afterOccurrence_of_lt (h : 0 < everyMs) (hscheduled : FitsI64 scheduledAt)
    (hnow : FitsI64 now) (hlt : now < scheduledAt) :
    ∃ next ≤ scheduledAt,
      computeNextRunAfterOccurrencePlain lib (.every everyMs) scheduledAt now =
        .ok (some next) := by
  have hzero := i64Max_pos
  have hneg : saturatingI64 (now - scheduledAt) < 0 := saturatingI64_neg (by omega)
  have hle : now - scheduledAt ≤ saturatingI64 (now - scheduledAt) := le_saturatingI64 (by omega)
  have hbottom := neg_le_saturatingI64 (now - scheduledAt)
  have hsteps : saturatingI64 (now - scheduledAt) / everyMs + 1 ≤ 0 :=
    Int.add_one_le_of_lt (Int.ediv_neg_of_neg_of_pos hneg h)
  have hback := mul_le_of_one_le_right hsteps h
  have hreach := Int.lt_ediv_add_one_mul_self (saturatingI64 (now - scheduledAt)) h
  have hlow := hnow.1
  have hhigh := hscheduled.2
  refine ⟨_, ?_, (computeNextRunAfterOccurrencePlain_every h).mpr
    ⟨_, rfl, ⟨by omega, by omega⟩, ⟨by omega, by omega⟩, ⟨by omega, by omega⟩, rfl⟩⟩
  omega

theorem distance_of_afterOccurrence (h : 0 < everyMs) (hle : scheduledAt ≤ now)
    (hnext : computeNextRunAfterOccurrencePlain lib (.every everyMs) scheduledAt now =
      .ok (some next)) :
    nextOnGrid everyMs scheduledAt now - scheduledAt ≤ i64Max := by
  obtain ⟨_, rfl, -, hoffset, -, -⟩ := (computeNextRunAfterOccurrencePlain_every h).mp hnext
  have hzero := i64Max_pos
  by_cases hfar : i64Max < now - scheduledAt
  · rw [saturatingI64_of_lt hfar] at hoffset
    have hreach := Int.lt_ediv_add_one_mul_self i64Max h
    have hhigh := hoffset.2
    omega
  · rw [saturatingI64_of_fits ⟨by omega, by omega⟩] at hoffset
    have hhigh := hoffset.2
    rw [nextOnGrid]
    omega

theorem fits_nextOnGrid (h : 0 < everyMs) (hnow : FitsI64 now) (hmax : now + everyMs ≤ i64Max) :
    FitsI64 (nextOnGrid everyMs scheduledAt now) := by
  have hlow := hnow.1
  have hnext := lt_nextOnGrid scheduledAt now h
  have hbound := nextOnGrid_le scheduledAt now h
  exact ⟨by omega, by omega⟩

theorem exact_of_inStep (h : 0 < everyMs) (hnow : FitsI64 now) (hle : scheduledAt ≤ now)
    (hmax : now + everyMs ≤ i64Max)
    (hdistance : nextOnGrid everyMs scheduledAt now - scheduledAt ≤ i64Max) :
    Exact lib (.every everyMs) scheduledAt now := by
  have hafter := afterOccurrence_of_inStep lib h hnow hle hmax hdistance
  have hlow := hnow.1
  refine ⟨(computeNextRunPlain_every h).mpr ⟨by omega, hmax⟩, ⟨_, hafter⟩, ?_⟩
  rintro _ ⟨⟩ next hleast -
  rw [hafter, hleast.unique (isLeast_nextOnGrid h hle)]

theorem inStep_of_exact (h : 0 < everyMs) (hscheduled : FitsI64 scheduledAt) (hnow : FitsI64 now)
    (hexact : Exact lib (.every everyMs) scheduledAt now)
    (hlater : ∀ next, computeNextRunAfterOccurrencePlain lib (.every everyMs) scheduledAt now =
      .ok (some next) → scheduledAt < next) :
    scheduledAt ≤ now ∧ now + everyMs ≤ i64Max ∧
      nextOnGrid everyMs scheduledAt now - scheduledAt ≤ i64Max ∧
        computeNextRunAfterOccurrencePlain lib (.every everyMs) scheduledAt now =
          .ok (some (nextOnGrid everyMs scheduledAt now)) := by
  have hmax := ((computeNextRunPlain_every h).mp hexact.nextRun).2
  have hle : scheduledAt ≤ now := by
    by_contra hlt
    obtain ⟨next, hback, hnext⟩ := afterOccurrence_of_lt h hscheduled hnow (not_le.mp hlt)
    exact (hlater next hnext).not_ge hback
  have hafter := hexact.least everyMs rfl _ (isLeast_nextOnGrid h hle) (fits_nextOnGrid h hnow hmax)
  exact ⟨hle, hmax, distance_of_afterOccurrence h hle hafter, hafter⟩

theorem endings_of_afterOccurrence {schedule : CronSchedule} {times : List ℤ}
    (h : computeNextRunAfterOccurrencePlain lib schedule scheduledAt now = .ok (some next)) :
    endings lib schedule scheduledAt (now :: times) =
      (scheduledAt, now) :: endings lib schedule next times := by
  rw [endings, h]

theorem occurrences_of_afterOccurrence {schedule : CronSchedule} {times : List ℤ}
    (h : computeNextRunAfterOccurrencePlain lib schedule scheduledAt now = .ok (some next)) :
    occurrences lib schedule scheduledAt (now :: times) =
      next :: occurrences lib schedule next times := by
  rw [occurrences, h]

theorem inStep_of_endings (h : 0 < everyMs) {times : List ℤ} (hscheduled : FitsI64 scheduledAt)
    (htimes : ∀ now ∈ times, FitsI64 now)
    (hexact : ∀ ending ∈ endings lib (.every everyMs) scheduledAt times,
      Exact lib (.every everyMs) ending.1 ending.2)
    (hincreasing :
      (scheduledAt :: occurrences lib (.every everyMs) scheduledAt times).Pairwise (· < ·)) :
    InStep everyMs scheduledAt times := by
  induction times generalizing scheduledAt with
  | nil => trivial
  | cons now times ih =>
      have hnow := htimes now List.mem_cons_self
      obtain ⟨hle, hmax, hdistance, hafter⟩ :=
        inStep_of_exact h hscheduled hnow (hexact (scheduledAt, now) List.mem_cons_self) (by
          intro next hnext
          rw [occurrences_of_afterOccurrence hnext] at hincreasing
          exact List.rel_of_pairwise_cons hincreasing List.mem_cons_self)
      rw [occurrences_of_afterOccurrence hafter] at hincreasing
      rw [endings_of_afterOccurrence hafter] at hexact
      exact ⟨hle, hmax, hdistance, ih (fits_nextOnGrid h hnow hmax)
        (fun now hmem ↦ htimes now (List.mem_cons_of_mem _ hmem))
        (fun ending hmem ↦ hexact ending (List.mem_cons_of_mem _ hmem)) hincreasing.of_cons⟩

theorem exact_of_mem_endings (h : 0 < everyMs) {times : List ℤ}
    (htimes : ∀ now ∈ times, FitsI64 now) (hstep : InStep everyMs scheduledAt times) :
    ∀ ending ∈ endings lib (.every everyMs) scheduledAt times,
      Exact lib (.every everyMs) ending.1 ending.2 := by
  induction times generalizing scheduledAt with
  | nil => exact fun _ hmem ↦ absurd hmem List.not_mem_nil
  | cons now times ih =>
      obtain ⟨hle, hmax, hdistance, hrest⟩ := hstep
      have hnow := htimes now List.mem_cons_self
      rw [endings_of_afterOccurrence (afterOccurrence_of_inStep lib h hnow hle hmax hdistance)]
      rintro ending hmem
      rcases List.mem_cons.mp hmem with rfl | hmem
      · exact exact_of_inStep h hnow hle hmax hdistance
      · exact ih (fun now hmem ↦ htimes now (List.mem_cons_of_mem _ hmem)) hrest ending hmem

theorem occurrences_of_inStep (lib : CronLibrary) (h : 0 < everyMs) {times : List ℤ}
    (htimes : ∀ now ∈ times, FitsI64 now) (hstep : InStep everyMs scheduledAt times) :
    (scheduledAt :: occurrences lib (.every everyMs) scheduledAt times).Pairwise (· < ·) ∧
      ∀ time ∈ occurrences lib (.every everyMs) scheduledAt times,
        ∃ k : ℤ, 1 ≤ k ∧ time = scheduledAt + k * everyMs := by
  induction times generalizing scheduledAt with
  | nil => exact ⟨List.pairwise_singleton _ _, fun _ hmem ↦ absurd hmem List.not_mem_nil⟩
  | cons now times ih =>
      obtain ⟨hle, hmax, hdistance, hrest⟩ := hstep
      have hnow := htimes now List.mem_cons_self
      obtain ⟨hincreasing, hgrid⟩ :=
        ih (fun now hmem ↦ htimes now (List.mem_cons_of_mem _ hmem)) hrest
      obtain ⟨⟨k, hk, hnext, hlater⟩, -⟩ := isLeast_nextOnGrid h hle
      rw [occurrences_of_afterOccurrence (afterOccurrence_of_inStep lib h hnow hle hmax hdistance)]
      refine ⟨List.pairwise_cons.mpr ⟨?_, hincreasing⟩, ?_⟩
      · intro time hmem
        rcases List.mem_cons.mp hmem with rfl | hmem
        · omega
        · have hlt := List.rel_of_pairwise_cons hincreasing hmem
          omega
      · intro time hmem
        rcases List.mem_cons.mp hmem with rfl | hmem
        · exact ⟨k, hk, hnext⟩
        · obtain ⟨later, hlater, rfl⟩ := hgrid time hmem
          exact ⟨k + later, by omega, by rw [hnext]; ring⟩

end Every

theorem keepsGrid_of_ne_every {lib : CronLibrary} {schedule : CronSchedule} {scheduledAt : ℤ}
    {times : List ℤ} (h : ∀ everyMs, schedule ≠ .every everyMs) :
    KeepsGrid lib schedule scheduledAt times := by
  refine ⟨fun ending _ ↦ ?_, fun everyMs hevery ↦ absurd hevery (h everyMs),
    fun everyMs hevery ↦ absurd hevery (h everyMs)⟩
  cases schedule with
  | «at» atMs => exact ⟨⟨_, rfl⟩, ⟨_, rfl⟩, fun everyMs hevery ↦ absurd hevery (h everyMs)⟩
  | every everyMs => exact absurd rfl (h everyMs)
  | cron expr tz => exact ⟨⟨_, rfl⟩, ⟨_, rfl⟩, fun everyMs hevery ↦ absurd hevery (h everyMs)⟩

/-- The calls of a run are exact and its occurrences ever later times of the first grid, exactly
when the run is in step. -/
theorem keepsGrid_iff_keepsStep (lib : CronLibrary) {schedule : CronSchedule} {scheduledAt : ℤ}
    {times : List ℤ} (hvalid : validateSchedule lib schedule = true)
    (hscheduled : FitsI64 scheduledAt) (htimes : ∀ now ∈ times, FitsI64 now) :
    KeepsGrid lib schedule scheduledAt times ↔ schedule.KeepsStep scheduledAt times := by
  cases schedule with
  | every everyMs =>
      have h : 0 < everyMs := of_decide_eq_true hvalid
      constructor
      · intro hkeeps
        exact inStep_of_endings h hscheduled htimes hkeeps.exact (hkeeps.increasing _ rfl)
      · intro hstep
        have hoccurrences := occurrences_of_inStep lib h htimes hstep
        refine ⟨exact_of_mem_endings h htimes hstep, ?_, ?_⟩
        · rintro _ ⟨⟩
          exact hoccurrences.1
        · rintro _ ⟨⟩
          exact hoccurrences.2
  | «at» atMs => exact ⟨fun _ ↦ trivial, fun _ ↦ keepsGrid_of_ne_every (by rintro _ ⟨⟩)⟩
  | cron expr tz => exact ⟨fun _ ↦ trivial, fun _ ↦ keepsGrid_of_ne_every (by rintro _ ⟨⟩)⟩

def noCron : CronLibrary where
  accepts _ _ := false
  nextAfter _ _ _ := none

/-- A run late by two and a half periods and then by half of one. -/
theorem late_keepsGrid :
    KeepsGrid noCron (.every 1000) 10000 [12500, 13500] ↔ InStep 1000 10000 [12500, 13500] :=
  @keepsGrid_iff_keepsStep noCron (.every 1000) 10000 [12500, 13500] (by decide) (by decide)
    (by decide)

/-- A run that ends before the time for which it was scheduled is scheduled for that time again. -/
theorem early_not_keepsGrid :
    ¬ ∀ (lib : CronLibrary) (schedule : CronSchedule) (scheduledAt : ℤ) (times : List ℤ),
      validateSchedule lib schedule = true → FitsI64 scheduledAt →
        (∀ now ∈ times, FitsI64 now) → times.Pairwise (· ≤ ·) →
          KeepsGrid lib schedule scheduledAt times := by
  intro h
  have hkeeps := h noCron (.every 1000) 10000 [9000] (by decide) (by decide) (by decide)
    (List.pairwise_singleton _ _)
  exact absurd (hkeeps.increasing 1000 rfl) (by decide)

end Zaowutai.Cron
