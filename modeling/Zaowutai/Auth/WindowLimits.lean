import Zaowutai.Auth.RateLimiter

/-!
# Requests that are checked and counted in one step

For each key the admitted moments are those of windows that lie at least one
width apart.  A refused call leaves no trace unless everything is refused.
-/

namespace Zaowutai.Auth

open Zaowutai.Lib

inductive LimiterCall
  | checkAndIncrement (now : ℕ) (key : String)
  | cleanup (now : ℕ)
  deriving DecidableEq, Repr

namespace LimiterCall

def now : LimiterCall → ℕ
  | .checkAndIncrement now _ => now
  | .cleanup now => now

end LimiterCall

abbrev Answered := LimiterCall × Option (Except RateLimited Unit)

def admittedAs (key : String) : Answered → Option ℕ
  | (.checkAndIncrement now other, some (.ok _)) => if other = key then some now else none
  | _ => none

namespace RateLimiter

variable (limiter : RateLimiter)

def perform : LimiterCall → RateLimiter × Option (Except RateLimited Unit)
  | .checkAndIncrement now key =>
      ((limiter.checkAndIncrement now key).1, some (limiter.checkAndIncrement now key).2)
  | .cleanup now => (limiter.cleanup now, none)

def answered : RateLimiter → List LimiterCall → List Answered
  | _, [] => []
  | limiter, call :: calls =>
      (call, (limiter.perform call).2) :: (limiter.perform call).1.answered calls

end RateLimiter

structure HoldsWindows (limiter : RateLimiter) (calls : List LimiterCall) : Prop where
  admitted : ∀ key begin,
    (inInterval limiter.windowMs begin ((limiter.answered calls).filterMap (admittedAs key))).length
      ≤ 2 * limiter.maxRequests
  removable : ∀ keeps : Answered → Bool,
    (∀ call answer, answer ≠ some (.error ⟨⟩) → keeps (call, answer) = true) →
      limiter.answered (((limiter.answered calls).filter keeps).map Prod.fst) =
        (limiter.answered calls).filter keeps

namespace RateLimiter

structure Tracks (limiter : RateLimiter) (entry : RateLimitEntry) (start : ℕ)
    (moments : List ℕ) : Prop where
  reset : entry.resetTimeMs = start + limiter.windowMs
  count : entry.count = moments.countP (fun moment ↦ start ≤ moment)
  spaced : Spaced limiter.windowMs limiter.maxRequests start moments

structure Follows (limiter : RateLimiter) (key : String) (last : ℕ) (moments : List ℕ) : Prop where
  idle : limiter.entries.lookup key = none → ∀ now, last ≤ now →
    Spaced limiter.windowMs limiter.maxRequests now moments ∧ ∀ moment ∈ moments, moment < now
  tracks : ∀ entry, limiter.entries.lookup key = some entry →
    ∃ start, start ≤ last ∧ limiter.Tracks entry start moments

variable {limiter : RateLimiter} {key other : String} {last now start : ℕ} {moments : List ℕ}
  {entry : RateLimitEntry}

theorem follows_new (maxRequests windowMs last : ℕ) :
    (RateLimiter.new maxRequests windowMs).Follows key last [] :=
  ⟨fun _ _ _ ↦ ⟨spaced_nil, fun _ h ↦ (by cases h)⟩, fun _ h ↦ (by cases h)⟩

theorem tracks_begin (h : Spaced limiter.windowMs limiter.maxRequests now moments)
    (hpast : ∀ moment ∈ moments, moment < now) :
    limiter.Tracks ⟨0, now + limiter.windowMs⟩ now moments :=
  ⟨rfl, (countP_eq_zero_of_lt hpast).symm, h⟩

theorem Tracks.over (h : limiter.Tracks entry start moments) (hover : entry.resetTimeMs ≤ now) :
    Spaced limiter.windowMs limiter.maxRequests now moments ∧ ∀ moment ∈ moments, moment < now := by
  rw [h.reset] at hover
  exact ⟨h.spaced.renew hover, fun moment hmem ↦
    Nat.lt_of_lt_of_le (h.spaced.bounded moment hmem) hover⟩

theorem Follows.spaced (h : limiter.Follows key last moments) :
    ∃ start, Spaced limiter.windowMs limiter.maxRequests start moments := by
  cases hlookup : limiter.entries.lookup key with
  | none => exact ⟨last, (h.idle hlookup last (Nat.le_refl last)).1⟩
  | some entry =>
      obtain ⟨start, -, htracks⟩ := h.tracks entry hlookup
      exact ⟨start, htracks.spaced⟩

theorem Follows.opens (h : limiter.Follows key last moments) (hlast : last ≤ now)
    (hwidth : 0 < limiter.windowMs) :
    ∃ start, start ≤ now ∧ now < start + limiter.windowMs ∧
      limiter.Tracks (limiter.openEntry now key) start moments := by
  cases hlookup : limiter.entries.lookup key with
  | none =>
      obtain ⟨hspaced, hpast⟩ := h.idle hlookup now hlast
      rw [openEntry_of_none hlookup]
      exact ⟨now, Nat.le_refl now, by omega, tracks_begin hspaced hpast⟩
  | some entry =>
      obtain ⟨start, hstart, htracks⟩ := h.tracks entry hlookup
      rcases Nat.lt_or_ge now entry.resetTimeMs with hcurrent | hover
      · rw [openEntry_of_current hlookup hcurrent]
        refine ⟨start, Nat.le_trans hstart hlast, ?_, htracks⟩
        rw [← htracks.reset]
        exact hcurrent
      · obtain ⟨hspaced, hpast⟩ := htracks.over hover
        rw [openEntry_of_expired hlookup hover]
        exact ⟨now, Nat.le_refl now, by omega, tracks_begin hspaced hpast⟩

theorem Follows.put_other (h : limiter.Follows key last moments) (hlast : last ≤ now)
    (hother : key ≠ other) : (limiter.put other entry).Follows key now moments := by
  have hsame : (limiter.put other entry).entries.lookup key = limiter.entries.lookup key :=
    lookup_put.trans (if_neg hother)
  refine ⟨fun hnone later hlater ↦ ?_, fun stored hstored ↦ ?_⟩
  · exact h.idle (hsame.symm.trans hnone) later (Nat.le_trans hlast hlater)
  · obtain ⟨start, hstart, htracks⟩ := h.tracks stored (hsame.symm.trans hstored)
    exact ⟨start, Nat.le_trans hstart hlast, htracks.reset, htracks.count, htracks.spaced⟩

theorem Tracks.put (h : limiter.Tracks entry start moments) (hstart : start ≤ now) :
    (limiter.put key entry).Follows key now moments := by
  have hself : (limiter.put key entry).entries.lookup key = some entry :=
    lookup_put.trans (if_pos rfl)
  refine ⟨fun hnone ↦ ?_, fun stored hstored ↦ ?_⟩
  · cases hself.symm.trans hnone
  · cases hself.symm.trans hstored
    exact ⟨start, hstart, h.reset, h.count, h.spaced⟩

theorem Tracks.counted (h : limiter.Tracks entry start moments) (hstart : start ≤ now)
    (hend : now < start + limiter.windowMs) (hroom : entry.count < limiter.maxRequests) :
    limiter.Tracks (counted entry) start (moments ++ [now]) := by
  refine ⟨h.reset, ?_, h.spaced.concat hstart hend (h.count ▸ hroom)⟩
  rw [List.countP_append, List.countP_singleton, if_pos (decide_eq_true hstart), ← h.count]
  rfl

theorem Follows.checkAndIncrement (h : limiter.Follows key last moments) (hlast : last ≤ now)
    (hwidth : 0 < limiter.windowMs) :
    (limiter.perform (.checkAndIncrement now other)).1.Follows key now
      (moments ++ (admittedAs key (.checkAndIncrement now other,
        (limiter.perform (.checkAndIncrement now other)).2)).toList) := by
  simp only [perform, RateLimiter.checkAndIncrement]
  by_cases hother : other = key
  · obtain ⟨start, hstart, hend, htracks⟩ := h.opens hlast hwidth
    subst hother
    split
    · simpa [admittedAs] using htracks.put hstart
    · next hroom =>
        simpa [admittedAs] using (htracks.counted hstart hend (not_le.mp hroom)).put hstart
  · split
    · simpa [admittedAs] using h.put_other hlast (Ne.symm hother)
    · simpa [admittedAs, hother] using h.put_other hlast (Ne.symm hother)

theorem Follows.cleanup (h : limiter.Follows key last moments) (hlast : last ≤ now) :
    (limiter.cleanup now).Follows key now moments := by
  have hlookup : (limiter.cleanup now).entries.lookup key =
      (limiter.entries.lookup key).filter fun entry ↦ now < entry.resetTimeMs :=
    Table.lookup_retain _
  refine ⟨fun hnone later hlater ↦ ?_, fun stored hstored ↦ ?_⟩
  · cases hbefore : limiter.entries.lookup key with
    | none => exact h.idle hbefore later (Nat.le_trans hlast hlater)
    | some entry =>
        obtain ⟨start, -, htracks⟩ := h.tracks entry hbefore
        rw [hlookup, hbefore, Option.filter_some] at hnone
        have hover : entry.resetTimeMs ≤ now := by simpa using hnone
        exact htracks.over (Nat.le_trans hover hlater)
  · obtain ⟨hbefore, -⟩ := Option.filter_eq_some_iff.mp (hlookup.symm.trans hstored)
    obtain ⟨start, hstart, htracks⟩ := h.tracks stored hbefore
    exact ⟨start, Nat.le_trans hstart hlast, htracks.reset, htracks.count, htracks.spaced⟩

theorem perform_windowMs (call : LimiterCall) :
    (limiter.perform call).1.windowMs = limiter.windowMs := by
  cases call with
  | checkAndIncrement now key =>
      simp only [perform, RateLimiter.checkAndIncrement]
      split
      · rfl
      · rfl
  | cleanup now => rfl

theorem perform_maxRequests (call : LimiterCall) :
    (limiter.perform call).1.maxRequests = limiter.maxRequests := by
  cases call with
  | checkAndIncrement now key =>
      simp only [perform, RateLimiter.checkAndIncrement]
      split
      · rfl
      · rfl
  | cleanup now => rfl

theorem Follows.spaced_answered {calls : List LimiterCall} (h : limiter.Follows key last moments)
    (hwidth : 0 < limiter.windowMs)
    (hsorted : calls.Pairwise fun first second ↦ first.now ≤ second.now)
    (hlast : ∀ call ∈ calls, last ≤ call.now) :
    ∃ start, Spaced limiter.windowMs limiter.maxRequests start
      (moments ++ (limiter.answered calls).filterMap (admittedAs key)) := by
  induction calls generalizing limiter last moments with
  | nil =>
      rw [answered, List.filterMap_nil, List.append_nil]
      exact h.spaced
  | cons call calls ih =>
      obtain ⟨hfirst, hrest⟩ := List.pairwise_cons.mp hsorted
      have hcall := hlast call List.mem_cons_self
      have hnext : (limiter.perform call).1.Follows key call.now
          (moments ++ (admittedAs key (call, (limiter.perform call).2)).toList) := by
        cases call with
        | checkAndIncrement now other => exact h.checkAndIncrement hcall hwidth
        | cleanup now =>
            rw [show admittedAs key (.cleanup now, (limiter.perform (.cleanup now)).2) = none from rfl,
              Option.toList_none, List.append_nil]
            exact h.cleanup hcall
      have hrun := ih hnext (by rwa [perform_windowMs]) hrest hfirst
      rw [perform_windowMs, perform_maxRequests, List.append_assoc] at hrun
      rw [answered, List.filterMap_cons]
      cases hadmitted : admittedAs key (call, (limiter.perform call).2) with
      | none => simpa [hadmitted] using hrun
      | some moment => simpa [hadmitted] using hrun

structure Agrees (limiter rival : RateLimiter) : Prop where
  maxRequests : limiter.maxRequests = rival.maxRequests
  windowMs : limiter.windowMs = rival.windowMs
  entries : limiter.maxRequests = 0 ∨
    ∀ key, limiter.entries.lookup key = rival.entries.lookup key

variable {rival third : RateLimiter}

theorem agrees_self (limiter : RateLimiter) : limiter.Agrees limiter :=
  ⟨rfl, rfl, .inr fun _ ↦ rfl⟩

theorem Agrees.trans (h : limiter.Agrees rival) (h' : rival.Agrees third) :
    limiter.Agrees third := by
  refine ⟨h.maxRequests.trans h'.maxRequests, h.windowMs.trans h'.windowMs, ?_⟩
  rcases h.entries with hzero | hsame
  · exact .inl hzero
  · rcases h'.entries with hzero | hsame'
    · exact .inl (h.maxRequests.trans hzero)
    · exact .inr fun key ↦ (hsame key).trans (hsame' key)

theorem Agrees.openEntry (h : limiter.Agrees rival)
    (hsame : limiter.entries.lookup key = rival.entries.lookup key) :
    limiter.openEntry now key = rival.openEntry now key := by
  rw [RateLimiter.openEntry, RateLimiter.openEntry, hsame, h.windowMs]

theorem Agrees.put (h : limiter.Agrees rival)
    (hsame : ∀ key, limiter.entries.lookup key = rival.entries.lookup key) :
    (limiter.put key entry).Agrees (rival.put key entry) := by
  refine ⟨h.maxRequests, h.windowMs, .inr fun other ↦ ?_⟩
  rw [lookup_put, lookup_put, hsame other]

theorem checkAndIncrement_of_zero (hzero : limiter.maxRequests = 0) :
    limiter.checkAndIncrement now key =
      (limiter.put key (limiter.openEntry now key), .error ⟨⟩) :=
  if_pos (hzero.trans_le (Nat.zero_le _))

theorem Agrees.perform (h : limiter.Agrees rival) (call : LimiterCall) :
    (limiter.perform call).2 = (rival.perform call).2 ∧
      (limiter.perform call).1.Agrees (rival.perform call).1 := by
  cases call with
  | checkAndIncrement now key =>
      simp only [RateLimiter.perform]
      rcases h.entries with hzero | hsame
      · rw [checkAndIncrement_of_zero hzero, checkAndIncrement_of_zero (h.maxRequests.symm.trans hzero)]
        exact ⟨rfl, h.maxRequests, h.windowMs, .inl hzero⟩
      · simp only [RateLimiter.checkAndIncrement, h.openEntry (hsame key), h.maxRequests]
        split
        · exact ⟨rfl, h.put hsame⟩
        · exact ⟨rfl, h.put hsame⟩
  | cleanup now =>
      refine ⟨rfl, h.maxRequests, h.windowMs, h.entries.imp_right fun hsame key ↦ ?_⟩
      simp only [RateLimiter.perform, RateLimiter.cleanup, Table.lookup_retain, hsame key]

theorem lookup_of_full (hpos : 0 < (limiter.openEntry now key).count) :
    limiter.entries.lookup key = some (limiter.openEntry now key) := by
  cases hlookup : limiter.entries.lookup key with
  | none =>
      rw [openEntry_of_none hlookup] at hpos
      cases hpos
  | some entry =>
      rcases Nat.lt_or_ge now entry.resetTimeMs with hcurrent | hover
      · rw [openEntry_of_current hlookup hcurrent]
      · rw [openEntry_of_expired hlookup hover] at hpos
        cases hpos

theorem agrees_of_refused {call : LimiterCall}
    (h : (limiter.perform call).2 = some (.error ⟨⟩)) : (limiter.perform call).1.Agrees limiter := by
  cases call with
  | checkAndIncrement now key =>
      simp only [perform, RateLimiter.checkAndIncrement] at h ⊢
      split at h
      · next hfull =>
          rw [if_pos hfull]
          refine ⟨rfl, rfl, ?_⟩
          rcases Nat.eq_zero_or_pos limiter.maxRequests with hzero | hpos
          · exact .inl hzero
          · refine .inr fun other ↦ ?_
            rw [lookup_put]
            split
            · next hother => rw [hother, lookup_of_full (Nat.lt_of_lt_of_le hpos hfull)]
            · rfl
      · cases h
  | cleanup now => cases h

theorem Agrees.answered_filter {keeps : Answered → Bool}
    (hkeeps : ∀ call answer, answer ≠ some (.error ⟨⟩) → keeps (call, answer) = true)
    {calls : List LimiterCall} (h : limiter.Agrees rival) :
    rival.answered (((limiter.answered calls).filter keeps).map Prod.fst) =
      (limiter.answered calls).filter keeps := by
  induction calls generalizing limiter rival with
  | nil => rfl
  | cons call calls ih =>
      rw [answered, List.filter_cons]
      split
      · obtain ⟨hanswer, hnext⟩ := h.perform call
        rw [List.map_cons, answered, ih hnext, hanswer]
      · next hdropped =>
          have hrefused : (limiter.perform call).2 = some (.error ⟨⟩) := by
            by_contra hother
            exact hdropped (hkeeps call _ hother)
          exact ih ((agrees_of_refused hrefused).trans h)

theorem holdsWindows (maxRequests windowMs : ℕ) {calls : List LimiterCall}
    (hsorted : calls.Pairwise fun first second ↦ first.now ≤ second.now) :
    HoldsWindows (.new maxRequests windowMs) calls := by
  refine ⟨fun key begin ↦ ?_, fun keeps hkeeps ↦ (agrees_self _).answered_filter hkeeps⟩
  rcases Nat.eq_zero_or_pos windowMs with hzero | hwidth
  · -- no moment lies in an interval without width
    subst hzero
    rw [inInterval, List.filter_eq_nil_iff.mpr]
    · exact Nat.zero_le _
    · intro moment _ hmoment
      have hmoment := of_decide_eq_true hmoment
      change begin ≤ moment ∧ moment < begin + 0 at hmoment
      omega
  · have hfollows : (RateLimiter.new maxRequests windowMs).Follows key 0 [] := follows_new ..
    obtain ⟨start, hspaced⟩ := hfollows.spaced_answered hwidth hsorted fun _ _ ↦ Nat.zero_le _
    exact hspaced.every begin

end RateLimiter

/-- Failed logins stay within the limit exactly if each is recorded while the check would pass, and
what is checked and counted in one step stays within twice the limit. -/
theorem throttled_iff_checksAgain (maxRequests windowMs now : ℕ) :
    (∀ steps, Throughout AuthState.step AuthState.Throttled (.new maxRequests windowMs now) steps ↔
      Meets AuthState.step AuthState.ChecksAgain (.new maxRequests windowMs now) steps) ∧
    ∀ calls : List LimiterCall, calls.Pairwise (fun first second ↦ first.now ≤ second.now) →
      HoldsWindows (.new maxRequests windowMs) calls := by
  refine ⟨fun steps ↦ ?_, fun calls hsorted ↦ RateLimiter.holdsWindows maxRequests windowMs hsorted⟩
  refine throughout_iff_meets (Q := fun _ ↦ True) (fun _ _ _ ↦ trivial)
    (fun s a _ hs ↦ AuthState.throttled_step_iff a hs) trivial ?_
  intro ip entry hlookup
  cases hlookup

theorem throttled_iff_checksAgain_pair :
    HoldsWindows (.new 1 1000) [.checkAndIncrement 5 "ip", .checkAndIncrement 7 "ip"] :=
  (throttled_iff_checksAgain 1 1000 0).2 _ (by decide)

/-- Six requests that are checked before the first of them has failed. -/
def parallelLogins : List AuthStep :=
  (List.range 6).map (.arrive · "198.51.100.7") ++ (List.range 6).map (.respond · false) ++
    (List.range 6).map .recordAttempt

theorem parallelLogins_not_throttled :
    ¬Throughout AuthState.step AuthState.Throttled ⟨.auth, 0, ∅⟩ parallelLogins := by
  intro h
  exact absurd (h.last "198.51.100.7" ⟨6, 900000⟩ (by decide)) (by decide)

end Zaowutai.Auth
