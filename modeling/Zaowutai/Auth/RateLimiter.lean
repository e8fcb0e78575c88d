import Zaowutai.Lib.Run
import Zaowutai.Lib.Table
import Zaowutai.Lib.TimeWindows

/-!
# The limiter for logins and other requests

An entry counts what was recorded for a key until its window is over.  Logins
check the limit when a request arrives and record a failure when the handler
has answered; other requests are checked and counted in one step.
-/

namespace Zaowutai.Auth

open Zaowutai.Lib

structure RateLimitEntry where
  count : ℕ
  resetTimeMs : ℕ
  deriving DecidableEq, Repr

structure RateLimiter where
  entries : Table String RateLimitEntry
  maxRequests : ℕ
  windowMs : ℕ

structure RateLimited where
  deriving DecidableEq, Repr

namespace RateLimiter

def new (maxRequests windowMs : ℕ) : RateLimiter := ⟨∅, maxRequests, windowMs⟩

def auth : RateLimiter := new 5 (15 * 60 * 1000)

variable (limiter : RateLimiter) (now : ℕ) (key : String)

def check : Except RateLimited Unit :=
  (limiter.entries.lookup key).elim (.ok ()) fun entry ↦
    if now < entry.resetTimeMs ∧ limiter.maxRequests ≤ entry.count then .error ⟨⟩ else .ok ()

def openEntry : RateLimitEntry :=
  let entry := (limiter.entries.lookup key).getD ⟨0, now + limiter.windowMs⟩
  if entry.resetTimeMs ≤ now then ⟨0, now + limiter.windowMs⟩ else entry

def put (entry : RateLimitEntry) : RateLimiter :=
  { limiter with entries := limiter.entries.insert key entry }

def counted (entry : RateLimitEntry) : RateLimitEntry := { entry with count := entry.count + 1 }

def checkAndIncrement : RateLimiter × Except RateLimited Unit :=
  let entry := limiter.openEntry now key
  if limiter.maxRequests ≤ entry.count then (limiter.put key entry, .error ⟨⟩)
  else (limiter.put key (counted entry), .ok ())

def recordAttempt : RateLimiter := limiter.put key (counted (limiter.openEntry now key))

def cleanup : RateLimiter :=
  { limiter with entries := limiter.entries.retain fun _ entry ↦ now < entry.resetTimeMs }

end RateLimiter

inductive AuthPhase
  | handling (ip : String)
  | failed (ip : String)
  deriving DecidableEq, Repr

structure AuthState where
  limiter : RateLimiter
  now : ℕ
  requests : Table ℕ AuthPhase

/-- The steps of the middleware for the requests in flight, of the cleanup task and of the clock.
A request is dropped when its client is gone before the handler has answered. -/
inductive AuthStep
  | arrive (request : ℕ) (ip : String)
  | respond (request : ℕ) (isSuccess : Bool)
  | recordAttempt (request : ℕ)
  | drop (request : ℕ)
  | cleanup
  | elapse (ms : ℕ)
  deriving DecidableEq, Repr

namespace AuthState

def new (maxRequests windowMs now : ℕ) : AuthState := ⟨.new maxRequests windowMs, now, ∅⟩

variable (s : AuthState)

def arrive (request : ℕ) (ip : String) : AuthState :=
  if (s.requests.lookup request).isSome then s
  else
    match s.limiter.check s.now ip with
    | .ok _ => { s with requests := s.requests.insert request (.handling ip) }
    | .error _ => s

def respond (request : ℕ) (isSuccess : Bool) : AuthState :=
  match s.requests.lookup request with
  | some (.handling ip) =>
      if isSuccess then { s with requests := s.requests.erase request }
      else { s with requests := s.requests.insert request (.failed ip) }
  | _ => s

def recordAttempt (request : ℕ) : AuthState :=
  match s.requests.lookup request with
  | some (.failed ip) =>
      { s with
        limiter := s.limiter.recordAttempt s.now ip
        requests := s.requests.erase request }
  | _ => s

def drop (request : ℕ) : AuthState :=
  match s.requests.lookup request with
  | some (.handling _) => { s with requests := s.requests.erase request }
  | _ => s

def step : AuthStep → AuthState
  | .arrive request ip => s.arrive request ip
  | .respond request isSuccess => s.respond request isSuccess
  | .recordAttempt request => s.recordAttempt request
  | .drop request => s.drop request
  | .cleanup => { s with limiter := s.limiter.cleanup s.now }
  | .elapse ms => { s with now := s.now + ms }

def Throttled : Prop :=
  ∀ ip entry, s.limiter.entries.lookup ip = some entry → entry.count ≤ s.limiter.maxRequests

def ChecksAgain : AuthStep → Prop
  | .recordAttempt request => ∀ ip, s.requests.lookup request = some (.failed ip) →
      0 < s.limiter.maxRequests ∧ s.limiter.check s.now ip = .ok ()
  | _ => True

end AuthState

/-!
## What the limiter holds back

Failed logins stay within the limit exactly when each is recorded while the
check would still pass.  Requests that are checked and counted in one step stay
within twice the limit in every interval of one window's width.
-/

namespace RateLimiter

variable {limiter : RateLimiter} {now : ℕ} {key other : String} {entry : RateLimitEntry}

theorem openEntry_of_none (h : limiter.entries.lookup key = none) :
    limiter.openEntry now key = ⟨0, now + limiter.windowMs⟩ := by
  rw [openEntry, h]
  exact ite_self _

theorem openEntry_of_expired (h : limiter.entries.lookup key = some entry)
    (hover : entry.resetTimeMs ≤ now) :
    limiter.openEntry now key = ⟨0, now + limiter.windowMs⟩ := by
  rw [openEntry, h]
  exact if_pos hover

theorem openEntry_of_current (h : limiter.entries.lookup key = some entry)
    (hcurrent : now < entry.resetTimeMs) : limiter.openEntry now key = entry := by
  rw [openEntry, h]
  exact if_neg (by simpa using hcurrent)

theorem lookup_put :
    (limiter.put key entry).entries.lookup other =
      if other = key then some entry else limiter.entries.lookup other :=
  Table.lookup_insert_eq entry

theorem openEntry_count_lt_iff :
    (limiter.openEntry now key).count < limiter.maxRequests ↔
      0 < limiter.maxRequests ∧ limiter.check now key = .ok () := by
  cases hlookup : limiter.entries.lookup key with
  | none =>
      rw [openEntry_of_none hlookup, check, hlookup]
      exact ⟨fun h ↦ ⟨h, rfl⟩, And.left⟩
  | some entry =>
      rw [check, hlookup]
      rcases Nat.lt_or_ge now entry.resetTimeMs with hcurrent | hover
      · rw [openEntry_of_current hlookup hcurrent]
        by_cases hfull : limiter.maxRequests ≤ entry.count
        · simp [hcurrent, hfull]
        · simp only [Option.elim_some, hcurrent, hfull, and_false, if_false, and_true]
          omega
      · rw [openEntry_of_expired hlookup hover]
        simp [hover]

end RateLimiter

namespace AuthState

variable {s t : AuthState}

theorem throttled_of_limiter_eq (h : t.limiter = s.limiter) (hs : s.Throttled) : t.Throttled := by
  intro ip entry hlookup
  rw [h] at hlookup ⊢
  exact hs ip entry hlookup

theorem limiter_arrive (request : ℕ) (ip : String) : (s.arrive request ip).limiter = s.limiter := by
  rw [arrive]
  split
  · rfl
  · split
    · rfl
    · rfl

theorem limiter_respond (request : ℕ) (isSuccess : Bool) :
    (s.respond request isSuccess).limiter = s.limiter := by
  rw [respond]
  split
  · split
    · rfl
    · rfl
  · rfl

theorem limiter_drop (request : ℕ) : (s.drop request).limiter = s.limiter := by
  rw [drop]
  split
  · rfl
  · rfl

theorem throttled_cleanup (hs : s.Throttled) : (s.step .cleanup).Throttled := by
  intro ip entry hlookup
  simp only [step, RateLimiter.cleanup, Table.lookup_retain] at hlookup
  exact hs ip entry (Option.filter_eq_some_iff.mp hlookup).1

theorem throttled_recordAttempt_iff (hs : s.Throttled) (request : ℕ) :
    (s.recordAttempt request).Throttled ↔ s.ChecksAgain (.recordAttempt request) := by
  rw [recordAttempt]
  split
  · next ip hfailed =>
      have hroom : s.ChecksAgain (.recordAttempt request) ↔
          (s.limiter.openEntry s.now ip).count < s.limiter.maxRequests := by
        rw [RateLimiter.openEntry_count_lt_iff]
        refine ⟨fun h ↦ h ip hfailed, fun h other hother ↦ ?_⟩
        cases hfailed.symm.trans hother
        exact h
      rw [hroom]
      constructor
      · intro h
        exact h ip _ (RateLimiter.lookup_put.trans (if_pos rfl))
      · intro hlt other entry hlookup
        simp only [RateLimiter.recordAttempt, RateLimiter.lookup_put] at hlookup
        split at hlookup
        · cases hlookup
          exact hlt
        · exact hs other entry hlookup
  · next hnone =>
      refine iff_of_true hs fun ip hfailed ↦ ?_
      exact absurd hfailed (hnone ip)

theorem throttled_step_iff (a : AuthStep) (hs : s.Throttled) :
    (s.step a).Throttled ↔ s.ChecksAgain a := by
  cases a with
  | arrive request ip => exact iff_of_true (throttled_of_limiter_eq (limiter_arrive _ _) hs) trivial
  | respond request isSuccess =>
      exact iff_of_true (throttled_of_limiter_eq (limiter_respond _ _) hs) trivial
  | recordAttempt request => exact throttled_recordAttempt_iff hs request
  | drop request => exact iff_of_true (throttled_of_limiter_eq (limiter_drop _) hs) trivial
  | cleanup => exact iff_of_true (throttled_cleanup hs) trivial
  | elapse ms => exact iff_of_true (throttled_of_limiter_eq rfl hs) trivial

end AuthState

end Zaowutai.Auth
