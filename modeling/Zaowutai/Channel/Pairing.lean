import Mathlib.Data.List.Sort
import Zaowutai.Lib.Run
import Zaowutai.Lib.Table

/-!
# Pairing of platform users

An owner approves or rejects the pairing code a platform user has requested.
Every operation of the service is a sequence of repository calls, each of them
atomic, that interleave with the calls of the other operations and may fail.
Broadcasts are left out.
-/

namespace Zaowutai.Channel

open Zaowutai.Lib

inductive PairingStatus where
  | pending
  | approved
  | rejected
  | expired
  deriving DecidableEq, Repr

/-- The columns of a code besides its key. -/
structure PairingCodeRow where
  platformUserId : String
  platformType : String
  displayName : Option String
  requestedAt : ℤ
  expiresAt : ℤ
  status : PairingStatus
  deriving DecidableEq, Repr

structure AssistantUserRow where
  displayName : Option String
  authorizedAt : ℤ
  deriving DecidableEq, Repr

inductive ChannelError where
  | invalidConfig
  | pairingNotFound (code : String)
  | pairingExpired (code : String)
  | pairingAlreadyProcessed (code : String)
  | database
  deriving DecidableEq, Repr

def pairingCodeTtl : ℤ := 10 * 60 * 1000

structure ChannelRepository where
  codes : Table (String × String) PairingCodeRow
  users : Table (String × String × String) AssistantUserRow

namespace ChannelRepository

variable (r : ChannelRepository)

/-- `none` when the code exists already. -/
def createPairing (ownerUserId code : String) (row : PairingCodeRow) : Option ChannelRepository :=
  if (ownerUserId, code) ∈ r.codes then none
  else some { r with codes := r.codes.insert (ownerUserId, code) row }

def getPendingPairings (ownerUserId : String) : List (String × PairingCodeRow) :=
  let pending := r.codes.entries.filter fun entry ↦
    entry.1.1 = ownerUserId ∧ entry.2.status = .pending
  let ordered := pending.insertionSort fun a b ↦ b.2.requestedAt ≤ a.2.requestedAt
  ordered.map fun entry ↦ (entry.1.2, entry.2)

def getPairingByCode (ownerUserId code : String) : Option PairingCodeRow :=
  r.codes.lookup (ownerUserId, code)

/-- The status is written whatever it was; `none` when there is no such code. -/
def updatePairingStatus (ownerUserId code : String) (status : PairingStatus) :
    Option ChannelRepository :=
  if (ownerUserId, code) ∈ r.codes then
    some { r with codes := r.codes.modify (ownerUserId, code) fun row ↦ { row with status } }
  else none

def cleanupExpiredPairings (ownerUserId : String) (now : ℤ) : ChannelRepository :=
  { r with
    codes := r.codes.mapValues fun key row ↦
      if key.1 = ownerUserId ∧ row.status = .pending ∧ row.expiresAt ≤ now then
        { row with status := .expired }
      else row }

/-- `none` when the platform user exists already. -/
def createUser (ownerUserId platformUserId platformType : String) (row : AssistantUserRow) :
    Option ChannelRepository :=
  if (ownerUserId, platformUserId, platformType) ∈ r.users then none
  else some { r with users := r.users.insert (ownerUserId, platformUserId, platformType) row }

end ChannelRepository

structure PairingRequest where
  ownerUserId : String
  platformUserId : String
  platformType : String
  displayName : Option String
  deriving DecidableEq, Repr

/-- The decision to approve a code: the row that was read, and when. -/
structure Approval where
  ownerUserId : String
  code : String
  row : PairingCodeRow
  decidedAt : ℤ
  deriving DecidableEq, Repr

def Approval.key (a : Approval) : String × String := (a.ownerUserId, a.code)

def Approval.userKey (a : Approval) : String × String × String :=
  (a.ownerUserId, a.row.platformUserId, a.row.platformType)

/-- An operation under way, by the repository call it makes next. -/
inductive PairingCall where
  | requestList (r : PairingRequest)
  | requestExpire (r : PairingRequest) (codes : List String)
  | requestCreate (r : PairingRequest) (code : String) (requestedAt : ℤ)
  | approveRead (ownerUserId code : String)
  | approveCreate (a : Approval)
  | approveUpdate (a : Approval)
  | rejectRead (ownerUserId code : String)
  | rejectUpdate (ownerUserId code : String)
  | markExpired (ownerUserId code : String)
  deriving DecidableEq, Repr

inductive Progress where
  | next (call : PairingCall)
  | done (result : Except ChannelError Unit)

/-- `get_valid_pending_pairing` on the row it has read.  An expired code is marked first. -/
def validPendingPairing (ownerUserId code : String) (now : ℤ) (proceed : PairingCodeRow → Progress) :
    Option PairingCodeRow → Progress
  | none => .done (.error (.pairingNotFound code))
  | some row =>
      if row.status ≠ .pending then .done (.error (.pairingAlreadyProcessed code))
      else if row.expiresAt ≤ now then .next (.markExpired ownerUserId code)
      else proceed row

/-- The next repository call of an operation; it fails unless `ok`.  A new code is `drawn`. -/
def PairingCall.advance (r : ChannelRepository) (now : ℤ) (ok : Bool) (drawn : String) :
    PairingCall → ChannelRepository × Progress
  | .requestList q =>
      if ok then
        let codes := (r.getPendingPairings q.ownerUserId).filterMap fun (code, row) ↦
          if row.platformUserId = q.platformUserId ∧ row.platformType = q.platformType then some code
          else none
        (r, .next (.requestExpire q codes))
      else (r, .done (.error .database))
  | .requestExpire q [] =>
      (r, if ok then .next (.requestCreate q drawn now) else .done (.error .invalidConfig))
  | .requestExpire q (code :: codes) =>
      match if ok then r.updatePairingStatus q.ownerUserId code .expired else none with
      | some r => (r, .next (.requestExpire q codes))
      | none => (r, .done (.error .database))
  | .requestCreate q code requestedAt =>
      let row := ⟨q.platformUserId, q.platformType, q.displayName, requestedAt,
        requestedAt + pairingCodeTtl, .pending⟩
      match if ok then r.createPairing q.ownerUserId code row else none with
      | some r => (r, .done (.ok ()))
      | none => (r, .done (.error .database))
  | .approveRead ownerUserId code =>
      (r, if ok then
          validPendingPairing ownerUserId code now
            (fun row ↦ .next (.approveCreate ⟨ownerUserId, code, row, now⟩))
            (r.getPairingByCode ownerUserId code)
        else .done (.error .database))
  | .approveCreate a =>
      match if ok then
          r.createUser a.ownerUserId a.row.platformUserId a.row.platformType
            ⟨a.row.displayName, a.decidedAt⟩
        else none with
      | some r => (r, .next (.approveUpdate a))
      | none => (r, .done (.error .database))
  | .approveUpdate a =>
      match if ok then r.updatePairingStatus a.ownerUserId a.code .approved else none with
      | some r => (r, .done (.ok ()))
      | none => (r, .done (.error .database))
  | .rejectRead ownerUserId code =>
      (r, if ok then
          validPendingPairing ownerUserId code now (fun _ ↦ .next (.rejectUpdate ownerUserId code))
            (r.getPairingByCode ownerUserId code)
        else .done (.error .database))
  | .rejectUpdate ownerUserId code =>
      match if ok then r.updatePairingStatus ownerUserId code .rejected else none with
      | some r => (r, .done (.ok ()))
      | none => (r, .done (.error .database))
  | .markExpired ownerUserId code =>
      -- Whether the write succeeds is ignored.
      (if ok then (r.updatePairingStatus ownerUserId code .expired).getD r else r,
        .done (.error (.pairingExpired code)))

/-- The repository, the operations under way and the results of the others, with the approvals
from which a user has been created. -/
structure Pairings where
  repo : ChannelRepository
  now : ℤ
  calls : Table ℕ PairingCall
  results : Table ℕ (Except ChannelError Unit)
  approvals : List Approval

inductive PairingAction where
  | requestPairing (call : ℕ) (r : PairingRequest)
  | approvePairing (call : ℕ) (ownerUserId code : String)
  | rejectPairing (call : ℕ) (ownerUserId code : String)
  | advance (call : ℕ) (ok : Bool) (drawn : String)
  | cleanup (ownerUserId : String) (now : ℤ)
  | wait (ms : ℕ)

namespace Pairings

def new (now : ℤ) : Pairings := ⟨⟨∅, ∅⟩, now, ∅, ∅, []⟩

variable (s : Pairings)

def begin (number : ℕ) (call : PairingCall) : Pairings :=
  if number ∈ s.calls then s else { s with calls := s.calls.insert number call }

def advance (number : ℕ) (ok : Bool) (drawn : String) : Pairings :=
  match s.calls.lookup number with
  | none => s
  | some call =>
      match call.advance s.repo s.now ok drawn with
      | (repo, .next call') =>
          { s with
            repo
            calls := s.calls.insert number call'
            approvals := match call with
              | .approveCreate a => a :: s.approvals
              | _ => s.approvals }
      | (repo, .done result) =>
          { s with
            repo
            calls := s.calls.erase number
            results := s.results.insert number result }

def step : PairingAction → Pairings
  | .requestPairing number r => s.begin number (.requestList r)
  | .approvePairing number ownerUserId code => s.begin number (.approveRead ownerUserId code)
  | .rejectPairing number ownerUserId code => s.begin number (.rejectRead ownerUserId code)
  | .advance number ok drawn => s.advance number ok drawn
  | .cleanup ownerUserId now =>
      if now ≤ s.now then { s with repo := s.repo.cleanupExpiredPairings ownerUserId now } else s
  | .wait ms => { s with now := s.now + ms }

end Pairings

end Zaowutai.Channel
