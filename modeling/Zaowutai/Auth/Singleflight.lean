import Zaowutai.Lib.Run
import Zaowutai.Lib.Table

/-!
# Coalescing of concurrent refreshes

Calls with one refresh token share the cell that the map holds for it.  The
cell runs one initialiser at a time; when that caller is dropped, another that
waits takes its place.  A caller that has received an outcome removes the cell
from the map if it is still the one stored there.
-/

namespace Zaowutai.Auth

open Zaowutai.Lib

structure RefreshedTokens where
  access : String
  refresh : String
  deriving DecidableEq, Repr

inductive RefreshError
  | unauthorized (reason : String)
  | userContextRequired
  | internal (reason : String)
  deriving DecidableEq, Repr

abbrev RefreshOutcome := Except RefreshError RefreshedTokens

structure Execution where
  outcome : RefreshOutcome
  token : String
  executor : ℕ
  completedAt : ℕ

inductive CellState
  | empty
  | running (call : ℕ)
  | full (done : Execution)

structure RefreshCell where
  token : String
  state : CellState

/-- How far a call has come.  It has the cell but has not looked into it (`holding`), waits for
another call's execution, runs its own, has an outcome to return, or has ended. -/
inductive RefreshPhase
  | created
  | holding (cell : ℕ)
  | waiting (cell : ℕ)
  | executing (cell : ℕ)
  | received (cell : ℕ) (done : Execution)
  | returned (done : Execution)
  | dropped

structure RefreshCall where
  token : String
  beganAt : ℕ
  phase : RefreshPhase

structure RefreshState where
  inflight : Table String ℕ
  cells : Table ℕ RefreshCell
  nextCell : ℕ
  calls : Table ℕ RefreshCall
  /-- The number of steps so far. -/
  now : ℕ

/-- The steps of `run` between which other calls may take theirs. -/
inductive RefreshAction
  | take
  | getOrInit
  | complete (outcome : RefreshOutcome)
  | removeIf
  | drop

inductive RefreshStep
  | begin (call : ℕ) (token : String)
  | act (call : ℕ) (action : RefreshAction)

namespace RefreshState

def new : RefreshState := ⟨∅, ∅, 0, ∅, 0⟩

variable (s : RefreshState) (n : ℕ) (call : RefreshCall)

def setPhase (phase : RefreshPhase) : RefreshState :=
  { s with calls := s.calls.insert n { call with phase := phase } }

def setCell (id : ℕ) (state : CellState) : RefreshState :=
  { s with cells := s.cells.modify id fun cell ↦ { cell with state := state } }

def begin (token : String) : RefreshState :=
  if (s.calls.lookup n).isSome then s
  else { s with calls := s.calls.insert n ⟨token, s.now, .created⟩ }

def install (token : String) : RefreshState :=
  { s with
    inflight := s.inflight.insert token s.nextCell
    cells := s.cells.insert s.nextCell ⟨token, .empty⟩
    nextCell := s.nextCell + 1 }

def take : RefreshState :=
  match s.inflight.lookup call.token with
  | some id => s.setPhase n call (.holding id)
  | none => (s.install call.token).setPhase n call (.holding s.nextCell)

/-- A poll of `get_or_init`: the outcome is there, or the caller runs the refresh, or it waits. -/
def getOrInit (id : ℕ) : RefreshState :=
  match (s.cells.lookup id).map RefreshCell.state with
  | some (.full done) => s.setPhase n call (.received id done)
  | some .empty => (s.setCell id (.running n)).setPhase n call (.executing id)
  | some (.running _) => s.setPhase n call (.waiting id)
  | none => s

def complete (id : ℕ) (outcome : RefreshOutcome) : RefreshState :=
  let done : Execution := ⟨outcome, call.token, n, s.now⟩
  (s.setCell id (.full done)).setPhase n call (.received id done)

def removeIf (id : ℕ) (done : Execution) : RefreshState :=
  let removed : RefreshState :=
    if s.inflight.lookup call.token = some id then
      { s with inflight := s.inflight.erase call.token }
    else s
  removed.setPhase n call (.returned done)

def drop : RefreshState :=
  match call.phase with
  | .created => s.setPhase n call .dropped
  | .waiting _ => s.setPhase n call .dropped
  | .executing id => (s.setCell id .empty).setPhase n call .dropped
  | _ => s

def act (action : RefreshAction) : RefreshState :=
  match action, call.phase with
  | .take, .created => s.take n call
  | .getOrInit, .holding id => s.getOrInit n call id
  | .getOrInit, .waiting id => s.getOrInit n call id
  | .complete outcome, .executing id => s.complete n call id outcome
  | .removeIf, .received id done => s.removeIf n call id done
  | .drop, _ => s.drop n call
  | _, _ => s

def perform : RefreshStep → RefreshState
  | .begin n token => s.begin n token
  | .act n action => (s.calls.lookup n).elim s fun call ↦ s.act n call action

def step (a : RefreshStep) : RefreshState := { s.perform a with now := s.now + 1 }

/-- What holds at every moment of the executions, of the outcomes and of the map. -/
structure Coalesced : Prop where
  single : ∀ n m first second id id', s.calls.lookup n = some first →
    s.calls.lookup m = some second → first.token = second.token →
      first.phase = .executing id → second.phase = .executing id' → n = m
  own : ∀ n call done, s.calls.lookup n = some call →
    (call.phase = .returned done ∨ ∃ id, call.phase = .received id done) → done.token = call.token
  cleared : ∀ token,
    (∀ n call, s.calls.lookup n = some call → call.token = token →
      call.phase = .dropped ∨ ∃ done, call.phase = .returned done) →
    ∀ id, s.inflight.lookup token = some id →
      ∀ cell done, s.cells.lookup id = some cell → cell.state ≠ .full done

def Fresh : Prop :=
  ∀ n call done, s.calls.lookup n = some call →
    (call.phase = .returned done ∨ ∃ id, call.phase = .received id done) →
      call.beganAt ≤ done.completedAt

def Joins : RefreshStep → Prop
  | .act n .take => ∀ call id cell done, s.calls.lookup n = some call → call.phase = .created →
      s.inflight.lookup call.token = some id → s.cells.lookup id = some cell →
        cell.state = .full done → call.beganAt ≤ done.completedAt
  | _ => True

end RefreshState

end Zaowutai.Auth
