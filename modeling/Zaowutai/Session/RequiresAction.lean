import Mathlib.Data.List.Count
import Zaowutai.Lib.Run
import Zaowutai.Session.Reducer

/-!
# Outstanding requests

A turn waits for the user while a permission, a re-authentication or a
question is unanswered.  The reducer keeps one counter for each kind of
request.  Beside it, a view of the turn keeps the requests themselves: those
raised and not yet resolved under their own id.  The two agree as long as
every resolve finds its request, or finds no request of its kind at all.
-/

namespace Zaowutai.Session

open Zaowutai.Lib

inductive RequestKind
  | tool
  | auth
  | question
  deriving DecidableEq, Repr

def PermissionKind.requestKind : PermissionKind → RequestKind
  | .tool => .tool
  | .auth => .auth

abbrev Request := RequestKind × String

def raised : SessionEvent → Option Request
  | .permission requestId kind => some (kind.requestKind, requestId)
  | .ask requestId => some (.question, requestId)
  | _ => none

def resolved : SessionEvent → Option Request
  | .permissionResolved requestId kind => some (kind.requestKind, requestId)
  | .askResolved requestId => some (.question, requestId)
  | _ => none

def RequiresActionSet.count (set : RequiresActionSet) : RequestKind → ℕ
  | .tool => set.waitingOnApproval
  | .auth => set.waitingOnAuth
  | .question => set.waitingOnQuestion

theorem isRequiresAction_running_iff (turn : RunningTurn) :
    isRequiresAction (.running turn) = true ↔ ∃ kind, 0 < turn.requiresAction.count kind := by
  constructor
  · intro h
    simp only [isRequiresAction, Bool.or_eq_true, decide_eq_true_eq] at h
    rcases h with (h | h) | h
    · exact ⟨.tool, h⟩
    · exact ⟨.auth, h⟩
    · exact ⟨.question, h⟩
  · rintro ⟨kind, h⟩
    cases kind <;> simp only [RequiresActionSet.count] at h <;> simp [isRequiresAction, h]

def countAfter (event : SessionEvent) (kind : RequestKind) (n : ℕ) : ℕ :=
  match raised event, resolved event with
  | some r, _ => if r.1 = kind then saturatingSucc n else n
  | none, some r => if r.1 = kind then saturatingPred n else n
  | none, none => n

theorem count_raise (set : RequiresActionSet) (kind : PermissionKind) (other : RequestKind) :
    (set.raise kind).count other =
      if kind.requestKind = other then saturatingSucc (set.count other) else set.count other := by
  cases kind <;> cases other <;> rfl

theorem count_resolve (set : RequiresActionSet) (kind : PermissionKind) (other : RequestKind) :
    (set.resolve kind).count other =
      if kind.requestKind = other then saturatingPred (set.count other) else set.count other := by
  cases kind <;> cases other <;> rfl

theorem count_stepRunning {turn turn' : RunningTurn} {event : SessionEvent}
    (h : (stepRunning turn event).1 = .running turn') (kind : RequestKind) :
    turn'.requiresAction.count kind = countAfter event kind (turn.requiresAction.count kind) := by
  rw [eq_turnAfter h]
  cases event with
  | permission requestId k => exact count_raise _ _ _
  | permissionResolved requestId k => exact count_resolve _ _ _
  | ask requestId => cases kind <;> rfl
  | askResolved requestId => cases kind <;> rfl
  | messageDelta text =>
      simp only [turnAfter]
      split <;> rfl
  | _ => rfl

structure TurnView where
  state : SessionState
  pending : List Request

def TurnView.fresh (epoch : ℕ) : TurnView := ⟨.running (.fresh epoch), []⟩

/-- A raised request becomes outstanding; a resolve settles the request with its kind and
id, and a stray or repeated one settles nothing. -/
def pendingAfter (event : SessionEvent) (pending : List Request) : List Request :=
  match raised event, resolved event with
  | some r, _ => r :: pending
  | none, some r => pending.erase r
  | none, none => pending

def turnStep (view : TurnView) (event : SessionEvent) : TurnView :=
  ⟨(step view.state event).1, pendingAfter event view.pending⟩

/-- All of the events are folded within the one turn that started at `epoch`. -/
def InTurn (epoch : ℕ) (events : List SessionEvent) : Prop :=
  Throughout turnStep
    (fun view ↦ ∃ turn, view.state = .running turn ∧ turn.sinceEpoch = epoch)
    (.fresh epoch) events

def RequiresActionTracks (epoch : ℕ) (events : List SessionEvent) : Prop :=
  Throughout turnStep (fun view ↦ isRequiresAction view.state = true ↔ view.pending ≠ [])
    (.fresh epoch) events

/-- A resolve names an outstanding request or meets no outstanding request of its kind, and
a request is raised while the counter of its kind has room. -/
def Answered (view : TurnView) (event : SessionEvent) : Prop :=
  (∀ r, resolved event = some r → r ∈ view.pending ∨ ∀ q ∈ view.pending, q.1 ≠ r.1) ∧
    ∀ r, raised event = some r → view.pending.countP (fun q ↦ q.1 = r.1) < u32Max

def CountersExact (view : TurnView) : Prop :=
  ∀ turn, view.state = .running turn →
    ∀ kind, turn.requiresAction.count kind = view.pending.countP fun q ↦ q.1 = kind

theorem countP_erase_kind {pending : List Request} {r : Request} (kind : RequestKind)
    (h : r ∈ pending ∨ ∀ q ∈ pending, q.1 ≠ r.1) :
    (pending.erase r).countP (fun q ↦ q.1 = kind) =
      if r.1 = kind then pending.countP (fun q ↦ q.1 = kind) - 1
      else pending.countP fun q ↦ q.1 = kind := by
  rcases h with h | h
  · rw [List.countP_erase]
    by_cases hk : r.1 = kind <;> simp [h, hk]
  · have hmem : r ∉ pending := fun hr ↦ h r hr rfl
    rw [List.erase_of_not_mem hmem]
    split
    · next hk =>
        have hzero : pending.countP (fun q ↦ q.1 = kind) = 0 := by
          rw [List.countP_eq_zero]
          intro q hq
          simpa [← hk] using h q hq
        omega
    · rfl

theorem countersExact_step {view : TurnView} {event : SessionEvent}
    (hstart : ∀ epoch, event = .turnStarted epoch → (turnStep view event).state = view.state)
    (hinv : CountersExact view) (hrun : ∃ turn, view.state = .running turn)
    (hans : Answered view event) : CountersExact (turnStep view event) := by
  intro turn' hturn' kind
  obtain ⟨turn, hturn⟩ := hrun
  have hcount : turn'.requiresAction.count kind =
      countAfter event kind (turn.requiresAction.count kind) := by
    by_cases hts : ∃ epoch, event = .turnStarted epoch
    · obtain ⟨epoch, rfl⟩ := hts
      have hsame := hstart epoch rfl
      rw [hturn', hturn, SessionState.running.injEq] at hsame
      rw [hsame]
      rfl
    · have hstep : step view.state event = stepRunning turn event := by
        rw [hturn]
        exact step_running turn fun epoch he ↦ hts ⟨epoch, he⟩
      apply count_stepRunning
      rw [← hstep]
      exact hturn'
  rw [hcount, hinv turn hturn kind]
  simp only [turnStep, countAfter, pendingAfter]
  cases hr : raised event with
  | some r =>
      have hroom := hans.2 r hr
      simp only [List.countP_cons]
      by_cases hk : r.1 = kind
      · rw [hk] at hroom
        simp only [hk, decide_true, if_true, saturatingSucc]
        omega
      · simp [hk]
  | none =>
      cases hs : resolved event with
      | some r => exact (countP_erase_kind kind (hans.1 r hs)).symm
      | none => rfl

theorem tracks_of_countersExact {view : TurnView} (hinv : CountersExact view)
    (hrun : ∃ turn, view.state = .running turn) :
    isRequiresAction view.state = true ↔ view.pending ≠ [] := by
  obtain ⟨turn, hturn⟩ := hrun
  rw [hturn, isRequiresAction_running_iff]
  constructor
  · rintro ⟨kind, hpos⟩ hnil
    rw [hinv turn hturn kind, hnil] at hpos
    simp at hpos
  · intro hne
    obtain ⟨q, hq⟩ := List.exists_mem_of_ne_nil _ hne
    refine ⟨q.1, ?_⟩
    rw [hinv turn hturn q.1, List.countP_pos_iff]
    exact ⟨q, hq, by simp⟩

theorem turnStarted_stays {view : TurnView} {epoch started : ℕ}
    (h : ∃ turn, view.state = .running turn ∧ turn.sinceEpoch = epoch)
    (h' : ∃ turn, (turnStep view (.turnStarted started)).state = .running turn ∧
      turn.sinceEpoch = epoch) :
    (turnStep view (.turnStarted started)).state = view.state := by
  obtain ⟨turn, hturn, hepoch⟩ := h
  obtain ⟨turn', hturn', hepoch'⟩ := h'
  simp only [turnStep, step, hturn, stepTurnStarted] at hturn' ⊢
  split at hturn'
  · next hle => rw [if_pos hle]
  · next hlt =>
      rw [settle_fst, SessionState.running.injEq] at hturn'
      subst hturn'
      simp only [RunningTurn.fresh] at hepoch'
      omega

theorem requiresAction_tracks_from {epoch : ℕ} {view : TurnView} {events : List SessionEvent}
    (hinv : CountersExact view)
    (hturn : Throughout turnStep
      (fun view ↦ ∃ turn, view.state = .running turn ∧ turn.sinceEpoch = epoch) view events)
    (hans : Meets turnStep Answered view events) :
    Throughout turnStep (fun view ↦ isRequiresAction view.state = true ↔ view.pending ≠ [])
      view events := by
  induction events generalizing view with
  | nil =>
      obtain ⟨turn, hrun, _⟩ := hturn.head
      exact tracks_of_countersExact hinv ⟨turn, hrun⟩
  | cons event events ih =>
      obtain ⟨turn, hrun, hepoch⟩ := hturn.head
      refine ⟨tracks_of_countersExact hinv ⟨turn, hrun⟩, ih ?_ hturn.2 hans.2⟩
      apply countersExact_step _ hinv ⟨turn, hrun⟩ hans.1
      rintro started rfl
      exact turnStarted_stays ⟨turn, hrun, hepoch⟩ hturn.2.head

/-- In every turn whose resolves are answers, requires-action is exactly the existence of an
outstanding request. -/
theorem requiresAction_tracks_outstanding (epoch : ℕ) (events : List SessionEvent)
    (hturn : InTurn epoch events) (hans : Meets turnStep Answered (.fresh epoch) events) :
    RequiresActionTracks epoch events := by
  apply requiresAction_tracks_from _ hturn hans
  intro turn hturn kind
  have hfresh : turn = .fresh epoch := by simpa [TurnView.fresh] using hturn.symm
  subst hfresh
  cases kind <;> rfl

/-- Two requests of different kinds, each answered once, and a repeated answer that meets no
request of its kind. -/
theorem requiresAction_tracks_answered_turn :
    RequiresActionTracks 1 [.permission "r1" .tool, .ask "q1", .permissionResolved "r1" .tool,
      .permissionResolved "r1" .tool, .askResolved "q1"] := by
  apply requiresAction_tracks_outstanding
  · refine ⟨?_, ?_, ?_, ?_, ?_, ?_⟩ <;> exact ⟨_, rfl, rfl⟩
  · refine ⟨?_, ?_, ?_, ?_, ?_, trivial⟩ <;>
      simp [Answered, turnStep, pendingAfter, raised, resolved, TurnView.fresh, u32Max,
        PermissionKind.requestKind]

/-- A request and the resolve of another one. -/
def strayResolve : List SessionEvent :=
  [.permission "r1" .tool, .permissionResolved "orphan" .tool]

/-- A stray resolve takes the session out of requires-action although the one request of the
turn is unanswered. -/
theorem strayResolve_not_tracked :
    InTurn 1 strayResolve ∧ ((strayResolve.filterMap raised).map Prod.snd).Nodup ∧
      ¬ RequiresActionTracks 1 strayResolve := by
  refine ⟨?_, by decide, ?_⟩
  · refine ⟨?_, ?_, ?_⟩ <;> exact ⟨_, rfl, rfl⟩
  · intro h
    have hlast := h.last
    exact absurd hlast (by decide)

end Zaowutai.Session
