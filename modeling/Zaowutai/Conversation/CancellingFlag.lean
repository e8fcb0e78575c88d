import Zaowutai.Conversation.TurnAttempts

/-!
# The cancelling flag

A cancel compares the turn ids and marks the conversation under two separate
locks.  As long as the turn it compared is still active when it marks the
conversation, the flag stands for that turn and goes with it; a mark that
comes later stands for no turn and meets the next one.
-/

namespace Zaowutai.Conversation

open Zaowutai.Lib

def Progress.FlagEffect (p : Progress) (runtime : ConversationRuntimeState)
    (cancel : Option CancelCall) : Prop :=
  (∃ conversationId turnId agent, cancel = some ⟨conversationId, turnId, .found agent⟩ ∧
      p.runtime = runtime.markCancelling conversationId ∧
        p.next.bind ServiceCall.cancelCall = some ⟨conversationId, turnId, .marked agent⟩) ∨
    (∃ conversationId turnId agent, cancel = some ⟨conversationId, turnId, .marked agent⟩ ∧
      (p.runtime = runtime ∧ p.accepted = some (conversationId, turnId) ∨
        p.runtime = runtime.clearCancelling conversationId)) ∨
    (∀ conversationId turnId agent, cancel ≠ some ⟨conversationId, turnId, .marked agent⟩) ∧
      ∀ conversationId ∈ p.runtime.cancellingConversations,
        conversationId ∈ runtime.cancellingConversations ∧
          p.runtime.activeTurns.lookup conversationId = runtime.activeTurns.lookup conversationId

namespace ServiceCall

variable (runtime : ConversationRuntimeState) (tasks : TaskTable) (ok : Bool)

theorem flagEffect_of_eq {p : Progress} {cancel : Option CancelCall}
    (hcancel : ∀ conversationId turnId agent,
      cancel ≠ some ⟨conversationId, turnId, .marked agent⟩)
    (hflags : p.runtime.cancellingConversations = runtime.cancellingConversations)
    (hactive : p.runtime.activeTurns = runtime.activeTurns) : p.FlagEffect runtime cancel := by
  right; right
  refine ⟨hcancel, fun conversationId h ↦ ⟨hflags ▸ h, ?_⟩⟩
  rw [hactive]

theorem runtime_advanceCancel (call : CancelCall) (running : CancelCall → ServiceCall)
    (resume : CancelResult → Option ServiceCall) :
    (advanceCancel runtime tasks call ok running resume).runtime =
      (call.advance runtime tasks ok).1 := by
  simp only [advanceCancel]
  split
  · next heq => rw [heq]
  · next heq => rw [heq]

theorem advanceCancel_flagEffect (call : CancelCall) {running : CancelCall → ServiceCall}
    {resume : CancelResult → Option ServiceCall}
    (hrunning : ∀ phase, (running { call with phase := phase }).cancelCall =
      some { call with phase := phase }) :
    (advanceCancel runtime tasks call ok running resume).FlagEffect runtime (some call) := by
  obtain ⟨conversationId, turnId, phase⟩ := call
  cases phase with
  | entered =>
      have hsame : (advanceCancel runtime tasks ⟨conversationId, turnId, .entered⟩ ok running
          resume).runtime = runtime := by
        rw [runtime_advanceCancel]
        cases ok with
        | false => rfl
        | true =>
            simp only [CancelCall.advance]
            split
            · rfl
            · split <;> rfl
      apply flagEffect_of_eq _ (fun _ _ _ h ↦ by cases h) <;> rw [hsame]
  | matched =>
      have hsame : (advanceCancel runtime tasks ⟨conversationId, turnId, .matched⟩ ok running
          resume).runtime = runtime := by
        rw [runtime_advanceCancel]
        simp only [CancelCall.advance]
        split <;> rfl
      apply flagEffect_of_eq _ (fun _ _ _ h ↦ by cases h) <;> rw [hsame]
  | absent => exact flagEffect_of_eq _ (fun _ _ _ h ↦ by cases h) rfl rfl
  | found agent => exact .inl ⟨conversationId, turnId, agent, rfl, rfl, hrunning _⟩
  | marked agent =>
      right; left
      refine ⟨conversationId, turnId, agent, rfl, ?_⟩
      cases ok with
      | true => exact .inl ⟨rfl, rfl⟩
      | false => exact .inr rfl

theorem advanceRestart_flagEffect (conversationId : String) (phase : RestartPhase) :
    (advanceRestart runtime tasks conversationId ok phase).FlagEffect runtime
      (cancelCall (.restart conversationId phase)) := by
  cases phase with
  | cancelling turnId phase => exact advanceCancel_flagEffect runtime tasks ok _ fun _ ↦ rfl
  | clearing =>
      right; right
      refine ⟨fun _ _ _ h ↦ (by cases h), fun other hother ↦ ?_⟩
      obtain ⟨hne, hmem⟩ := Finset.mem_erase.mp hother
      exact ⟨hmem, AList.lookup_erase_ne hne⟩
  | beginRestart =>
      apply flagEffect_of_eq _ (fun _ _ _ h ↦ by cases h) <;> simp only [advanceRestart] <;>
        rcases runtime.beginRestart_cases conversationId with heq | ⟨_, heq⟩ <;> rw [heq]
  | readTurn =>
      apply flagEffect_of_eq _ (fun _ _ _ h ↦ by cases h) <;> simp only [advanceRestart] <;>
        split <;> rfl
  | entered =>
      apply flagEffect_of_eq _ (fun _ _ _ h ↦ by cases h) <;> simp only [advanceRestart] <;>
        split <;> rfl
  | findTask =>
      apply flagEffect_of_eq _ (fun _ _ _ h ↦ by cases h) <;> simp only [advanceRestart] <;>
        split <;> rfl
  | _ => exact flagEffect_of_eq _ (fun _ _ _ h ↦ by cases h) rfl rfl

theorem advance_flagEffect (c : ServiceCall) :
    (c.advance runtime tasks ok).FlagEffect runtime c.cancelCall := by
  cases c with
  | cancel call => exact advanceCancel_flagEffect runtime tasks ok call fun _ ↦ rfl
  | restart conversationId phase => 
      exact advanceRestart_flagEffect runtime tasks ok conversationId phase
  | delete conversationId phase =>
      cases phase with
      | marked hadActiveTurn =>
          apply flagEffect_of_eq _ (fun _ _ _ h ↦ by cases h) <;>
            simp only [advance, advanceDelete] <;> split <;> rfl
      | _ => exact flagEffect_of_eq _ (fun _ _ _ h ↦ by cases h) rfl rfl

end ServiceCall

structure ServiceState where
  claims : TurnClaims
  tasks : TaskTable
  calls : Table ℕ ServiceCall
  accepted : List (String × String)

/-- A call is named by a number; a step that is not enabled changes nothing. -/
inductive ServiceAction
  | enter (call : ℕ) (c : ServiceCall)
  | advance (call : ℕ) (ok : Bool)
  | tryClaimTurn (conversationId turnId : String)
  | release (claim : ℕ)
  | releaseForTurn (claim : ℕ) (turnId : String)
  | drop (claim : ℕ)
  | clearConversation (conversationId : String)
  | markShuttingDown
  | register (conversationId : String) (agent : ℕ)
  | evict (conversationId : String)
  deriving DecidableEq, Repr

def ServiceCall.isEntered : ServiceCall → Bool
  | .cancel call => call.phase = .entered
  | .restart _ phase => phase = .entered
  | .delete _ phase => phase = .entered

namespace ServiceState

def new : ServiceState := ⟨.new, ∅, ∅, []⟩

variable (s : ServiceState)

def progress (call : ℕ) (p : Progress) : ServiceState where
  claims := { s.claims with runtime := p.runtime }
  tasks := p.tasks
  calls := match p.next with
    | some c => s.calls.insert call c
    | none => s.calls.erase call
  accepted := s.accepted ++ p.accepted.toList

def step (s : ServiceState) : ServiceAction → ServiceState
  | .enter call c =>
      if (s.calls.lookup call).isNone && c.isEntered then
        { s with calls := s.calls.insert call c }
      else s
  | .advance call ok =>
      match s.calls.lookup call with
      | some c => s.progress call (c.advance s.claims.runtime s.tasks ok)
      | none => s
  | .tryClaimTurn conversationId turnId =>
      { s with claims := s.claims.step (.tryClaimTurn conversationId turnId) }
  | .release claim => { s with claims := s.claims.step (.release claim) }
  | .releaseForTurn claim turnId =>
      { s with claims := s.claims.step (.releaseForTurn claim turnId) }
  | .drop claim => { s with claims := s.claims.step (.drop claim) }
  | .clearConversation conversationId =>
      { s with claims := s.claims.step (.perform (.clearConversation conversationId)) }
  | .markShuttingDown => { s with claims := s.claims.step (.perform .markShuttingDown) }
  | .register conversationId agent => { s with tasks := s.tasks.insert conversationId agent }
  | .evict conversationId => { s with tasks := s.tasks.erase conversationId }

/-- The `cancel_with_cause` under way at the call. -/
def cancelAt (call : ℕ) : Option CancelCall := (s.calls.lookup call).bind ServiceCall.cancelCall

def FlagOwned : Prop :=
  ∀ conversationId ∈ s.claims.runtime.cancellingConversations,
    (∀ call c, s.cancelAt call = some c → c.conversationId ≠ conversationId) →
      ∃ turnId, s.claims.runtime.activeTurns.lookup conversationId = some turnId ∧
        (conversationId, turnId) ∈ s.accepted

def StartsUncancelled (a : ServiceAction) : Prop :=
  ∀ conversationId turnId claim, a = .tryClaimTurn conversationId turnId →
    (s.claims.runtime.tryClaimTurn conversationId turnId).2 = .ok claim →
      (s.step a).claims.runtime.lifecycleFor conversationId ≠ .cancelling ∧
        (s.step a).claims.runtime.decide conversationId .userMessage = .allow

def MarksActive (a : ServiceAction) : Prop :=
  ∀ call ok c agent, a = .advance call ok → s.cancelAt call = some c → c.phase = .found agent →
    s.claims.runtime.activeTurns.lookup c.conversationId = some c.turnId

def Backed (conversationId turnId : String) : Prop :=
  (conversationId, turnId) ∈ s.accepted ∨
    ∃ call agent, s.cancelAt call = some ⟨conversationId, turnId, .marked agent⟩

def FlagInvariant : Prop :=
  ∀ conversationId ∈ s.claims.runtime.cancellingConversations,
    ∃ turnId, s.claims.runtime.activeTurns.lookup conversationId = some turnId ∧
      s.Backed conversationId turnId

variable {s}

theorem FlagInvariant.flagOwned (h : s.FlagInvariant) : s.FlagOwned := by
  intro conversationId hflag hidle
  obtain ⟨turnId, hactive, haccepted | ⟨call, agent, hcall⟩⟩ := h conversationId hflag
  · exact ⟨turnId, hactive, haccepted⟩
  · exact (hidle call _ hcall rfl).elim

/-- A claim is granted to a conversation without a turn, which is not marked. -/
theorem FlagInvariant.startsUncancelled (h : s.FlagInvariant) (a : ServiceAction) :
    s.StartsUncancelled a := by
  rintro conversationId turnId claim rfl hok
  rcases s.claims.runtime.tryClaimTurn_cases conversationId turnId with
    ⟨⟨hrunning, hkept, -, hnone⟩, heq⟩ | ⟨-, _, _, heq⟩
  · have hunmarked : conversationId ∉ s.claims.runtime.cancellingConversations := by
      intro hflag
      obtain ⟨_, hactive, -⟩ := h conversationId hflag
      cases hnone.symm.trans hactive
    have hlifecycle : (s.step (.tryClaimTurn conversationId turnId)).claims.runtime.lifecycleFor
        conversationId = .active := by
      simp only [step, TurnClaims.step, TurnClaims.tryClaimTurn, heq]
      simp [ConversationRuntimeState.lifecycleFor, hrunning, hkept, hunmarked]
    refine ⟨by simp [hlifecycle], ?_⟩
    simp only [ConversationRuntimeState.decide, hlifecycle]
    rfl
  · rw [heq] at hok
    cases hok

theorem FlagInvariant.of_kept (h : s.FlagInvariant) {s' : ServiceState}
    (hflags : ∀ conversationId ∈ s'.claims.runtime.cancellingConversations,
      conversationId ∈ s.claims.runtime.cancellingConversations ∧
        ∀ turnId, s.claims.runtime.activeTurns.lookup conversationId = some turnId →
          s'.claims.runtime.activeTurns.lookup conversationId = some turnId ∧
            (s.Backed conversationId turnId → s'.Backed conversationId turnId)) :
    s'.FlagInvariant := by
  intro conversationId hflag
  obtain ⟨hbefore, hkept⟩ := hflags conversationId hflag
  obtain ⟨turnId, hactive, hbacked⟩ := h conversationId hbefore
  exact ⟨turnId, (hkept turnId hactive).1, (hkept turnId hactive).2 hbacked⟩

@[simp] theorem runtime_progress (call : ℕ) (p : Progress) :
    (s.progress call p).claims.runtime = p.runtime := rfl

theorem cancelAt_progress (call other : ℕ) (p : Progress) :
    (s.progress call p).cancelAt other =
      if other = call then p.next.bind ServiceCall.cancelCall else s.cancelAt other := by
  simp only [cancelAt, progress]
  cases p.next with
  | some c =>
      rw [Table.lookup_insert_eq]
      split <;> rfl
  | none =>
      rw [Table.lookup_erase_eq]
      split <;> rfl

theorem backed_progress {call : ℕ} {c : ServiceCall} {p : Progress} {conversationId turnId : String}
    (hc : s.calls.lookup call = some c)
    (hown : ∀ agent, c.cancelCall = some ⟨conversationId, turnId, .marked agent⟩ →
      p.accepted = some (conversationId, turnId))
    (h : s.Backed conversationId turnId) : (s.progress call p).Backed conversationId turnId := by
  rcases h with haccepted | ⟨other, agent, hother⟩
  · left
    exact List.mem_append_left _ haccepted
  · by_cases heq : other = call
    · subst heq
      rw [cancelAt, hc] at hother
      left
      simp only [progress, hown agent hother]
      exact List.mem_append_right _ (List.mem_singleton_self _)
    · right
      refine ⟨other, agent, ?_⟩
      rw [cancelAt_progress, if_neg heq]
      exact hother

theorem flagInvariant_advance (h : s.FlagInvariant) (call : ℕ) (ok : Bool)
    (hguard : s.MarksActive (.advance call ok)) :
    (s.step (.advance call ok)).FlagInvariant := by
  simp only [step]
  cases hc : s.calls.lookup call with
  | none => exact h
  | some c =>
      have hat : s.cancelAt call = c.cancelCall := by
        rw [cancelAt, hc]
        rfl
      rcases c.advance_flagEffect s.claims.runtime s.tasks ok with
        ⟨conversationId, turnId, agent, hcancel, hruntime, hnext⟩ |
        ⟨conversationId, turnId, agent, hcancel, hruntime⟩ | ⟨hcancel, hflags⟩
      · intro other hother
        rw [runtime_progress, hruntime] at hother ⊢
        rcases Finset.mem_insert.mp hother with rfl | hother
        · refine ⟨turnId, hguard call ok _ agent rfl (hat.trans hcancel) rfl, ?_⟩
          right
          refine ⟨call, agent, ?_⟩
          rw [cancelAt_progress, if_pos rfl, hnext]
        · obtain ⟨turn, hactive, hbacked⟩ := h other hother
          refine ⟨turn, hactive, backed_progress hc ?_ hbacked⟩
          intro agent' hmarked
          cases hcancel.symm.trans hmarked
      · apply h.of_kept
        intro other hother
        rcases hruntime with ⟨hruntime, haccepted⟩ | hruntime <;>
          rw [runtime_progress, hruntime] at hother ⊢
        · refine ⟨hother, fun turn hactive ↦ ⟨hactive, backed_progress hc ?_⟩⟩
          intro agent' hmarked
          cases hcancel.symm.trans hmarked
          exact haccepted
        · obtain ⟨hne, hother⟩ := Finset.mem_erase.mp hother
          refine ⟨hother, fun turn hactive ↦ ⟨hactive, backed_progress hc ?_⟩⟩
          intro agent' hmarked
          cases hcancel.symm.trans hmarked
          exact (hne rfl).elim
      · apply h.of_kept
        intro other hother
        obtain ⟨hbefore, hlookup⟩ := hflags other hother
        refine ⟨hbefore, fun turn hactive ↦ ⟨hlookup.trans hactive, backed_progress hc ?_⟩⟩
        intro agent' hmarked
        exact (hcancel _ _ _ hmarked).elim

theorem FlagInvariant.of_claims (h : s.FlagInvariant) {claims : TurnClaims}
    (hflags : ∀ conversationId ∈ claims.runtime.cancellingConversations,
      conversationId ∈ s.claims.runtime.cancellingConversations ∧
        ∀ turnId, s.claims.runtime.activeTurns.lookup conversationId = some turnId →
          claims.runtime.activeTurns.lookup conversationId = some turnId) :
    { s with claims := claims }.FlagInvariant := by
  apply h.of_kept
  intro conversationId hflag
  obtain ⟨hbefore, hkept⟩ := hflags conversationId hflag
  exact ⟨hbefore, fun turnId hactive ↦ ⟨hkept turnId hactive, id⟩⟩

theorem flagInvariant_tryClaimTurn (h : s.FlagInvariant) (conversationId turnId : String) :
    (s.step (.tryClaimTurn conversationId turnId)).FlagInvariant := by
  apply h.of_claims
  simp only [TurnClaims.step, TurnClaims.tryClaimTurn]
  rcases s.claims.runtime.tryClaimTurn_cases conversationId turnId with
    ⟨⟨-, -, -, hnone⟩, heq⟩ | ⟨-, _, _, heq⟩ <;> rw [heq] <;> intro other hother
  · refine ⟨hother, fun turn hactive ↦ ?_⟩
    rw [AList.lookup_insert_ne]
    · exact hactive
    · rintro rfl
      cases hnone.symm.trans hactive
  · exact ⟨hother, fun _ ↦ id⟩

theorem flagInvariant_release (h : s.FlagInvariant) {a : ClaimAction} {claim : ℕ}
    (hreleases : TurnClaims.Releases a claim) :
    { s with claims := s.claims.step a }.FlagInvariant := by
  apply h.of_claims
  rcases TurnClaims.step_of_releases (s := s.claims) hreleases with heq | ⟨c, -, -, heq⟩ <;>
    rw [heq]
  · exact fun _ hother ↦ ⟨hother, fun _ ↦ id⟩
  · rcases s.claims.runtime.release_cases c.conversationId c.turnId with
      ⟨-, hrelease⟩ | ⟨-, hrelease⟩ <;> rw [hrelease] <;> intro other hother
    · obtain ⟨hne, hbefore⟩ := Finset.mem_erase.mp hother
      exact ⟨hbefore, fun _ hactive ↦ (AList.lookup_erase_ne hne).trans hactive⟩
    · exact ⟨hother, fun _ ↦ id⟩

theorem flagInvariant_enter (h : s.FlagInvariant) (call : ℕ) (c : ServiceCall) :
    (s.step (.enter call c)).FlagInvariant := by
  simp only [step]
  split
  · next henter =>
      apply h.of_kept
      intro conversationId hflag
      refine ⟨hflag, fun turnId hactive ↦ ⟨hactive, Or.imp_right ?_⟩⟩
      rintro ⟨other, agent, hother⟩
      refine ⟨other, agent, ?_⟩
      have hne : other ≠ call := by
        rintro rfl
        simp only [Bool.and_eq_true, Option.isNone_iff_eq_none] at henter
        rw [cancelAt, henter.1] at hother
        cases hother
      simp only [cancelAt, AList.lookup_insert_ne hne]
      exact hother
  · exact h

theorem flagInvariant_step (h : s.FlagInvariant) {a : ServiceAction} (hguard : s.MarksActive a) :
    (s.step a).FlagInvariant := by
  cases a with
  | enter call c => exact flagInvariant_enter h call c
  | advance call ok => exact flagInvariant_advance h call ok hguard
  | tryClaimTurn conversationId turnId => exact flagInvariant_tryClaimTurn h conversationId turnId
  | release claim => exact flagInvariant_release h (.inl rfl)
  | releaseForTurn claim turnId => exact flagInvariant_release h (.inr (.inl ⟨turnId, rfl⟩))
  | drop claim => exact flagInvariant_release h (.inr (.inr rfl))
  | clearConversation conversationId =>
      apply h.of_claims
      intro other hother
      obtain ⟨hne, hbefore⟩ := Finset.mem_erase.mp hother
      exact ⟨hbefore, fun _ hactive ↦ (AList.lookup_erase_ne hne).trans hactive⟩
  | markShuttingDown => exact h.of_claims fun _ hother ↦ ⟨hother, fun _ ↦ id⟩
  | register conversationId agent => exact h
  | evict conversationId => exact h

theorem flagInvariant_new : new.FlagInvariant := by
  intro conversationId hflag
  cases hflag

end ServiceState

/-- In every run whose cancels mark the conversation of an active turn, the flag belongs to a
turn for which a cancel was accepted, and no turn starts under the flag of an earlier one. -/
theorem cancelling_flag_owned (acts : List ServiceAction)
    (h : Meets ServiceState.step ServiceState.MarksActive .new acts) :
    Throughout ServiceState.step ServiceState.FlagOwned .new acts ∧
      Meets ServiceState.step ServiceState.StartsUncancelled .new acts := by
  constructor
  · have hinv : Throughout ServiceState.step ServiceState.FlagInvariant .new acts := by
      refine throughout_of_meets ?_ ServiceState.flagInvariant_new h
      exact fun _ _ hs hguard ↦ ServiceState.flagInvariant_step hs hguard
    exact hinv.mono fun _ hs ↦ hs.flagOwned
  · apply meets_of_meets _ _ ServiceState.flagInvariant_new h
    · exact fun _ _ hs hguard ↦ ServiceState.flagInvariant_step hs hguard
    · exact fun _ a hs _ ↦ hs.startsUncancelled a

def cancelEntered : List ServiceAction :=
  [.tryClaimTurn "c" "t1", .register "c" 0, .enter 0 (.cancel ⟨"c", "t1", .entered⟩),
    .advance 0 true, .advance 0 true]

theorem cancelEntered_flag_owned :
    Throughout ServiceState.step ServiceState.FlagOwned .new (cancelEntered ++
        [.advance 0 true, .advance 0 true, .release 0, .tryClaimTurn "c" "t2"]) ∧
      Meets ServiceState.step ServiceState.StartsUncancelled .new (cancelEntered ++
        [.advance 0 true, .advance 0 true, .release 0, .tryClaimTurn "c" "t2"]) := by
  apply cancelling_flag_owned
  refine ⟨?_, ?_, ?_, ?_, ?_, ?_, ?_, ?_, ?_, trivial⟩
  case refine_6 =>
    rintro _ _ _ _ ⟨⟩ ⟨⟩ ⟨⟩
    decide
  all_goals rintro _ _ _ _ ⟨⟩ ⟨⟩ ⟨⟩

/-- The turn is released between the lookup of its task and the mark, and another is claimed. -/
def markAfterRelease : List ServiceAction :=
  cancelEntered ++ [.release 0, .advance 0 true, .advance 0 true]

theorem markAfterRelease_unowned :
    ¬ Throughout ServiceState.step ServiceState.FlagOwned .new
        (markAfterRelease ++ [.tryClaimTurn "c" "t2"]) ∧
      ¬ Meets ServiceState.step ServiceState.StartsUncancelled .new
        (markAfterRelease ++ [.tryClaimTurn "c" "t2"]) := by
  constructor
  · intro howned
    have hafter := (throughout_append.mp howned).1.last "c" (by decide)
    obtain ⟨turnId, hactive, -⟩ := hafter fun _ _ hcall ↦ by cases hcall
    cases hactive
  · intro hstarts
    have hclaim := (meets_append.mp hstarts).2.1 "c" "t2" ⟨"c", "t2", false⟩ rfl rfl
    exact absurd hclaim.2 (by decide)

end Zaowutai.Conversation
