import Zaowutai.Conversation.CancellingFlag

/-!
# The deleting gate

`delete` marks the conversation, waits for its hooks and for the repository,
and takes the mark back unless a turn was active.  That turn takes the mark
back when it is released, and so do a cleared conversation and another
`delete` that ends: a mark that is taken back while a `delete` still waits
opens the gate for a new turn of a conversation that is about to be removed.
-/

namespace Zaowutai.Conversation

open Zaowutai.Lib

namespace ServiceState

variable (s : ServiceState)

def deleteAt (call : ℕ) (conversationId : String) (phase : DeletePhase) : Prop :=
  s.calls.lookup call = some (.delete conversationId phase)

instance (call : ℕ) (conversationId : String) (phase : DeletePhase) :
    Decidable (s.deleteAt call conversationId phase) :=
  inferInstanceAs (Decidable (_ = _))

def claimed : List String := s.claims.claims.map TurnClaim.conversationId

/-- A deleting flag without a `delete` past its first section is the one of an active turn. -/
def FlagTakenBack : Prop :=
  ∀ conversationId ∈ s.claims.runtime.deletingConversations,
    (∀ call phase, s.deleteAt call conversationId phase → phase = .entered) →
      ∃ turnId, s.claims.runtime.activeTurns.lookup conversationId = some turnId

def EndsTurn (a : ServiceAction) (conversationId : String) : Prop :=
  ∃ (claim : ℕ) (c : TurnClaim), s.claims.claims[claim]? = some c ∧
    c.conversationId = conversationId ∧ s.claims.Live c ∧
      (a = .release claim ∨ a = .releaseForTurn claim c.turnId ∨ a = .drop claim)

def Unmarks (a : ServiceAction) (conversationId : String) : Prop :=
  s.EndsTurn a conversationId ∨ a = .clearConversation conversationId ∨
    ∃ call ok, a = .advance call ok ∧ s.deleteAt call conversationId .clearing

/-- No mark is taken back while a `delete` of its conversation waits for the hooks or the
repository, and no restart takes the turn of a marked conversation away. -/
structure KeepsGate (a : ServiceAction) : Prop where
  waiting : ∀ conversationId, s.Unmarks a conversationId →
    ∀ call hadActiveTurn, ¬ s.deleteAt call conversationId (.marked hadActiveTurn)
  restart : ∀ call ok conversationId, a = .advance call ok →
    s.calls.lookup call = some (.restart conversationId .clearing) →
      conversationId ∈ s.claims.runtime.deletingConversations →
        s.claims.runtime.activeTurns.lookup conversationId = none

end ServiceState

/-- The service with the number of claims that had been granted when each call marked its
conversation. -/
structure DeleteHistory where
  service : ServiceState
  markedAt : ℕ → ℕ

namespace DeleteHistory

def new : DeleteHistory := ⟨.new, fun _ ↦ 0⟩

variable (h : DeleteHistory)

def step (h : DeleteHistory) (a : ServiceAction) : DeleteHistory where
  service := h.service.step a
  markedAt := match a with
    | .advance call _ => Function.update h.markedAt call h.service.claims.claims.length
    | _ => h.markedAt

def ClosedUntilDeleted (a : ServiceAction) : Prop :=
  ∀ call conversationId hadActiveTurn, a = .advance call true →
    h.service.deleteAt call conversationId (.marked hadActiveTurn) →
      conversationId ∉ h.service.claimed.drop (h.markedAt call)

/-- Each `delete` that waits has a closed gate behind it, and each deleting flag will be taken
back by a turn or by a `delete` that found none. -/
structure GateInvariant : Prop where
  closed : ∀ call conversationId hadActiveTurn,
    h.service.deleteAt call conversationId (.marked hadActiveTurn) →
      conversationId ∈ h.service.claims.runtime.deletingConversations ∧
        conversationId ∉ h.service.claimed.drop (h.markedAt call)
  takenBack : ∀ conversationId ∈ h.service.claims.runtime.deletingConversations,
    (∃ turnId, h.service.claims.runtime.activeTurns.lookup conversationId = some turnId) ∨
      ∃ call, h.service.deleteAt call conversationId (.marked false) ∨
        h.service.deleteAt call conversationId .clearing

end DeleteHistory

namespace ServiceCall

variable (runtime : ConversationRuntimeState) (tasks : TaskTable) (ok : Bool)

/-- A section of a call that is no `delete` and clears no turn state leaves the deleting flags
and the turns alone. -/
def KeepsFlags (runtime : ConversationRuntimeState) (p : Progress) : Prop :=
  p.runtime.deletingConversations = runtime.deletingConversations ∧
    p.runtime.activeTurns = runtime.activeTurns ∧
      ∀ conversationId phase, p.next ≠ some (.delete conversationId phase)

theorem advanceCancel_keepsFlags (call : CancelCall) {running : CancelCall → ServiceCall}
    {resume : CancelResult → Option ServiceCall}
    (hrunning : ∀ call conversationId phase, running call ≠ .delete conversationId phase)
    (hresume : ∀ result conversationId phase,
      resume result ≠ some (.delete conversationId phase)) :
    KeepsFlags runtime (advanceCancel runtime tasks call ok running resume) := by
  have hflags : (call.advance runtime tasks ok).1.deletingConversations =
      runtime.deletingConversations ∧
        (call.advance runtime tasks ok).1.activeTurns = runtime.activeTurns := by
    simp only [CancelCall.advance]
    split
    · split
      · exact ⟨rfl, rfl⟩
      · split <;> exact ⟨rfl, rfl⟩
    · split <;> exact ⟨rfl, rfl⟩
    · exact ⟨rfl, rfl⟩
    · exact ⟨rfl, rfl⟩
    · split <;> exact ⟨rfl, rfl⟩
  rw [KeepsFlags, runtime_advanceCancel]
  refine ⟨hflags.1, hflags.2, fun conversationId phase ↦ ?_⟩
  simp only [advanceCancel]
  split
  · next call' _ =>
      intro hnext
      exact hrunning call' conversationId phase (Option.some_inj.mp hnext)
  · next result _ => exact hresume result conversationId phase

theorem advanceRestart_keepsFlags (conversationId : String) {phase : RestartPhase}
    (hphase : phase ≠ .clearing) :
    KeepsFlags runtime (advanceRestart runtime tasks conversationId ok phase) := by
  cases phase with
  | clearing => exact (hphase rfl).elim
  | cancelling turnId phase =>
      apply advanceCancel_keepsFlags runtime tasks ok
      · exact fun _ _ _ h ↦ by cases h
      · intro result _ _ h
        cases result <;> cases h
  | beginRestart =>
      simp only [advanceRestart]
      rcases runtime.beginRestart_cases conversationId with heq | ⟨_, heq⟩ <;> rw [heq] <;>
        exact ⟨rfl, rfl, by simp⟩
  | readTurn =>
      simp only [advanceRestart]
      split <;> exact ⟨rfl, rfl, by simp⟩
  | entered =>
      simp only [advanceRestart]
      split <;> exact ⟨rfl, rfl, by simp⟩
  | findTask =>
      simp only [advanceRestart]
      split <;> exact ⟨rfl, rfl, by simp⟩
  | _ => exact ⟨rfl, rfl, by simp [advanceRestart]⟩

theorem advance_flags (c : ServiceCall) :
    (∃ conversationId phase, c = .delete conversationId phase) ∨
      (∃ conversationId, c = .restart conversationId .clearing) ∨
        KeepsFlags runtime (c.advance runtime tasks ok) := by
  cases c with
  | cancel call =>
      right; right
      exact advanceCancel_keepsFlags runtime tasks ok call (fun _ _ _ h ↦ by cases h)
        (fun _ _ _ h ↦ by cases h)
  | restart conversationId phase =>
      by_cases hphase : phase = .clearing
      · subst hphase
        exact .inr (.inl ⟨conversationId, rfl⟩)
      · exact .inr (.inr (advanceRestart_keepsFlags runtime tasks ok conversationId hphase))
  | delete conversationId phase => exact .inl ⟨conversationId, phase, rfl⟩

end ServiceCall

namespace ServiceState

variable {s : ServiceState}

theorem lookup_progress (call other : ℕ) (p : Progress) :
    (s.progress call p).calls.lookup other =
      if other = call then p.next else s.calls.lookup other := by
  simp only [progress]
  cases p.next with
  | some c => rw [Table.lookup_insert_eq]
  | none => rw [Table.lookup_erase_eq]

theorem step_tryClaimTurn (s : ServiceState) (conversationId turnId : String) :
    (conversationId ∉ s.claims.runtime.deletingConversations ∧
        (s.step (.tryClaimTurn conversationId turnId)).claims.runtime =
          { s.claims.runtime with
            activeTurns := s.claims.runtime.activeTurns.insert conversationId turnId } ∧
        (s.step (.tryClaimTurn conversationId turnId)).claimed = s.claimed ++ [conversationId]) ∨
      ∃ logged, (s.step (.tryClaimTurn conversationId turnId)).claims.runtime =
          { s.claims.runtime with loggedOncePerTurn := logged } ∧
        (s.step (.tryClaimTurn conversationId turnId)).claimed = s.claimed := by
  simp only [step, TurnClaims.step, TurnClaims.tryClaimTurn, claimed]
  rcases s.claims.runtime.tryClaimTurn_cases conversationId turnId with
    ⟨⟨-, hunmarked, -, -⟩, heq⟩ | ⟨-, logged, _, heq⟩ <;> rw [heq]
  · left
    exact ⟨hunmarked, rfl, List.map_append⟩
  · exact .inr ⟨logged, rfl, rfl⟩

end ServiceState

theorem TurnClaims.step_release {s : TurnClaims} {a : ClaimAction} {claim : ℕ}
    (h : Releases a claim) :
    (s.step a).claims.map TurnClaim.conversationId = s.claims.map TurnClaim.conversationId ∧
      ((s.step a).runtime = s.runtime ∨ ∃ c, s.claims[claim]? = some c ∧ s.Live c ∧
        (∀ turnId, a = .releaseForTurn claim turnId → turnId = c.turnId) ∧
          (s.step a).runtime = { s.runtime with
            activeTurns := s.runtime.activeTurns.erase c.conversationId
            deletingConversations := s.runtime.deletingConversations.erase c.conversationId
            cancellingConversations :=
              s.runtime.cancellingConversations.erase c.conversationId }) := by
  rcases step_of_releases (s := s) h with heq | ⟨c, hc, hreleased, heq⟩
  · rw [heq]
    exact ⟨rfl, .inl rfl⟩
  constructor
  · obtain ⟨hlt, rfl⟩ := List.getElem?_eq_some_iff.mp hc
    rw [heq, List.map_set]
    have hlt' : claim < (s.claims.map TurnClaim.conversationId).length := by
      rw [List.length_map]
      exact hlt
    conv_rhs => rw [← List.set_getElem_self hlt', List.getElem_map]
  by_cases hturn : ∀ turnId, a = .releaseForTurn claim turnId → turnId = c.turnId
  · rw [heq]
    rcases s.runtime.release_cases c.conversationId c.turnId with ⟨hactive, hafter⟩ | ⟨-, hsame⟩
    · exact .inr ⟨c, hc, ⟨hreleased, hactive⟩, hturn, hafter⟩
    · exact .inl hsame
  · -- the call names another turn than its claim
    left
    push Not at hturn
    obtain ⟨turnId, rfl, hne⟩ := hturn
    simp only [step, onClaim, hc, TurnClaim.releaseForTurn, ne_eq, if_pos hne.symm]

namespace DeleteHistory

variable {h : DeleteHistory}

theorem GateInvariant.of_calls (hinv : h.GateInvariant) {h' : DeleteHistory}
    (hcalls : h'.service.calls = h.service.calls) (hmarkedAt : h'.markedAt = h.markedAt)
    (hclosed : ∀ call conversationId hadActiveTurn,
      h.service.deleteAt call conversationId (.marked hadActiveTurn) →
        conversationId ∈ h.service.claims.runtime.deletingConversations →
          conversationId ∈ h'.service.claims.runtime.deletingConversations ∧
            ∀ n, conversationId ∉ h.service.claimed.drop n →
              conversationId ∉ h'.service.claimed.drop n)
    (hback : ∀ conversationId ∈ h'.service.claims.runtime.deletingConversations,
      conversationId ∈ h.service.claims.runtime.deletingConversations ∧
        ∀ turnId, h.service.claims.runtime.activeTurns.lookup conversationId = some turnId →
          h'.service.claims.runtime.activeTurns.lookup conversationId = some turnId) :
    h'.GateInvariant where
  closed := by
    intro call conversationId hadActiveTurn hat
    rw [ServiceState.deleteAt, hcalls] at hat
    obtain ⟨hflag, hdrop⟩ := hinv.closed call conversationId hadActiveTurn hat
    obtain ⟨hflag', hdrop'⟩ := hclosed call conversationId hadActiveTurn hat hflag
    rw [hmarkedAt]
    exact ⟨hflag', hdrop' _ hdrop⟩
  takenBack := by
    intro conversationId hflag
    obtain ⟨hbefore, hturn⟩ := hback conversationId hflag
    simp only [ServiceState.deleteAt, hcalls]
    exact (hinv.takenBack conversationId hbefore).imp_left
      fun ⟨turnId, hactive⟩ ↦ ⟨turnId, hturn turnId hactive⟩

theorem gate_tryClaimTurn (hinv : h.GateInvariant) (conversationId turnId : String) :
    (h.step (.tryClaimTurn conversationId turnId)).GateInvariant := by
  rcases h.service.step_tryClaimTurn conversationId turnId with
    ⟨hunmarked, hruntime, hclaimed⟩ | ⟨logged, hruntime, hclaimed⟩ <;>
    refine hinv.of_calls (by rfl) (by rfl) ?_ ?_ <;> simp only [step, hruntime, hclaimed]
  · intro call other hadActiveTurn _ hflag
    refine ⟨hflag, fun n hdrop hmem ↦ ?_⟩
    rw [List.drop_append, List.mem_append] at hmem
    rcases hmem with hmem | hmem
    · exact hdrop hmem
    · rw [List.mem_singleton.mp (List.mem_of_mem_drop hmem)] at hflag
      exact hunmarked hflag
  · intro other hflag
    refine ⟨hflag, fun turn hactive ↦ ?_⟩
    rw [AList.lookup_insert_ne]
    · exact hactive
    · rintro rfl
      exact hunmarked hflag
  · exact fun _ _ _ _ hflag ↦ ⟨hflag, fun _ ↦ id⟩
  · exact fun _ hflag ↦ ⟨hflag, fun _ ↦ id⟩

theorem gate_release (hinv : h.GateInvariant) {a : ServiceAction} {b : ClaimAction} {claim : ℕ}
    (hstep : h.step a = ⟨{ h.service with claims := h.service.claims.step b }, h.markedAt⟩)
    (hreleases : TurnClaims.Releases b claim)
    (hends : ∀ c, h.service.claims.claims[claim]? = some c → h.service.claims.Live c →
      (∀ turnId, b = .releaseForTurn claim turnId → turnId = c.turnId) →
        h.service.EndsTurn a c.conversationId)
    (hguard : h.service.KeepsGate a) : (h.step a).GateInvariant := by
  obtain ⟨hclaimed, hruntime⟩ := TurnClaims.step_release (s := h.service.claims) hreleases
  rw [hstep]
  rcases hruntime with hruntime | ⟨c, hc, hlive, hturn, hruntime⟩ <;>
    refine hinv.of_calls (by rfl) (by rfl) ?_ ?_ <;> simp only [ServiceState.claimed, hruntime, hclaimed]
  · exact fun _ _ _ _ hflag ↦ ⟨hflag, fun _ ↦ id⟩
  · exact fun _ hflag ↦ ⟨hflag, fun _ ↦ id⟩
  · intro call conversationId hadActiveTurn hat hflag
    refine ⟨Finset.mem_erase.mpr ⟨?_, hflag⟩, fun _ ↦ id⟩
    rintro rfl
    exact hguard.waiting _ (.inl (hends c hc hlive hturn)) call hadActiveTurn hat
  · intro conversationId hflag
    obtain ⟨hne, hflag⟩ := Finset.mem_erase.mp hflag
    exact ⟨hflag, fun _ hactive ↦ (AList.lookup_erase_ne hne).trans hactive⟩

theorem gate_clearConversation (hinv : h.GateInvariant) (conversationId : String)
    (hguard : h.service.KeepsGate (.clearConversation conversationId)) :
    (h.step (.clearConversation conversationId)).GateInvariant := by
  refine hinv.of_calls (by rfl) (by rfl) ?_ ?_
  · intro call other hadActiveTurn hat hflag
    refine ⟨Finset.mem_erase.mpr ⟨?_, hflag⟩, fun _ ↦ id⟩
    rintro rfl
    exact hguard.waiting _ (.inr (.inl rfl)) call hadActiveTurn hat
  · intro other hflag
    obtain ⟨hne, hflag⟩ := Finset.mem_erase.mp hflag
    exact ⟨hflag, fun _ hactive ↦ (AList.lookup_erase_ne hne).trans hactive⟩

theorem gate_enter (hinv : h.GateInvariant) (call : ℕ) (c : ServiceCall) :
    (h.step (.enter call c)).GateInvariant := by
  simp only [step, ServiceState.step]
  split
  · next henter =>
      simp only [Bool.and_eq_true, Option.isNone_iff_eq_none] at henter
      obtain ⟨hfree, hentered⟩ := henter
      have hother : ∀ other conversationId phase, phase ≠ .entered →
          (AList.lookup other (h.service.calls.insert call c) =
              some (.delete conversationId phase) ↔
            h.service.deleteAt other conversationId phase) := by
        intro other conversationId phase hphase
        rw [Table.lookup_insert_eq, ServiceState.deleteAt]
        split
        · next heq =>
            rw [heq, hfree]
            constructor
            · intro hc
              cases hc
              exact (hphase (of_decide_eq_true hentered)).elim
            · intro hnone
              cases hnone
        · exact Iff.rfl
      constructor
      · intro other conversationId hadActiveTurn hat
        exact hinv.closed other _ _ ((hother other _ _ (by simp)).mp hat)
      · intro conversationId hflag
        apply (hinv.takenBack conversationId hflag).imp_right
        rintro ⟨other, hat⟩
        exact ⟨other, hat.imp (hother other _ _ (by simp)).mpr (hother other _ _ (by simp)).mpr⟩
  · exact hinv

theorem GateInvariant.of_progress (hinv : h.GateInvariant) {call : ℕ} {c : ServiceCall}
    (ok : Bool) (hc : h.service.calls.lookup call = some c) {p : Progress}
    (hp : c.advance h.service.claims.runtime h.service.tasks ok = p)
    (hown : ∀ conversationId hadActiveTurn,
      p.next = some (.delete conversationId (.marked hadActiveTurn)) →
        conversationId ∈ p.runtime.deletingConversations)
    (hothers : ∀ other conversationId hadActiveTurn,
      h.service.deleteAt other conversationId (.marked hadActiveTurn) →
        conversationId ∈ h.service.claims.runtime.deletingConversations →
          conversationId ∈ p.runtime.deletingConversations)
    (hback : ∀ conversationId ∈ p.runtime.deletingConversations,
      (∃ turnId, p.runtime.activeTurns.lookup conversationId = some turnId) ∨
        p.next = some (.delete conversationId (.marked false)) ∨
        conversationId ∈ h.service.claims.runtime.deletingConversations ∧
          (∀ turnId, h.service.claims.runtime.activeTurns.lookup conversationId = some turnId →
            p.runtime.activeTurns.lookup conversationId = some turnId) ∧
          (c = .delete conversationId (.marked false) ∨ c = .delete conversationId .clearing →
            p.next = some (.delete conversationId .clearing))) :
    (h.step (.advance call ok)).GateInvariant := by
  have hstep : h.step (.advance call ok) = ⟨h.service.progress call p,
      Function.update h.markedAt call h.service.claims.claims.length⟩ := by
    simp only [step, ServiceState.step, hc, hp]
  have hlookup (other : ℕ) := ServiceState.lookup_progress (s := h.service) call other p
  rw [hstep]
  constructor
  · intro other conversationId hadActiveTurn hat
    rw [ServiceState.deleteAt, hlookup] at hat
    split at hat
    · next heq =>
        subst heq
        refine ⟨hown conversationId hadActiveTurn hat, ?_⟩
        have hnone : h.service.claimed.drop h.service.claims.claims.length = [] := by
          rw [ServiceState.claimed, List.drop_eq_nil_iff, List.length_map]
        simp only [Function.update_self]
        exact fun hmem ↦ by cases hnone ▸ hmem
    · next hne =>
        obtain ⟨hflag, hdrop⟩ := hinv.closed other conversationId hadActiveTurn hat
        simp only [Function.update_of_ne hne]
        exact ⟨hothers other conversationId hadActiveTurn hat hflag, hdrop⟩
  · intro conversationId hflag
    simp only [ServiceState.deleteAt, hlookup]
    rcases hback conversationId hflag with hactive | hnext | ⟨hbefore, hturn, hcall⟩
    · exact .inl hactive
    · right
      exact ⟨call, .inl (by rw [if_pos rfl, hnext])⟩
    · rcases hinv.takenBack conversationId hbefore with ⟨turnId, hactive⟩ | ⟨other, hother⟩
      · exact .inl ⟨turnId, hturn turnId hactive⟩
      · right
        by_cases heq : other = call
        · subst heq
          refine ⟨other, .inr ?_⟩
          rw [if_pos rfl]
          apply hcall
          simpa [ServiceState.deleteAt, hc] using hother
        · refine ⟨other, ?_⟩
          rw [if_neg heq]
          exact hother

theorem gate_advanceDelete (hinv : h.GateInvariant) (call : ℕ) (ok : Bool)
    {conversationId : String} {phase : DeletePhase}
    (hc : h.service.deleteAt call conversationId phase)
    (hguard : h.service.KeepsGate (.advance call ok)) :
    (h.step (.advance call ok)).GateInvariant := by
  cases phase with
  | entered =>
      apply hinv.of_progress ok hc rfl
      · intro other hadActiveTurn hnext
        cases hnext
        exact Finset.mem_insert_self _ _
      · exact fun _ _ _ _ hflag ↦ Finset.mem_insert_of_mem hflag
      · intro other hflag
        rcases Finset.mem_insert.mp hflag with rfl | hflag
        · cases hactive : h.service.claims.runtime.activeTurns.lookup other with
          | some turnId => exact .inl ⟨turnId, hactive⟩
          | none =>
              right; left
              simp only [ServiceCall.advance, ServiceCall.advanceDelete,
                ConversationRuntimeState.markDeleting, hactive, Option.isSome_none]
        · right; right
          refine ⟨hflag, fun _ ↦ id, ?_⟩
          rintro (heq | heq) <;> cases heq
  | marked hadActiveTurn =>
      apply hinv.of_progress ok hc rfl <;>
        simp only [ServiceCall.advance, ServiceCall.advanceDelete]
      · intro other hadActive hnext
        split at hnext <;> cases hnext
      · intro _ _ _ _ hflag
        split <;> exact hflag
      · intro other hflag
        right; right
        split at hflag
        · next hreturns =>
            rw [if_pos hreturns]
            refine ⟨hflag, fun _ ↦ id, ?_⟩
            rintro (heq | heq) <;> cases heq
            simp at hreturns
        · next hstays =>
            rw [if_neg hstays]
            refine ⟨hflag, fun _ ↦ id, ?_⟩
            rintro (heq | heq) <;> cases heq
            rfl
  | clearing =>
      apply hinv.of_progress ok hc rfl
      · intro other hadActiveTurn hnext
        cases hnext
      · intro other conversationId' hadActiveTurn hat hflag
        refine Finset.mem_erase.mpr ⟨?_, hflag⟩
        rintro rfl
        exact hguard.waiting _ (.inr (.inr ⟨call, ok, rfl, hc⟩)) other hadActiveTurn hat
      · intro other hflag
        obtain ⟨hne, hflag⟩ := Finset.mem_erase.mp hflag
        right; right
        refine ⟨hflag, fun _ ↦ id, ?_⟩
        rintro (heq | heq) <;> cases heq
        exact (hne rfl).elim

theorem gate_advance (hinv : h.GateInvariant) (call : ℕ) (ok : Bool)
    (hguard : h.service.KeepsGate (.advance call ok)) :
    (h.step (.advance call ok)).GateInvariant := by
  cases hc : h.service.calls.lookup call with
  | none =>
      have hstep : (h.step (.advance call ok)).service = h.service := by
        simp only [step, ServiceState.step, hc]
      constructor
      · intro other conversationId hadActiveTurn hat
        rw [hstep] at hat ⊢
        have hne : other ≠ call := by
          rintro rfl
          rw [ServiceState.deleteAt, hc] at hat
          cases hat
        simp only [step, Function.update_of_ne hne]
        exact hinv.closed other conversationId hadActiveTurn hat
      · rw [hstep]
        exact hinv.takenBack
  | some c =>
      rcases c.advance_flags h.service.claims.runtime h.service.tasks ok with
        ⟨conversationId, phase, rfl⟩ | ⟨conversationId, rfl⟩ | ⟨hdeleting, hactive, hnext⟩
      · exact gate_advanceDelete hinv call ok hc hguard
      · apply hinv.of_progress ok hc rfl
        · intro other hadActiveTurn hnext
          cases hnext
        · exact fun _ _ _ _ hflag ↦ hflag
        · intro other hflag
          right; right
          refine ⟨hflag, fun turnId hactive ↦ ?_, ?_⟩
          · have hne : other ≠ conversationId := by
              rintro rfl
              cases (hguard.restart call ok other rfl hc hflag).symm.trans hactive
            exact (AList.lookup_erase_ne hne).trans hactive
          · rintro (heq | heq) <;> cases heq
      · by_cases hdelete : ∃ conversationId phase, c = .delete conversationId phase
        · obtain ⟨conversationId, phase, rfl⟩ := hdelete
          exact gate_advanceDelete hinv call ok hc hguard
        · apply hinv.of_progress ok hc rfl
          · exact fun other hadActiveTurn h ↦ (hnext other _ h).elim
          · exact fun _ _ _ _ hflag ↦ hdeleting ▸ hflag
          · intro other hflag
            right; right
            rw [hdeleting] at hflag
            rw [hactive]
            refine ⟨hflag, fun _ ↦ id, ?_⟩
            rintro (heq | heq) <;> exact (hdelete ⟨_, _, heq⟩).elim

theorem gateInvariant_step (hinv : h.GateInvariant) {a : ServiceAction}
    (hguard : h.service.KeepsGate a) : (h.step a).GateInvariant := by
  cases a with
  | enter call c => exact gate_enter hinv call c
  | advance call ok => exact gate_advance hinv call ok hguard
  | tryClaimTurn conversationId turnId => exact gate_tryClaimTurn hinv conversationId turnId
  | release claim =>
      apply gate_release hinv rfl (.inl rfl) _ hguard
      exact fun c hc hlive _ ↦ ⟨claim, c, hc, rfl, hlive, .inl rfl⟩
  | releaseForTurn claim turnId =>
      apply gate_release hinv rfl (.inr (.inl ⟨turnId, rfl⟩)) _ hguard
      exact fun c hc hlive hturn ↦ ⟨claim, c, hc, rfl, hlive, .inr (.inl (by rw [hturn _ rfl]))⟩
  | drop claim =>
      apply gate_release hinv rfl (.inr (.inr rfl)) _ hguard
      exact fun c hc hlive _ ↦ ⟨claim, c, hc, rfl, hlive, .inr (.inr rfl)⟩
  | clearConversation conversationId => exact gate_clearConversation hinv conversationId hguard
  | markShuttingDown => exact ⟨hinv.closed, hinv.takenBack⟩
  | register conversationId agent => exact ⟨hinv.closed, hinv.takenBack⟩
  | evict conversationId => exact ⟨hinv.closed, hinv.takenBack⟩

theorem gateInvariant_new : new.GateInvariant where
  closed := fun _ _ _ hat ↦ by cases hat
  takenBack := fun _ hflag ↦ by cases hflag

theorem GateInvariant.closedUntilDeleted (hinv : h.GateInvariant) (a : ServiceAction) :
    h.ClosedUntilDeleted a := by
  rintro call conversationId hadActiveTurn rfl hat
  exact (hinv.closed call conversationId hadActiveTurn hat).2

theorem GateInvariant.flagTakenBack (hinv : h.GateInvariant) : h.service.FlagTakenBack := by
  intro conversationId hflag hidle
  rcases hinv.takenBack conversationId hflag with hactive | ⟨call, hat | hat⟩
  · exact hactive
  · cases hidle call _ hat
  · cases hidle call _ hat

end DeleteHistory

/-- In every run that keeps the gate closed behind each waiting `delete`, no turn is granted
between the mark and the end of a successful repository delete, and each deleting flag that no
`delete` will take back belongs to an active turn. -/
theorem no_turn_while_deleting (acts : List ServiceAction)
    (h : Meets DeleteHistory.step (fun h a ↦ h.service.KeepsGate a) .new acts) :
    Meets DeleteHistory.step DeleteHistory.ClosedUntilDeleted .new acts ∧
      Throughout DeleteHistory.step (fun h ↦ h.service.FlagTakenBack) .new acts := by
  constructor
  · apply meets_of_meets _ _ DeleteHistory.gateInvariant_new h
    · exact fun _ _ hs hguard ↦ DeleteHistory.gateInvariant_step hs hguard
    · exact fun _ a hs _ ↦ hs.closedUntilDeleted a
  · have hinv : Throughout DeleteHistory.step DeleteHistory.GateInvariant .new acts := by
      refine throughout_of_meets ?_ DeleteHistory.gateInvariant_new h
      exact fun _ _ hs hguard ↦ DeleteHistory.gateInvariant_step hs hguard
    exact hinv.mono fun _ hs ↦ hs.flagTakenBack

def deleteMarked : List ServiceAction :=
  [.tryClaimTurn "c" "t1", .enter 0 (.delete "c" .entered), .advance 0 true]

/-- The turn outlives the repository delete and takes the mark back. -/
theorem deleteMarked_closed :
    Meets DeleteHistory.step DeleteHistory.ClosedUntilDeleted .new
        (deleteMarked ++ [.tryClaimTurn "c" "t2", .advance 0 true, .release 0]) ∧
      Throughout DeleteHistory.step (fun h ↦ h.service.FlagTakenBack) .new
        (deleteMarked ++ [.tryClaimTurn "c" "t2", .advance 0 true, .release 0]) := by
  apply no_turn_while_deleting
  refine ⟨?_, ?_, ?_, ?_, ?_, ?_, trivial⟩
  case refine_6 => exact ⟨fun _ _ _ _ hat ↦ (by cases hat), fun _ _ _ ha ↦ (by cases ha)⟩
  all_goals
    refine ⟨?_, ?_⟩
    · rintro _ (⟨_, _, -, -, -, ha | ha | ha⟩ | ha | ⟨_, _, ha, hat⟩) <;> cases ha
      all_goals cases hat
    · intro _ _ _ ha hat
      cases ha
      all_goals cases hat

/-- A restart has killed the old runtime when the conversation is deleted; then it clears the
turn. -/
def deleteDuringRestart : List ServiceAction :=
  [.tryClaimTurn "c" "t1", .register "c" 0, .enter 1 (.restart "c" .entered)] ++
    List.replicate 9 (.advance 1 true) ++
      [.enter 0 (.delete "c" .entered), .advance 0 true, .advance 0 true, .advance 1 true]

/-- The turn is released and another one claimed while the `delete` waits; a restart that clears
the turn leaves the flag behind. -/
theorem deleteMarked_reopened :
    ¬ Meets DeleteHistory.step DeleteHistory.ClosedUntilDeleted .new
        (deleteMarked ++ [.release 0, .tryClaimTurn "c" "t2", .advance 0 true]) ∧
      ¬ Throughout DeleteHistory.step (fun h ↦ h.service.FlagTakenBack) .new
        deleteDuringRestart := by
  constructor
  · intro hclosed
    have hdelete := (meets_append.mp hclosed).2.2.2.1
    exact hdelete 0 "c" true rfl rfl (by decide)
  · intro hback
    have hcalls : (run DeleteHistory.step .new deleteDuringRestart).service.calls.entries =
        [⟨1, .restart "c" .rebuilding⟩] := by decide
    obtain ⟨turnId, hactive⟩ := hback.last "c" (by decide) fun call phase hat ↦ by
      have hentry := Table.mem_entries_iff.mpr hat
      rw [hcalls, List.mem_singleton] at hentry
      cases hentry
    cases hactive

end Zaowutai.Conversation
