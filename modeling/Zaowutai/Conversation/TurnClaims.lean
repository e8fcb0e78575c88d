import Mathlib.Data.List.Nodup
import Zaowutai.Lib.Run
import Zaowutai.Conversation.RuntimeState

/-!
# Turn claims

A claim outlives the turn it was granted for when a restart or the end of the
conversation clears the turn.  The turn ids are distinct, so a claim that has
lost its turn is told apart from the claim of a newer one.
-/

namespace Zaowutai.Conversation

open Zaowutai.Lib

/-- The operations of the runtime state that grant and release no claim. -/
inductive RuntimeOp
  | markDeleting (conversationId : String)
  | clearDeleting (conversationId : String)
  | markCancelling (conversationId : String)
  | clearCancelling (conversationId : String)
  | deferCancel (conversationId turnId : String)
  | takeDeferredCancel (conversationId turnId : String)
  | beginRestart (conversationId : String)
  | shouldLogOnceForTurn (event : OncePerTurn) (conversationId turnId : String)
  | clearRestarting (conversationId : String)
  | clearTurnStateForRestart (conversationId : String)
  | clearConversation (conversationId : String)
  | markShuttingDown
  deriving DecidableEq, Repr

def ConversationRuntimeState.perform (s : ConversationRuntimeState) :
    RuntimeOp → ConversationRuntimeState
  | .markDeleting conversationId => (s.markDeleting conversationId).1
  | .clearDeleting conversationId => s.clearDeleting conversationId
  | .markCancelling conversationId => s.markCancelling conversationId
  | .clearCancelling conversationId => s.clearCancelling conversationId
  | .deferCancel conversationId turnId => s.deferCancel conversationId turnId
  | .takeDeferredCancel conversationId turnId => (s.takeDeferredCancel conversationId turnId).1
  | .beginRestart conversationId => (s.beginRestart conversationId).1
  | .shouldLogOnceForTurn event conversationId turnId =>
      (s.shouldLogOnceForTurn event conversationId turnId).1
  | .clearRestarting conversationId => s.clearRestarting conversationId
  | .clearTurnStateForRestart conversationId => s.clearTurnStateForRestart conversationId
  | .clearConversation conversationId => s.clearConversation conversationId
  | .markShuttingDown => s.markShuttingDown

structure TurnClaims where
  runtime : ConversationRuntimeState
  claims : List TurnClaim

/-- A granted claim is named by its place in the order of the grants. -/
inductive ClaimAction
  | tryClaimTurn (conversationId turnId : String)
  | release (claim : ℕ)
  | releaseForTurn (claim : ℕ) (turnId : String)
  | drop (claim : ℕ)
  | perform (op : RuntimeOp)
  deriving DecidableEq, Repr

namespace TurnClaims

def new : TurnClaims := ⟨.new, []⟩

variable (s : TurnClaims)

def tryClaimTurn (conversationId turnId : String) : TurnClaims :=
  match s.runtime.tryClaimTurn conversationId turnId with
  | (runtime, .ok claim) => ⟨runtime, s.claims ++ [claim]⟩
  | (runtime, .error _) => ⟨runtime, s.claims⟩

def onClaim (claim : ℕ)
    (f : TurnClaim → ConversationRuntimeState → TurnClaim × ConversationRuntimeState × Bool) :
    TurnClaims :=
  match s.claims[claim]? with
  | some c => ⟨(f c s.runtime).2.1, s.claims.set claim (f c s.runtime).1⟩
  | none => s

def step (s : TurnClaims) : ClaimAction → TurnClaims
  | .tryClaimTurn conversationId turnId => s.tryClaimTurn conversationId turnId
  | .release claim => s.onClaim claim TurnClaim.release
  | .releaseForTurn claim turnId => s.onClaim claim fun c runtime ↦ c.releaseForTurn runtime turnId
  | .drop claim => s.onClaim claim TurnClaim.drop
  | .perform op => { s with runtime := s.runtime.perform op }

def Live (claim : TurnClaim) : Prop :=
  claim.released = false ∧
    s.runtime.activeTurns.lookup claim.conversationId = some claim.turnId

instance (claim : TurnClaim) : Decidable (s.Live claim) :=
  inferInstanceAs (Decidable (_ ∧ _))

structure Exclusive : Prop where
  atMostOne : s.claims.Pairwise fun a b ↦
    a.conversationId = b.conversationId → ¬ (s.Live a ∧ s.Live b)
  active : ∀ conversationId turnId,
    s.runtime.activeTurns.lookup conversationId = some turnId →
      ∃ claim ∈ s.claims, s.Live claim ∧ claim.conversationId = conversationId ∧
        claim.turnId = turnId

def Releases (a : ClaimAction) (claim : ℕ) : Prop :=
  a = .release claim ∨ (∃ turnId, a = .releaseForTurn claim turnId) ∨ a = .drop claim

structure Lawful (a : ClaimAction) : Prop where
  granted : ∀ conversationId turnId, a = .tryClaimTurn conversationId turnId →
    ((∃ claim, (s.runtime.tryClaimTurn conversationId turnId).2 = .ok claim) ↔
      s.runtime.shuttingDown = false ∧ conversationId ∉ s.runtime.deletingConversations ∧
        conversationId ∉ s.runtime.restartingConversations ∧
          s.runtime.activeTurns.lookup conversationId = none)
  live : ∀ conversationId turnId claim, a = .tryClaimTurn conversationId turnId →
    (s.runtime.tryClaimTurn conversationId turnId).2 = .ok claim → (s.step a).Live claim
  harmless : ∀ (claim : ℕ) c, s.claims[claim]? = some c → ¬ s.Live c → Releases a claim →
    (s.step a).runtime = s.runtime
  stale : ∀ (claim : ℕ) c c', s.claims[claim]? = some c → ¬ s.Live c →
    (s.step a).claims[claim]? = some c' → ¬ (s.step a).Live c'

def Fresh (a : ClaimAction) : Prop :=
  ∀ conversationId turnId, a = .tryClaimTurn conversationId turnId →
    turnId ∉ s.claims.map TurnClaim.turnId

structure ClaimInvariant : Prop where
  distinct : (s.claims.map TurnClaim.turnId).Nodup
  active : ∀ conversationId turnId,
    s.runtime.activeTurns.lookup conversationId = some turnId →
      ∃ claim ∈ s.claims, s.Live claim ∧ claim.conversationId = conversationId ∧
        claim.turnId = turnId

variable {s}

theorem ClaimInvariant.exclusive (h : s.ClaimInvariant) : s.Exclusive where
  atMostOne := by
    refine (List.pairwise_map.mp h.distinct).imp ?_
    rintro a b hne hconversation ⟨ha, hb⟩
    apply hne
    have hactive := ha.2
    rw [hconversation, hb.2] at hactive
    exact (Option.some_inj.mp hactive).symm
  active := h.active

theorem lookup_perform {r : ConversationRuntimeState} {op : RuntimeOp} {conversationId : String}
    {turnId : String} (h : (r.perform op).activeTurns.lookup conversationId = some turnId) :
    r.activeTurns.lookup conversationId = some turnId := by
  have herase : ∀ other : String,
      AList.lookup conversationId (r.activeTurns.erase other) = some turnId →
        r.activeTurns.lookup conversationId = some turnId := by
    intro other h
    rw [Table.lookup_erase_eq] at h
    split at h
    · cases h
    · exact h
  cases op with
  | takeDeferredCancel conversationId turnId =>
      rw [ConversationRuntimeState.perform] at h
      rcases r.takeDeferredCancel_cases conversationId turnId with ⟨-, heq⟩ | ⟨-, heq⟩ <;>
        rwa [heq] at h
  | beginRestart conversationId =>
      rw [ConversationRuntimeState.perform] at h
      rcases r.beginRestart_cases conversationId with heq | ⟨_, heq⟩ <;> rwa [heq] at h
  | shouldLogOnceForTurn event conversationId turnId =>
      simp only [ConversationRuntimeState.perform,
        ConversationRuntimeState.shouldLogOnceForTurn] at h
      split at h <;> exact h
  | clearTurnStateForRestart other => exact herase other h
  | clearConversation other => exact herase other h
  | _ => exact h

theorem tryClaimTurn_cases (s : TurnClaims) (conversationId turnId : String) :
    s.runtime.activeTurns.lookup conversationId = none ∧
        (s.tryClaimTurn conversationId turnId).runtime.activeTurns =
          s.runtime.activeTurns.insert conversationId turnId ∧
        (s.tryClaimTurn conversationId turnId).claims =
          s.claims ++ [⟨conversationId, turnId, false⟩] ∨
      (s.tryClaimTurn conversationId turnId).runtime.activeTurns = s.runtime.activeTurns ∧
        (s.tryClaimTurn conversationId turnId).claims = s.claims := by
  simp only [tryClaimTurn]
  rcases s.runtime.tryClaimTurn_cases conversationId turnId with
    ⟨hfree, heq⟩ | ⟨-, _, _, heq⟩ <;> rw [heq]
  · exact .inl ⟨hfree.2.2.2, rfl, rfl⟩
  · exact .inr ⟨rfl, rfl⟩

theorem releaseInner_cases (c : TurnClaim) (r : ConversationRuntimeState) :
    c.releaseInner r = (c, r, false) ∨ c.released = false ∧
      c.releaseInner r = ({ c with released := true }, r.release c.conversationId c.turnId) := by
  simp only [TurnClaim.releaseInner]
  split
  · exact .inl rfl
  · next hreleased => exact .inr ⟨eq_false_of_ne_true hreleased, rfl⟩

theorem onClaim_cases (s : TurnClaims) (claim : ℕ)
    {f : TurnClaim → ConversationRuntimeState → TurnClaim × ConversationRuntimeState × Bool}
    (hf : ∀ c r, f c r = (c, r, false) ∨ f c r = c.releaseInner r) :
    s.onClaim claim f = s ∨ ∃ c, s.claims[claim]? = some c ∧ c.released = false ∧
      s.onClaim claim f = ⟨(s.runtime.release c.conversationId c.turnId).1,
        s.claims.set claim { c with released := true }⟩ := by
  simp only [onClaim]
  split
  · next c hc =>
      have hsame : f c s.runtime = (c, s.runtime, false) ∨ c.released = false ∧
          f c s.runtime = ({ c with released := true },
            s.runtime.release c.conversationId c.turnId) := by
        rcases hf c s.runtime with heq | heq
        · exact .inl heq
        · rw [heq]
          exact releaseInner_cases c s.runtime
      rcases hsame with heq | ⟨hreleased, heq⟩
      · left
        obtain ⟨hlt, hget⟩ := List.getElem?_eq_some_iff.mp hc
        rw [heq, ← hget, List.set_getElem_self]
      · right
        exact ⟨c, hc, hreleased, by rw [heq]⟩
  · exact .inl rfl

theorem step_of_releases {a : ClaimAction} {claim : ℕ} (h : Releases a claim) :
    s.step a = s ∨ ∃ c, s.claims[claim]? = some c ∧ c.released = false ∧
      s.step a = ⟨(s.runtime.release c.conversationId c.turnId).1,
        s.claims.set claim { c with released := true }⟩ := by
  rcases h with rfl | ⟨turnId, rfl⟩ | rfl
  · exact s.onClaim_cases claim fun _ _ ↦ .inr rfl
  · refine s.onClaim_cases claim (f := fun c runtime ↦ c.releaseForTurn runtime turnId) ?_
    intro c r
    simp only [TurnClaim.releaseForTurn]
    split
    · exact .inl rfl
    · exact .inr rfl
  · exact s.onClaim_cases claim fun _ _ ↦ .inr rfl

theorem action_cases (a : ClaimAction) :
    (∃ conversationId turnId, a = .tryClaimTurn conversationId turnId) ∨
      (∃ claim, Releases a claim) ∨ ∃ op, a = .perform op := by
  cases a with
  | tryClaimTurn conversationId turnId => exact .inl ⟨conversationId, turnId, rfl⟩
  | release claim => exact .inr (.inl ⟨claim, .inl rfl⟩)
  | releaseForTurn claim turnId => exact .inr (.inl ⟨claim, .inr (.inl ⟨turnId, rfl⟩)⟩)
  | drop claim => exact .inr (.inl ⟨claim, .inr (.inr rfl)⟩)
  | perform op => exact .inr (.inr ⟨op, rfl⟩)

theorem turnIds_set {claim : ℕ} {c : TurnClaim} (hc : s.claims[claim]? = some c) :
    (s.claims.set claim { c with released := true }).map TurnClaim.turnId =
      s.claims.map TurnClaim.turnId := by
  obtain ⟨hlt, rfl⟩ := List.getElem?_eq_some_iff.mp hc
  have hlt' : claim < (s.claims.map TurnClaim.turnId).length := by
    rw [List.length_map]
    exact hlt
  rw [List.map_set]
  conv_rhs => rw [← List.set_getElem_self hlt', List.getElem_map]

theorem lookup_release {conversationId turnId other turn : String}
    (h : (s.runtime.release conversationId turnId).1.activeTurns.lookup other = some turn) :
    s.runtime.activeTurns.lookup other = some turn ∧
      ¬ (other = conversationId ∧ turn = turnId) := by
  rcases s.runtime.release_cases conversationId turnId with ⟨-, heq⟩ | ⟨hne, heq⟩ <;> rw [heq] at h
  · simp only [Table.lookup_erase_eq] at h
    split at h
    · cases h
    · next hother => exact ⟨h, fun hsame ↦ hother hsame.1⟩
  · refine ⟨h, ?_⟩
    rintro ⟨rfl, rfl⟩
    exact hne h

theorem claimInvariant_step (h : s.ClaimInvariant) {a : ClaimAction} (hfresh : s.Fresh a) :
    (s.step a).ClaimInvariant := by
  rcases action_cases a with ⟨conversationId, turnId, rfl⟩ | ⟨claim, hreleases⟩ | ⟨op, rfl⟩
  · rcases s.tryClaimTurn_cases conversationId turnId with
      ⟨hnone, hactive, hclaims⟩ | ⟨hactive, hclaims⟩
    · constructor
      · rw [step, hclaims, List.map_append, List.map_cons, List.map_nil, List.nodup_append]
        refine ⟨h.distinct, List.nodup_singleton _, ?_⟩
        intro turn hturn other hother
        rw [List.mem_singleton.mp hother]
        rintro rfl
        exact hfresh _ _ rfl hturn
      · intro other turn hlookup
        simp only [step, hactive, hclaims, Live, Table.lookup_insert_eq] at hlookup ⊢
        split at hlookup
        · next heq =>
            cases hlookup
            refine ⟨_, List.mem_append_right _ (List.mem_singleton_self _), ⟨rfl, ?_⟩, heq.symm,
              rfl⟩
            exact if_pos rfl
        · next hne =>
            obtain ⟨c, hc, hlive, rfl, rfl⟩ := h.active other turn hlookup
            refine ⟨c, List.mem_append_left _ hc, ⟨hlive.1, ?_⟩, rfl, rfl⟩
            rw [if_neg hne]
            exact hlookup
    · constructor
      · rw [step, hclaims]
        exact h.distinct
      · simp only [step, hactive, hclaims, Live]
        exact h.active
  · rcases s.step_of_releases hreleases with heq | ⟨c, hc, -, heq⟩ <;> rw [heq]
    · exact h
    · constructor
      · rw [turnIds_set hc]
        exact h.distinct
      · intro other turn hlookup
        obtain ⟨hbefore, hother⟩ := lookup_release hlookup
        obtain ⟨c', hc', hlive, rfl, rfl⟩ := h.active other turn hbefore
        obtain ⟨i, hi⟩ := List.mem_iff_getElem?.mp hc'
        have hne : claim ≠ i := by
          rintro rfl
          cases hc.symm.trans hi
          exact hother ⟨rfl, rfl⟩
        refine ⟨c', ?_, ⟨hlive.1, hlookup⟩, rfl, rfl⟩
        apply List.mem_of_getElem? (i := i)
        rw [List.getElem?_set_ne hne]
        exact hi
  · refine ⟨h.distinct, ?_⟩
    intro other turn hlookup
    obtain ⟨c, hc, hlive, rfl, rfl⟩ := h.active other turn (lookup_perform hlookup)
    exact ⟨c, hc, ⟨hlive.1, hlookup⟩, rfl, rfl⟩

theorem lawful_step {a : ClaimAction} (hfresh : s.Fresh a) : s.Lawful a := by
  constructor
  · rintro conversationId turnId rfl
    rcases s.runtime.tryClaimTurn_cases conversationId turnId with
      ⟨hfree, heq⟩ | ⟨hnot, _, error, heq⟩ <;> rw [heq]
    · exact ⟨fun _ ↦ hfree, fun _ ↦ ⟨_, rfl⟩⟩
    · refine ⟨?_, fun hfree ↦ (hnot hfree).elim⟩
      rintro ⟨_, hok⟩
      cases hok
  · rintro conversationId turnId claim rfl hok
    simp only [Live, step, tryClaimTurn]
    rcases s.runtime.tryClaimTurn_cases conversationId turnId with ⟨-, heq⟩ | ⟨-, _, _, heq⟩ <;>
      rw [heq] at hok ⊢ <;> cases hok
    exact ⟨rfl, AList.lookup_insert _⟩
  · intro claim c hc hstale hreleases
    rcases s.step_of_releases hreleases with heq | ⟨c', hc', hreleased, heq⟩
    · rw [heq]
    · cases hc.symm.trans hc'
      rw [heq]
      rcases s.runtime.release_cases c.conversationId c.turnId with ⟨hactive, -⟩ | ⟨-, hsame⟩
      · exact (hstale ⟨hreleased, hactive⟩).elim
      · exact hsame
  · intro claim c c' hc hstale hc' hlive
    rcases action_cases a with ⟨conversationId, turnId, rfl⟩ | ⟨other, hreleases⟩ | ⟨op, rfl⟩
    · rcases s.tryClaimTurn_cases conversationId turnId with
        ⟨hnone, hactive, hclaims⟩ | ⟨hactive, hclaims⟩
      · rw [step, hclaims, List.getElem?_append_left (List.getElem?_eq_some_iff.mp hc).1] at hc'
        cases hc.symm.trans hc'
        simp only [Live, step, hactive, Table.lookup_insert_eq] at hlive
        obtain ⟨hreleased, hlookup⟩ := hlive
        split at hlookup
        · cases hlookup
          apply hfresh _ _ rfl
          exact List.mem_map_of_mem (List.mem_of_getElem? hc)
        · exact hstale ⟨hreleased, hlookup⟩
      · rw [step, hclaims] at hc'
        cases hc.symm.trans hc'
        simp only [Live, step, hactive] at hlive
        exact hstale hlive
    · rcases s.step_of_releases hreleases with heq | ⟨_, -, -, heq⟩ <;> rw [heq] at hc' hlive
      · cases hc.symm.trans hc'
        exact hstale hlive
      · rw [List.getElem?_set] at hc'
        split at hc'
        · split at hc'
          · cases hc'
            cases hlive.1
          · cases hc'
        · cases hc.symm.trans hc'
          exact hstale ⟨hlive.1, (lookup_release hlive.2).1⟩
    · cases hc.symm.trans hc'
      exact hstale ⟨hlive.1, lookup_perform hlive.2⟩

theorem claimInvariant_new : new.ClaimInvariant where
  distinct := List.nodup_nil
  active := fun _ _ h ↦ by cases h

end TurnClaims

def ClaimAction.claimedTurn : ClaimAction → Option String
  | .tryClaimTurn _ turnId => some turnId
  | _ => none

namespace TurnClaims

variable {s : TurnClaims}

theorem turnIds_step (s : TurnClaims) (a : ClaimAction) :
    List.Sublist ((s.step a).claims.map TurnClaim.turnId)
      (s.claims.map TurnClaim.turnId ++ a.claimedTurn.toList) := by
  rcases action_cases a with ⟨conversationId, turnId, rfl⟩ | ⟨claim, hreleases⟩ | ⟨op, rfl⟩
  · rcases s.tryClaimTurn_cases conversationId turnId with ⟨-, -, hclaims⟩ | ⟨-, hclaims⟩ <;>
      rw [step, hclaims]
    · rw [List.map_append]
      exact List.Sublist.refl _
    · exact List.sublist_append_left _ _
  · rcases s.step_of_releases hreleases with heq | ⟨c, hc, -, heq⟩ <;> rw [heq]
    · exact List.sublist_append_left _ _
    · rw [turnIds_set hc]
      exact List.sublist_append_left _ _
  · exact List.sublist_append_left _ _

theorem fresh_of_nodup {acts : List ClaimAction}
    (h : (s.claims.map TurnClaim.turnId ++ acts.filterMap ClaimAction.claimedTurn).Nodup) :
    Meets step Fresh s acts := by
  induction acts generalizing s with
  | nil => trivial
  | cons a acts ih =>
      have hcons : (a :: acts).filterMap ClaimAction.claimedTurn =
          a.claimedTurn.toList ++ acts.filterMap ClaimAction.claimedTurn := by
        rw [List.filterMap_cons]
        cases a.claimedTurn <;> rfl
      rw [hcons, ← List.append_assoc] at h
      refine ⟨?_, ih (h.sublist ((turnIds_step s a).append_right _))⟩
      rintro conversationId turnId rfl hmem
      have hnodup := List.nodup_append.mp (List.nodup_append.mp h).1
      exact hnodup.2.2 turnId hmem turnId (List.mem_singleton_self _) rfl

end TurnClaims

/-- In every run with distinct turn ids the live claims are exclusive in each state, and each
step grants and releases claims lawfully. -/
theorem turn_claims_exclusive (acts : List ClaimAction)
    (h : (acts.filterMap ClaimAction.claimedTurn).Nodup) :
    Throughout TurnClaims.step TurnClaims.Exclusive .new acts ∧
      Meets TurnClaims.step TurnClaims.Lawful .new acts := by
  have hfresh : Meets TurnClaims.step TurnClaims.Fresh .new acts := TurnClaims.fresh_of_nodup h
  constructor
  · have hinv : Throughout TurnClaims.step TurnClaims.ClaimInvariant .new acts := by
      refine throughout_of_meets ?_ TurnClaims.claimInvariant_new hfresh
      exact fun _ _ hs hf ↦ TurnClaims.claimInvariant_step hs hf
    exact hinv.mono fun _ hs ↦ hs.exclusive
  · exact hfresh.mono fun _ _ hf ↦ TurnClaims.lawful_step hf

/-- A restart clears the first turn, a second turn is claimed, and the first claim is dropped. -/
theorem turn_claims_exclusive_restart :
    Throughout TurnClaims.step TurnClaims.Exclusive .new
        [.tryClaimTurn "c" "t1", .perform (.beginRestart "c"),
          .perform (.clearTurnStateForRestart "c"), .perform (.clearRestarting "c"),
          .tryClaimTurn "c" "t2", .drop 0] ∧
      Meets TurnClaims.step TurnClaims.Lawful .new
        [.tryClaimTurn "c" "t1", .perform (.beginRestart "c"),
          .perform (.clearTurnStateForRestart "c"), .perform (.clearRestarting "c"),
          .tryClaimTurn "c" "t2", .drop 0] :=
  turn_claims_exclusive _ (by decide)

end Zaowutai.Conversation
