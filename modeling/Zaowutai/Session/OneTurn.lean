import Zaowutai.Session.FlushWakeups

/-!
# One turn at a time

On a non-proactive backend an open gate means an idle session.  A flush that
reads the gate while the `TurnStarted` of an earlier dispatch waits in the
lowered channel reads it too early; every other flush passes its message on
when no earlier turn is under way.
-/

namespace Zaowutai.Session

open Zaowutai.Lib

variable {Content : Type*}

/-- The turn has not settled: its `TurnStarted` is not folded, or it is the running turn. -/
def FoldLoop.TurnOpen (l : FoldLoop) (sessionId : String) (turnGen : ℕ) : Prop :=
  startedEnvelope sessionId turnGen ∈ l.lowered ∨
    ∃ turn, l.orchestrator.stateOf sessionId = .running turn ∧ turn.sinceEpoch = turnGen

/-- The dispatch of the turn has not returned, or the turn has not settled. -/
def ConversationSession.TurnOpen (c : ConversationSession Content) (turnGen : ℕ) : Prop :=
  (∃ fromRisingEdge clientMsgId, c.flush = some ⟨fromRisingEdge, .started clientMsgId turnGen⟩) ∨
    c.loop.TurnOpen c.sessionId turnGen

/-- A session together with the messages whose dispatch started a turn and the generations of
the turns. -/
structure TurnHistory (Content : Type*) where
  session : ConversationSession Content
  turns : List (String × ℕ)

namespace TurnHistory

def new (sessionId msgIdPrefix : String) : TurnHistory Content :=
  ⟨.new sessionId msgIdPrefix, []⟩

def startedBy (c : ConversationSession Content) (a : SessionAction Content) :
    List (String × ℕ) :=
  match a, c.flush with
  | .startTurn, some ⟨_, .sending clientMsgId _⟩ => [(clientMsgId, c.loop.turnGen + 1)]
  | _, _ => []

def step (acceptsProactiveInput : Bool) (h : TurnHistory Content) (a : SessionAction Content) :
    TurnHistory Content where
  session := h.session.step acceptsProactiveInput a
  turns := h.turns ++ startedBy h.session a

end TurnHistory

/-- A message is passed to `Orchestrator::send` only when each turn dispatched before has
started and settled. -/
def OneTurn (h : TurnHistory Content) (a : SessionAction Content) : Prop :=
  ∀ m, a = .select → h.session.selected = some m → ∀ t ∈ h.turns, ¬ h.session.TurnOpen t.2

/-- A flush that finds the gate open reads it when no `TurnStarted` of a dispatched message is
waiting to be folded. -/
def GateCurrent (h : TurnHistory Content) (a : SessionAction Content) : Prop :=
  ∀ fromRisingEdge, a = .acquire fromRisingEdge → h.session.flush = none →
    h.session.gateOpen = true →
      ∀ t ∈ h.turns, startedEnvelope h.session.sessionId t.2 ∉ h.session.loop.lowered

/-- The generations of the dispatched messages and of the other commands are told apart. -/
structure TurnsIssued (gens : List ℕ) (l : FoldLoop) : Prop where
  backend : l.BackendEvents
  shape : ∀ env ∈ l.lowered ++ l.unlowered, ∀ turnGen, env.event = .turnStarted turnGen →
    env = startedEnvelope env.sessionId turnGen
  bounded : ∀ turnGen ∈ gens, turnGen ≤ l.turnGen
  others : ∀ env ∈ l.unlowered, ∀ turnGen, env.event = .turnStarted turnGen →
    turnGen ≤ l.turnGen ∧ turnGen ∉ gens

section Loop

variable {l : FoldLoop} {gens : List ℕ} {acceptsProactiveInput : Bool}

theorem running_foldEnvelope {env : SessionEnvelope} {sessionId : String} {turn' : RunningTurn}
    (h : (l.foldEnvelope acceptsProactiveInput env).orchestrator.stateOf sessionId =
      .running turn') :
    (∃ turn, l.orchestrator.stateOf sessionId = .running turn ∧
        turn'.sinceEpoch = turn.sinceEpoch) ∨
      env.sessionId = sessionId ∧ env.event = .turnStarted turn'.sinceEpoch := by
  rw [stateOf_foldEnvelope] at h
  split at h
  · next heq =>
      subst heq
      cases hstart : env.event.isTurnStarted with
      | false => exact .inl (foldState_same_turn hstart h)
      | true =>
          obtain ⟨epoch, hevent⟩ := exists_turnStarted hstart
          rcases foldState_started (l.orchestrator.stateOf env.sessionId) hevent with
            ⟨-, hfold⟩ | ⟨-, hfold⟩
          · right
            cases hfold.symm.trans h
            exact ⟨rfl, hevent⟩
          · exact .inl (running_prune (hfold.symm.trans h))
  · exact .inl ⟨turn', h, rfl⟩

theorem turnsIssued_step (h : TurnsIssued gens l) (a : LoopAction) :
    TurnsIssued gens (l.step acceptsProactiveInput a) := by
  have hback := backendEvents_step acceptsProactiveInput h.backend a
  cases a with
  | dispatchSend sessionId =>
      refine ⟨hback, ?_, ?_, ?_⟩
      · intro env henv turnGen hevent
        rw [FoldLoop.step, ← List.append_assoc] at henv
        rcases List.mem_append.mp henv with henv | henv
        · exact h.shape env henv turnGen hevent
        · rw [List.mem_singleton.mp henv] at hevent ⊢
          cases hevent
          rfl
      · exact fun turnGen hgen ↦ (h.bounded turnGen hgen).trans (Nat.le_succ _)
      · intro env henv turnGen hevent
        rcases List.mem_append.mp henv with henv | henv
        · obtain ⟨hle, hnot⟩ := h.others env henv turnGen hevent
          exact ⟨hle.trans (Nat.le_succ _), hnot⟩
        · rw [List.mem_singleton.mp henv] at hevent
          cases hevent
          refine ⟨le_rfl, fun hgen ↦ ?_⟩
          have hle := h.bounded _ hgen
          exact Nat.not_succ_le_self _ hle
  | dispatchCancel sessionId =>
      refine ⟨hback, ?_, h.bounded, ?_⟩
      · intro env henv turnGen hevent
        rw [FoldLoop.step, ← List.append_assoc] at henv
        rcases List.mem_append.mp henv with henv | henv
        · exact h.shape env henv turnGen hevent
        · rw [List.mem_singleton.mp henv] at hevent
          cases hevent
      · intro env henv turnGen hevent
        rcases List.mem_append.mp henv with henv | henv
        · exact h.others env henv turnGen hevent
        · rw [List.mem_singleton.mp henv] at hevent
          cases hevent
  | lower env =>
      rcases l.lower_cases acceptsProactiveInput env with ⟨hmem, heq⟩ | heq <;>
        rw [heq] at hback ⊢
      · refine ⟨hback, ?_, h.bounded, ?_⟩
        · intro env' henv'
          apply h.shape env'
          simp only [List.mem_append, List.mem_singleton] at henv' ⊢
          rcases henv' with (henv' | rfl) | henv'
          · exact .inl henv'
          · exact .inr hmem
          · exact .inr (List.mem_of_mem_erase henv')
        · exact fun env' henv' ↦ h.others env' (List.mem_of_mem_erase henv')
      · exact h
  | emit env =>
      simp only [FoldLoop.step] at hback ⊢
      split at hback
      · next hstart =>
          rw [if_pos hstart]
          exact h
      · next hstart =>
          rw [if_neg hstart]
          exact ⟨hback, h.shape, h.bounded, h.others⟩
  | emitResult sessionId turnGen stamped isError apiErrorStatus resultText outcome =>
      simp only [FoldLoop.step] at hback ⊢
      split at hback
      · next hopen =>
          rw [if_pos hopen]
          exact ⟨hback, h.shape, h.bounded, h.others⟩
      · next hopen =>
          rw [if_neg hopen]
          exact h
  | foldLowered =>
      rcases l.foldLowered_cases acceptsProactiveInput with ⟨env, rest, hlowered, heq⟩ | ⟨-, heq⟩ <;>
        rw [heq] at hback ⊢
      · refine ⟨hback, ?_, h.bounded, h.others⟩
        intro env' henv'
        apply h.shape env'
        rw [hlowered]
        exact List.mem_cons_of_mem _ henv'
      · exact h
  | foldEvent =>
      rcases l.foldEvent_cases acceptsProactiveInput with ⟨event, later, -, -, heq⟩ | heq <;>
        rw [heq] at hback ⊢
      · exact ⟨hback, h.shape, h.bounded, h.others⟩
      · exact h

theorem not_turnOpen_step (h : TurnsIssued gens l) (a : LoopAction) {sessionId : String}
    {turnGen : ℕ} (hgen : turnGen ∈ gens) (hsettled : ¬ l.TurnOpen sessionId turnGen) :
    ¬ (l.step acceptsProactiveInput a).TurnOpen sessionId turnGen := by
  cases a with
  | dispatchSend other => exact hsettled
  | dispatchCancel other => exact hsettled
  | lower env =>
      rcases l.lower_cases acceptsProactiveInput env with ⟨hmem, heq⟩ | heq <;> rw [heq]
      · rintro (hlowered | hrunning)
        · rcases List.mem_append.mp hlowered with hlowered | hlowered
          · exact hsettled (.inl hlowered)
          · rw [← List.mem_singleton.mp hlowered] at hmem
            exact (h.others _ hmem turnGen rfl).2 hgen
        · exact hsettled (.inr hrunning)
      · exact hsettled
  | emit env =>
      simp only [FoldLoop.step]
      split <;> exact hsettled
  | emitResult other otherGen stamped isError apiErrorStatus resultText outcome =>
      simp only [FoldLoop.step]
      split <;> exact hsettled
  | foldLowered =>
      rcases l.foldLowered_cases acceptsProactiveInput with ⟨env, rest, hlowered, heq⟩ | ⟨-, heq⟩ <;>
        rw [heq]
      · rintro (hmem | ⟨turn', hrunning, hepoch⟩)
        · exact hsettled (.inl (hlowered ▸ List.mem_cons_of_mem _ hmem))
        · rcases running_foldEnvelope hrunning with ⟨turn, hturn, hsame⟩ | ⟨hsession, hevent⟩
          · exact hsettled (.inr ⟨turn, hturn, hsame.symm.trans hepoch⟩)
          · -- the `TurnStarted` just folded would be the one of the dispatched message
            have hmem : env ∈ l.lowered := hlowered ▸ List.mem_cons_self
            have hshape := h.shape env (List.mem_append_left _ hmem) _ hevent
            rw [hsession, hepoch] at hshape
            exact hsettled (.inl (hshape ▸ hmem))
      · exact hsettled
  | foldEvent =>
      rcases l.foldEvent_cases acceptsProactiveInput with ⟨event, later, -, hevents, heq⟩ | heq <;>
        rw [heq]
      · rintro (hmem | ⟨turn', hrunning, hepoch⟩)
        · exact hsettled (.inl hmem)
        · rcases running_foldEnvelope hrunning with ⟨turn, hturn, hsame⟩ | ⟨-, hevent⟩
          · exact hsettled (.inr ⟨turn, hturn, hsame.symm.trans hepoch⟩)
          · have hback := h.backend event (hevents ▸ List.mem_cons_self)
            rw [hevent] at hback
            cases hback
      · exact hsettled

end Loop

structure TurnInvariant (h : TurnHistory Content) : Prop where
  fresh : SnapshotsFresh false h.session.loop.orchestrator
  issued : TurnsIssued (h.turns.map Prod.snd) h.session.loop
  /-- While a flush that read an open gate has not chosen its head, no turn is open. -/
  settled : ∀ fromRisingEdge, h.session.flush = some ⟨fromRisingEdge, .gateOpen⟩ →
    ∀ t ∈ h.turns, ¬ h.session.TurnOpen t.2

section Step

variable {h : TurnHistory Content}

theorem TurnHistory.turns_step {a : SessionAction Content} (ha : a ≠ .startTurn) :
    (h.step false a).turns = h.turns := by
  cases a with
  | startTurn => exact (ha rfl).elim
  | _ => exact List.append_nil _

theorem turnInvariant_of_loop (hinv : TurnInvariant h) {a : SessionAction Content}
    (ha : a ≠ .startTurn) (hloop : (h.session.step false a).loop = h.session.loop)
    (hsettled : ∀ fromRisingEdge,
      (h.session.step false a).flush = some ⟨fromRisingEdge, .gateOpen⟩ →
        h.session.flush = some ⟨fromRisingEdge, .gateOpen⟩ ∨
          ∀ t ∈ h.turns, ¬ h.session.loop.TurnOpen h.session.sessionId t.2) :
    TurnInvariant (h.step false a) := by
  have hturns := TurnHistory.turns_step (h := h) ha
  have hids := (h.session.ids_step false a).1
  refine ⟨?_, ?_, ?_⟩
  · exact ConversationSession.fresh_step hinv.fresh a
  · rw [hturns]
    exact hloop.symm ▸ hinv.issued
  · intro fromRisingEdge hflush t ht
    rw [hturns] at ht
    have hflush' : (h.session.step false a).flush = some ⟨fromRisingEdge, .gateOpen⟩ := hflush
    have hopen : ¬ h.session.loop.TurnOpen h.session.sessionId t.2 := by
      rcases hsettled fromRisingEdge hflush' with hbefore | hall
      · exact fun hturn ↦ hinv.settled fromRisingEdge hbefore t ht (.inr hturn)
      · exact hall t ht
    rintro (⟨_, _, hstarted⟩ | hturn)
    · cases hflush.symm.trans hstarted
    · have hturn' : (h.session.step false a).loop.TurnOpen
          (h.session.step false a).sessionId t.2 := hturn
      rw [hloop, hids] at hturn'
      exact hopen hturn'

theorem turnInvariant_loop (hinv : TurnInvariant h) (b : LoopAction) :
    TurnInvariant (h.step false (.loop b)) := by
  have hturns := TurnHistory.turns_step (h := h) (a := .loop b) (by simp)
  refine ⟨ConversationSession.fresh_step hinv.fresh _, ?_, ?_⟩
  · rw [hturns]
    exact turnsIssued_step hinv.issued b
  · intro fromRisingEdge hflush t ht
    rw [hturns] at ht
    have hopen := hinv.settled fromRisingEdge hflush t ht
    rintro (⟨_, _, hstarted⟩ | hturn)
    · cases hflush.symm.trans hstarted
    · refine not_turnOpen_step hinv.issued b (List.mem_map_of_mem ht) ?_ hturn
      exact fun hturn ↦ hopen (.inr hturn)

theorem turnInvariant_startTurn (hinv : TurnInvariant h) :
    TurnInvariant (h.step false .startTurn) := by
  refine ⟨ConversationSession.fresh_step hinv.fresh _, ?_, ?_⟩
  · rcases hflush : h.session.flush with _ | ⟨_, _ | ⟨clientMsgId, _⟩ | _ | _⟩ <;>
      simp only [TurnHistory.step, TurnHistory.startedBy, hflush, ConversationSession.step,
        ConversationSession.startTurn, List.append_nil]
    case some.sending =>
      refine ⟨hinv.issued.backend, hinv.issued.shape, ?_, ?_⟩
      · intro turnGen hgen
        rw [List.map_append, List.mem_append] at hgen
        rcases hgen with hgen | hgen
        · exact (hinv.issued.bounded turnGen hgen).trans (Nat.le_succ _)
        · rw [List.mem_singleton.mp hgen]
          exact le_rfl
      · intro env henv turnGen hevent
        obtain ⟨hle, hnot⟩ := hinv.issued.others env henv turnGen hevent
        refine ⟨hle.trans (Nat.le_succ _), ?_⟩
        rw [List.map_append, List.mem_append]
        rintro (hgen | hgen)
        · exact hnot hgen
        · rw [List.mem_singleton.mp hgen] at hle
          exact Nat.not_succ_le_self _ hle
    all_goals exact hinv.issued
  · intro fromRisingEdge hflush t ht
    have hafter : h.session.startTurn.flush = some ⟨fromRisingEdge, .gateOpen⟩ := hflush
    rcases h.session.startTurn_cases with ⟨_, _, _, -, heq⟩ | heq
    · rw [heq] at hafter
      cases hafter
    · rw [heq] at hafter
      have hnone : TurnHistory.startedBy h.session .startTurn = [] := by
        simp only [TurnHistory.startedBy, hafter]
      have hturn : t ∈ h.turns := by
        rw [TurnHistory.step, hnone, List.append_nil] at ht
        exact ht
      have hsame : (h.step false .startTurn).session = h.session := heq
      rw [hsame]
      exact hinv.settled fromRisingEdge hafter t hturn

theorem turnInvariant_dispatchReturns (hinv : TurnInvariant h) (isOk : Bool) :
    TurnInvariant (h.step false (.dispatchReturns isOk)) := by
  have hturns := TurnHistory.turns_step (h := h) (a := .dispatchReturns isOk) (by simp)
  rcases h.session.dispatchReturns_cases isOk with
    ⟨_, _, turnGen, -, heq⟩ | ⟨_, _, _, -, heq⟩ | heq
  · have hstep : (h.step false (.dispatchReturns isOk)).session = _ := heq
    refine ⟨ConversationSession.fresh_step hinv.fresh _, ?_, ?_⟩
    · rw [hturns, hstep]
      refine ⟨hinv.issued.backend, ?_, hinv.issued.bounded, hinv.issued.others⟩
      intro env henv started hevent
      simp only [List.mem_append, List.mem_singleton] at henv
      rcases henv with (henv | rfl) | henv
      · exact hinv.issued.shape env (List.mem_append_left _ henv) started hevent
      · cases hevent
        rfl
      · exact hinv.issued.shape env (List.mem_append_right _ henv) started hevent
    · intro fromRisingEdge hflush
      rw [hstep] at hflush
      cases hflush
  · apply turnInvariant_of_loop hinv (by simp)
    · rw [ConversationSession.step, heq]
    · intro fromRisingEdge hflush
      rw [ConversationSession.step, heq] at hflush
      cases hflush
  · apply turnInvariant_of_loop hinv (by simp)
    · rw [ConversationSession.step, heq]
    · intro fromRisingEdge hflush
      rw [ConversationSession.step, heq] at hflush
      exact .inl hflush

/-- A gate that is read as open when each `TurnStarted` is folded finds each turn settled. -/
theorem turnInvariant_acquire (hinv : TurnInvariant h) (fromRisingEdge : Bool)
    (hguard : GateCurrent h (.acquire fromRisingEdge)) :
    TurnInvariant (h.step false (.acquire fromRisingEdge)) := by
  rcases h.session.acquire_cases fromRisingEdge with
    ⟨hfree, -, hopen, heq⟩ | ⟨-, -, -, heq⟩ | heq
  · apply turnInvariant_of_loop hinv (by simp)
    · rw [ConversationSession.step, heq]
      rfl
    · intro _ _
      right
      rintro t ht (hlowered | ⟨turn, hrunning, -⟩)
      · exact hguard fromRisingEdge rfl hfree hopen t ht hlowered
      · rw [ConversationSession.gateOpen_running hinv.fresh hrunning] at hopen
        cases hopen
  · apply turnInvariant_of_loop hinv (by simp)
    · rw [ConversationSession.step, heq]
      rfl
    · intro _ hflush
      rw [ConversationSession.step, heq] at hflush
      cases hflush
  · apply turnInvariant_of_loop hinv (by simp)
    · rw [ConversationSession.step, heq]
    · intro _ hflush
      rw [ConversationSession.step, heq] at hflush
      exact .inl hflush

theorem turnInvariant_step (hinv : TurnInvariant h) {a : SessionAction Content}
    (hguard : GateCurrent h a) : TurnInvariant (h.step false a) := by
  cases a with
  | loop b => exact turnInvariant_loop hinv b
  | startTurn => exact turnInvariant_startTurn hinv
  | dispatchReturns isOk => exact turnInvariant_dispatchReturns hinv isOk
  | acquire fromRisingEdge => exact turnInvariant_acquire hinv fromRisingEdge hguard
  | select =>
      rcases h.session.select_cases with ⟨_, _, -, -, heq⟩ | ⟨_, -, -, heq⟩ | ⟨-, heq⟩ <;>
        apply turnInvariant_of_loop hinv (by simp) <;>
          rw [ConversationSession.step, heq]
      · intro _ hflush
        cases hflush
      · rfl
      · intro _ hflush
        cases hflush
      · exact fun _ hflush ↦ .inl hflush
  | writeStatus =>
      rcases h.session.writeStatus_cases with ⟨_, _, _, -, heq⟩ | heq <;>
        apply turnInvariant_of_loop hinv (by simp) <;>
          rw [ConversationSession.step, heq]
      · rfl
      · intro _ hflush
        cases hflush
      · exact fun _ hflush ↦ .inl hflush
  | nextSnapshot =>
      rcases h.session.nextSnapshot_cases with ⟨_, -, -, -, heq⟩ | ⟨_, -, -, heq⟩ | heq <;>
        apply turnInvariant_of_loop hinv (by simp) <;>
          rw [ConversationSession.step, heq] <;>
            exact fun _ hflush ↦ .inl hflush
  | _ => exact turnInvariant_of_loop hinv (by simp) rfl fun _ hflush ↦ .inl hflush

theorem turnInvariant_new (sessionId msgIdPrefix : String) :
    TurnInvariant (.new sessionId msgIdPrefix : TurnHistory Content) where
  fresh := snapshotsFresh_new false
  issued := by constructor <;> simp [TurnHistory.new, ConversationSession.new, FoldLoop.new,
    FoldLoop.BackendEvents]
  settled := fun _ hflush ↦ by cases hflush

theorem oneTurn_of_invariant (hinv : TurnInvariant h) (a : SessionAction Content) :
    OneTurn h a := by
  rintro m rfl hselected
  rcases h.session.select_cases with ⟨fromRisingEdge, _, hflush, -, -⟩ | ⟨_, -, hnone, -⟩ |
    ⟨hnone, -⟩
  · exact hinv.settled fromRisingEdge hflush
  · cases hselected.symm.trans hnone
  · cases hselected.symm.trans hnone

end Step

def flushSteps (fromRisingEdge : Bool) : List (SessionAction String) :=
  [.acquire fromRisingEdge, .select, .startTurn, .dispatchReturns true, .writeStatus]

/-- One message is dispatched, its turn is folded, and a second message finds the gate closed. -/
def foldedFirst : List (SessionAction String) :=
  .send "first" :: flushSteps false ++
    [.loop .foldLowered, .send "second", .acquire false, .select]

def lateEdge : List (SessionAction String) :=
  .send "first" :: flushSteps false ++
    [.loop .foldLowered,
      .loop (.emitResult "s" 1 false false none "done" (.completed .endTurn)), .loop .foldEvent,
      .drainPendingOn "m-1", .send "second"] ++ flushSteps false ++
    [.send "third", .nextSnapshot, .nextSnapshot, .acquire true]

end Zaowutai.Session
