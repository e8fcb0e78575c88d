import Mathlib.Data.Finset.Insert
import Zaowutai.Session.Orchestrator

/-!
# Terminal subagents through the fold loop

The reducer absorbs a late non-terminal update only while the terminal entry
is still in the roster, and the orchestrator prunes that entry in the same
fold.  The history of a session records the refs that were ended in the
current turn; a revival is an ended ref that is active again.
-/

namespace Zaowutai.Session

open Zaowutai.Lib

def SubagentStatus.isEnded : SubagentStatus → Bool
  | .completed | .errored | .shutdown => true
  | _ => false

theorem pruneTerminalSubagents_running (turn : RunningTurn) :
    pruneTerminalSubagents (.running turn) =
      .running { turn with subagents := turn.subagents.filter fun s ↦ !s.status.isEnded } := by
  simp only [pruneTerminalSubagents]
  congr 2
  apply List.filter_congr
  intro s _
  cases s.status <;> rfl

/-- The fold loop together with the refs ended in the current turn of one session. -/
structure SessionHistory where
  orchestrator : Orchestrator
  ended : Finset String

def SessionHistory.new : SessionHistory := ⟨.new, ∅⟩

def endedAfter (state : SessionState) (event : SessionEvent) (ended : Finset String) :
    Finset String :=
  match state, event with
  | .running turn, .turnStarted epoch => if epoch ≤ turn.sinceEpoch then ended else ∅
  | _, .turnStarted _ => ∅
  | .running _, .subagentUpdate ref _ status _ =>
      if status.isEnded then insert ref ended else ended
  | _, _ => ended

/-- Fold one envelope of any session; the history follows the session `sessionId`. -/
def historyStep (acceptsProactiveInput : Bool) (sessionId : String) (h : SessionHistory)
    (env : SessionEnvelope) : SessionHistory where
  orchestrator := h.orchestrator.fold acceptsProactiveInput env
  ended :=
    if env.sessionId = sessionId then
      endedAfter (h.orchestrator.stateOf sessionId) env.event h.ended
    else h.ended

def RefActive (subagents : List SubagentState) (ref : String) : Prop :=
  ∃ s ∈ subagents, s.ref = ref ∧ s.status.isActive = true

def NotRevived (state : SessionState) (ended : Finset String) : Prop :=
  ∀ turn, state = .running turn → ∀ ref ∈ ended, ¬ RefActive turn.subagents ref

def EndedStayEnded (sessionId : String) (h : SessionHistory) : Prop :=
  NotRevived (h.orchestrator.stateOf sessionId) h.ended

/-- An active update of an ended ref arrives only while the roster holds an entry of that
ref: an `Interrupted` one, since the others are pruned. -/
def LateUpdateAbsorbed (state : SessionState) (ended : Finset String) (event : SessionEvent) :
    Prop :=
  ∀ turn ref label status parentRef, state = .running turn →
    event = .subagentUpdate ref label status parentRef → status.isActive = true →
      ref ∈ ended → ∃ s ∈ turn.subagents, s.ref = ref

def LateUpdatesAbsorbed (sessionId : String) (h : SessionHistory) (env : SessionEnvelope) :
    Prop :=
  env.sessionId = sessionId →
    LateUpdateAbsorbed (h.orchestrator.stateOf sessionId) h.ended env.event

def RosterPruned (state : SessionState) : Prop :=
  ∀ turn, state = .running turn →
    (turn.subagents.map SubagentState.ref).Nodup ∧ ∀ s ∈ turn.subagents, s.status.isEnded = false

section Upsert

variable {next : SubagentState} {subagents : List SubagentState}

theorem ref_mem_upsert {ref : String} :
    ref ∈ (upsertSubagent next subagents).map SubagentState.ref ↔
      ref = next.ref ∨ ref ∈ subagents.map SubagentState.ref := by
  induction subagents with
  | nil => simp [upsertSubagent]
  | cons slot rest ih =>
      simp only [upsertSubagent]
      split
      · next heq =>
          split
          · simp [heq]
          · simp [heq]
      · simp only [List.map_cons, List.mem_cons, ih]
        tauto

theorem nodup_upsert (h : (subagents.map SubagentState.ref).Nodup) :
    ((upsertSubagent next subagents).map SubagentState.ref).Nodup := by
  induction subagents with
  | nil => simp [upsertSubagent]
  | cons slot rest ih =>
      simp only [List.map_cons, List.nodup_cons] at h
      simp only [upsertSubagent]
      split
      · next heq =>
          split
          · simpa using h
          · simpa [← heq] using h
      · next hne =>
          simp only [List.map_cons, List.nodup_cons, ref_mem_upsert]
          exact ⟨fun hmem ↦ hmem.elim (fun he ↦ hne he) h.1, ih h.2⟩

theorem mem_upsert_cases {s : SubagentState} (hmem : s ∈ upsertSubagent next subagents) :
    s = next ∨ s ∈ subagents := by
  induction subagents with
  | nil =>
      left
      simpa [upsertSubagent] using hmem
  | cons slot rest ih =>
      simp only [upsertSubagent] at hmem
      split at hmem
      · split at hmem
        · exact Or.inr hmem
        · rcases List.mem_cons.mp hmem with rfl | hs
          · exact Or.inl rfl
          · exact Or.inr (List.mem_cons_of_mem _ hs)
      · rcases List.mem_cons.mp hmem with rfl | hs
        · exact Or.inr List.mem_cons_self
        · exact (ih hs).imp_right (List.mem_cons_of_mem _)

theorem upsert_absorbed {t : SubagentState} (hnodup : (subagents.map SubagentState.ref).Nodup)
    (ht : t ∈ subagents) (href : t.ref = next.ref) (hterm : t.status.isTerminal = true)
    (hnext : next.status.isTerminal = false) : upsertSubagent next subagents = subagents := by
  induction subagents with
  | nil => simp at ht
  | cons slot rest ih =>
      simp only [List.map_cons, List.nodup_cons] at hnodup
      simp only [upsertSubagent]
      split
      · next heq =>
          have hslot : t = slot := by
            rcases List.mem_cons.mp ht with h | h
            · exact h
            · exact (hnodup.1 (List.mem_map.mpr ⟨t, h, href.trans heq.symm⟩)).elim
          rw [← hslot, hterm, hnext]
          rfl
      · next hne =>
          rcases List.mem_cons.mp ht with rfl | h
          · exact (hne href).elim
          · rw [ih hnodup.2 h]

theorem mem_upsert_new (hnew : ∀ s ∈ subagents, s.ref ≠ next.ref) :
    next ∈ upsertSubagent next subagents := by
  induction subagents with
  | nil => simp [upsertSubagent]
  | cons slot rest ih =>
      have hne : slot.ref ≠ next.ref := hnew slot List.mem_cons_self
      simp only [upsertSubagent, if_neg hne, List.mem_cons]
      exact Or.inr (ih fun s hs ↦ hnew s (List.mem_cons_of_mem _ hs))

theorem mem_upsert_terminal (hterm : next.status.isTerminal = true) :
    next ∈ upsertSubagent next subagents := by
  induction subagents with
  | nil => simp [upsertSubagent]
  | cons slot rest ih =>
      simp only [upsertSubagent, hterm, Bool.not_true, Bool.and_false]
      split
      · exact List.mem_cons_self
      · exact List.mem_cons_of_mem _ ih

theorem not_refActive_upsert {ref : String} (hnodup : (subagents.map SubagentState.ref).Nodup)
    (hold : ¬ RefActive subagents ref)
    (hlate : ref = next.ref → next.status.isActive = true → ∃ s ∈ subagents, s.ref = ref) :
    ¬ RefActive (upsertSubagent next subagents) ref := by
  rintro ⟨s, hs, href, hact⟩
  rcases mem_upsert_cases hs with rfl | hs'
  · obtain ⟨t, ht, htref⟩ := hlate href.symm hact
    have hterm : t.status.isTerminal = true := by
      rw [SubagentStatus.isTerminal_eq_not_isActive, Bool.not_eq_true']
      by_contra hta
      exact hold ⟨t, ht, htref, by simpa using hta⟩
    have hsame : upsertSubagent s subagents = subagents :=
      upsert_absorbed hnodup ht (htref.trans href.symm) hterm
        (by simp [SubagentStatus.isTerminal_eq_not_isActive, hact])
    rw [hsame] at hs
    exact hold ⟨s, hs, href, hact⟩
  · exact hold ⟨s, hs', href, hact⟩

end Upsert

theorem subagents_stepRunning {turn turn' : RunningTurn} {event : SessionEvent}
    (hupd : ∀ ref label status parentRef, event ≠ .subagentUpdate ref label status parentRef)
    (h : (stepRunning turn event).1 = .running turn') : turn'.subagents = turn.subagents := by
  rw [eq_turnAfter h]
  cases event with
  | subagentUpdate ref label status parentRef => exact (hupd _ _ _ _ rfl).elim
  | messageDelta text =>
      simp only [turnAfter]
      split <;> rfl
  | _ => rfl

theorem foldState_running {state : SessionState} {env : SessionEnvelope} {turn' : RunningTurn}
    (hstart : ∀ epoch, env.event ≠ .turnStarted epoch)
    (hupd : ∀ ref label status parentRef, env.event ≠ .subagentUpdate ref label status parentRef)
    (h : foldState state env = .running turn') :
    ∃ turn, state = .running turn ∧
      turn'.subagents = turn.subagents.filter fun s ↦ !s.status.isEnded := by
  have hstart' : ∀ epoch, (restampEpoch env).event ≠ .turnStarted epoch := by
    intro epoch
    unfold restampEpoch
    split
    · split <;> simp_all
    · exact hstart epoch
  have hupd' : ∀ ref label status parentRef,
      (restampEpoch env).event ≠ .subagentUpdate ref label status parentRef := by
    intro ref label status parentRef
    unfold restampEpoch
    split
    · split <;> simp_all
    · exact hupd ref label status parentRef
  unfold foldState at h
  cases state with
  | idle =>
      rw [step_idle hstart'] at h
      simp [pruneTerminalSubagents] at h
  | error reason =>
      rw [step_error reason hstart'] at h
      simp [pruneTerminalSubagents] at h
  | starting =>
      rw [step_starting hstart'] at h
      rcases stepStarting_cases (restampEpoch env).event with he | he | ⟨reason, he⟩ <;>
        simp [he, pruneTerminalSubagents] at h
  | running turn =>
      rw [step_running turn hstart'] at h
      refine ⟨turn, rfl, ?_⟩
      cases hstep : (stepRunning turn (restampEpoch env).event).1 with
      | running stepped =>
          rw [hstep, pruneTerminalSubagents_running, SessionState.running.injEq] at h
          rw [← h, ← subagents_stepRunning hupd' hstep]
      | _ => simp [hstep, pruneTerminalSubagents] at h

theorem foldState_subagentUpdate {env : SessionEnvelope} {turn : RunningTurn} {ref : String}
    {label parentRef : Option String} {status : SubagentStatus}
    (hev : env.event = .subagentUpdate ref label status parentRef) :
    foldState (.running turn) env =
      .running { turn with
        subagents := (upsertSubagent ⟨ref, label, status, parentRef⟩ turn.subagents).filter
          fun s ↦ !s.status.isEnded } := by
  have hsame : (restampEpoch env).event = env.event := by
    apply restampEpoch_event_of_ne
    simp [hev]
  simp only [foldState, hsame, hev, step, stepRunning, pruneTerminalSubagents_running]

theorem refActive_filter {subagents : List SubagentState} {ref : String} :
    RefActive (subagents.filter fun s ↦ !s.status.isEnded) ref ↔ RefActive subagents ref := by
  constructor
  · rintro ⟨s, hs, href, hact⟩
    exact ⟨s, (List.mem_filter.mp hs).1, href, hact⟩
  · rintro ⟨s, hs, href, hact⟩
    refine ⟨s, List.mem_filter.mpr ⟨hs, ?_⟩, href, hact⟩
    cases hst : s.status <;> simp_all [SubagentStatus.isActive, SubagentStatus.isEnded]

theorem rosterPruned_filter {turn : RunningTurn} {subagents : List SubagentState}
    (hnodup : (subagents.map SubagentState.ref).Nodup) :
    RosterPruned (.running { turn with
      subagents := subagents.filter fun s ↦ !s.status.isEnded }) := by
  intro turn' h
  rw [SessionState.running.injEq] at h
  subst h
  refine ⟨hnodup.sublist (List.filter_sublist.map _), ?_⟩
  intro s hs
  simpa using (List.mem_filter.mp hs).2

theorem foldState_turnStarted {env : SessionEnvelope} {epoch : ℕ} (state : SessionState)
    (hev : env.event = .turnStarted epoch) :
    foldState state env = .running (.fresh epoch) ∧
        (∀ ended, endedAfter state env.event ended = ∅) ∨
      foldState state env = pruneTerminalSubagents state ∧
        ∀ ended, endedAfter state env.event ended = ended := by
  have hsame : (restampEpoch env).event = env.event := by
    apply restampEpoch_event_of_ne
    simp [hev]
  simp only [foldState, hsame, hev, step]
  cases state with
  | running turn =>
      simp only [stepTurnStarted]
      by_cases hle : epoch ≤ turn.sinceEpoch
      · right
        simp [hle, endedAfter]
      · left
        simp [hle, endedAfter, settle, pruneTerminalSubagents, RunningTurn.fresh]
  | _ =>
      left
      simp [stepTurnStarted, endedAfter, settle, pruneTerminalSubagents, RunningTurn.fresh]

theorem rosterPruned_foldState {state : SessionState} (h : RosterPruned state)
    (env : SessionEnvelope) : RosterPruned (foldState state env) := by
  by_cases hstart : ∃ epoch, env.event = .turnStarted epoch
  · obtain ⟨epoch, hev⟩ := hstart
    rcases foldState_turnStarted state hev with ⟨hfold, -⟩ | ⟨hfold, -⟩
    · rw [hfold]
      intro turn hturn
      rw [SessionState.running.injEq] at hturn
      subst hturn
      simp [RunningTurn.fresh]
    · rw [hfold]
      cases state with
      | running turn =>
          rw [pruneTerminalSubagents_running]
          exact rosterPruned_filter (h turn rfl).1
      | _ => simp [RosterPruned, pruneTerminalSubagents]
  by_cases hupd : ∃ ref label status parentRef,
      env.event = .subagentUpdate ref label status parentRef ∧ ∃ turn, state = .running turn
  · obtain ⟨ref, label, status, parentRef, hev, turn, rfl⟩ := hupd
    rw [foldState_subagentUpdate hev]
    exact rosterPruned_filter (nodup_upsert (h turn rfl).1)
  intro turn' hturn'
  by_cases hev : ∃ ref label status parentRef,
      env.event = .subagentUpdate ref label status parentRef
  · -- outside a turn a roster update is dropped
    obtain ⟨ref, label, status, parentRef, hev⟩ := hev
    have hsame : (restampEpoch env).event = env.event := by
      apply restampEpoch_event_of_ne
      simp [hev]
    cases state with
    | running turn => exact (hupd ⟨ref, label, status, parentRef, hev, turn, rfl⟩).elim
    | _ =>
        simp [foldState, hsame, hev, step, stepStarting, pruneTerminalSubagents] at hturn'
  · obtain ⟨turn, rfl, hsub⟩ := foldState_running (fun epoch he ↦ hstart ⟨epoch, he⟩)
      (fun ref label status parentRef he ↦ hev ⟨ref, label, status, parentRef, he⟩) hturn'
    have hturn := h turn rfl
    rw [hsub]
    refine ⟨hturn.1.sublist (List.filter_sublist.map _), ?_⟩
    intro s hs
    simpa using (List.mem_filter.mp hs).2

theorem notRevived_foldState_iff {state : SessionState} {ended : Finset String}
    (hpruned : RosterPruned state) (hold : NotRevived state ended) (env : SessionEnvelope) :
    NotRevived (foldState state env) (endedAfter state env.event ended) ↔
      LateUpdateAbsorbed state ended env.event := by
  by_cases hstart : ∃ epoch, env.event = .turnStarted epoch
  · obtain ⟨epoch, hev⟩ := hstart
    have hguard : LateUpdateAbsorbed state ended env.event := by
      intro turn ref label status parentRef _ he
      simp [hev] at he
    refine iff_of_true ?_ hguard
    rcases foldState_turnStarted state hev with ⟨-, hended⟩ | ⟨hfold, hended⟩
    · rw [hended ended]
      intro turn _ ref href
      simp at href
    · rw [hfold, hended ended]
      cases state with
      | running turn =>
          rw [pruneTerminalSubagents_running]
          intro turn' hturn' ref href
          rw [SessionState.running.injEq] at hturn'
          subst hturn'
          rw [refActive_filter]
          exact hold turn rfl ref href
      | _ => simp [NotRevived, pruneTerminalSubagents]
  by_cases hev : ∃ ref label status parentRef,
      env.event = .subagentUpdate ref label status parentRef
  · obtain ⟨ref, label, status, parentRef, hev⟩ := hev
    cases state with
    | running turn =>
        rw [foldState_subagentUpdate hev, hev]
        simp only [endedAfter]
        constructor
        · rintro hnew turn₀ ref₀ label₀ status₀ parentRef₀ hturn he hact href
          rw [SessionState.running.injEq] at hturn
          subst hturn
          cases he
          by_contra hnone
          push Not at hnone
          have hended : status.isEnded = false := by
            cases hst : status <;> simp_all [SubagentStatus.isActive, SubagentStatus.isEnded]
          apply hnew _ rfl ref (by simpa [hended] using href)
          rw [refActive_filter]
          exact ⟨_, mem_upsert_new hnone, rfl, hact⟩
        · intro hguard turn' hturn' ref' href'
          rw [SessionState.running.injEq] at hturn'
          subst hturn'
          rw [refActive_filter]
          have hnodup := (hpruned turn rfl).1
          by_cases hmem : ref' ∈ ended
          · apply not_refActive_upsert hnodup (hold turn rfl ref' hmem)
            rintro rfl hact
            exact hguard turn _ label status parentRef rfl rfl hact hmem
          · -- the ref was ended by this very update, which replaced its entry
            have hterm : ref' = ref ∧ status.isEnded = true := by
              by_cases hst : status.isEnded = true
              · simpa [hst, hmem] using href'
              · simp [hst, hmem] at href'
            obtain ⟨rfl, hst⟩ := hterm
            rintro ⟨s, hs, href, hact⟩
            have hnext : (⟨ref', label, status, parentRef⟩ : SubagentState) ∈
                upsertSubagent ⟨ref', label, status, parentRef⟩ turn.subagents :=
              mem_upsert_terminal
                (by cases status <;> simp_all [SubagentStatus.isEnded, SubagentStatus.isActive])
            have hsame := List.inj_on_of_nodup_map (nodup_upsert hnodup) hs hnext href
            rw [hsame] at hact
            cases status <;> simp_all [SubagentStatus.isActive, SubagentStatus.isEnded]
    | _ =>
        refine iff_of_true ?_ (by simp [LateUpdateAbsorbed])
        intro turn' hturn'
        have hsame : (restampEpoch env).event = env.event := by
          apply restampEpoch_event_of_ne
          simp [hev]
        simp [foldState, hsame, hev, step, stepStarting, pruneTerminalSubagents] at hturn'
  · have hguard : LateUpdateAbsorbed state ended env.event := by
      intro turn ref label status parentRef _ he
      exact (hev ⟨ref, label, status, parentRef, he⟩).elim
    refine iff_of_true ?_ hguard
    intro turn' hturn' ref href
    obtain ⟨turn, rfl, hsub⟩ := foldState_running (fun epoch he ↦ hstart ⟨epoch, he⟩)
      (fun ref label status parentRef he ↦ hev ⟨ref, label, status, parentRef, he⟩) hturn'
    rw [hsub, refActive_filter]
    have hended : endedAfter (.running turn) env.event ended = ended := by
      cases he : env.event <;> simp_all [endedAfter]
    rw [hended] at href
    exact hold turn rfl ref href

def QuietWhileWaiting (sessionId : String) (h : SessionHistory) (env : SessionEnvelope) : Prop :=
  env.sessionId = sessionId → ∀ ref label status parentRef,
    env.event = .subagentUpdate ref label status parentRef → status.isTerminal = false →
      ref ∈ h.ended → isRequiresAction (h.orchestrator.stateOf sessionId) = true →
        hasForegroundActivity (h.orchestrator.stateOf sessionId) = false →
          hasForegroundActivity (foldState (h.orchestrator.stateOf sessionId) env) = false

/-- In every state of the session no ended ref is active, and no late update of one makes the
waiting turn look busy. -/
def TerminalSubagentsStayTerminal (acceptsProactiveInput : Bool) (sessionId : String)
    (envs : List SessionEnvelope) : Prop :=
  Throughout (historyStep acceptsProactiveInput sessionId) (EndedStayEnded sessionId) .new envs ∧
    Meets (historyStep acceptsProactiveInput sessionId) (QuietWhileWaiting sessionId) .new envs

section Runs

variable {acceptsProactiveInput : Bool} {sessionId : String}

variable (acceptsProactiveInput) in
theorem stateOf_historyStep (h : SessionHistory) (env : SessionEnvelope)
    (heq : env.sessionId = sessionId) :
    (historyStep acceptsProactiveInput sessionId h env).orchestrator.stateOf sessionId =
      foldState (h.orchestrator.stateOf sessionId) env := by
  simp [historyStep, Orchestrator.stateOf_fold, heq]

variable (acceptsProactiveInput) in
theorem historyStep_of_ne (h : SessionHistory) (env : SessionEnvelope)
    (hne : env.sessionId ≠ sessionId) :
    (historyStep acceptsProactiveInput sessionId h env).orchestrator.stateOf sessionId =
        h.orchestrator.stateOf sessionId ∧
      (historyStep acceptsProactiveInput sessionId h env).ended = h.ended := by
  simp [historyStep, Orchestrator.stateOf_fold, hne, Ne.symm hne]

theorem rosterPruned_historyStep (h : SessionHistory) (env : SessionEnvelope)
    (hpruned : RosterPruned (h.orchestrator.stateOf sessionId)) :
    RosterPruned
      ((historyStep acceptsProactiveInput sessionId h env).orchestrator.stateOf sessionId) := by
  by_cases heq : env.sessionId = sessionId
  · rw [stateOf_historyStep acceptsProactiveInput h env heq]
    exact rosterPruned_foldState hpruned env
  · rw [(historyStep_of_ne acceptsProactiveInput h env heq).1]
    exact hpruned

theorem endedStayEnded_step_iff (h : SessionHistory) (env : SessionEnvelope)
    (hpruned : RosterPruned (h.orchestrator.stateOf sessionId))
    (hold : EndedStayEnded sessionId h) :
    EndedStayEnded sessionId (historyStep acceptsProactiveInput sessionId h env) ↔
      LateUpdatesAbsorbed sessionId h env := by
  by_cases heq : env.sessionId = sessionId
  · have hended : (historyStep acceptsProactiveInput sessionId h env).ended =
        endedAfter (h.orchestrator.stateOf sessionId) env.event h.ended := by
      simp [historyStep, heq]
    rw [EndedStayEnded, stateOf_historyStep acceptsProactiveInput h env heq, hended,
      notRevived_foldState_iff hpruned hold]
    exact ⟨fun hg _ ↦ hg, fun hg ↦ hg heq⟩
  · obtain ⟨hstate, hended⟩ :=
      historyStep_of_ne acceptsProactiveInput h env heq
    rw [EndedStayEnded, hstate, hended]
    exact iff_of_true hold fun he ↦ (heq he).elim

theorem quietWhileWaiting_of_endedStayEnded (h : SessionHistory) (env : SessionEnvelope)
    (hafter : EndedStayEnded sessionId (historyStep acceptsProactiveInput sessionId h env)) :
    QuietWhileWaiting sessionId h env := by
  intro heq ref label status parentRef hev hnonterm href hra hquiet
  have hstate := stateOf_historyStep acceptsProactiveInput h env heq
  cases hs : h.orchestrator.stateOf sessionId with
  | running turn =>
      rw [hs] at hra hquiet hstate
      rw [foldState_subagentUpdate hev] at hstate ⊢
      have hended : status.isEnded = false := by
        cases hst : status <;>
          simp_all [SubagentStatus.isActive, SubagentStatus.isEnded]
      have href' : ref ∈ (historyStep acceptsProactiveInput sessionId h env).ended := by
        simpa [historyStep, heq, hs, hev, endedAfter, hended] using href
      have hnotref := hafter _ hstate ref href'
      simp only [hasForegroundActivity, hra, Bool.not_true, Bool.false_or] at hquiet
      have hra' : ∀ subs, isRequiresAction (.running { turn with subagents := subs }) = true :=
        fun _ ↦ hra
      simp only [hasForegroundActivity, hra', Bool.not_true, Bool.false_or]
      simp only [anySubagentActive, List.any_eq_false] at hquiet ⊢
      intro s hmem hact
      rw [refActive_filter] at hnotref
      rcases mem_upsert_cases (List.mem_filter.mp hmem).1 with rfl | hold
      · exact hnotref ⟨_, (List.mem_filter.mp hmem).1, rfl, hact⟩
      · exact hquiet s hold hact
  | _ => simp [hs, isRequiresAction] at hra

/-- The composition of reducer and pruning keeps terminal subagents terminal exactly in the
runs where every late active update meets an entry of its ref. -/
theorem terminalSubagents_stay_terminal_iff (acceptsProactiveInput : Bool) (sessionId : String)
    (envs : List SessionEnvelope) :
    TerminalSubagentsStayTerminal acceptsProactiveInput sessionId envs ↔
      Meets (historyStep acceptsProactiveInput sessionId) (LateUpdatesAbsorbed sessionId)
        .new envs := by
  have hpruned : RosterPruned (SessionHistory.new.orchestrator.stateOf sessionId) := by
    intro turn hturn
    simp [SessionHistory.new, Orchestrator.new, Orchestrator.stateOf] at hturn
  have hinit : EndedStayEnded sessionId .new := by
    intro turn _ ref href
    simp [SessionHistory.new] at href
  have hiff : Throughout (historyStep acceptsProactiveInput sessionId) (EndedStayEnded sessionId)
        .new envs ↔
      Meets (historyStep acceptsProactiveInput sessionId) (LateUpdatesAbsorbed sessionId)
        .new envs :=
    throughout_iff_meets
      (Q := fun h ↦ RosterPruned (h.orchestrator.stateOf sessionId))
      rosterPruned_historyStep endedStayEnded_step_iff hpruned hinit
  constructor
  · exact fun h ↦ hiff.mp h.1
  · intro h
    have hthroughout := hiff.mpr h
    refine ⟨hthroughout, ?_⟩
    exact meets_of_throughout rosterPruned_historyStep
      (fun h env _ _ hafter ↦ quietWhileWaiting_of_endedStayEnded h env hafter)
      hpruned hthroughout

end Runs

def laggedProgress : List SessionEnvelope :=
  [⟨"s", 1, .turnStarted 1⟩, ⟨"s", 1, .permission "r1" .tool⟩,
    ⟨"s", 1, .subagentUpdate "x" none .completed none⟩,
    ⟨"s", 1, .subagentUpdate "x" none .running none⟩]

/-- The completed entry is pruned before the progress update, which makes the ref active. -/
theorem laggedProgress_revives : ¬ TerminalSubagentsStayTerminal true "s" laggedProgress := by
  intro h
  have hlast := h.1.last
  exact hlast _ rfl "x" (by decide) ⟨⟨"x", none, .running, none⟩, by decide, rfl, rfl⟩

end Zaowutai.Session
