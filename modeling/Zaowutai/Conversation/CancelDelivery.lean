import Zaowutai.Conversation.TurnAttempts

/-!
# The delivery of a cancel

A cancel that was accepted takes one of two ways to its turn: the deferred
record, which the attempt consumes before it sends, or the agent, which can
only be cancelled once it has the prompt.  A record that comes after its point
of consumption, and a cancel of the agent that comes before the prompt, are
lost.
-/

namespace Zaowutai.Conversation

open Zaowutai.Lib

def AttemptPhase.waits : AttemptPhase → Bool
  | .building | .built _ => true
  | _ => false

def AttemptPhase.sentTo : AttemptPhase → Option ℕ
  | .sent agent => some agent
  | .ended sentTo => sentTo
  | _ => none

namespace TurnAttempts

variable (s : TurnAttempts)

def InPhase (turnId : String) (P : String → AttemptPhase → Prop) : Prop :=
  ∃ conversationId phase,
    s.attempts.lookup turnId = some ⟨conversationId, phase⟩ ∧ P conversationId phase

/-- The attempt has not reached the point where it consumes a deferred cancel. -/
def Waits (turnId : String) : Prop := s.InPhase turnId fun _ phase ↦ phase.waits = true

def SentTo (turnId : String) (agent : ℕ) : Prop :=
  s.InPhase turnId fun _ phase ↦ phase.sentTo = some agent

/-- The attempt has returned without sending its prompt. -/
def NeverSends (turnId : String) : Prop := s.InPhase turnId fun _ phase ↦ phase = .ended none

def Delivered : Prop :=
  ∀ turnId agent, .cancelAccepted turnId ∈ s.events → .promptSent turnId agent ∈ s.events →
    List.Sublist [.promptSent turnId agent, .agentCancelled agent] s.events

/-- A cancel is deferred while the attempt has still to consume it, and overwrites no other such
record; and the agent is cancelled when it has the prompt.  A turn that has ended without a
prompt needs neither. -/
def TakesEffect (a : AttemptAction) : Prop :=
  ∀ call ok c, a = .advance call ok → s.calls.lookup call = some c →
    (c.phase = .absent → (s.Waits c.turnId ∨ s.NeverSends c.turnId) ∧
      ∀ other, s.runtime.deferredCancels.lookup c.conversationId = some other →
        other ≠ c.turnId → ¬ s.Waits other) ∧
    ∀ agent, c.phase = .marked agent → ok = true →
      s.SentTo c.turnId agent ∨ s.NeverSends c.turnId

def Effective (turnId : String) : Prop :=
  s.InPhase turnId (fun conversationId phase ↦ phase.waits = true ∧
      s.runtime.deferredCancels.lookup conversationId = some turnId) ∨
    s.NeverSends turnId ∨
      ∃ agent, s.SentTo turnId agent ∧
        List.Sublist [.promptSent turnId agent, .agentCancelled agent] s.events

structure DeliveryInvariant : Prop where
  active : ∀ conversationId turnId,
    s.runtime.activeTurns.lookup conversationId = some turnId →
      ∃ phase, s.attempts.lookup turnId = some ⟨conversationId, phase⟩
  calls : ∀ call c, s.calls.lookup call = some c → c.phase ≠ .entered →
    ∃ phase, s.attempts.lookup c.turnId = some ⟨c.conversationId, phase⟩
  sent : ∀ turnId agent, .promptSent turnId agent ∈ s.events ↔ s.SentTo turnId agent
  effective : ∀ turnId, .cancelAccepted turnId ∈ s.events → s.Effective turnId

variable {s}

theorem InPhase.of_lookup {turnId conversationId : String} {phase : AttemptPhase}
    {P : String → AttemptPhase → Prop}
    (hlookup : s.attempts.lookup turnId = some ⟨conversationId, phase⟩)
    (h : s.InPhase turnId P) : P conversationId phase := by
  obtain ⟨_, _, hsame, hP⟩ := h
  cases hlookup.symm.trans hsame
  exact hP

theorem inPhase_iff {turnId conversationId : String} {phase : AttemptPhase}
    {P : String → AttemptPhase → Prop}
    (hlookup : s.attempts.lookup turnId = some ⟨conversationId, phase⟩) :
    s.InPhase turnId P ↔ P conversationId phase :=
  ⟨InPhase.of_lookup hlookup, fun h ↦ ⟨conversationId, phase, hlookup, h⟩⟩

theorem inPhase_congr {s' : TurnAttempts} {turnId : String} {P : String → AttemptPhase → Prop}
    (h : s'.attempts.lookup turnId = s.attempts.lookup turnId) :
    s'.InPhase turnId P ↔ s.InPhase turnId P := by
  simp only [InPhase, h]

theorem DeliveryInvariant.delivered (h : s.DeliveryInvariant) : s.Delivered := by
  intro turnId agent haccepted hsent
  obtain ⟨conversationId, phase, hlookup, hto⟩ := (h.sent turnId agent).mp hsent
  rcases h.effective turnId haccepted with hwaits | hnever | ⟨other, hother, hsublist⟩
  · have hwaiting := (hwaits.of_lookup hlookup).1
    cases phase <;> simp [AttemptPhase.waits, AttemptPhase.sentTo] at hwaiting hto
  · rw [hnever.of_lookup hlookup] at hto
    cases hto
  · rw [hother.of_lookup hlookup] at hto
    cases hto
    exact hsublist

theorem DeliveryInvariant.of_move (h : s.DeliveryInvariant) {s' : TurnAttempts}
    {turnId conversationId : String} {before after : AttemptPhase}
    (hlookup : s.attempts.lookup turnId = some ⟨conversationId, before⟩)
    (hattempts : s'.attempts = s.attempts.insert turnId ⟨conversationId, after⟩)
    (hactive : s'.runtime.activeTurns = s.runtime.activeTurns) (hcalls : s'.calls = s.calls)
    (hevents : s'.events = s.events) (hsent : after.sentTo = before.sentTo)
    (hbefore : before ≠ .ended none)
    (hdeferred : ∀ other ≠ turnId, ∀ key, s.runtime.deferredCancels.lookup key = some other →
      s'.runtime.deferredCancels.lookup key = some other)
    (hown : before.waits = true → s.runtime.deferredCancels.lookup conversationId = some turnId →
      after.waits = true ∧ s'.runtime.deferredCancels.lookup conversationId = some turnId ∨
        after = .ended none) : s'.DeliveryInvariant := by
  have hmoved : s'.attempts.lookup turnId = some ⟨conversationId, after⟩ := by
    rw [hattempts, AList.lookup_insert]
  have hother : ∀ other ≠ turnId, s'.attempts.lookup other = s.attempts.lookup other := by
    intro other hne
    rw [hattempts, AList.lookup_insert_ne hne]
  have hexists : ∀ other key, (∃ phase, s.attempts.lookup other = some ⟨key, phase⟩) →
      ∃ phase, s'.attempts.lookup other = some ⟨key, phase⟩ := by
    rintro other key ⟨phase, hphase⟩
    by_cases heq : other = turnId
    · subst heq
      cases hlookup.symm.trans hphase
      exact ⟨after, hmoved⟩
    · exact ⟨phase, (hother other heq).trans hphase⟩
  have hsentTo : ∀ other agent, s'.SentTo other agent ↔ s.SentTo other agent := by
    intro other agent
    by_cases heq : other = turnId
    · subst heq
      simp only [SentTo, inPhase_iff hmoved, inPhase_iff hlookup, hsent]
    · exact inPhase_congr (hother other heq)
  constructor
  · intro key other hkey
    rw [hactive] at hkey
    exact hexists other key (h.active key other hkey)
  · intro call c hcall hentered
    rw [hcalls] at hcall
    exact hexists _ _ (h.calls call c hcall hentered)
  · intro other agent
    rw [hevents, hsentTo]
    exact h.sent other agent
  · intro other haccepted
    rw [hevents] at haccepted
    by_cases heq : other = turnId
    · subst heq
      rcases h.effective other haccepted with hwaits | hnever | ⟨agent, hto, hsublist⟩
      · obtain ⟨hwaiting, hrecord⟩ := hwaits.of_lookup hlookup
        rcases hown hwaiting hrecord with hkept | hended
        · exact .inl ((inPhase_iff hmoved).mpr hkept)
        · exact .inr (.inl ((inPhase_iff hmoved).mpr hended))
      · exact (hbefore (hnever.of_lookup hlookup)).elim
      · right; right
        refine ⟨agent, (hsentTo other agent).mpr hto, ?_⟩
        rw [hevents]
        exact hsublist
    · rcases h.effective other haccepted with
        ⟨key, phase, hphase, hwaits, hrecord⟩ | hnever | ⟨agent, hto, hsublist⟩
      · exact .inl ⟨key, phase, (hother other heq).trans hphase, hwaits,
          hdeferred other heq key hrecord⟩
      · exact .inr (.inl ((inPhase_congr (hother other heq)).mpr hnever))
      · right; right
        refine ⟨agent, (hsentTo other agent).mpr hto, ?_⟩
        rw [hevents]
        exact hsublist

theorem deliveryInvariant_getOrBuildTask (h : s.DeliveryInvariant) (turnId : String) :
    (s.step (.getOrBuildTask turnId)).DeliveryInvariant := by
  simp only [step]
  split
  · next conversationId hlookup =>
      simp only [getOrBuildTask]
      split <;>
        exact h.of_move hlookup rfl rfl rfl rfl rfl (by simp) (fun _ _ _ ↦ id)
          fun _ hrecord ↦ .inl ⟨rfl, hrecord⟩
  · exact h

theorem deliveryInvariant_fail (h : s.DeliveryInvariant) (turnId : String) :
    (s.step (.fail turnId)).DeliveryInvariant := by
  simp only [step]
  split
  case h_4 => exact h
  all_goals
    next hlookup =>
      exact h.of_move hlookup rfl rfl rfl rfl rfl (by simp) (fun _ _ _ ↦ id) fun _ _ ↦ .inr rfl

theorem deliveryInvariant_take (h : s.DeliveryInvariant) (turnId : String) :
    (s.step (.takeDeferredCancel turnId)).DeliveryInvariant := by
  simp only [step]
  split
  · next conversationId agent hlookup =>
      rcases s.runtime.takeDeferredCancel_cases conversationId turnId with
        ⟨hrecord, heq⟩ | ⟨hnone, heq⟩ <;> rw [heq]
      · refine h.of_move hlookup rfl rfl rfl rfl rfl (by simp) ?_ fun _ _ ↦ .inr rfl
        intro other hother key hkey
        have hne : key ≠ conversationId := by
          rintro rfl
          cases hrecord.symm.trans hkey
          exact hother rfl
        exact (AList.lookup_erase_ne hne).trans hkey
      · exact h.of_move hlookup rfl rfl rfl rfl rfl (by simp) (fun _ _ _ ↦ id)
          fun _ hrecord ↦ (hnone hrecord).elim
  · exact h

theorem deliveryInvariant_settle (h : s.DeliveryInvariant) (turnId : String) :
    (s.step (.settle turnId)).DeliveryInvariant := by
  simp only [step]
  split
  · next hlookup =>
      exact h.of_move hlookup rfl rfl rfl rfl rfl (by simp) (fun _ _ _ ↦ id) fun hwaits ↦ by
        cases hwaits
  · exact h

theorem Effective.mono {turnId : String} {s' : TurnAttempts} (h : s.Effective turnId)
    (hattempts : s'.attempts = s.attempts) (hevents : List.Sublist s.events s'.events)
    (hdeferred : s.Waits turnId → ∀ key, s.runtime.deferredCancels.lookup key = some turnId →
      s'.runtime.deferredCancels.lookup key = some turnId) : s'.Effective turnId := by
  have hsame : s'.attempts.lookup turnId = s.attempts.lookup turnId := by rw [hattempts]
  rcases h with ⟨key, phase, hphase, hwaits, hrecord⟩ | hnever | ⟨agent, hto, hsublist⟩
  · exact .inl ⟨key, phase, hsame.trans hphase, hwaits,
      hdeferred ⟨key, phase, hphase, hwaits⟩ key hrecord⟩
  · exact .inr (.inl ((inPhase_congr hsame).mpr hnever))
  · exact .inr (.inr ⟨agent, (inPhase_congr hsame).mpr hto, hsublist.trans hevents⟩)

theorem DeliveryInvariant.of_attempts (h : s.DeliveryInvariant) {s' : TurnAttempts}
    (hattempts : s'.attempts = s.attempts)
    (hactive : ∀ key turnId, s'.runtime.activeTurns.lookup key = some turnId →
      s.runtime.activeTurns.lookup key = some turnId)
    (hcalls : ∀ call c, s'.calls.lookup call = some c → c.phase ≠ .entered →
      ∃ phase, s.attempts.lookup c.turnId = some ⟨c.conversationId, phase⟩)
    (hsent : ∀ turnId agent,
      .promptSent turnId agent ∈ s'.events ↔ .promptSent turnId agent ∈ s.events)
    (heffective : ∀ turnId, .cancelAccepted turnId ∈ s'.events → s'.Effective turnId) :
    s'.DeliveryInvariant where
  active := by
    rw [hattempts]
    exact fun key turnId hkey ↦ h.active key turnId (hactive key turnId hkey)
  calls := by
    rw [hattempts]
    exact hcalls
  sent := by
    intro turnId agent
    rw [hsent, h.sent]
    exact (inPhase_congr (by rw [hattempts])).symm
  effective := heffective

theorem deliveryInvariant_other (h : s.DeliveryInvariant) {a : AttemptAction}
    (ha : (∃ turnId, a = .release turnId) ∨
      (∃ call conversationId turnId, a = .enter call conversationId turnId) ∨
        (∃ conversationId, a = .register conversationId) ∨
          ∃ conversationId, a = .evict conversationId) : (s.step a).DeliveryInvariant := by
  rcases ha with ⟨turnId, rfl⟩ | ⟨call, conversationId, turnId, rfl⟩ | ⟨conversationId, rfl⟩ |
    ⟨conversationId, rfl⟩ <;> simp only [step]
  · split
    · next conversationId _ _ =>
        rcases s.runtime.release_cases conversationId turnId with ⟨-, heq⟩ | ⟨-, heq⟩ <;> rw [heq]
        · refine h.of_attempts rfl ?_ h.calls (fun _ _ ↦ Iff.rfl) ?_
          · intro key other hkey
            rw [Table.lookup_erase_eq] at hkey
            split at hkey
            · cases hkey
            · exact hkey
          · intro other haccepted
            exact (h.effective other haccepted).mono rfl (List.Sublist.refl _) fun _ _ ↦ id
        · exact h
    · exact h
  · split
    · refine h.of_attempts rfl (fun _ _ ↦ id) ?_ (fun _ _ ↦ Iff.rfl) h.effective
      intro other c hcall hentered
      rw [Table.lookup_insert_eq] at hcall
      split at hcall
      · cases hcall
        exact (hentered rfl).elim
      · exact h.calls other c hcall hentered
    · exact h
  · simp only [getOrBuildTask]
    split
    · exact h
    · exact h.of_attempts rfl (fun _ _ ↦ id) h.calls (fun _ _ ↦ Iff.rfl) h.effective
  · exact h.of_attempts rfl (fun _ _ ↦ id) h.calls (fun _ _ ↦ Iff.rfl) h.effective

theorem deliveryInvariant_tryClaimTurn (h : s.DeliveryInvariant) (conversationId turnId : String) :
    (s.step (.tryClaimTurn conversationId turnId)).DeliveryInvariant := by
  simp only [step, tryClaimTurn]
  split
  · exact h
  · next hfresh =>
      have hnone : s.attempts.lookup turnId = none := by simpa using hfresh
      have hkept : ∀ other attempt, s.attempts.lookup other = some attempt →
          (s.attempts.insert turnId ⟨conversationId, .building⟩).lookup other = some attempt := by
        intro other attempt hother
        rw [AList.lookup_insert_ne]
        · exact hother
        · rintro rfl
          cases hnone.symm.trans hother
      rcases s.runtime.tryClaimTurn_cases conversationId turnId with
        ⟨-, heq⟩ | ⟨-, _, _, heq⟩ <;> rw [heq]
      · constructor
        · intro key other hkey
          simp only [Table.lookup_insert_eq] at hkey
          split at hkey
          · next hsame =>
              cases hkey
              exact ⟨.building, by rw [hsame, AList.lookup_insert]⟩
          · obtain ⟨phase, hphase⟩ := h.active key other hkey
            exact ⟨phase, hkept other _ hphase⟩
        · intro call c hcall hentered
          obtain ⟨phase, hphase⟩ := h.calls call c hcall hentered
          exact ⟨phase, hkept _ _ hphase⟩
        · intro other agent
          rw [h.sent]
          constructor
          · rintro ⟨key, phase, hphase, hto⟩
            exact ⟨key, phase, hkept other _ hphase, hto⟩
          · rintro ⟨key, phase, hphase, hto⟩
            simp only [Table.lookup_insert_eq] at hphase
            split at hphase
            · cases hphase
              cases hto
            · exact ⟨key, phase, hphase, hto⟩
        · intro other haccepted
          rcases h.effective other haccepted with
            ⟨key, phase, hphase, hwaits⟩ | ⟨key, phase, hphase, hended⟩ |
            ⟨agent, ⟨key, phase, hphase, hto⟩, hsublist⟩
          · exact .inl ⟨key, phase, hkept other _ hphase, hwaits⟩
          · exact .inr (.inl ⟨key, phase, hkept other _ hphase, hended⟩)
          · exact .inr (.inr ⟨agent, ⟨key, phase, hkept other _ hphase, hto⟩, hsublist⟩)
      · exact h.of_attempts rfl (fun _ _ ↦ id) h.calls (fun _ _ ↦ Iff.rfl) h.effective

theorem DeliveryInvariant.not_accepted (h : s.DeliveryInvariant) {turnId conversationId : String}
    {agent : ℕ} (hlookup : s.attempts.lookup turnId = some ⟨conversationId, .subscribed agent⟩) :
    .cancelAccepted turnId ∉ s.events := by
  intro haccepted
  rcases h.effective turnId haccepted with hwaits | hnever | ⟨_, hto, -⟩
  · cases (hwaits.of_lookup hlookup).1
  · cases hnever.of_lookup hlookup
  · cases hto.of_lookup hlookup

theorem deliveryInvariant_sendMessage (h : s.DeliveryInvariant) (turnId : String) :
    (s.step (.sendMessage turnId)).DeliveryInvariant := by
  simp only [step]
  split
  · next conversationId agent hlookup =>
      have hother : ∀ other ≠ turnId, (s.attempts.insert turnId
          ⟨conversationId, .sent agent⟩).lookup other = s.attempts.lookup other :=
        fun other hne ↦ AList.lookup_insert_ne hne
      have hexists : ∀ other key, (∃ phase, s.attempts.lookup other = some ⟨key, phase⟩) →
          ∃ phase, (s.attempts.insert turnId ⟨conversationId, .sent agent⟩).lookup other =
            some ⟨key, phase⟩ := by
        rintro other key ⟨phase, hphase⟩
        by_cases heq : other = turnId
        · subst heq
          cases hlookup.symm.trans hphase
          exact ⟨.sent agent, AList.lookup_insert _⟩
        · exact ⟨phase, (hother other heq).trans hphase⟩
      constructor
      · exact fun key other hkey ↦ hexists other key (h.active key other hkey)
      · exact fun call c hcall hentered ↦ hexists _ _ (h.calls call c hcall hentered)
      · intro other recipient
        simp only [moveTo, List.mem_append, List.mem_singleton, DeliveryEvent.promptSent.injEq]
        rw [h.sent]
        by_cases heq : other = turnId
        · subst heq
          rw [SentTo, SentTo, inPhase_iff hlookup, inPhase_iff (AList.lookup_insert _)]
          simp [AttemptPhase.sentTo, eq_comm]
        · have hsame : (s.moveTo turnId conversationId (.sent agent)).SentTo other recipient ↔
              s.SentTo other recipient := inPhase_congr (hother other heq)
          simp only [heq, false_and, or_false]
          exact hsame.symm
      · intro other haccepted
        simp only [List.mem_append, List.mem_singleton, reduceCtorEq, or_false] at haccepted
        have hne : other ≠ turnId := by
          rintro rfl
          exact h.not_accepted hlookup haccepted
        rcases h.effective other haccepted with hwaits | hnever | ⟨recipient, hto, hsublist⟩
        · exact .inl ((inPhase_congr (hother other hne)).mpr hwaits)
        · exact .inr (.inl ((inPhase_congr (hother other hne)).mpr hnever))
        · exact .inr (.inr ⟨recipient, (inPhase_congr (hother other hne)).mpr hto,
            hsublist.trans (List.sublist_append_left _ _)⟩)
  · exact h

theorem DeliveryInvariant.calls_insert (h : s.DeliveryInvariant) {call : ℕ} {c c' : CancelCall}
    (hphase : ∃ phase, s.attempts.lookup c.turnId = some ⟨c.conversationId, phase⟩)
    (hturn : c'.turnId = c.turnId) (hconversation : c'.conversationId = c.conversationId)
    (other : ℕ) (d : CancelCall) (hd : (s.calls.insert call c').lookup other = some d)
    (hentered : d.phase ≠ .entered) :
    ∃ phase, s.attempts.lookup d.turnId = some ⟨d.conversationId, phase⟩ := by
  rw [Table.lookup_insert_eq] at hd
  split at hd
  · cases hd
    rw [hturn, hconversation]
    exact hphase
  · exact h.calls other d hd hentered

theorem DeliveryInvariant.calls_erase (h : s.DeliveryInvariant) {call : ℕ} (other : ℕ)
    (d : CancelCall) (hd : (s.calls.erase call).lookup other = some d)
    (hentered : d.phase ≠ .entered) :
    ∃ phase, s.attempts.lookup d.turnId = some ⟨d.conversationId, phase⟩ := by
  rw [Table.lookup_erase_eq] at hd
  split at hd
  · cases hd
  · exact h.calls other d hd hentered

theorem DeliveryInvariant.of_return (h : s.DeliveryInvariant) (call : ℕ)
    {runtime : ConversationRuntimeState} (hactive : runtime.activeTurns = s.runtime.activeTurns)
    (hdeferred : runtime.deferredCancels = s.runtime.deferredCancels) :
    { s with
      runtime := runtime
      calls := s.calls.erase call
      events := s.events ++ [] }.DeliveryInvariant := by
  rw [List.append_nil]
  refine h.of_attempts rfl ?_ h.calls_erase (fun _ _ ↦ Iff.rfl) ?_
  · rw [hactive]
    exact fun _ _ ↦ id
  · intro turnId haccepted
    refine (h.effective turnId haccepted).mono rfl (List.Sublist.refl _) ?_
    rw [hdeferred]
    exact fun _ _ ↦ id

theorem DeliveryInvariant.of_section (h : s.DeliveryInvariant) {call : ℕ} {c c' : CancelCall}
    {runtime : ConversationRuntimeState} (hactive : runtime.activeTurns = s.runtime.activeTurns)
    (hdeferred : runtime.deferredCancels = s.runtime.deferredCancels)
    (hphase : ∃ phase, s.attempts.lookup c.turnId = some ⟨c.conversationId, phase⟩)
    (hturn : c'.turnId = c.turnId) (hconversation : c'.conversationId = c.conversationId) :
    { s with runtime := runtime, calls := s.calls.insert call c' }.DeliveryInvariant := by
  refine h.of_attempts rfl ?_ (h.calls_insert hphase hturn hconversation) (fun _ _ ↦ Iff.rfl) ?_
  · rw [hactive]
    exact fun _ _ ↦ id
  · intro turnId haccepted
    refine (h.effective turnId haccepted).mono rfl (List.Sublist.refl _) ?_
    rw [hdeferred]
    exact fun _ _ ↦ id

theorem effective_deferred (h : s.DeliveryInvariant) {c : CancelCall} {s' : TurnAttempts}
    (hphase : ∃ phase, s.attempts.lookup c.turnId = some ⟨c.conversationId, phase⟩)
    (hattempts : s'.attempts = s.attempts)
    (hruntime : s'.runtime = s.runtime.deferCancel c.conversationId c.turnId)
    (hevents : s'.events = s.events ++ [.cancelAccepted c.turnId])
    (htime : s.Waits c.turnId ∨ s.NeverSends c.turnId)
    (hkept : ∀ other, s.runtime.deferredCancels.lookup c.conversationId = some other →
      other ≠ c.turnId → ¬ s.Waits other) (turnId : String)
    (haccepted : .cancelAccepted turnId ∈ s'.events) : s'.Effective turnId := by
  have hsame : ∀ other, s'.attempts.lookup other = s.attempts.lookup other := by
    intro other
    rw [hattempts]
  have hrecord : ∀ key, s'.runtime.deferredCancels.lookup key =
      if key = c.conversationId then some c.turnId
      else s.runtime.deferredCancels.lookup key := by
    intro key
    rw [hruntime]
    exact Table.lookup_insert_eq _
  by_cases heq : turnId = c.turnId
  · subst heq
    obtain ⟨phase, hlookup⟩ := hphase
    rcases htime with hwaits | hnever
    · left
      refine ⟨c.conversationId, phase, (hsame _).trans hlookup, hwaits.of_lookup hlookup, ?_⟩
      rw [hrecord, if_pos rfl]
    · exact .inr (.inl ((inPhase_congr (hsame _)).mpr hnever))
  · rw [hevents, List.mem_append, List.mem_singleton] at haccepted
    have hbefore := haccepted.resolve_right fun hthis ↦ heq (by cases hthis; rfl)
    refine (h.effective turnId hbefore).mono hattempts ?_ ?_
    · rw [hevents]
      exact List.sublist_append_left _ _
    · intro hwaits key hkey
      rw [hrecord, if_neg]
      · exact hkey
      · rintro rfl
        exact hkept turnId hkey heq hwaits

theorem effective_cancelled (h : s.DeliveryInvariant) {c : CancelCall} {agent : ℕ}
    {s' : TurnAttempts} (hattempts : s'.attempts = s.attempts) (hruntime : s'.runtime = s.runtime)
    (hevents : s'.events = s.events ++ [.agentCancelled agent, .cancelAccepted c.turnId])
    (htime : s.SentTo c.turnId agent ∨ s.NeverSends c.turnId) (turnId : String)
    (haccepted : .cancelAccepted turnId ∈ s'.events) : s'.Effective turnId := by
  have hsame : ∀ other, s'.attempts.lookup other = s.attempts.lookup other := by
    intro other
    rw [hattempts]
  by_cases heq : turnId = c.turnId
  · subst heq
    rcases htime with hto | hnever
    · right; right
      refine ⟨agent, (inPhase_congr (hsame _)).mpr hto, ?_⟩
      have hsent := List.singleton_sublist.mpr ((h.sent c.turnId agent).mpr hto)
      rw [hevents]
      exact hsent.append (List.cons_sublist_cons.mpr (List.nil_sublist _))
    · exact .inr (.inl ((inPhase_congr (hsame _)).mpr hnever))
  · have hbefore : .cancelAccepted turnId ∈ s.events := by
      rw [hevents] at haccepted
      simpa [heq] using haccepted
    refine (h.effective turnId hbefore).mono hattempts ?_ fun _ _ hkey ↦ ?_
    · rw [hevents]
      exact List.sublist_append_left _ _
    · rw [hruntime]
      exact hkey

theorem deliveryInvariant_advance (h : s.DeliveryInvariant) (call : ℕ) (ok : Bool)
    (hguard : s.TakesEffect (.advance call ok)) :
    (s.step (.advance call ok)).DeliveryInvariant := by
  simp only [step, advance]
  cases hcall : s.calls.lookup call with
  | none => exact h
  | some c =>
      obtain ⟨hdefer, hcancel⟩ := hguard call ok c rfl hcall
      have hphase := h.calls call c hcall
      obtain ⟨conversationId, turnId, phase⟩ := c
      cases phase with
      | entered =>
          cases ok with
          | false => exact h.of_return call rfl rfl
          | true =>
              simp only [CancelCall.advance, Bool.not_true, Bool.false_eq_true, if_false]
              by_cases hactive : s.runtime.activeTurnIdFor conversationId = some turnId
              · rw [if_neg (not_not.mpr hactive)]
                exact h.of_section rfl rfl (h.active conversationId turnId hactive) rfl rfl
              · rw [if_pos hactive]
                exact h.of_return call rfl rfl
      | matched =>
          simp only [CancelCall.advance]
          cases s.tasks.lookup conversationId <;>
            exact h.of_section rfl rfl (hphase (by simp)) rfl rfl
      | absent =>
          refine h.of_attempts rfl (fun _ _ ↦ id) h.calls_erase ?_ ?_
          · intro other agent
            simp [CancelCall.advance]
          · exact effective_deferred h (hphase (by simp)) rfl rfl rfl (hdefer rfl).1
              (hdefer rfl).2
      | found agent => exact h.of_section rfl rfl (hphase (by simp)) rfl rfl
      | marked agent =>
          cases ok with
          | false => exact h.of_return call rfl rfl
          | true =>
              refine h.of_attempts rfl (fun _ _ ↦ id) h.calls_erase ?_ ?_
              · intro other recipient
                simp [CancelCall.advance]
              · exact effective_cancelled h rfl rfl rfl (hcancel agent rfl rfl)

theorem deliveryInvariant_step (h : s.DeliveryInvariant) {a : AttemptAction}
    (hguard : s.TakesEffect a) : (s.step a).DeliveryInvariant := by
  cases a with
  | tryClaimTurn conversationId turnId =>
      exact deliveryInvariant_tryClaimTurn h conversationId turnId
  | getOrBuildTask turnId => exact deliveryInvariant_getOrBuildTask h turnId
  | fail turnId => exact deliveryInvariant_fail h turnId
  | takeDeferredCancel turnId => exact deliveryInvariant_take h turnId
  | sendMessage turnId => exact deliveryInvariant_sendMessage h turnId
  | settle turnId => exact deliveryInvariant_settle h turnId
  | release turnId => exact deliveryInvariant_other h (.inl ⟨turnId, rfl⟩)
  | enter call conversationId turnId =>
      exact deliveryInvariant_other h (.inr (.inl ⟨call, conversationId, turnId, rfl⟩))
  | advance call ok => exact deliveryInvariant_advance h call ok hguard
  | register conversationId =>
      exact deliveryInvariant_other h (.inr (.inr (.inl ⟨conversationId, rfl⟩)))
  | evict conversationId =>
      exact deliveryInvariant_other h (.inr (.inr (.inr ⟨conversationId, rfl⟩)))

theorem deliveryInvariant_new : new.DeliveryInvariant where
  active := fun _ _ h ↦ by cases h
  calls := fun _ _ h ↦ by cases h
  sent := by simp [new, SentTo, InPhase]
  effective := by simp [new]

end TurnAttempts

def cancelSections (call : ℕ) (conversationId turnId : String) : List AttemptAction :=
  .enter call conversationId turnId :: List.replicate 3 (.advance call true)

/-- The first turn is cancelled while its agent is built; the second one after its prompt. -/
def cancelledInTime : List AttemptAction :=
  .tryClaimTurn "c" "t1" :: cancelSections 0 "c" "t1" ++
    [.getOrBuildTask "t1", .takeDeferredCancel "t1", .release "t1", .tryClaimTurn "c" "t2",
      .getOrBuildTask "t2", .takeDeferredCancel "t2", .sendMessage "t2"] ++
    cancelSections 1 "c" "t2" ++ [.advance 1 true]

def cancelBeforePrompt : List AttemptAction :=
  [.register "c", .tryClaimTurn "c" "t1"] ++ cancelSections 0 "c" "t1" ++
    [.advance 0 true, .getOrBuildTask "t1", .takeDeferredCancel "t1", .sendMessage "t1"]

end Zaowutai.Conversation
