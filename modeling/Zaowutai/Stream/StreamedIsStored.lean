import Zaowutai.Stream.StoredText

/-!
# What was streamed is what is stored

A relay that receives every event of an active conversation, and whose writes
succeed, leaves one text row for each run of text, under the id that the run
was streamed under.  The rows hold the runs, unless the middleware changes the
text or nothing of it can be seen.
-/

namespace Zaowutai.Stream

open Zaowutai.Conversation

structure StoredAsStreamed (r : StreamRelay) (full : String) (status : MessageStatus)
    (runs : List String) (rows : List MessageRow) (frames : List (String × String)) : Prop where
  distinct : (rows.map (·.id)).Nodup
  streamed : rows.map (fun row ↦ textUnder row.id frames) = runs
  complete : String.join runs = full
  unchanged : (r.process full).message = full → trim full ≠ "" →
    rows.map (fun row ↦ (row.content.text, row.status, row.hidden)) =
      runs.map fun run ↦ (some run, some status, false)
  rewritten : (r.process full).message ≠ full ∨ trim full = "" →
    ∀ first others, rows = first :: others →
      first.content.text = some (trim (r.process full).message) ∧
        (first.hidden = true ↔ trim (r.process full).message = "") ∧
          ∀ row ∈ others, row.hidden = true

def nonemptyTexts (segments : List (String × String)) : List String :=
  (segments.filter fun text ↦ text.2 ≠ "").map Prod.snd

section Texts

variable {segments : List (String × String)} {rows : List MessageRow}

theorem nonemptyTexts_append (segments segments' : List (String × String)) :
    nonemptyTexts (segments ++ segments') = nonemptyTexts segments ++ nonemptyTexts segments' := by
  rw [nonemptyTexts, List.filter_append, List.map_append, nonemptyTexts, nonemptyTexts]

theorem join_nonemptyTexts (segments : List (String × String)) :
    String.join (nonemptyTexts segments) = String.join (segments.map Prod.snd) := by
  induction segments with
  | nil => rfl
  | cons entry segments ih =>
      rw [nonemptyTexts] at ih ⊢
      by_cases hempty : entry.2 = ""
      · rw [List.filter_cons_of_neg (by simp [hempty]), ih, List.map_cons, String.join_cons, hempty,
          String.empty_append]
      · rw [List.filter_cons_of_pos (by simp [hempty]), List.map_cons, List.map_cons,
          String.join_cons, String.join_cons, ih]

theorem textsOf_ids (h : textsOf rows = storedTexts segments) :
    rows.map (·.id) = (segments.filter fun text ↦ text.2 ≠ "").map Prod.fst := by
  have hids := congrArg (List.map Prod.fst) h
  rw [textsOf, storedTexts, List.map_map, List.map_map] at hids
  exact hids

theorem textsOf_texts (h : textsOf rows = storedTexts segments) :
    rows.map (·.content.text) = (nonemptyTexts segments).map some := by
  have htexts := congrArg (List.map Prod.snd) h
  rw [textsOf, storedTexts, List.map_map, List.map_map] at htexts
  rw [nonemptyTexts, List.map_map]
  exact htexts

theorem textUnder_textsOf (h : textsOf rows = storedTexts segments)
    (hnodup : (rows.map (·.id)).Nodup) :
    (rows.map (·.id)).map (textUnder · segments) = nonemptyTexts segments := by
  rw [textsOf_ids h] at hnodup ⊢
  rw [nonemptyTexts, List.map_map]
  refine List.map_congr_left fun text htext ↦ ?_
  obtain ⟨hmem, hne⟩ := List.mem_filter.mp htext
  exact textUnder_of_mem hnodup hmem (of_decide_eq_true hne)

end Texts

section Finalize

variable {c : Scope} {r : StreamRelay} {s s' : RelayState} {closed : List (String × String)}

theorem StreamPersistenceAdapter.persistFinalText_spec {a : StreamPersistenceAdapter} {before : ℕ}
    {first : MessageRow} {others : List MessageRow}
    (hrows : writtenRows before a.repo = first :: others)
    (hown : ∀ row ∈ writtenRows before a.repo, row.conversationId = a.conversationId)
    {status : MessageStatus} {text : String} {hidden rewriteSegments : Bool}
    (hok : (a.persistFinalText .active ((first :: others).map (·.id)) status text hidden
      rewriteSegments).1.repo.failed = false) :
    a.repo.failed = false ∧
      writtenRows before (a.persistFinalText .active ((first :: others).map (·.id)) status text
        hidden rewriteSegments).1.repo =
        if rewriteSegments then
          first.update ⟨some ⟨some text, []⟩, some status, some hidden⟩ ::
            others.map (·.update ⟨none, some status, some true⟩)
        else (first :: others).map (·.update ⟨none, some status, some false⟩) := by
  cases rewriteSegments with
  | true => exact writtenRows_rewrite hrows hown hok
  | false =>
      obtain ⟨hok', hupdated⟩ := writtenRows_updateAll hown hok
      refine ⟨hok', hupdated.trans ?_⟩
      rw [hrows]
      exact List.map_congr_left fun row hrow ↦ if_pos (List.mem_map_of_mem hrow)

theorem StreamPersistenceAdapter.persistFinalText_failed {a : StreamPersistenceAdapter}
    {lifecycle : RuntimeLifecycleState} {segments : List String} {status : MessageStatus}
    {text : String} {hidden rewriteSegments : Bool}
    (hok : (a.persistFinalText lifecycle segments status text hidden
      rewriteSegments).1.repo.failed = false) : a.repo.failed = false := by
  unfold persistFinalText at hok
  split at hok
  · exact hok
  · split at hok
    · split at hok
      · exact (MessageStore.updateMessage_spec (updateAll_spec _ _ _ hok).1).1
      · exact (updateAll_spec _ _ _ hok).1
    · split at hok
      · exact hok
      · exact (MessageStore.insertMessage_spec hok).1

theorem RelayState.sendSystemResponses_spec (responses : List String) (s : RelayState) :
    (StreamRelay.sendSystemResponses s responses).adapter.repo = s.adapter.repo ∧
      (StreamRelay.sendSystemResponses s responses).textFrames = s.textFrames := by
  induction responses generalizing s with
  | nil => exact ⟨rfl, rfl⟩
  | cons response responses ih =>
      obtain ⟨hrepo, hframes⟩ :=
        ih (({ s with adapter := s.adapter.mintMsgId.2 } : RelayState).broadcast s.adapter.mintMsgId.1
          (.system response))
      refine ⟨hrepo, hframes.trans ?_⟩
      rw [RelayState.textFrames_broadcast, List.append_nil]
      rfl

theorem StoredAsStreamed.of_ids {rows rows' : List MessageRow} {status : MessageStatus}
    {full : String} {frames : List (String × String)}
    (htexts : textsOf rows = storedTexts closed) (hnodup : (rows.map (·.id)).Nodup)
    (hids : rows'.map (·.id) = rows.map (·.id))
    (hframes : ∀ id, textUnder id frames = textUnder id closed)
    (hfull : full = String.join (nonemptyTexts closed))
    (hunchanged : (r.process full).message = full → trim full ≠ "" →
      rows'.map (fun row ↦ (row.content.text, row.status, row.hidden)) =
        (rows.map (·.content.text)).map fun text ↦ (text, some status, false))
    (hrewritten : (r.process full).message ≠ full ∨ trim full = "" →
      ∀ first others, rows' = first :: others →
        first.content.text = some (trim (r.process full).message) ∧
          (first.hidden = true ↔ trim (r.process full).message = "") ∧
            ∀ row ∈ others, row.hidden = true) :
    StoredAsStreamed r full status (nonemptyTexts closed) rows' frames := by
  refine ⟨hids ▸ hnodup, ?_, hfull.symm, fun hmessage htrim ↦ ?_, hrewritten⟩
  · have hunder := textUnder_textsOf htexts hnodup
    rw [← hids, List.map_map] at hunder
    refine (List.map_congr_left fun row _ ↦ ?_).trans hunder
    exact hframes row.id
  · rw [hunchanged hmessage htrim, textsOf_texts htexts, List.map_map]
    rfl

theorem Scope.Streaming.rows (h : c.Streaming s closed) (hnone : s.activeText = none)
    (hok : s.adapter.repo.failed = false) :
    textsOf (writtenRows c.before s.adapter.repo) = storedTexts closed ∧
      s.textSegments = (writtenRows c.before s.adapter.repo).map (·.id) ∧
      ∀ row ∈ writtenRows c.before s.adapter.repo,
        row.conversationId = s.adapter.conversationId := by
  obtain ⟨flushed, hstores⟩ := h.stores
  have hholds := hstores.holds hok
  rw [hnone, pendingText, List.append_nil] at hholds
  refine ⟨hholds.texts, (h.segments hok).trans (textsOf_ids hholds.texts).symm, fun row hrow ↦ ?_⟩
  exact (hholds.own row hrow).1.trans hstores.conversationId.symm

theorem Scope.Streaming.closedTexts (h : c.Streaming s closed) (hnone : s.activeText = none) :
    (∀ id, textUnder id s.textFrames = textUnder id closed) ∧
      s.fullText = String.join (nonemptyTexts closed) := by
  have hopen : s.openTexts = [] := by
    rw [RelayState.openTexts, hnone]
    rfl
  refine ⟨fun id ↦ ?_, ?_⟩
  · rw [h.streamed, hopen, List.append_nil]
  · rw [h.fullText, hopen, List.append_nil, join_nonemptyTexts]

theorem Scope.Streaming.stored_empty (h : c.Streaming s closed) (hnone : s.activeText = none)
    (hok : s.adapter.repo.failed = false) (hempty : s.fullText = "") (status : MessageStatus) :
    StoredAsStreamed r s.fullText status (nonemptyTexts closed)
      (writtenRows c.before s.adapter.repo) s.textFrames := by
  obtain ⟨htexts, -, -⟩ := h.rows hnone hok
  obtain ⟨hframes, hfull⟩ := h.closedTexts hnone
  have hnodup := Scope.writtenRows_nodup c.before s.adapter.repo
  have hrows : writtenRows c.before s.adapter.repo = [] := by
    cases hsplit : writtenRows c.before s.adapter.repo with
    | nil => rfl
    | cons row rows =>
        have hruns := textsOf_texts htexts
        rw [hsplit] at hruns
        cases hclosed : nonemptyTexts closed with
        | nil => rw [hclosed] at hruns; cases hruns
        | cons run runs =>
            rw [hclosed, String.join_cons, hempty] at hfull
            have hmem : run ∈ nonemptyTexts closed := hclosed ▸ List.mem_cons_self
            obtain ⟨text, htext, rfl⟩ := List.mem_map.mp hmem
            have hne := of_decide_eq_true (List.mem_filter.mp htext).2
            exact absurd (String.append_eq_empty_iff.mp hfull.symm).1 hne
  refine .of_ids htexts hnodup rfl hframes hfull ?_ ?_
  · rw [hrows]
    exact fun _ _ ↦ rfl
  · rw [hrows]
    exact fun _ _ _ h ↦ (by cases h)

theorem Scope.Streaming.stored_final (h : c.Streaming s closed) (hnone : s.activeText = none)
    (hsome : s.fullText ≠ "") {status : MessageStatus} {message : String} {hidden : Bool}
    (hmessage : message = (r.process s.fullText).message)
    (hhidden : hidden = decide (trim message = ""))
    (hok : (s.adapter.persistFinalText .active s.textSegments status (trim message) hidden
      (message ≠ s.fullText || hidden)).1.repo.failed = false) :
    StoredAsStreamed r s.fullText status (nonemptyTexts closed)
      (writtenRows c.before (s.adapter.persistFinalText .active s.textSegments status
        (trim message) hidden (message ≠ s.fullText || hidden)).1.repo) s.textFrames := by
  obtain ⟨htexts, hsegments, hown⟩ := h.rows hnone (StreamPersistenceAdapter.persistFinalText_failed hok)
  obtain ⟨hframes, hfull⟩ := h.closedTexts hnone
  have hnodup := Scope.writtenRows_nodup c.before s.adapter.repo
  cases hsplit : writtenRows c.before s.adapter.repo with
  | nil =>
      -- Some text has been received, so that some row has been written.
      have hruns := textsOf_texts htexts
      rw [hsplit, List.map_nil, eq_comm, List.map_eq_nil_iff] at hruns
      rw [hruns] at hfull
      exact absurd hfull hsome
  | cons first others =>
      rw [hsegments, hsplit] at hok ⊢
      obtain ⟨-, hrows⟩ := StreamPersistenceAdapter.persistFinalText_spec hsplit hown hok
      rw [hrows]
      rw [hsplit] at htexts hnodup
      by_cases hrewrite : (decide (message ≠ s.fullText) || hidden) = true
      · rw [if_pos hrewrite]
        refine .of_ids htexts hnodup ?_ hframes hfull (fun hsame htrim ↦ ?_)
          fun _ first' others' heq ↦ ?_
        · rw [List.map_cons, List.map_map, List.map_cons]
          rfl
        · rw [← hmessage] at hsame
          rw [hhidden, hsame, Bool.or_eq_true, decide_eq_true_eq, decide_eq_true_eq] at hrewrite
          exact absurd hrewrite (not_or_intro (fun hne ↦ hne rfl) htrim)
        · obtain ⟨rfl, rfl⟩ := List.cons.inj heq
          rw [← hmessage]
          refine ⟨rfl, ?_, fun row hrow ↦ ?_⟩
          · exact (congrArg (· = true) hhidden).to_iff.trans decide_eq_true_iff
          · obtain ⟨row, -, rfl⟩ := List.mem_map.mp hrow
            rfl
      · rw [if_neg hrewrite]
        refine .of_ids htexts hnodup ?_ hframes hfull (fun _ _ ↦ ?_) fun hchanged ↦ ?_
        · rw [List.map_map]
          rfl
        · rw [List.map_map, List.map_map]
          rfl
        · refine absurd ?_ hrewrite
          rw [hhidden, Bool.or_eq_true, decide_eq_true_eq, decide_eq_true_eq]
          rw [← hmessage] at hchanged
          by_cases hsame : message = s.fullText
          · exact .inr (hsame ▸ hchanged.resolve_left (not_not_intro hsame))
          · exact .inl hsame

theorem RelayState.textFrames_overrides (s : RelayState) (overrides : List FinalTextOverride) :
    ({ s with broadcasts := s.broadcasts ++ overrides.map fun override ↦
      (override.msgId, .content override.text override.hidden) } : RelayState).textFrames =
        s.textFrames := by
  rw [RelayState.textFrames, List.filterMap_append, RelayState.textFrames]
  refine (congrArg _ ?_).trans (List.append_nil _)
  rw [List.filterMap_map]
  exact List.filterMap_eq_nil_iff.mpr fun _ _ ↦ rfl

theorem Scope.Streaming.finalize (h : c.Streaming s closed) (hnone : s.activeText = none)
    {error : Option ErrorEventData} {terminal : RelayTerminal}
    (hok : (r.finalize s .active error terminal).1.adapter.repo.failed = false) :
    StoredAsStreamed r s.fullText (StreamRelay.terminalStatus terminal) (nonemptyTexts closed)
        (writtenRows c.before (r.finalize s .active error terminal).1.adapter.repo)
        s.textFrames ∧
      (r.finalize s .active error terminal).1.textFrames = s.textFrames := by
  unfold StreamRelay.finalize at hok ⊢
  split
  · next hsome =>
      rw [if_pos hsome] at hok
      simp only at hok ⊢
      obtain ⟨hrepo, hframes⟩ := RelayState.sendSystemResponses_spec
        (r.process s.fullText).systemResponses _
      rw [hrepo] at hok ⊢
      exact ⟨h.stored_final hnone hsome rfl rfl hok, hframes.trans (RelayState.textFrames_overrides _ _)⟩
  · next hempty =>
      rw [if_neg hempty] at hok
      rw [ne_eq, not_not] at hempty
      cases error with
      | none => exact ⟨h.stored_empty hnone hok hempty _, rfl⟩
      | some data =>
          have hcalm := Scope.Calm.adapt s
            (StreamPersistenceAdapter.quiet_persistNote (c := c) .active ⟨some data.message, [.error data]⟩ .error)
          exact ⟨(h.calm hcalm).stored_empty hnone hok hempty _, rfl⟩

theorem RelayState.fullText_closeSegments (s : RelayState) (lifecycle : RuntimeLifecycleState)
    (status : MessageStatus) : (s.closeSegments lifecycle status).fullText = s.fullText := by
  have hthinking : (s.completeActiveThinking lifecycle).fullText = s.fullText := by
    rw [RelayState.completeActiveThinking]
    split <;> rfl
  rw [RelayState.closeSegments, RelayState.closeActiveTextSegment]
  split <;> exact hthinking

theorem Scope.Streaming.finished (h : c.Streaming s closed) (hnone : s.activeText = none)
    {error : Option ErrorEventData} {terminal : RelayTerminal}
    (hs' : s' = if r.completeTurn then
      (r.finalize s .active error terminal).1.broadcast r.msgId .turnCompleted
      else (r.finalize s .active error terminal).1)
    (hok : s'.adapter.repo.failed = false) :
    StoredAsStreamed r s.fullText (StreamRelay.terminalStatus terminal) (nonemptyTexts closed)
      (writtenRows c.before s'.adapter.repo) s'.textFrames := by
  have hadapter : s'.adapter = (r.finalize s .active error terminal).1.adapter := by
    rw [hs']
    split <;> rfl
  have hframes : s'.textFrames = (r.finalize s .active error terminal).1.textFrames := by
    rw [hs']
    split
    · rw [RelayState.textFrames_broadcast, List.append_nil]
    · rfl
  rw [hadapter] at hok ⊢
  obtain ⟨hstored, hsame⟩ := h.finalize hnone hok
  rw [hframes, hsame]
  exact hstored

theorem Scope.Streaming.conclude (h : c.Streaming s closed) {event : AgentStreamEvent}
    (hevent : event.isTerminal = true) {terminal : RelayTerminal}
    (hok : (r.conclude s .active false (some event) terminal).1.adapter.repo.failed = false) :
    StoredAsStreamed r s.fullText (StreamRelay.terminalStatus terminal)
      (nonemptyTexts (closed ++ s.openTexts))
      (writtenRows c.before
        (r.conclude s .active false (some event) terminal).1.adapter.repo)
      (r.conclude s .active false (some event) terminal).1.textFrames := by
  obtain ⟨hclosed, hnone⟩ := h.closeSegments (StreamRelay.terminalStatus terminal)
  have hforward := Scope.Calm.forward c r (s.closeSegments .active
    (StreamRelay.terminalStatus terminal)) event fun _ heq ↦ (by rw [heq] at hevent; cases hevent)
  have hmark := fun mark ↦ hforward.trans (.mark c _ mark)
  have hfull := s.fullText_closeSegments .active (StreamRelay.terminalStatus terminal)
  rw [← hfull]
  unfold StreamRelay.conclude at hok ⊢
  simp only [Bool.not_false, Bool.and_true, Bool.false_eq_true, if_false] at hok ⊢
  exact (hclosed.calm (hmark _)).finished ((hmark _).activeText.trans hnone) rfl hok

end Finalize

section Run

variable {c : Scope} {r : StreamRelay} {s s' : RelayState} {closed : List (String × String)}

theorem AgentStreamEvent.textContent_of_interrupts {event : AgentStreamEvent}
    (h : event.interrupts = true) : event.textContent = "" := by
  cases event with
  | text content => cases h
  | _ => rfl

theorem lifecycleFor_active {runtime : ConversationRuntimeState} {conversationId : String}
    (h : runtime.lifecycleFor conversationId = .active) :
    conversationId ∉ runtime.deletingConversations := by
  intro hdeleting
  rw [ConversationRuntimeState.lifecycleFor, if_pos hdeleting] at h
  split at h <;> cases h

theorem nonemptyTexts_openTexts (s : RelayState) :
    nonemptyTexts s.openTexts = textRunsAfter (String.join (s.openTexts.map Prod.snd)) [] := by
  rw [textRunsAfter_nil, RelayState.openTexts]
  cases s.activeText with
  | none => rfl
  | some segment =>
      rw [Option.toList_some, List.map_singleton, List.map_singleton, String.join_cons,
        String.join_nil, String.append_empty, nonemptyTexts]
      by_cases h : segment.buffer = "" <;> simp [h]

theorem Scope.Streaming.consume (h : c.Streaming s closed) (rest : List Received)
    {deliveries : List (AgentStreamEvent × ConversationRuntimeState)}
    (hactive : ∀ delivery ∈ deliveries, delivery.1.isTerminal = false ∧
      delivery.2.lifecycleFor c.conversationId = .active) :
    ∃ s' closed',
      r.consume s (deliveries.map (fun delivery ↦ .event delivery.1 delivery.2) ++ rest) =
        r.consume s' rest ∧
      c.Streaming s' closed' ∧
      nonemptyTexts (closed' ++ s'.openTexts) = nonemptyTexts closed ++
        textRunsAfter (String.join (s.openTexts.map Prod.snd)) (deliveries.map Prod.fst) ∧
      s'.fullText = s.fullText ++
        String.join ((deliveries.map Prod.fst).map AgentStreamEvent.textContent) := by
  induction deliveries generalizing s closed with
  | nil =>
      refine ⟨s, closed, rfl, h, ?_, (String.append_empty).symm⟩
      rw [nonemptyTexts_append, nonemptyTexts_openTexts, List.map_nil]
  | cons delivery deliveries ih =>
      obtain ⟨hterminal, hlifecycle⟩ := hactive delivery List.mem_cons_self
      have hrest := fun other hother ↦ hactive other (List.mem_cons_of_mem _ hother)
      have hconversation : s.adapter.conversationId = c.conversationId :=
        h.stores.elim fun _ hstores ↦ hstores.conversationId
      have hstep : r.consume s ((delivery :: deliveries).map
          (fun delivery ↦ .event delivery.1 delivery.2) ++ rest) =
            r.consume (r.consumeEvent s .active delivery.1)
              (deliveries.map (fun delivery ↦ .event delivery.1 delivery.2) ++ rest) := by
        rw [List.map_cons, List.cons_append, StreamRelay.consume, hterminal, hconversation,
          if_neg (lifecycleFor_active hlifecycle), hlifecycle]
        rfl
      rw [hstep, List.map_cons, textRunsAfter_cons, List.map_cons, String.join_cons]
      by_cases hinterrupts : delivery.1.interrupts = true
      · obtain ⟨hclosed, hnone⟩ := h.interrupt r hinterrupts
        have hopen : (r.consumeEvent s .active delivery.1).openTexts = [] := by
          rw [RelayState.openTexts, hnone]
          rfl
        have hfull : (r.consumeEvent s .active delivery.1).fullText = s.fullText := by
          rw [hclosed.fullText, hopen, List.append_nil, h.fullText]
        obtain ⟨s', closed', hrun, hs', hruns, hfull'⟩ := ih hclosed hrest
        refine ⟨s', closed', hrun, hs', ?_, ?_⟩
        · rw [hruns, hopen, if_pos hinterrupts, nonemptyTexts_append, nonemptyTexts_openTexts,
            textRunsAfter_nil, List.map_nil, String.join_nil, textRunsAfter_empty,
            List.append_assoc]
        · rw [hfull', hfull, AgentStreamEvent.textContent_of_interrupts hinterrupts,
            String.empty_append]
      · rw [Bool.not_eq_true] at hinterrupts
        obtain ⟨hnext, hopen⟩ := h.next r hinterrupts
        have hfull : (r.consumeEvent s .active delivery.1).fullText =
            s.fullText ++ delivery.1.textContent := by
          rw [hnext.fullText, h.fullText, List.map_append, List.map_append, join_append,
            join_append, hopen, String.append_assoc]
        obtain ⟨s', closed', hrun, hs', hruns, hfull'⟩ := ih hnext hrest
        refine ⟨s', closed', hrun, hs', ?_, ?_⟩
        · rw [hruns, hopen, hinterrupts]
          rfl
        · rw [hfull', hfull, String.append_assoc]

theorem Scope.Streaming.start (adapter : StreamPersistenceAdapter) :
    Scope.Streaming ⟨adapter.conversationId, adapter.repo.rows.length⟩ (.start adapter) [] := by
  have hrows : writtenRows adapter.repo.rows.length adapter.repo = [] := by
    rw [writtenRows, List.drop_length, List.filter_nil]
  refine ⟨⟨"", rfl, fun _ ↦ ⟨le_refl _, congrArg textsOf hrows, ?_⟩⟩, fun _ ↦ rfl, ?_,
    fun _ ↦ rfl, rfl⟩
  · intro row hrow
    change row ∈ writtenRows adapter.repo.rows.length adapter.repo at hrow
    rw [hrows] at hrow
    cases hrow
  · exact fun _ h ↦ (by cases h)

theorem StreamRelay.consumeTerminal_conclude {runtime : ConversationRuntimeState}
    {event : AgentStreamEvent}
    (hdeferred : (r.consumeTerminal s runtime event).2.attempt.terminalErrorDeferred = false) :
    r.consumeTerminal s runtime event =
      r.conclude s (runtime.lifecycleFor s.adapter.conversationId)
        (decide (s.adapter.conversationId ∈ runtime.deletingConversations)) (some event)
        (terminalFromEvent event) := by
  unfold StreamRelay.consumeTerminal at hdeferred ⊢
  by_cases hdefers : r.defersCleanError s (StreamRelay.terminalFromEvent event) = true
  · simp only [if_pos hdefers] at hdeferred
    cases event with
    | error data => cases hdeferred
    | _ =>
        simp [StreamRelay.defersCleanError, StreamRelay.terminalFromEvent,
          RelayTerminal.isError] at hdefers
  · simp only [if_neg hdefers]

end Run

/-- The rows that are stored for a relay are what it has streamed. -/
theorem streamed_is_stored {r : StreamRelay} {adapter : StreamPersistenceAdapter}
    {deliveries : List (AgentStreamEvent × ConversationRuntimeState)}
    {terminal : AgentStreamEvent} {runtime : ConversationRuntimeState} {s : RelayState}
    {outcome : RelayOutcome}
    (hactive : ∀ delivery ∈ deliveries, delivery.1.isTerminal = false ∧
      delivery.2.lifecycleFor adapter.conversationId = .active)
    (hterminal : terminal.isTerminal = true)
    (hend : runtime.lifecycleFor adapter.conversationId = .active)
    (hrun : r.consume (.start adapter) (deliveries.map
      (fun delivery ↦ .event delivery.1 delivery.2) ++ [.event terminal runtime]) =
        (s, some outcome))
    (hdeferred : outcome.attempt.terminalErrorDeferred = false)
    (hwrites : s.adapter.repo.failed = false) :
    StoredAsStreamed r
      (String.join ((deliveries.map Prod.fst).map AgentStreamEvent.textContent))
      (StreamRelay.terminalStatus (StreamRelay.terminalFromEvent terminal))
      (textRuns (deliveries.map Prod.fst))
      (writtenRows adapter.repo.rows.length s.adapter.repo) s.textFrames := by
  obtain ⟨s₁, closed, hsteps, hs₁, hruns, hfull⟩ :=
    (Scope.Streaming.start adapter).consume (r := r) [.event terminal runtime] hactive
  have hconversation : s₁.adapter.conversationId = adapter.conversationId :=
    hs₁.stores.elim fun _ hstores ↦ hstores.conversationId
  have hlast : r.consume s₁ [.event terminal runtime] =
      ((r.consumeTerminal s₁ runtime terminal).1,
        some (r.consumeTerminal s₁ runtime terminal).2) := by
    rw [StreamRelay.consume, if_pos hterminal]
  rw [hsteps, hlast] at hrun
  have hstate : (r.consumeTerminal s₁ runtime terminal).1 = s := congrArg Prod.fst hrun
  have houtcome : (r.consumeTerminal s₁ runtime terminal).2 = outcome :=
    Option.some.inj (congrArg Prod.snd hrun)
  rw [← houtcome] at hdeferred
  rw [StreamRelay.consumeTerminal_conclude hdeferred, hconversation, hend,
    decide_eq_false (lifecycleFor_active hend)] at hstate
  subst hstate
  have hstored := hs₁.conclude hterminal hwrites
  rw [hruns.trans (textRunsAfter_empty _), hfull.trans String.empty_append] at hstored
  exact hstored

/-- A tool call between two texts. -/
theorem two_texts_stored :
    let r : StreamRelay := ⟨"m", "t", fun text ↦ ⟨text, []⟩, true, true⟩
    let adapter : StreamPersistenceAdapter := ⟨"c", "m", .empty, none, fun k ↦ toString k, 0⟩
    let call : ToolCallEventData := ⟨"call", "read", .completed, none, none⟩
    let events : List AgentStreamEvent := [.text "a", .text "b", .toolCall call, .text "d"]
    ∃ s outcome,
      r.consume (.start adapter) (events.map (fun event ↦ .event event .new) ++
        [.event .finish .new]) = (s, some outcome) ∧
      StoredAsStreamed r "abd" .finish ["ab", "d"]
        (writtenRows 0 s.adapter.repo) s.textFrames := by
  intro r adapter call events
  have hchecked : ∀ received, r.consume (.start adapter)
      ((events.map fun event ↦ (event, ConversationRuntimeState.new)).map
        (fun delivery ↦ .event delivery.1 delivery.2) ++ [.event .finish .new]) = received →
      (received.2.any fun outcome ↦ !outcome.attempt.terminalErrorDeferred) = true ∧
        received.1.adapter.repo.failed = false := by
    rintro received rfl
    decide +kernel
  obtain ⟨received, hrun⟩ : ∃ received, r.consume (.start adapter)
      ((events.map fun event ↦ (event, ConversationRuntimeState.new)).map
        (fun delivery ↦ .event delivery.1 delivery.2) ++ [.event .finish .new]) = received :=
    ⟨_, rfl⟩
  obtain ⟨houtcome, hwrites⟩ := hchecked received hrun
  obtain ⟨s, outcome⟩ := received
  obtain ⟨outcome, rfl, hdeferred⟩ := (Option.any_eq_true _ _).mp houtcome
  rw [Bool.not_eq_true'] at hdeferred
  have hactive : ∀ delivery ∈ events.map fun event ↦ (event, ConversationRuntimeState.new),
      delivery.1.isTerminal = false ∧
        delivery.2.lifecycleFor adapter.conversationId = .active := by decide
  exact ⟨s, outcome, hrun, streamed_is_stored hactive rfl rfl hrun hdeferred hwrites⟩

end Zaowutai.Stream
