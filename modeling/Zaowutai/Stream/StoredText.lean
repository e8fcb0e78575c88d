import Zaowutai.Stream.TextRows

/-!
# What was streamed is what is stored

The texts of a turn are cut into runs by thinking, tools and segment breaks.
Each run is streamed under one message id and stored in one row with that id,
whenever it is flushed; the final text replaces them only where the middleware
has changed it.
-/

namespace Zaowutai.Stream

open Zaowutai.Conversation

def AgentStreamEvent.interrupts : AgentStreamEvent → Bool
  | .thinking data => data.status ≠ some "done" && !(data.content = "" && data.subject.isNone)
  | .toolCall _ | .acpToolCall _ | .toolGroup _ | .segmentBreak => true
  | _ => false

def AgentStreamEvent.textContent : AgentStreamEvent → String
  | .text content => content
  | _ => ""

/-- The texts of the maximal uninterrupted runs, without empty ones. -/
def textRuns (events : List AgentStreamEvent) : List String :=
  ((events.splitOnP AgentStreamEvent.interrupts).map fun run ↦
    String.join (run.map AgentStreamEvent.textContent)).filter (· ≠ "")

section Runs

def textRunsAfter (text : String) (events : List AgentStreamEvent) : List String :=
  (((events.splitOnP AgentStreamEvent.interrupts).map fun run ↦
    String.join (run.map AgentStreamEvent.textContent)).modifyHead (text ++ ·)).filter (· ≠ "")

theorem textRunsAfter_empty (events : List AgentStreamEvent) :
    textRunsAfter "" events = textRuns events := by
  rw [textRunsAfter, textRuns]
  cases (events.splitOnP AgentStreamEvent.interrupts).map _ with
  | nil => rfl
  | cons run runs => rw [List.modifyHead_cons, String.empty_append]

theorem textRunsAfter_nil (text : String) :
    textRunsAfter text [] = if text = "" then [] else [text] := by
  rw [textRunsAfter, List.splitOnP_nil]
  by_cases h : text = "" <;> simp [h]

theorem textRunsAfter_cons (text : String) (event : AgentStreamEvent)
    (events : List AgentStreamEvent) :
    textRunsAfter text (event :: events) =
      if event.interrupts then (if text = "" then [] else [text]) ++ textRuns events
      else textRunsAfter (text ++ event.textContent) events := by
  rw [textRunsAfter, List.splitOnP_cons_eq_if_modifyHead]
  split
  · rw [textRuns]
    by_cases h : text = "" <;> simp [h]
  · rw [textRunsAfter]
    cases hruns : events.splitOnP AgentStreamEvent.interrupts with
    | nil => exact absurd hruns (List.splitOnP_ne_nil _ _)
    | cons run runs =>
        simp only [List.modifyHead_cons, List.map_cons, String.join_cons, String.append_assoc]

end Runs

def RelayState.textFrames (s : RelayState) : List (String × String) :=
  s.broadcasts.filterMap fun
    | (msgId, .event (.text content)) => some (msgId, content)
    | _ => none

def textUnder (id : String) (texts : List (String × String)) : String :=
  String.join ((texts.filter fun text ↦ text.1 = id).map Prod.snd)

section TextUnder

variable {id : String} {text : String}

theorem join_append (texts texts' : List String) :
    String.join (texts ++ texts') = String.join texts ++ String.join texts' := by
  induction texts with
  | nil => rw [List.nil_append, String.join_nil, String.empty_append]
  | cons text texts ih =>
      rw [List.cons_append, String.join_cons, String.join_cons, ih, String.append_assoc]

theorem textUnder_append (texts texts' : List (String × String)) :
    textUnder id (texts ++ texts') = textUnder id texts ++ textUnder id texts' := by
  rw [textUnder, List.filter_append, List.map_append, join_append, textUnder, textUnder]

theorem textUnder_singleton (id' : String) :
    textUnder id [(id', text)] = if id' = id then text else "" := by
  rw [textUnder]
  by_cases h : id' = id <;> simp [h, String.join_cons, String.join_nil]

theorem textUnder_of_notMem {texts : List (String × String)}
    (h : ∀ text ∈ texts, text.1 = id → text.2 = "") : textUnder id texts = "" := by
  induction texts with
  | nil => rfl
  | cons entry texts ih =>
      have hrest := ih fun text hmem ↦ h text (List.mem_cons_of_mem _ hmem)
      rw [← List.singleton_append, textUnder_append, hrest, String.append_empty,
        textUnder_singleton]
      split
      · next hid => exact h entry List.mem_cons_self hid
      · rfl

theorem textUnder_of_mem {texts : List (String × String)}
    (hnodup : ((texts.filter fun text ↦ text.2 ≠ "").map Prod.fst).Nodup)
    (hmem : (id, text) ∈ texts) (hne : text ≠ "") : textUnder id texts = text := by
  induction texts with
  | nil => cases hmem
  | cons entry texts ih =>
      rw [← List.singleton_append, textUnder_append, textUnder_singleton]
      by_cases hempty : entry.2 = ""
      · have hother : (id, text) ∈ texts := by
          rcases List.mem_cons.mp hmem with rfl | hother
          · exact absurd hempty hne
          · exact hother
        rw [List.filter_cons_of_neg (by simp [hempty])] at hnodup
        rw [hempty, ite_self, String.empty_append, ih hnodup hother]
      · rw [List.filter_cons_of_pos (by simp [hempty]), List.map_cons, List.nodup_cons] at hnodup
        by_cases hid : entry.1 = id
        · have hrest : textUnder id texts = "" := by
            refine textUnder_of_notMem fun other hother hsame ↦ ?_
            by_contra hsome
            refine hnodup.1 (List.mem_map.mpr ⟨other, List.mem_filter.mpr ⟨hother, ?_⟩, ?_⟩)
            · exact decide_eq_true hsome
            · exact hsame.trans hid.symm
          rcases List.mem_cons.mp hmem with rfl | hother
          · rw [if_pos rfl, hrest, String.append_empty]
          · refine absurd ?_ hnodup.1
            exact List.mem_map.mpr ⟨_, List.mem_filter.mpr ⟨hother, decide_eq_true hne⟩, hid.symm⟩
        · have hother : (id, text) ∈ texts := by
            rcases List.mem_cons.mp hmem with rfl | hother
            · exact absurd rfl hid
            · exact hother
          rw [if_neg hid, String.empty_append, ih hnodup.2 hother]

end TextUnder

section Calm

variable {c : Scope} {r : StreamRelay} {s s' s'' : RelayState}

/-- No text is received, and the text rows stay as they are. -/
structure Scope.Calm (c : Scope) (s s' : RelayState) : Prop where
  adapter : c.Quiet s.adapter s'.adapter
  frames : s'.textFrames = s.textFrames
  activeText : s'.activeText = s.activeText
  fullText : s'.fullText = s.fullText
  textSegments : s'.textSegments = s.textSegments

theorem Scope.Calm.refl (c : Scope) (s : RelayState) : c.Calm s s :=
  ⟨.refl c _, rfl, rfl, rfl, rfl⟩

theorem Scope.Calm.trans (h : c.Calm s s') (h' : c.Calm s' s'') : c.Calm s s'' :=
  ⟨h.adapter.trans h'.adapter, h'.frames.trans h.frames, h'.activeText.trans h.activeText,
    h'.fullText.trans h.fullText, h'.textSegments.trans h.textSegments⟩

theorem RelayState.textFrames_broadcast (s : RelayState) (msgId : String) (payload : Payload) :
    (s.broadcast msgId payload).textFrames = s.textFrames ++
      match payload with
      | .event (.text content) => [(msgId, content)]
      | _ => [] := by
  rw [RelayState.textFrames, RelayState.broadcast, List.filterMap_append, RelayState.textFrames]
  congr 1
  cases payload with
  | event event => cases event <;> rfl
  | thinkingDone | toolCall _ | toolGroup _ | content _ _ | system _ | turnCompleted => rfl

theorem Scope.Calm.broadcast (c : Scope) (s : RelayState) (msgId : String) (payload : Payload)
    (hpayload : ∀ content, payload ≠ .event (.text content)) :
    c.Calm s (s.broadcast msgId payload) := by
  refine ⟨.refl c _, ?_, rfl, rfl, rfl⟩
  rw [RelayState.textFrames_broadcast]
  split
  · next content => exact absurd rfl (hpayload content)
  · exact List.append_nil _

theorem Scope.Calm.adapt (s : RelayState) {adapter : StreamPersistenceAdapter}
    (h : c.Quiet s.adapter adapter) : c.Calm s { s with adapter } :=
  ⟨h, rfl, rfl, rfl, rfl⟩

theorem Scope.Calm.mark (c : Scope) (s : RelayState) (mark : TurnAttemptSummary → TurnAttemptSummary) :
    c.Calm s (s.mark mark) :=
  ⟨.refl c _, rfl, rfl, rfl, rfl⟩

theorem Scope.Calm.completeActiveThinking (c : Scope) (s : RelayState)
    (lifecycle : RuntimeLifecycleState) : c.Calm s (s.completeActiveThinking lifecycle) := by
  rw [RelayState.completeActiveThinking]
  split
  · exact .refl c s
  · next segment _ =>
      have hdone := Scope.Calm.broadcast c s segment.id .thinkingDone fun _ h ↦ (by cases h)
      exact ⟨StreamPersistenceAdapter.quiet_persistThinkingSegment lifecycle segment, hdone.frames,
        rfl, rfl, rfl⟩

theorem Scope.Calm.forward (c : Scope) (r : StreamRelay) (s : RelayState) (event : AgentStreamEvent)
    (hevent : ∀ content, event ≠ .text content) : c.Calm s (r.forwardToWebsocket s event) :=
  .broadcast c s r.msgId _ fun content h ↦ hevent content (Payload.event.inj h)

theorem Scope.Calm.forwardWorkflowProgress (c : Scope) (r : StreamRelay) (s : RelayState)
    (data : WorkflowProgressData) : c.Calm s (r.forwardWorkflowProgress s data) := by
  have hcard := Scope.Calm.broadcast c s r.msgId (.toolCall data.card) fun _ h ↦ (by cases h)
  rw [StreamRelay.forwardWorkflowProgress]
  split
  · exact hcard
  · exact hcard.trans (.broadcast c _ r.msgId _ fun _ h ↦ (by cases h))

theorem Scope.Calm.consumeQuestion (c : Scope) (r : StreamRelay) (s : RelayState)
    (event : AgentStreamEvent) (hevent : ∀ content, event ≠ .text content) :
    c.Calm s (r.consumeQuestion s event) :=
  (Scope.Calm.mark c s _).trans (.forward c r _ event hevent)

theorem Scope.Calm.consumeTips (c : Scope) (r : StreamRelay) (s : RelayState)
    (lifecycle : RuntimeLifecycleState) (data : TipsEventData) :
    c.Calm s (r.consumeTips s lifecycle data) := by
  rw [StreamRelay.consumeTips]
  have hforward := fun mark ↦ (Scope.Calm.mark c s mark).trans
    (.forward c r (s.mark mark) (.tips data) fun _ h ↦ (by cases h))
  split
  · exact hforward _
  · exact (hforward _).trans (.adapt _ (StreamPersistenceAdapter.quiet_persistNote lifecycle _ _))

theorem Scope.Calm.consumeWorkflowProgress (c : Scope) (r : StreamRelay) (s : RelayState)
    (lifecycle : RuntimeLifecycleState) (data : WorkflowProgressData) :
    c.Calm s (r.consumeWorkflowProgress s lifecycle data) := by
  rw [StreamRelay.consumeWorkflowProgress]
  split
  · have hsettle := Scope.Calm.adapt s
      (StreamPersistenceAdapter.quiet_settleToolCallIfPresent (c := c) lifecycle data.card)
    simp only
    split
    · exact hsettle.trans (.forwardWorkflowProgress c r _ data)
    · exact hsettle
  · refine (Scope.Calm.forwardWorkflowProgress c r s data).trans (.adapt _ ?_)
    have hcard := StreamPersistenceAdapter.quiet_persistToolCall (c := c)
      (a := (r.forwardWorkflowProgress s data).adapter) lifecycle data.card
    split
    · exact hcard
    · exact hcard.trans (StreamPersistenceAdapter.quiet_persistToolGroup lifecycle data.agents)

end Calm

section Streaming

variable {c : Scope} {r : StreamRelay} {s s' : RelayState} {closed : List (String × String)}

def RelayState.openTexts (s : RelayState) : List (String × String) :=
  s.activeText.toList.map fun segment ↦ (segment.id, segment.buffer)

def storedTexts (segments : List (String × String)) : List (String × Option String) :=
  (segments.filter fun text ↦ text.2 ≠ "").map fun text ↦ (text.1, some text.2)

structure Scope.Streaming (c : Scope) (s : RelayState) (closed : List (String × String)) :
    Prop where
  stores : ∃ flushed, c.Stores s.adapter (storedTexts closed ++ pendingText s.activeText flushed)
  segments : s.adapter.repo.failed = false →
    s.textSegments = (closed.filter fun text ↦ text.2 ≠ "").map Prod.fst
  sound : ∀ segment, s.activeText = some segment → segment.Sound
  streamed : ∀ id, textUnder id s.textFrames = textUnder id (closed ++ s.openTexts)
  fullText : s.fullText = String.join ((closed ++ s.openTexts).map Prod.snd)

theorem Scope.Calm.openTexts (h : c.Calm s s') : s'.openTexts = s.openTexts := by
  rw [RelayState.openTexts, h.activeText, RelayState.openTexts]

theorem Scope.Streaming.calm (h : c.Streaming s closed) (hcalm : c.Calm s s') :
    c.Streaming s' closed := by
  refine ⟨?_, ?_, ?_, ?_, ?_⟩
  · obtain ⟨flushed, hstores⟩ := h.stores
    rw [hcalm.activeText]
    exact ⟨flushed, hcalm.adapter.kept _ hstores⟩
  · intro hok
    rw [hcalm.textSegments]
    exact h.segments (hcalm.adapter.failed hok)
  · rw [hcalm.activeText]
    exact h.sound
  · intro id
    rw [hcalm.frames, hcalm.openTexts]
    exact h.streamed id
  · rw [hcalm.fullText, hcalm.openTexts]
    exact h.fullText

theorem storedTexts_append (segments segments' : List (String × String)) :
    storedTexts (segments ++ segments') = storedTexts segments ++ storedTexts segments' := by
  rw [storedTexts, List.filter_append, List.map_append, storedTexts, storedTexts]

theorem storedTexts_singleton (id text : String) :
    storedTexts [(id, text)] = if text = "" then [] else [(id, some text)] := by
  rw [storedTexts]
  by_cases h : text = "" <;> simp [h]

theorem Scope.Streaming.close (h : c.Streaming s closed) (status : MessageStatus) :
    c.Streaming (s.closeActiveTextSegment .active status) (closed ++ s.openTexts) ∧
      (s.closeActiveTextSegment .active status).activeText = none := by
  rw [RelayState.closeActiveTextSegment]
  split
  · next hnone =>
      have hopen : s.openTexts = [] := by
        rw [RelayState.openTexts, hnone]
        rfl
      rw [hopen, List.append_nil]
      exact ⟨h, hnone⟩
  · next segment hsegment =>
      have hopen : s.openTexts = [(segment.id, segment.buffer)] := by
        rw [RelayState.openTexts, hsegment]
        rfl
      obtain ⟨flushed, hstores⟩ := h.stores
      rw [hsegment] at hstores
      obtain ⟨hkept, hok⟩ := StreamPersistenceAdapter.finalizeTextSegment_spec status hstores
        (h.sound segment hsegment)
      refine ⟨⟨⟨"", ?_⟩, ?_, ?_, ?_, ?_⟩, rfl⟩
      · rw [hopen, storedTexts_append, storedTexts_singleton]
        exact (List.append_nil _).symm ▸ hkept
      · intro hnew
        obtain ⟨hbefore, hid⟩ := hok hnew
        simp only [hid, h.segments hbefore, hopen, List.filter_append, List.map_append]
        by_cases hempty : segment.buffer = "" <;> simp [hempty]
      · exact fun _ hnone ↦ (by cases hnone)
      · intro id
        exact (h.streamed id).trans (congrArg (textUnder id) (List.append_nil _).symm)
      · change s.fullText = String.join ((closed ++ s.openTexts ++ []).map Prod.snd)
        rw [List.append_nil]
        exact h.fullText

theorem Scope.Streaming.closeSegments (h : c.Streaming s closed) (status : MessageStatus) :
    c.Streaming (s.closeSegments .active status) (closed ++ s.openTexts) ∧
      (s.closeSegments .active status).activeText = none := by
  have hcalm := Scope.Calm.completeActiveThinking c s .active
  have hclose := (h.calm hcalm).close status
  rw [hcalm.openTexts] at hclose
  exact hclose

theorem Scope.Calm.mintSegmentMsgId (c : Scope) (r : StreamRelay) (s : RelayState) :
    c.Calm s (r.mintSegmentMsgId s).2 := by
  rw [StreamRelay.mintSegmentMsgId]
  split
  · exact .adapt s (StreamPersistenceAdapter.quiet_mintMsgId c _)
  · exact ⟨.refl c _, rfl, rfl, rfl, rfl⟩

theorem Scope.Streaming.openText (h : c.Streaming s closed) (r : StreamRelay) :
    ∃ segment s', r.openText s = (segment, s') ∧ segment.Sound ∧
      c.Streaming s' closed ∧
      (∃ flushed, c.Stores s'.adapter
        (storedTexts closed ++ pendingText (some segment) flushed)) ∧
      (∀ id, textUnder id s'.textFrames = textUnder id (closed ++ [(segment.id, segment.buffer)])) ∧
      s'.fullText = String.join ((closed ++ [(segment.id, segment.buffer)]).map Prod.snd) ∧
      segment.buffer = String.join (s.openTexts.map Prod.snd) := by
  rw [StreamRelay.openText]
  cases hactive : s.activeText with
  | some segment =>
      have hopen : s.openTexts = [(segment.id, segment.buffer)] := by
        rw [RelayState.openTexts, hactive]
        rfl
      refine ⟨segment, s, rfl, h.sound segment hactive, h, hactive ▸ h.stores, ?_, ?_, ?_⟩
      · rw [← hopen]
        exact h.streamed
      · rw [← hopen]
        exact h.fullText
      · rw [hopen, List.map_singleton, String.join_cons, String.join_nil, String.append_empty]
  | none =>
      have hopen : s.openTexts = [] := by
        rw [RelayState.openTexts, hactive]
        rfl
      have hcalm := Scope.Calm.mintSegmentMsgId c r s
      have hnext := h.calm hcalm
      have hopen' : (r.mintSegmentMsgId s).2.openTexts = [] := hcalm.openTexts.trans hopen
      refine ⟨⟨(r.mintSegmentMsgId s).1, "", false, 0⟩, (r.mintSegmentMsgId s).2, rfl,
        fun hcreated ↦ (by cases hcreated), hnext, ?_, ?_, ?_, ?_⟩
      · obtain ⟨flushed, hstores⟩ := hnext.stores
        rw [hcalm.activeText, hactive] at hstores
        exact ⟨flushed, hstores⟩
      · intro id
        rw [hnext.streamed, hopen', List.append_nil, textUnder_append, textUnder_singleton, ite_self,
          String.append_empty]
      · rw [hnext.fullText, hopen', List.append_nil, List.map_append, join_append,
          List.map_singleton, String.join_cons, String.join_nil, String.append_empty,
          String.append_empty]
      · rw [hopen]
        rfl

theorem Scope.Streaming.extend (h : c.Streaming s closed) {segment : TextSegmentState}
    {id text : String} (hid : segment.id = id) (htext : segment.buffer = text)
    (hsound : segment.Sound) (hactive : s'.activeText = some segment)
    (hsegments : s'.textSegments = s.textSegments)
    (hok : s'.adapter.repo.failed = false → s.adapter.repo.failed = false)
    (hstores : ∃ flushed, c.Stores s'.adapter
      (storedTexts closed ++ pendingText (some segment) flushed))
    (hframes : ∀ id', textUnder id' s'.textFrames = textUnder id' (closed ++ [(id, text)]))
    (hfull : s'.fullText = String.join ((closed ++ [(id, text)]).map Prod.snd)) :
    c.Streaming s' closed ∧ String.join (s'.openTexts.map Prod.snd) = text := by
  have hopen : s'.openTexts = [(id, text)] := by
    rw [RelayState.openTexts, hactive, Option.toList_some, List.map_singleton, hid, htext]
  refine ⟨⟨hactive ▸ hstores, fun hnew ↦ ?_, ?_, hopen ▸ hframes, hopen ▸ hfull⟩, ?_⟩
  · rw [hsegments]
    exact h.segments (hok hnew)
  · intro segment' hsegment'
    rw [hactive] at hsegment'
    cases hsegment'
    exact hsound
  · rw [hopen, List.map_singleton, String.join_cons, String.join_nil, String.append_empty]

theorem Scope.Streaming.text (h : c.Streaming s closed) (r : StreamRelay) (content : String) :
    c.Streaming (r.consumeText s .active content) closed ∧
      String.join ((r.consumeText s .active content).openTexts.map Prod.snd) =
        String.join (s.openTexts.map Prod.snd) ++ content := by
  obtain ⟨s₁, hs₁⟩ : ∃ s₁, s₁ = (s.completeActiveThinking .active).mark fun attempt ↦
      { attempt with sawVisibleOutput := attempt.sawVisibleOutput || content ≠ "" } := ⟨_, rfl⟩
  have hcalm : c.Calm s s₁ := hs₁ ▸ (Scope.Calm.completeActiveThinking c s .active).trans
    (.mark c _ _)
  obtain ⟨segment, s₂, heq, hsound, hstreaming, ⟨flushed, hstores⟩, hframes, hfull, hbuffer⟩ :=
    (h.calm hcalm).openText r
  rw [hcalm.openTexts] at hbuffer
  have hstores' : c.Stores s₂.adapter (storedTexts closed ++ pendingText
      (some { segment with
        buffer := segment.buffer ++ content
        flushCounter := segment.flushCounter + 1 }) flushed) := hstores
  have hsound' : TextSegmentState.Sound { segment with
      buffer := segment.buffer ++ content
      flushCounter := segment.flushCounter + 1 } :=
    fun hcreated hempty ↦ hsound hcreated (String.append_eq_empty_iff.mp hempty).1
  have hstreamed : ∀ id, textUnder id (s₂.textFrames ++ [(segment.id, content)]) =
      textUnder id (closed ++ [(segment.id, segment.buffer ++ content)]) := by
    intro id
    rw [textUnder_append, hframes, textUnder_append, textUnder_append, textUnder_singleton,
      textUnder_singleton, textUnder_singleton, String.append_assoc]
    split
    · rfl
    · rw [String.append_empty]
  have hfull' : s₂.fullText ++ content =
      String.join ((closed ++ [(segment.id, segment.buffer ++ content)]).map Prod.snd) := by
    rw [hfull, List.map_append, List.map_append, join_append, join_append, List.map_singleton,
      List.map_singleton, String.join_cons, String.join_cons, String.join_nil,
      String.append_empty, String.append_empty, String.append_assoc]
  have hbroadcast := s₂.textFrames_broadcast segment.id (.event (.text content))
  have hframes' : ∀ id, textUnder id
      (s₂.broadcast segment.id (.event (.text content))).textFrames =
        textUnder id (closed ++ [(segment.id, segment.buffer ++ content)]) :=
    fun id ↦ (congrArg (textUnder id) hbroadcast).trans (hstreamed id)
  rw [StreamRelay.consumeText]
  simp only [← hs₁, heq]
  rw [← hbuffer]
  split
  · obtain ⟨hkept, hok, hid, htext, hsound''⟩ :=
      StreamPersistenceAdapter.flushTextSegment_spec .active hstores' hsound'
    refine hstreaming.extend ?_ ?_ ?_ rfl rfl hok ?_ hframes' hfull'
    · exact hid
    · exact htext
    · exact hsound''
    · exact hkept
  · refine hstreaming.extend rfl rfl hsound' rfl ?_ id ⟨flushed, hstores'⟩ hframes' hfull'
    rfl

theorem Scope.Streaming.tool (h : c.Streaming s closed) (event : AgentStreamEvent)
    (hevent : ∀ content, event ≠ .text content)
    {persist : StreamPersistenceAdapter → StreamPersistenceAdapter}
    (hpersist : ∀ a, c.Quiet a (persist a)) :
    c.Streaming (r.consumeTool s .active event persist) (closed ++ s.openTexts) ∧
      (r.consumeTool s .active event persist).activeText = none := by
  have hmark := Scope.Calm.mark c s fun attempt ↦ { attempt with sawToolOrSideEffect := true }
  obtain ⟨hclosed, hnone⟩ := (h.calm hmark).closeSegments .finish
  rw [hmark.openTexts] at hclosed
  have hforward := Scope.Calm.forward c r ((s.mark fun attempt ↦
    { attempt with sawToolOrSideEffect := true }).closeSegments .active .finish) event hevent
  have hcalm := hforward.trans (.adapt _ (hpersist _))
  exact ⟨hclosed.calm hcalm, hcalm.activeText.trans hnone⟩

theorem Scope.Streaming.thinking (h : c.Streaming s closed) (r : StreamRelay)
    (data : ThinkingEventData) (hrendered : (AgentStreamEvent.thinking data).interrupts = true) :
    c.Streaming (r.consumeThinking s .active data) (closed ++ s.openTexts) ∧
      (r.consumeThinking s .active data).activeText = none := by
  rw [AgentStreamEvent.interrupts, Bool.and_eq_true, decide_eq_true_eq, Bool.not_eq_true'] at hrendered
  obtain ⟨hopen, hcontent⟩ := hrendered
  obtain ⟨hclosed, hnone⟩ := h.close .finish
  have hmark := fun mark ↦ Scope.Calm.mark c (s.closeActiveTextSegment .active .finish) mark
  have hopening : ∀ s', c.Streaming s' (closed ++ s.openTexts) → s'.activeText = none →
      c.Streaming ({ (r.openThinking s').2.broadcast (r.openThinking s').1.id
        (.event (.thinking data)) with activeThinking := some { (r.openThinking s').1 with
          buffer := (r.openThinking s').1.buffer ++ data.content } }) (closed ++ s.openTexts) ∧
        (r.openThinking s').2.activeText = none := by
    intro s' hs' hnone'
    have hcalm : c.Calm s' (r.openThinking s').2 := by
      rw [StreamRelay.openThinking]
      split
      · exact .refl c s'
      · exact .mintSegmentMsgId c r s'
    have hframe := hcalm.trans (.broadcast c _ (r.openThinking s').1.id (.event (.thinking data))
      fun _ heq ↦ (by cases heq))
    exact ⟨hs'.calm ⟨hframe.adapter, hframe.frames, hframe.activeText, hframe.fullText,
      hframe.textSegments⟩, hcalm.activeText.trans hnone'⟩
  rw [StreamRelay.consumeThinking, if_neg hopen, if_neg (by rw [hcontent]; exact Bool.false_ne_true)]
  exact hopening _ (hclosed.calm (hmark _)) hnone

theorem Scope.Streaming.interrupt (h : c.Streaming s closed) (r : StreamRelay)
    {event : AgentStreamEvent} (hevent : event.interrupts = true) :
    c.Streaming (r.consumeEvent s .active event) (closed ++ s.openTexts) ∧
      (r.consumeEvent s .active event).activeText = none := by
  cases event with
  | thinking data => exact h.thinking r data hevent
  | toolCall data =>
      exact h.tool _ (fun _ heq ↦ (by cases heq)) fun _ ↦
        StreamPersistenceAdapter.quiet_persistToolCall .active data
  | acpToolCall data =>
      exact h.tool _ (fun _ heq ↦ (by cases heq)) fun _ ↦
        StreamPersistenceAdapter.quiet_persistAcpToolCall .active data
  | toolGroup entries =>
      exact h.tool _ (fun _ heq ↦ (by cases heq)) fun _ ↦
        StreamPersistenceAdapter.quiet_persistToolGroup .active entries
  | segmentBreak => exact h.closeSegments .finish
  | text _ | workflowProgress _ | tips _ | plan _ | permission | acpPermission | ask | cronTrigger
  | backendTurnBound _ | acpDialectSignal | messageLifecycle _ _ | passedOn _ | finish
  | error _ => cases hevent

theorem Scope.Calm.event (c : Scope) (r : StreamRelay) (s : RelayState) {event : AgentStreamEvent}
    (hevent : event.interrupts = false) (htext : ∀ content, event ≠ .text content) :
    c.Calm s (r.consumeEvent s .active event) := by
  cases event with
  | text content => exact absurd rfl (htext content)
  | thinking data =>
      rw [StreamRelay.consumeEvent, StreamRelay.consumeThinking]
      rw [AgentStreamEvent.interrupts, Bool.and_eq_false_iff, decide_eq_false_iff_not, not_not,
        Bool.not_eq_false'] at hevent
      split
      · exact .completeActiveThinking c s .active
      · next hdone =>
          rw [if_pos (hevent.resolve_left hdone)]
          exact .refl c s
  | toolCall _ | acpToolCall _ | toolGroup _ | segmentBreak => cases hevent
  | workflowProgress data => exact .consumeWorkflowProgress c r s .active data
  | tips data => exact .consumeTips c r s .active data
  | permission | acpPermission | ask | cronTrigger =>
      exact .consumeQuestion c r s _ fun _ heq ↦ (by cases heq)
  | plan data =>
      exact (Scope.Calm.forward c r s (.plan data) fun _ heq ↦ (by cases heq)).trans
        (.adapt _ (StreamPersistenceAdapter.quiet_persistPlan .active data r.turnId))
  | backendTurnBound id => exact .adapt s (StreamPersistenceAdapter.quiet_setBackendTurnId c _ id)
  | acpDialectSignal | messageLifecycle _ _ | finish | error _ => exact .refl c s
  | passedOn event => exact .forward c r s _ fun _ heq ↦ (by cases heq)

theorem Scope.Streaming.next (h : c.Streaming s closed) (r : StreamRelay)
    {event : AgentStreamEvent} (hevent : event.interrupts = false) :
    c.Streaming (r.consumeEvent s .active event) closed ∧
      String.join ((r.consumeEvent s .active event).openTexts.map Prod.snd) =
        String.join (s.openTexts.map Prod.snd) ++ event.textContent := by
  by_cases htext : ∃ content, event = .text content
  · obtain ⟨content, rfl⟩ := htext
    exact h.text r content
  · have hnot := fun content heq ↦ htext ⟨content, heq⟩
    have hcalm := Scope.Calm.event c r s hevent hnot
    have hcontent : event.textContent = "" := by
      rw [AgentStreamEvent.textContent]
      exact hnot
    rw [hcalm.openTexts, hcontent, String.append_empty]
    exact ⟨h.calm hcalm, rfl⟩

end Streaming

end Zaowutai.Stream
