import Zaowutai.Channel.StreamRelay

/-!
# What the chat shows in the end

The relay is compared with the text of the turn: on WeChat with its runs between
tool calls, elsewhere with all of it, which the placeholder should contain.
-/

namespace Zaowutai.Channel

open Zaowutai.Lib

inductive Ending
  | finish
  | error (message : String)
  | closed
  deriving DecidableEq, Repr

def Ending.result : Ending → RecvResult
  | finish => .ok .finish
  | error message => .ok (.error message)
  | closed => .closed

/-- The relay goes on after the event, and none was lost before it. -/
def Received.GoesOn (received : Received) : Prop :=
  match received.result with
  | .ok (.text _) | .ok (.thinking _) | .ok (.toolCall _ _) | .ok (.silent _) => True
  | _ => False

structure Turn where
  events : List Received
  goesOn : ∀ received ∈ events, received.GoesOn
  ending : Ending
  endedAt : ℤ
  rest : List Received

def Turn.received (turn : Turn) : List Received :=
  turn.events ++ ⟨turn.ending.result, turn.endedAt, turn.endedAt⟩ :: turn.rest

def textOf (received : Received) : String :=
  match received.result with
  | .ok (.text content) => content
  | _ => ""

def isText (received : Received) : Bool :=
  match received.result with
  | .ok (.text _) => true
  | _ => false

def isToolCall (received : Received) : Bool :=
  match received.result with
  | .ok (.toolCall _ _) => true
  | _ => false

def allText : List Received → String
  | [] => ""
  | received :: rest => textOf received ++ allText rest

def textRuns (events : List Received) : List String := (events.splitOnP isToolCall).map allText

def SenderCall.message : SenderCall → UnifiedOutgoingMessage
  | sendMessage _ _ _ message | editMessage _ _ _ _ message => message

def SenderCall.contentFor (messageId : String) : SenderCall → Option UnifiedOutgoingMessage
  | sendMessage _ _ _ message => some message
  | editMessage _ _ _ id message => if id = messageId then some message else none

def shownIn (messageId : String) (calls : List SenderCall) : Option UnifiedOutgoingMessage :=
  (calls.filterMap (·.contentFor messageId)).getLast?

def IsIndicator (message : UnifiedOutgoingMessage) : Prop :=
  message = buildThinkingMessage ∨
    ∃ name, message = buildStreamingMessage ("⏳ " ++ name ++ "...")

section Spec

variable (format : String → PluginType → String) (config : RelayConfig)

def Ending.errorTexts : Ending → List String
  | error message => ["❌ " ++ message]
  | _ => []

/-- The runs are sent one after the other, and the error behind them. -/
def SendsRuns (turn : Turn) (calls : List SenderCall) : Prop :=
  calls.map (·.message.text) =
    (((textRuns turn.events).filter (!isBlank ·)).map (format · config.platform) ++
      turn.ending.errorTexts).map some

def ShowsText (messageId : String) (turn : Turn) (calls : List SenderCall) : Prop :=
  ∃ message, shownIn messageId calls = some message ∧ ¬IsIndicator message ∧
    ((∃ received ∈ turn.events, textOf received ≠ "") →
      ∃ text, message.text = some text ∧
        (format (allText turn.events) config.platform).toList <:+: text.toList)

def ShowsReply (messageId : String) (now : ℤ) (turn : Turn) : Prop :=
  if config.platform = .weixin then
    SendsRuns format config turn (run format config (some messageId) now turn.received)
  else ShowsText format config messageId turn
    (run format config (some messageId) now turn.received)

def Undisturbed (held : String) (ending : Ending) : List String → Prop
  | [] => True
  | [last] => isBlank last = true ∨
      ending.errorTexts = [] ∧ format (held ++ last) config.platform = format last config.platform
  | next :: runs =>
      if isBlank next then Undisturbed (held ++ next) ending runs
      else format (held ++ next) config.platform = format next config.platform ∧
        Undisturbed "" ending runs

def EndsInText (turn : Turn) : Prop :=
  match turn.ending with
  | .error message => (∀ received ∈ turn.events, textOf received = "") ∨
      (format (allText turn.events) config.platform).toList <:+: ("❌ " ++ message).toList
  | _ => ∃ received ∈ turn.events, isText received = true

/-- The condition for a reply to be shown as a whole. -/
def KeepsText (turn : Turn) : Prop :=
  if config.platform = .weixin then Undisturbed format config "" turn.ending (textRuns turn.events)
  else EndsInText format config turn

end Spec

section Weixin

variable {format : String → PluginType → String} {config : RelayConfig} {ending : Ending}
  {held : String}

theorem Received.GoesOn.cases {received : Received} (h : received.GoesOn) :
    ∃ event, received.result = .ok event ∧
      ((∃ content, event = .text content) ∨ (∃ name status, event = .toolCall name status) ∨
        (∃ content, event = .thinking content) ∨ ∃ silent, event = .silent silent) := by
  rw [GoesOn] at h
  split at h
  · next content heq => exact ⟨_, heq, Or.inl ⟨content, rfl⟩⟩
  · next content heq => exact ⟨_, heq, Or.inr (Or.inr (Or.inl ⟨content, rfl⟩))⟩
  · next name status heq => exact ⟨_, heq, Or.inr (Or.inl ⟨name, status, rfl⟩)⟩
  · next silent heq => exact ⟨_, heq, Or.inr (Or.inr (Or.inr ⟨silent, rfl⟩))⟩
  · exact h.elim

theorem isBlank_append {a b : String} (ha : isBlank a = true) : isBlank (a ++ b) = isBlank b := by
  rw [isBlank, String.toList_append, List.all_append, ← isBlank, ha, Bool.true_and, ← isBlank]

theorem textRuns_ne_nil (events : List Received) : textRuns events ≠ [] := by
  rw [textRuns, Ne, List.map_eq_nil_iff]
  exact List.splitOnP_ne_nil isToolCall events

variable (format config ending) in
/-- What is sent of the runs when the text `held` was not sent before. -/
def sentTexts (held : String) : List String → List String
  | [] => ending.errorTexts
  | [last] =>
      (if isBlank (held ++ last) ∨ ending.errorTexts ≠ [] then []
        else [format (held ++ last) config.platform]) ++ ending.errorTexts
  | next :: runs =>
      if isBlank (held ++ next) then sentTexts (held ++ next) runs
      else format (held ++ next) config.platform :: sentTexts "" runs

theorem sentTexts_cons {next : String} {runs : List String} (hruns : runs ≠ []) :
    sentTexts format config ending held (next :: runs) =
      if isBlank (held ++ next) then sentTexts format config ending (held ++ next) runs
      else format (held ++ next) config.platform :: sentTexts format config ending "" runs := by
  obtain ⟨run, runs, rfl⟩ := List.exists_cons_of_ne_nil hruns
  rfl

theorem sentTexts_append (text run : String) (runs : List String) :
    sentTexts format config ending held ((text ++ run) :: runs) =
      sentTexts format config ending (held ++ text) (run :: runs) := by
  cases runs with
  | nil => rw [sentTexts, sentTexts, String.append_assoc]
  | cons next runs =>
      have hne : next :: runs ≠ [] := List.cons_ne_nil next runs
      rw [sentTexts_cons hne, sentTexts_cons hne, String.append_assoc]

theorem textRuns_toolCall {received : Received} {rest : List Received}
    (h : isToolCall received = true) : textRuns (received :: rest) = "" :: textRuns rest := by
  rw [textRuns, List.splitOnP_cons_eq_if_modifyHead, if_pos h]
  rfl

theorem textRuns_other {received : Received} (rest : List Received)
    (h : isToolCall received = false) : ∃ run runs, textRuns rest = run :: runs ∧
      textRuns (received :: rest) = (textOf received ++ run) :: runs := by
  obtain ⟨segment, segments, hsegments⟩ :=
    List.exists_cons_of_ne_nil (List.splitOnP_ne_nil isToolCall rest)
  refine ⟨allText segment, segments.map allText, ?_, ?_⟩
  · rw [textRuns, hsegments, List.map_cons]
  · rw [textRuns, List.splitOnP_cons_eq_if_modifyHead, h, if_neg Bool.false_ne_true, hsegments]
    rfl

theorem finalSend_texts {buffer : TextBuffer}
    (hbuffer : buffer.hasContent = false → buffer.text = "") :
    (finalSend format config buffer).map (·.message.text) =
      if isBlank buffer.text then [] else [some (format buffer.text config.platform)] := by
  rw [finalSend]
  by_cases hblank : isBlank buffer.text = true
  · simp [hblank]
  · have hcontent : buffer.hasContent = true := by
      apply Bool.eq_true_of_not_eq_false
      intro h
      rw [hbuffer h] at hblank
      exact hblank rfl
    simp only [hcontent, Bool.eq_false_of_not_eq_true hblank]
    rfl

theorem stepWeixin_ending {buffer : TextBuffer} (ending : Ending)
    (hbuffer : buffer.hasContent = false → buffer.text = "") :
    ∃ calls, stepWeixin format config buffer ending.result = (calls, none) ∧
      calls.map (·.message.text) =
        (sentTexts format config ending buffer.text [""]).map some := by
  have hfinal : (finalSend format config buffer).map (·.message.text) =
      (if isBlank buffer.text then [] else [format buffer.text config.platform]).map some := by
    rw [finalSend_texts hbuffer]
    split <;> rfl
  rw [sentTexts, String.append_empty]
  cases ending with
  | error message => exact ⟨_, rfl, by simp [Ending.errorTexts]; rfl⟩
  | finish => exact ⟨_, rfl, by simpa [Ending.errorTexts] using hfinal⟩
  | closed => exact ⟨_, rfl, by simpa [Ending.errorTexts] using hfinal⟩

theorem loopWeixin_texts {buffer : TextBuffer} (turn : Turn) (events : List Received)
    (hevents : ∀ received ∈ events, received.GoesOn)
    (hbuffer : buffer.hasContent = false → buffer.text = "") :
    (loopWeixin format config buffer (events ++
      ⟨turn.ending.result, turn.endedAt, turn.endedAt⟩ :: turn.rest)).map (·.message.text) =
      (sentTexts format config turn.ending buffer.text (textRuns events)).map some := by
  induction events generalizing buffer with
  | nil =>
      obtain ⟨calls, hstep, htexts⟩ := stepWeixin_ending turn.ending hbuffer
      have hruns : textRuns [] = [""] := rfl
      rw [List.nil_append, loopWeixin, hstep, hruns, ← htexts]
      simp
  | cons received events ih =>
      obtain ⟨hfirst, hevents⟩ := List.forall_mem_cons.mp hevents
      obtain ⟨event, hresult, hkind⟩ := hfirst.cases
      rw [List.cons_append, loopWeixin, hresult]
      rcases hkind with ⟨content, rfl⟩ | ⟨name, status, rfl⟩ | hquiet
      · obtain ⟨run, runs, hrest, hruns⟩ :=
          textRuns_other events (by rw [isToolCall, hresult])
        have htext : textOf received = content := by rw [textOf, hresult]
        rw [hruns, htext, sentTexts_append, ← hrest]
        exact ih hevents nofun
      · rw [textRuns_toolCall (by rw [isToolCall, hresult]),
          sentTexts_cons (textRuns_ne_nil events), String.append_empty]
        simp only [stepWeixin, processStreamEvent]
        by_cases hblank : isBlank buffer.text = true
        · rw [if_neg (by simp [hblank]), if_pos hblank]
          exact ih hevents hbuffer
        · have hcontent : buffer.hasContent = true := by
            apply Bool.eq_true_of_not_eq_false
            intro h
            rw [hbuffer h] at hblank
            exact hblank rfl
          rw [if_pos ⟨hcontent, by simp [hblank]⟩, if_neg hblank, List.map_append, Option.elim_some,
            ih hevents fun _ ↦ rfl]
          rfl
      · have hother : isToolCall received = false ∧ textOf received = "" ∧
            stepWeixin format config buffer (.ok event) = ([], some buffer) := by
          rw [isToolCall, textOf, hresult]
          rcases hquiet with ⟨content, rfl⟩ | ⟨silent, rfl⟩
          · exact ⟨rfl, rfl, rfl⟩
          · exact ⟨rfl, rfl, rfl⟩
        obtain ⟨htool, htext, hstep⟩ := hother
        obtain ⟨run, runs, hrest, hruns⟩ := textRuns_other events htool
        rw [hruns, htext, String.empty_append, ← hrest, hstep]
        exact ih hevents hbuffer

theorem sentTexts_eq_iff {runs : List String} (hheld : isBlank held = true) :
    sentTexts format config ending held runs =
        (runs.filter (!isBlank ·)).map (format · config.platform) ++ ending.errorTexts ↔
      Undisturbed format config held ending runs := by
  induction runs generalizing held with
  | nil => simp [sentTexts, Undisturbed]
  | cons next runs ih =>
      cases runs with
      | nil =>
          rw [sentTexts, isBlank_append hheld, Undisturbed, List.append_left_inj]
          by_cases hblank : isBlank next = true
          · rw [if_pos (Or.inl hblank), List.filter_cons_of_neg (by simp [hblank])]
            exact iff_of_true rfl (Or.inl hblank)
          · rw [List.filter_cons_of_pos (by simp [hblank])]
            by_cases herror : ending.errorTexts = []
            · rw [if_neg (by simp [hblank, herror])]
              simp [hblank, herror]
            · rw [if_pos (Or.inr herror)]
              exact iff_of_false nofun (by simp [hblank, herror])
      | cons run runs =>
          rw [sentTexts_cons (List.cons_ne_nil run runs), isBlank_append hheld, Undisturbed]
          by_cases hblank : isBlank next = true
          · rw [if_pos hblank, if_pos hblank, List.filter_cons_of_neg (by simp [hblank])]
            exact ih (by rw [isBlank_append hheld, hblank])
          · rw [if_neg hblank, if_neg hblank, List.filter_cons_of_pos (by simp [hblank]),
              List.map_cons, List.cons_append, List.cons_eq_cons, ih rfl]
          · exact List.cons_ne_nil run runs

end Weixin

section Editable

variable {format : String → PluginType → String} {config : RelayConfig} {messageId : String}
  {events : List Received}

variable (format config messageId) in
def Ending.finalEdits (ending : Ending) (buffer : TextBuffer) : List SenderCall :=
  match ending with
  | .error message => [config.edit messageId (errorMessage message)]
  | _ => sendFinalEdit format config buffer messageId

def IsToolEdit (config : RelayConfig) (messageId : String) (call : SenderCall) : Prop :=
  ∃ name, call = config.edit messageId (buildStreamingMessage ("⏳ " ++ name ++ "..."))

theorem stepEditable_ending (ending : Ending) (buffer : TextBuffer) (lastEdit endedAt : ℤ) :
    stepEditable format config messageId buffer lastEdit ⟨ending.result, endedAt, endedAt⟩ =
      (ending.finalEdits format config messageId buffer, none) := by
  cases ending <;> rfl

theorem stepEditable_goesOn {received : Received} (h : received.GoesOn) (buffer : TextBuffer)
    (lastEdit : ℤ) :
    ∃ calls lastEdit', stepEditable format config messageId buffer lastEdit received =
        (calls, some (⟨buffer.text ++ textOf received, buffer.hasContent || isText received⟩,
          lastEdit')) ∧
      (∀ call ∈ calls, ∃ message, call = config.edit messageId message) ∧
      (isText received = false → ∀ call ∈ calls, IsToolEdit config messageId call) := by
  obtain ⟨event, hresult, hkind⟩ := h.cases
  rw [stepEditable, textOf, isText, hresult]
  rcases hkind with ⟨content, rfl⟩ | ⟨name, status, rfl⟩ | ⟨content, rfl⟩ | ⟨silent, rfl⟩
  · simp only [processStreamEvent, Bool.or_true]
    split
    · refine ⟨_, _, rfl, fun call hcall ↦ ?_, nofun⟩
      exact ⟨_, List.mem_singleton.mp hcall⟩
    · exact ⟨_, _, rfl, nofun, nofun⟩
  · simp only [processStreamEvent, String.append_empty, Bool.or_false]
    refine ⟨_, _, rfl, fun call hcall ↦ ?_, fun _ call hcall ↦ ?_⟩
    · exact ⟨_, List.mem_singleton.mp hcall⟩
    · exact ⟨name, List.mem_singleton.mp hcall⟩
  · simp only [processStreamEvent, String.append_empty, Bool.or_false]
    exact ⟨_, _, rfl, nofun, fun _ ↦ nofun⟩
  · simp only [processStreamEvent, String.append_empty, Bool.or_false]
    exact ⟨_, _, rfl, nofun, fun _ ↦ nofun⟩

theorem loopEditable_calls (turn : Turn) (hevents : ∀ received ∈ events, received.GoesOn)
    (buffer : TextBuffer) (lastEdit : ℤ) :
    ∃ calls, loopEditable format config messageId buffer lastEdit (events ++
        ⟨turn.ending.result, turn.endedAt, turn.endedAt⟩ :: turn.rest) =
        calls ++ turn.ending.finalEdits format config messageId
          ⟨buffer.text ++ allText events, buffer.hasContent || events.any isText⟩ ∧
      (∀ call ∈ calls, ∃ message, call = config.edit messageId message) ∧
      (events.any isText = false → ∀ call ∈ calls, IsToolEdit config messageId call) := by
  induction events generalizing buffer lastEdit with
  | nil =>
      refine ⟨[], ?_, nofun, fun _ ↦ nofun⟩
      rw [List.nil_append, loopEditable, stepEditable_ending]
      simp [allText]
  | cons received events ih =>
      obtain ⟨hfirst, hevents⟩ := List.forall_mem_cons.mp hevents
      obtain ⟨calls, lastEdit', hstep, hedits, htools⟩ := stepEditable_goesOn hfirst buffer lastEdit
      obtain ⟨calls', hloop, hedits', htools'⟩ := ih hevents
        ⟨buffer.text ++ textOf received, buffer.hasContent || isText received⟩ lastEdit'
      refine ⟨calls ++ calls', ?_, List.forall_mem_append.mpr ⟨hedits, hedits'⟩, fun hnone ↦ ?_⟩
      · rw [List.cons_append, loopEditable, hstep]
        simp only [Option.elim_some]
        rw [hloop, allText, List.any_cons, ← String.append_assoc, ← Bool.or_assoc,
          List.append_assoc]
      · rw [List.any_cons, Bool.or_eq_false_iff] at hnone
        exact List.forall_mem_append.mpr ⟨htools hnone.1, htools' hnone.2⟩

theorem shownIn_run {calls : List SenderCall}
    (hedits : ∀ call ∈ calls, ∃ message, call = config.edit messageId message) :
    shownIn messageId (config.send buildThinkingMessage :: calls) =
      (buildThinkingMessage :: calls.map (·.message)).getLast? := by
  have hcontent : ∀ calls : List SenderCall,
      (∀ call ∈ calls, ∃ message, call = config.edit messageId message) →
      calls.filterMap (·.contentFor messageId) = calls.map (·.message) := by
    intro calls
    induction calls with
    | nil => exact fun _ ↦ rfl
    | cons call calls ih =>
        intro hedits
        obtain ⟨⟨message, rfl⟩, hrest⟩ := List.forall_mem_cons.mp hedits
        have hfirst : (config.edit messageId message).contentFor messageId = some message :=
          if_pos rfl
        rw [List.filterMap_cons_some hfirst, ih hrest]
        rfl
  have hfirst : (config.send buildThinkingMessage).contentFor messageId =
      some buildThinkingMessage := rfl
  rw [shownIn, List.filterMap_cons_some hfirst, hcontent calls hedits]

theorem not_isIndicator_error (message : String) : ¬IsIndicator (errorMessage message) := by
  have hhead : ∀ text : String, "❌ " ++ message ≠ "⏳ " ++ text := by
    intro text h
    have := congrArg (fun s : String ↦ s.toList.head?) h
    simp at this
  rintro (h | ⟨name, h⟩)
  · exact hhead "Thinking..." (Option.some.inj (congrArg UnifiedOutgoingMessage.text h))
  · have htext := Option.some.inj (congrArg UnifiedOutgoingMessage.text h)
    rw [String.append_assoc] at htext
    exact hhead _ htext

theorem not_isIndicator_final (text : String) : ¬IsIndicator (buildFinalMessage text) := by
  rintro (h | ⟨name, h⟩)
  · cases congrArg UnifiedOutgoingMessage.messageType h
  · cases congrArg UnifiedOutgoingMessage.messageType h

variable (format config messageId) in
theorem shownIn_exit (turn : Turn) (now : ℤ) :
    ∃ message, shownIn messageId
        (runEditable format config (some messageId) now turn.received) = some message ∧
      (∀ text, turn.ending = .error text → message = errorMessage text) ∧
      (turn.ending.errorTexts = [] → turn.events.any isText = true →
        message = buildFinalMessage (format (allText turn.events) config.platform)) ∧
      (turn.ending.errorTexts = [] → turn.events.any isText = false → IsIndicator message) := by
  obtain ⟨calls, hloop, hedits, htools⟩ := loopEditable_calls turn turn.goesOn ⟨"", false⟩
    (now - config.throttleMs)
  rw [String.empty_append, Bool.false_or] at hloop
  have hrun : runEditable format config (some messageId) now turn.received =
      config.send buildThinkingMessage :: (calls ++ turn.ending.finalEdits format config messageId
        ⟨allText turn.events, turn.events.any isText⟩) := by
    rw [runEditable, Option.elim_some, Turn.received, hloop]
  rw [hrun]
  -- the last edit is the one at the exit, when there is one
  have hlast : ∀ message, shownIn messageId (config.send buildThinkingMessage ::
      (calls ++ [config.edit messageId message])) = some message := by
    intro message
    rw [shownIn_run (List.forall_mem_append.mpr ⟨hedits, List.forall_mem_singleton.mpr ⟨_, rfl⟩⟩),
      List.map_append, ← List.cons_append]
    exact List.getLast?_concat
  by_cases herror : turn.ending.errorTexts = []
  · have hedit : turn.ending.finalEdits format config messageId
        ⟨allText turn.events, turn.events.any isText⟩ =
        sendFinalEdit format config ⟨allText turn.events, turn.events.any isText⟩ messageId := by
      cases hending : turn.ending with
      | error message =>
          rw [hending] at herror
          cases herror
      | finish => rfl
      | closed => rfl
    have hnoError : ∀ text, turn.ending ≠ .error text := by
      intro text h
      rw [h] at herror
      cases herror
    rw [hedit, sendFinalEdit]
    by_cases htext : turn.events.any isText = true
    · rw [if_pos htext]
      exact ⟨_, hlast _, fun text h ↦ absurd h (hnoError text), fun _ _ ↦ rfl,
        fun _ h ↦ absurd htext (by simp [h])⟩
    · have hnone : turn.events.any isText = false := Bool.eq_false_of_not_eq_true htext
      rw [if_neg htext, List.append_nil, shownIn_run hedits]
      have hmessage := List.getLast?_eq_some_getLast
        (List.cons_ne_nil buildThinkingMessage (calls.map (·.message)))
      refine ⟨_, hmessage, fun text h ↦ absurd h (hnoError text),
        fun _ h ↦ absurd h htext, fun _ _ ↦ ?_⟩
      rcases List.mem_cons.mp (List.mem_of_getLast? hmessage) with hfirst | hmem
      · exact Or.inl hfirst
      · obtain ⟨call, hcall, hcallMessage⟩ := List.mem_map.mp hmem
        obtain ⟨name, rfl⟩ := htools hnone call hcall
        exact Or.inr ⟨name, hcallMessage.symm⟩
  · obtain ⟨text, hending⟩ : ∃ text, turn.ending = .error text := by
      cases hending : turn.ending with
      | error text => exact ⟨text, rfl⟩
      | finish => exact absurd (by rw [hending]; rfl) herror
      | closed => exact absurd (by rw [hending]; rfl) herror
    rw [hending]
    refine ⟨_, hlast (errorMessage text), ?_, fun h ↦ absurd h nofun, fun h ↦ absurd h nofun⟩
    rintro other ⟨⟩
    rfl

theorem showsText_iff (turn : Turn) (now : ℤ) :
    ShowsText format config messageId turn
        (runEditable format config (some messageId) now turn.received) ↔
      EndsInText format config turn := by
  obtain ⟨message, hshown, herror, hfinal, hindicator⟩ :=
    shownIn_exit format config messageId turn now
  have hshows : ShowsText format config messageId turn
        (runEditable format config (some messageId) now turn.received) ↔
      ¬IsIndicator message ∧ ((∃ received ∈ turn.events, textOf received ≠ "") →
        ∃ text, message.text = some text ∧
          (format (allText turn.events) config.platform).toList <:+: text.toList) := by
    rw [ShowsText, hshown]
    simp only [Option.some.injEq, exists_eq_left']
  have htext : turn.ending.errorTexts = [] →
      (ShowsText format config messageId turn
          (runEditable format config (some messageId) now turn.received) ↔
        ∃ received ∈ turn.events, isText received = true) := by
    intro hnoError
    rw [hshows, ← List.any_eq_true]
    by_cases hany : turn.events.any isText = true
    · rw [hfinal hnoError hany]
      exact iff_of_true ⟨not_isIndicator_final _, fun _ ↦ ⟨_, rfl, List.infix_rfl⟩⟩ hany
    · have hindicates := hindicator hnoError (Bool.eq_false_of_not_eq_true hany)
      exact iff_of_false (fun h ↦ h.1 hindicates) hany
  rw [EndsInText]
  cases hending : turn.ending with
  | finish => exact htext (by rw [hending]; rfl)
  | closed => exact htext (by rw [hending]; rfl)
  | error text =>
      rw [hshows, herror text hending]
      simp only [not_isIndicator_error, not_false_eq_true, true_and]
      constructor
      · intro h
        by_cases hempty : ∀ received ∈ turn.events, textOf received = ""
        · exact Or.inl hempty
        · simp only [not_forall] at hempty
          obtain ⟨received, hreceived, hne⟩ := hempty
          obtain ⟨shown, hshown, hinfix⟩ := h ⟨received, hreceived, hne⟩
          rw [← Option.some.inj hshown] at hinfix
          exact Or.inr hinfix
      · rintro (hempty | hinfix) ⟨received, hreceived, hne⟩
        · exact absurd (hempty received hreceived) hne
        · exact ⟨_, rfl, hinfix⟩

end Editable

/-- The chat ends up showing the whole reply exactly if the relay keeps its text. -/
theorem showsReply_iff (format : String → PluginType → String) (config : RelayConfig)
    (messageId : String) (now : ℤ) (turn : Turn) :
    ShowsReply format config messageId now turn ↔ KeepsText format config turn := by
  rw [ShowsReply, KeepsText, run]
  by_cases hweixin : config.platform = .weixin
  · rw [if_pos hweixin, if_pos hweixin, if_pos hweixin, SendsRuns, runWeixin, Turn.received,
      loopWeixin_texts turn turn.events turn.goesOn fun _ ↦ rfl, ← sentTexts_eq_iff rfl]
    exact (List.map_injective_iff.mpr (Option.some_injective String)).eq_iff
  · rw [if_neg hweixin, if_neg hweixin, if_neg hweixin]
    exact showsText_iff turn now

def textThenError : Turn where
  events := [⟨.ok (.text "Hello"), 0, 0⟩]
  goesOn := List.forall_mem_singleton.mpr trivial
  ending := .error "timeout"
  endedAt := 0
  rest := []

/-- The text before the error is never sent. -/
theorem text_not_sent :
    ¬ ∀ (format : String → PluginType → String) (config : RelayConfig) (messageId : String)
      (now : ℤ) (turn : Turn), ShowsReply format config messageId now turn := by
  intro h
  have hsends := h (fun text _ ↦ text) ⟨"u", .weixin, "p", "c", 500⟩ "m" 0 textThenError
  have hlength := congrArg List.length hsends
  exact absurd hlength (by decide)

end Zaowutai.Channel
