import Zaowutai.Lib.Run
import Zaowutai.MessageList.IndexUpdates

/-!
# One message, one card

A message that has an arm of its own changes at most the card it belongs to.  The
other messages take the place of the card that was last indexed under their
`msgId`, whatever it is.
-/

namespace Zaowutai.MessageList

open Zaowutai.Lib

variable {list : List TMessage} {message existing last m : TMessage} {effect : Effect}
  {key : Slot × String} {i : ℕ}

/-- What tells a card from the others of its type. -/
def identity (message : TMessage) : Option String :=
  match message.content with
  | .toolCall content => truthy content.callId
  | .permission content => truthy content.callId
  | .acpToolCall content => truthy content.update.toolCallId
  | .acpTerminalOutput content => truthy content.terminalId
  | .tips content => truthy content.supersedesKey
  | .plan _ => truthy message.msgId
  | .thinking _ => truthy message.msgId
  | _ => none

def SameCard (existing message : TMessage) : Prop :=
  existing.type = message.type ∧ identity existing = identity message

def textOf (message : TMessage) : Option String :=
  match message.content with
  | .text content => some content.content
  | .thinking content => some content.content
  | _ => none

/-- What was written stays in front of what is written. -/
def TextKept (before after : Option String) : Prop :=
  ∀ text, before = some text → ∃ more, after = some (text ++ more)

def replacesText (message : TMessage) : Bool :=
  match message.content with
  | .text content => content.replace = some true
  | _ => false

def composeFresh (list : List TMessage) (message : TMessage) : List TMessage :=
  (composeMessageWithIndex message list (buildMessageIndex list)).1

inductive KeepsCards (list : List TMessage) (message : TMessage) : List TMessage → Prop where
  | unchanged : KeepsCards list message list
  | appended : KeepsCards list message (list ++ [message])
  | sanitized : KeepsCards list message (list ++ [sanitizeMessageForList message])
  | changed (i : ℕ) (existing updated : TMessage) (hexisting : list[i]? = some existing)
      (hcard : SameCard existing message) : KeepsCards list message (list.set i updated)

def textAt (list : List TMessage) (i : ℕ) : Option String := list[i]?.bind textOf

def KeepsTexts (list : List TMessage) (messages : List TMessage) : Prop :=
  ∀ i, TextKept (textAt list i) (textAt (run composeFresh list messages) i)

def hasArm (message : TMessage) : Bool :=
  match message.content with
  | .toolGroup _ => true
  | .text _ => (truthy message.msgId).isSome
  | _ => (identity message).isSome

/-- The card whose place a message without an arm takes. -/
def takenOver (list : List TMessage) (message : TMessage) : Option TMessage :=
  match (truthy message.msgId).bind fun msgId ↦ known list (.msgId, msgId) with
  | some (_, existing) => some existing
  | none => list.getLast?.filter fun last ↦ last.msgId = message.msgId ∧ last.type = message.type

def Spares (list : List TMessage) (message : TMessage) : Prop :=
  hasArm message = true ∨
    ∀ existing ∈ takenOver list message, SameCard existing message ∧ textOf existing = none

section Texts

theorem TextKept.refl (text : Option String) : TextKept text text :=
  fun text h ↦ ⟨"", by rw [h, String.append_empty]⟩

theorem textKept_of_none (after : Option String) : TextKept none after := by
  intro text h
  cases h

theorem TextKept.trans {a b c : Option String} (h : TextKept a b) (h' : TextKept b c) :
    TextKept a c := by
  intro text ha
  obtain ⟨more, hb⟩ := h text ha
  obtain ⟨more', hc⟩ := h' _ hb
  exact ⟨more ++ more', by rw [hc, String.append_assoc]⟩

theorem textOf_withTools {tools updated : List Tool} (h : message.content = .toolGroup tools) :
    textOf { message with content := .toolGroup updated } = textOf message := by
  simp only [textOf, h]

theorem textOf_updateToolGroups {remaining : List Tool} :
    (updateToolGroups remaining list).1.map textOf = list.map textOf := by
  induction list generalizing remaining with
  | nil => rfl
  | cons message list ih =>
      rw [updateToolGroups]
      cases hcontent : message.content with
      | toolGroup tools =>
          simp only [List.map_cons, ih]
          rw [textOf_withTools hcontent]
      | _ => simp only [List.map_cons, ih]

theorem composeToolGroup_texts {tools : List Tool} {result : List TMessage}
    (h : composeToolGroup message tools list = some result) (i : ℕ) :
    TextKept (textAt list i) (textAt result i) := by
  have htexts : (updateToolGroups (toolMap tools) list).1.map textOf = list.map textOf :=
    textOf_updateToolGroups
  rw [composeToolGroup] at h
  split at h
  · cases h
  · split at h
    next updatedList left heq =>
    rw [heq] at htexts
    have hkept : ∀ more : List TMessage,
        TextKept (textAt list i) (textAt (updatedList ++ more) i) := by
      intro more text htext
      rw [textAt, Option.bind_eq_some_iff] at htext
      obtain ⟨a, ha, htext⟩ := htext
      have hat : (updatedList.map textOf)[i]? = some (some text) := by
        rw [htexts, List.getElem?_map, ha, Option.map_some, htext]
      rw [List.getElem?_map, Option.map_eq_some_iff] at hat
      obtain ⟨b, hb, htext'⟩ := hat
      have hlt : i < updatedList.length := (List.getElem?_eq_some_iff.mp hb).1
      refine ⟨"", ?_⟩
      rw [textAt, List.getElem?_append_left hlt, hb, Option.bind_some, htext', String.append_empty]
    split at h
    · obtain rfl := Option.some.inj h
      simpa using hkept []
    · obtain rfl := Option.some.inj h
      exact hkept _

end Texts

section Arms

def Effect.Keeps (list : List TMessage) (message : TMessage) : Effect → Prop
  | keep => True
  | append m _ => m = message ∨ m = sanitizeMessageForList message
  | replace i m => ∃ existing, list[i]? = some existing ∧ SameCard existing message ∧
      (replacesText message = false → TextKept (textOf existing) (textOf m))
  | regroup result => message.type = .toolGroup ∧
      ∀ i, TextKept (textAt list i) (textAt result i)

theorem keeps_last (hlast : list.getLast? = some last) (hcard : SameCard last message)
    (htext : replacesText message = false → TextKept (textOf last) (textOf m)) :
    (Effect.replace (list.length - 1) m).Keeps list message :=
  ⟨last, by rw [← List.getLast?_eq_getElem?, hlast], hcard, htext⟩

theorem identity_eq_of_ownKey {k : String} {slot : Slot} (h : (slot, k) ∈ indexKeys existing)
    (hslot : slot ≠ .msgId) : identity existing = some k := by
  rw [indexKeys, List.mem_append] at h
  obtain h | h := h
  · simp only [msgIdKey, Option.mem_toList, Option.map_eq_some_iff, Prod.mk.injEq] at h
    obtain ⟨_, -, rfl, -⟩ := h
    exact absurd rfl hslot
  · rw [ownKey] at h
    rw [identity]
    cases hcontent : existing.content <;>
      simp_all [Option.mem_toList]

theorem truthy_eq_of_key {start k : String} (h : (Slot.msgId, start ++ k) ∈ indexKeys existing)
    (hkey : getMessageIndexKey existing = (truthy existing.msgId).map (start ++ ·)) :
    truthy existing.msgId = some k := by
  rw [indexKeys, List.mem_append] at h
  obtain h | h := h
  · simp only [msgIdKey, hkey, Option.mem_toList, Option.map_map, Option.map_eq_some_iff,
      Function.comp_apply, Prod.mk.injEq, true_and, String.append_right_inj] at h
    obtain ⟨k', hk', rfl⟩ := h
    exact hk'
  · rw [ownKey] at h
    split at h <;> simp at h

theorem composeOther_keeps (hlast : list.getLast? = some last)
    (htaken : ∀ existing ∈ takenOver list message,
      SameCard existing message ∧ textOf existing = none) :
    (composeOther message last list (known list)).Keeps list message := by
  have hafter : takenOver list message = list.getLast?.filter
      (fun last ↦ last.msgId = message.msgId ∧ last.type = message.type) →
      (composeAfterLast message last list).Keeps list message := by
    intro htake
    rw [composeAfterLast]
    split
    · exact Or.inl rfl
    · next hsame =>
        rw [not_or, not_not, not_not] at hsame
        have hmem : last ∈ takenOver list message := by
          rw [htake, hlast, Option.filter_some, if_pos (decide_eq_true hsame)]
          rfl
        obtain ⟨hcard, htext⟩ := htaken last hmem
        refine keeps_last hlast hcard fun _ ↦ ?_
        rw [htext]
        exact textKept_of_none _
  rw [composeOther]
  cases hmsg : truthy message.msgId with
  | none => exact hafter (by rw [takenOver, hmsg]; rfl)
  | some msgId =>
      simp only
      cases hfound : known list (.msgId, msgId) with
      | none => exact hafter (by rw [takenOver, hmsg, Option.bind_some, hfound])
      | some entry =>
          obtain ⟨hcard, htext⟩ := htaken entry.2
            (by rw [takenOver, hmsg, Option.bind_some, hfound]; rfl)
          refine ⟨entry.2, (known_eq_some hfound).1, hcard, fun _ ↦ ?_⟩
          rw [htext]
          exact textKept_of_none _

theorem keeps_known {k : String} {slot : Slot} {entry : ℕ × TMessage}
    (hfound : known list (slot, k) = some entry) (hslot : slot ≠ .msgId)
    (htype : entry.2.type = message.type) (hidentity : identity message = some k)
    (htext : textOf entry.2 = none) : (Effect.replace entry.1 m).Keeps list message := by
  obtain ⟨hat, hkey⟩ := known_eq_some hfound
  refine ⟨entry.2, hat, ⟨htype, (identity_eq_of_ownKey hkey hslot).trans hidentity.symm⟩, ?_⟩
  intro _
  rw [htext]
  exact textKept_of_none _

theorem composeToolCall_keeps {content : ToolCallContent} {callId : String}
    (hcontent : message.content = .toolCall content) (hid : truthy content.callId = some callId) :
    (composeToolCall message (known list) content callId).Keeps list message := by
  rw [composeToolCall]
  split
  · next i entry hfound =>
      split
      · next old hold =>
          apply keeps_known hfound Slot.noConfusion
          · simp only [TMessage.type, hold, hcontent, Content.type]
          · simp only [identity, hcontent, hid]
          · simp only [textOf, hold]
      · exact Or.inl rfl
  · exact Or.inl rfl

theorem composeTerminalOutput_keeps {content : TerminalContent} {terminalId : String}
    (hcontent : message.content = .acpTerminalOutput content)
    (hid : truthy content.terminalId = some terminalId) :
    (composeTerminalOutput message (known list) terminalId).Keeps list message := by
  rw [composeTerminalOutput]
  split
  · next i entry hfound =>
      split
      · next old hold =>
          apply keeps_known hfound Slot.noConfusion
          · simp only [TMessage.type, hold, hcontent, Content.type]
          · simp only [identity, hcontent, hid]
          · simp only [textOf, hold]
      · exact Or.inl rfl
  · exact Or.inl rfl

theorem composeAcpToolCall_keeps {content : ToolCallUpdate} {toolCallId : String}
    (hcontent : message.content = .acpToolCall content)
    (hid : truthy content.update.toolCallId = some toolCallId) :
    (composeAcpToolCall message (known list) content toolCallId).Keeps list message := by
  rw [composeAcpToolCall]
  split
  · next i entry hfound =>
      split
      · next old hold =>
          apply keeps_known hfound Slot.noConfusion
          · simp only [TMessage.type, hold, hcontent, Content.type]
          · simp only [identity, hcontent, hid]
          · simp only [textOf, hold]
      · exact Or.inr rfl
  · exact Or.inr rfl

theorem composePermission_keeps {content : Confirmation} {callId : String}
    (hcontent : message.content = .permission content)
    (hid : truthy content.callId = some callId) :
    (composePermission message (known list) callId).Keeps list message := by
  rw [composePermission]
  split
  · next i entry hfound =>
      split
      · next old hold =>
          apply keeps_known hfound Slot.noConfusion
          · simp only [TMessage.type, hold, hcontent, Content.type]
          · simp only [identity, hcontent, hid]
          · simp only [textOf, hold]
      · exact Or.inl rfl
  · exact Or.inl rfl

theorem composeSupersedingTip_keeps {content : TipsContent} {k : String}
    (hcontent : message.content = .tips content) (hkey : truthy content.supersedesKey = some k) :
    (composeSupersedingTip message list k).Keeps list message := by
  rw [composeSupersedingTip]
  split
  · next existing i hfound =>
      have hat : list[i]? = some existing := by
        have hmem := List.mem_of_find?_eq_some hfound
        rwa [List.mem_zipIdx_iff_getElem?] at hmem
      have htip := List.find?_some hfound
      simp only at htip
      split at htip
      · next old hold =>
          have hsame : truthy old.supersedesKey = some k := by
            rw [of_decide_eq_true htip, truthy]
            rw [truthy, Option.filter_eq_some_iff] at hkey
            exact Option.filter_eq_some_iff.mpr ⟨rfl, hkey.2⟩
          refine ⟨existing, hat, ⟨?_, ?_⟩, fun _ ↦ ?_⟩
          · simp only [TMessage.type, hold, hcontent, Content.type]
          · simp only [identity, hold, hcontent, hsame, hkey]
          · simp only [textOf, hold]
            exact textKept_of_none _
      · cases htip
  · exact Or.inl rfl

theorem composePlan_keeps {fields : Fields} {msgId : String}
    (hcontent : message.content = .plan fields) (hmsg : truthy message.msgId = some msgId) :
    (composePlan message (known list) msgId).Keeps list message := by
  rw [composePlan]
  split
  · next i entry hfound =>
      split
      · next old hold =>
          obtain ⟨hat, hkey⟩ := known_eq_some hfound
          have hid : truthy entry.msgId = some msgId :=
            truthy_eq_of_key hkey (by simp only [getMessageIndexKey, hold])
          refine ⟨entry, hat, ⟨?_, ?_⟩, fun _ ↦ ?_⟩
          · simp only [TMessage.type, hold, hcontent, Content.type]
          · simp only [identity, hold, hcontent, hid, hmsg]
          · simp only [textOf, hold]
            exact textKept_of_none _
      · exact Or.inl rfl
  · exact Or.inl rfl

theorem composeText_keeps {content : TextContent} {msgId : String}
    (hlast : list.getLast? = some last) (hcontent : message.content = .text content) :
    (composeText message last list (known list) content msgId).Keeps list message := by
  rw [composeText]
  split
  · trivial
  · rw [composeTextChunk]
    split
    · next old hold =>
        split
        · apply keeps_last hlast
          · constructor
            · simp only [TMessage.type, hold, hcontent, Content.type]
            · simp only [identity, hold, hcontent]
          · intro hreplace text htext
            simp only [replacesText, hcontent, decide_eq_false_iff_not] at hreplace
            simp only [textOf, hold, Option.some.injEq] at htext
            subst htext
            refine ⟨content.content, ?_⟩
            simp only [textOf, mergeTextMessageContent, if_neg hreplace]
        · exact Or.inl rfl
    · exact Or.inl rfl

theorem composeThinking_keeps {content : ThinkingContent} {msgId : String}
    (hlast : list.getLast? = some last) (hcontent : message.content = .thinking content)
    (hmsg : truthy message.msgId = some msgId) :
    (composeThinking message last list (known list) content msgId).Keeps list message := by
  have hchunk : (composeThinkingChunk message last list content msgId).Keeps list message := by
    rw [composeThinkingChunk]
    split
    · next old hold =>
        split
        · next hturn =>
            apply keeps_last hlast
            · constructor
              · simp only [TMessage.type, hold, hcontent, Content.type]
              · simp only [identity, hold, hcontent, hturn]
            · intro _ text htext
              simp only [textOf, hold, Option.some.injEq] at htext
              subst htext
              exact ⟨content.content, rfl⟩
        · exact Or.inl rfl
    · exact Or.inl rfl
  rw [composeThinking]
  split
  · split
    · next i entry hfound =>
        split
        · next old hold =>
            obtain ⟨hat, hkey⟩ := known_eq_some hfound
            have hid : truthy entry.msgId = some msgId :=
              truthy_eq_of_key hkey (by simp only [getMessageIndexKey, hold])
            refine ⟨entry, hat, ⟨?_, ?_⟩, fun _ ↦ ?_⟩
            · simp only [TMessage.type, hold, hcontent, Content.type]
            · simp only [identity, hold, hcontent, hid, hmsg]
            · simp only [textOf, hold]
              exact TextKept.refl _
        · exact hchunk
    · exact hchunk
  · exact hchunk

theorem composeEffect_keeps (hspares : Spares list message) :
    (composeEffect message list (known list)).Keeps list message := by
  rw [composeEffect]
  split
  · trivial
  · cases hlast : list.getLast? with
    | none => exact Or.inr rfl
    | some last =>
        simp only
        have hother : hasArm message = false →
            (composeOther message last list (known list)).Keeps list message := by
          intro harm
          refine composeOther_keeps hlast (hspares.resolve_left ?_)
          rw [harm]
          exact Bool.false_ne_true
        rw [composeArm]
        cases hcontent : message.content with
        | toolGroup tools =>
            simp only
            cases hresult : composeToolGroup message tools list with
            | none => trivial
            | some result =>
                exact ⟨by simp only [TMessage.type, hcontent, Content.type],
                  composeToolGroup_texts hresult⟩
        | tips content =>
            simp only
            cases hid : truthy content.supersedesKey with
            | none => exact hother (by simp only [hasArm, identity, hcontent, hid]; rfl)
            | some k => exact composeSupersedingTip_keeps hcontent hid
        | toolCall content =>
            simp only
            cases hid : truthy content.callId with
            | none => exact hother (by simp only [hasArm, identity, hcontent, hid]; rfl)
            | some callId => exact composeToolCall_keeps hcontent hid
        | acpTerminalOutput content =>
            simp only
            cases hid : truthy content.terminalId with
            | none => exact hother (by simp only [hasArm, identity, hcontent, hid]; rfl)
            | some terminalId => exact composeTerminalOutput_keeps hcontent hid
        | acpToolCall content =>
            simp only
            cases hid : truthy content.update.toolCallId with
            | none => exact hother (by simp only [hasArm, identity, hcontent, hid]; rfl)
            | some toolCallId => exact composeAcpToolCall_keeps hcontent hid
        | permission content =>
            simp only
            cases hid : truthy content.callId with
            | none => exact hother (by simp only [hasArm, identity, hcontent, hid]; rfl)
            | some callId => exact composePermission_keeps hcontent hid
        | text content =>
            simp only
            cases hmsg : truthy message.msgId with
            | none => exact hother (by simp only [hasArm, hcontent, hmsg]; rfl)
            | some msgId => exact composeText_keeps hlast hcontent
        | thinking content =>
            simp only
            cases hmsg : truthy message.msgId with
            | none => exact hother (by simp only [hasArm, identity, hcontent, hmsg]; rfl)
            | some msgId => exact composeThinking_keeps hlast hcontent hmsg
        | plan fields =>
            simp only
            cases hmsg : truthy message.msgId with
            | none => exact hother (by simp only [hasArm, identity, hcontent, hmsg]; rfl)
            | some msgId => exact composePlan_keeps hcontent hmsg
        | agentStatus fields => exact hother (by simp only [hasArm, identity, hcontent]; rfl)
        | acpPermission fields => exact hother (by simp only [hasArm, identity, hcontent]; rfl)
        | ask fields => exact hother (by simp only [hasArm, identity, hcontent]; rfl)
        | availableCommands fields =>
            exact hother (by simp only [hasArm, identity, hcontent]; rfl)

end Arms

section Claims

theorem keepsCards_of_spares (htype : message.type ≠ .toolGroup) (hspares : Spares list message) :
    KeepsCards list message (composeFresh list message) := by
  have hkeeps := composeEffect_keeps hspares
  rw [composeFresh, composeMessageWithIndex]
  change KeepsCards list message ((composeEffect message list (known list)).apply list _).1
  cases heffect : composeEffect message list (known list) with
  | keep => exact .unchanged
  | append m recorded =>
      rw [heffect] at hkeeps
      obtain rfl | rfl := hkeeps
      · exact .appended
      · exact .sanitized
  | replace i m =>
      rw [heffect] at hkeeps
      obtain ⟨existing, hat, hcard, -⟩ := hkeeps
      exact .changed i existing m hat hcard
  | regroup result =>
      rw [heffect] at hkeeps
      exact absurd hkeeps.1 htype

theorem textKept_composeFresh (hspares : Spares list message)
    (hreplace : replacesText message = false) (i : ℕ) :
    TextKept (textAt list i) (textAt (composeFresh list message) i) := by
  have hkeeps := composeEffect_keeps hspares
  rw [composeFresh, composeMessageWithIndex]
  change TextKept _ (textAt ((composeEffect message list (known list)).apply list _).1 i)
  cases heffect : composeEffect message list (known list) with
  | keep => exact TextKept.refl _
  | append m recorded =>
      intro text htext
      rw [textAt, Option.bind_eq_some_iff] at htext
      obtain ⟨a, ha, htext⟩ := htext
      have hlt : i < list.length := (List.getElem?_eq_some_iff.mp ha).1
      refine ⟨"", ?_⟩
      rw [Effect.apply, textAt, List.getElem?_append_left hlt, ha, Option.bind_some, htext,
        String.append_empty]
  | replace j m =>
      rw [heffect] at hkeeps
      obtain ⟨existing, hat, -, htext⟩ := hkeeps
      have hlt : j < list.length := (List.getElem?_eq_some_iff.mp hat).1
      rw [Effect.apply, textAt, textAt, List.getElem?_set]
      by_cases hij : j = i
      · subst hij
        rw [if_pos rfl, if_pos hlt, hat]
        exact htext hreplace
      · rw [if_neg hij]
        exact TextKept.refl _
  | regroup result =>
      rw [heffect] at hkeeps
      exact hkeeps.2 i

/-- A message that spares the others changes its own card only, and no text is removed by messages
that do so and replace no text. -/
theorem cards_kept (list : List TMessage) :
    (∀ message, message.type ≠ .toolGroup → Spares list message →
      KeepsCards list message (composeFresh list message)) ∧
    ∀ messages, Meets composeFresh
      (fun list message ↦ Spares list message ∧ replacesText message = false) list messages →
      KeepsTexts list messages := by
  refine ⟨fun message ↦ keepsCards_of_spares, fun messages hmessages ↦ ?_⟩
  induction messages generalizing list with
  | nil => exact fun i ↦ TextKept.refl _
  | cons message messages ih =>
      obtain ⟨⟨hspares, hreplace⟩, hrest⟩ := hmessages
      intro i
      exact (textKept_composeFresh hspares hreplace i).trans (ih _ hrest i)

def liveMessage (content : Content) : TMessage :=
  ⟨"id", some "turn", "conversation", some .left, content, ∅⟩

/-- A plan and a second chunk come after a first one. -/
theorem cards_kept_turn :
    KeepsCards [liveMessage (.text ⟨"a", none, none, ∅⟩)] (liveMessage (.plan ∅))
        (composeFresh [liveMessage (.text ⟨"a", none, none, ∅⟩)] (liveMessage (.plan ∅))) ∧
      KeepsTexts [liveMessage (.text ⟨"a", none, none, ∅⟩)]
        [liveMessage (.plan ∅), liveMessage (.text ⟨"b", none, none, ∅⟩)] := by
  obtain ⟨hcards, htexts⟩ := cards_kept [liveMessage (.text ⟨"a", none, none, ∅⟩)]
  refine ⟨hcards _ (by decide) (Or.inl (by decide)), htexts _ ?_⟩
  exact ⟨⟨Or.inl (by decide), rfl⟩, ⟨Or.inl (by decide), rfl⟩, trivial⟩

/-- A text that replaces the answer so far removes it. -/
theorem text_replaced :
    ¬ ∀ list, (∃ messages, run composeFresh [] messages = list) →
      (∀ message, message.type ≠ .toolGroup →
        KeepsCards list message (composeFresh list message)) ∧
      ∀ messages, KeepsTexts list messages := by
  intro h
  have hbuilt : run composeFresh [] [liveMessage (.text ⟨"a", none, none, ∅⟩)] =
      [liveMessage (.text ⟨"a", none, none, ∅⟩)] := rfl
  obtain ⟨more, hmore⟩ :=
    (h _ ⟨_, hbuilt⟩).2 [liveMessage (.text ⟨"b", some true, none, ∅⟩)] 0 "a" rfl
  have htext : textAt (run composeFresh [liveMessage (.text ⟨"a", none, none, ∅⟩)]
      [liveMessage (.text ⟨"b", some true, none, ∅⟩)]) 0 = some "b" := rfl
  rw [htext, Option.some.injEq] at hmore
  have hhead := congrArg (fun s ↦ s.toList.head?) hmore
  simp at hhead

end Claims

end Zaowutai.MessageList
