import Mathlib.Data.List.Induction
import Zaowutai.MessageList.Compose

/-!
# The index of a message list

A message index gives the last place of a key.  Every effect updates the index
by hand; what it leaves out becomes stale until the key is recorded again.
-/

namespace Zaowutai.MessageList

open Zaowutai.Lib

variable {index index' : MessageIndex} {list : List TMessage} {message last m : TMessage}
  {key key' : Slot × String} {recorded : List (Slot × String)} {i : ℕ}
  {find find' : Slot × String → Option (ℕ × TMessage)}

section Lookup

@[simp] theorem MessageIndex.lookup_empty : MessageIndex.empty.lookup key = none := by
  obtain ⟨slot, k⟩ := key
  cases slot <;> exact AList.lookup_empty k

@[simp] theorem MessageIndex.lookup_set :
    (index.set key i).lookup key' = if key' = key then some i else index.lookup key' := by
  obtain ⟨slot, k⟩ := key
  obtain ⟨slot', k'⟩ := key'
  cases slot <;> cases slot' <;>
    simp [MessageIndex.set, MessageIndex.lookup, MessageIndex.get, Table.lookup_insert_eq]

@[simp] theorem MessageIndex.lookup_setAll {keys : List (Slot × String)} :
    (index.setAll keys i).lookup key = if key ∈ keys then some i else index.lookup key := by
  induction keys generalizing index with
  | nil => simp [MessageIndex.setAll]
  | cons k keys ih =>
      change ((index.set k i).setAll keys i).lookup key = _
      rw [ih, MessageIndex.lookup_set]
      by_cases hk : key ∈ keys
      · rw [if_pos hk, if_pos (List.mem_cons_of_mem k hk)]
      · rw [if_neg hk]
        simp only [List.mem_cons, hk, or_false]

theorem lookup_buildMessageIndex :
    (buildMessageIndex list).lookup key = lastIndex indexKeys list key := by
  induction list using List.reverseRecOn with
  | nil => exact MessageIndex.lookup_empty
  | append_singleton list message ih =>
      rw [lastIndex_append, ← ih, buildMessageIndex, List.zipIdx_append, List.foldl_append]
      simp only [List.zipIdx_cons, List.zipIdx_nil, List.foldl_cons, List.foldl_nil, Nat.zero_add]
      refine MessageIndex.lookup_setAll.trans ?_
      by_cases hkey : key ∈ indexKeys message
      · rw [if_pos hkey, if_pos hkey]
      · rw [if_neg hkey, if_neg hkey]
        rfl

def known (list : List TMessage) : Slot × String → Option (ℕ × TMessage) :=
  (buildMessageIndex list).find list

theorem known_eq :
    known list key = (lastIndex indexKeys list key).bind fun i ↦
      list[i]?.map fun existing ↦ (i, existing) := by
  rw [known, MessageIndex.find, lookup_buildMessageIndex]

theorem known_eq_some {entry : ℕ × TMessage} (h : known list key = some entry) :
    list[entry.1]? = some entry.2 ∧ key ∈ indexKeys entry.2 := by
  rw [known_eq, Option.bind_eq_some_iff] at h
  obtain ⟨i, hi, hentry⟩ := h
  obtain ⟨existing, hexisting, rfl⟩ := Option.map_eq_some_iff.mp hentry
  obtain ⟨a, ha, hkey⟩ := getElem?_of_lastIndex hi
  obtain rfl := Option.some.inj (hexisting.symm.trans ha)
  exact ⟨ha, hkey⟩

theorem find_congr (h : index.lookup key = index'.lookup key) :
    index.find list key = index'.find list key := by
  rw [MessageIndex.find, MessageIndex.find, h]

end Lookup

section Asks

/-- The key whose place decides what becomes of the message. -/
def asks (message : TMessage) : Option (Slot × String) :=
  let other : Option (Slot × String) := (truthy message.msgId).map (Slot.msgId, ·)
  match message.content with
  | .toolGroup _ => none
  | .tips content =>
      match truthy content.supersedesKey with
      | some _ => none
      | none => other
  | .toolCall content => ((truthy content.callId).map (Slot.callId, ·)).or other
  | .acpTerminalOutput content => ((truthy content.terminalId).map (Slot.terminalId, ·)).or other
  | .acpToolCall content =>
      ((truthy content.update.toolCallId).map (Slot.toolCallId, ·)).or other
  | .permission content => ((truthy content.callId).map (Slot.permissionCallId, ·)).or other
  | .text content =>
      if message.position = some .right ∨ content.teammateMessage = some true then other else none
  | .thinking content =>
      if content.status = .done then
        (truthy message.msgId).map fun msgId ↦ (Slot.msgId, "thinking:" ++ msgId)
      else none
  | .plan _ => (truthy message.msgId).map fun msgId ↦ (Slot.msgId, "plan:" ++ msgId)
  | _ => other

theorem composeArm_congr (h : ∀ key, asks message = some key → find key = find' key) :
    composeArm message last list find = composeArm message last list find' := by
  have hother : asks message = (truthy message.msgId).map (Slot.msgId, ·) →
      composeOther message last list find = composeOther message last list find' := by
    intro hasks
    rw [composeOther, composeOther]
    cases hmsg : truthy message.msgId with
    | none => rfl
    | some msgId => simp only [h (.msgId, msgId) (by rw [hasks, hmsg, Option.map_some])]
  rw [composeArm, composeArm]
  cases hcontent : message.content with
  | toolGroup tools => rfl
  | tips content =>
      simp only
      cases hkey : truthy content.supersedesKey with
      | some key => rfl
      | none => exact hother (by simp only [asks, hcontent, hkey])
  | toolCall content =>
      simp only
      cases hid : truthy content.callId with
      | some callId =>
          have hask : asks message = some (.callId, callId) := by simp [asks, hcontent, hid]
          simp only [composeToolCall, h _ hask]
      | none => exact hother (by simp [asks, hcontent, hid])
  | acpTerminalOutput content =>
      simp only
      cases hid : truthy content.terminalId with
      | some terminalId =>
          have hask : asks message = some (.terminalId, terminalId) := by simp [asks, hcontent, hid]
          simp only [composeTerminalOutput, h _ hask]
      | none => exact hother (by simp [asks, hcontent, hid])
  | acpToolCall content =>
      simp only
      cases hid : truthy content.update.toolCallId with
      | some toolCallId =>
          have hask : asks message = some (.toolCallId, toolCallId) := by simp [asks, hcontent, hid]
          simp only [composeAcpToolCall, h _ hask]
      | none => exact hother (by simp [asks, hcontent, hid])
  | permission content =>
      simp only
      cases hid : truthy content.callId with
      | some callId =>
          have hask : asks message = some (.permissionCallId, callId) := by
            simp [asks, hcontent, hid]
          simp only [composePermission, h _ hask]
      | none => exact hother (by simp [asks, hcontent, hid])
  | text content =>
      simp only
      cases hmsg : truthy message.msgId with
      | some msgId =>
          by_cases hcomplete :
              message.position = some .right ∨ content.teammateMessage = some true
          · have hask : asks message = some (.msgId, msgId) := by
              simp [asks, hcontent, hcomplete, hmsg]
            have hindexed : indexedAtText find msgId = indexedAtText find' msgId := by
              rw [indexedAtText, indexedAtText, h _ hask]
            simp only [composeText, hindexed]
          · -- A chunk is never skipped, whatever the index says.
            obtain ⟨hright, hteammate⟩ := not_or.mp hcomplete
            simp only [composeText, decide_eq_false hright, decide_eq_false hteammate, Bool.or_self,
              Bool.and_false]
      | none => simp only [composeOther, hmsg]
  | thinking content =>
      simp only
      cases hmsg : truthy message.msgId with
      | some msgId =>
          by_cases hdone : content.status = .done
          · have hask : asks message = some (.msgId, "thinking:" ++ msgId) := by
              simp [asks, hcontent, hdone, hmsg]
            simp only [composeThinking, h _ hask]
          · simp only [composeThinking, if_neg hdone]
      | none => simp only [composeOther, hmsg]
  | plan fields =>
      simp only
      cases hmsg : truthy message.msgId with
      | some msgId =>
          have hask : asks message = some (.msgId, "plan:" ++ msgId) := by
            simp [asks, hcontent, hmsg]
          simp only [composePlan, h _ hask]
      | none => simp only [composeOther, hmsg]
  | agentStatus fields => exact hother (by simp only [asks, hcontent])
  | acpPermission fields => exact hother (by simp only [asks, hcontent])
  | ask fields => exact hother (by simp only [asks, hcontent])
  | availableCommands fields => exact hother (by simp only [asks, hcontent])

theorem composeEffect_congr (h : ∀ key, asks message = some key → find key = find' key) :
    composeEffect message list find = composeEffect message list find' := by
  rw [composeEffect, composeEffect]
  cases list.getLast? with
  | none => rfl
  | some last => simp only [composeArm_congr h]

end Asks

section Effects

namespace Effect

def unrecorded (list : List TMessage) : Effect → List (Slot × String)
  | keep => []
  | append message recorded => (indexKeys message).filter fun key ↦ key ∉ recorded
  | replace i message =>
      match list[i]? with
      | some old =>
          ((indexKeys old).filter fun key ↦ key ∉ indexKeys message) ++
            (indexKeys message).filter fun key ↦ key ∉ indexKeys old
      | none => []
  | regroup _ => []

def records : Effect → Slot × String → Bool
  | append _ recorded, key => key ∈ recorded
  | regroup _, key => key.1 ≠ .terminalId
  | _, _ => false

def Sound (list : List TMessage) : Effect → Prop
  | append message recorded => ∀ key ∈ recorded, key ∈ indexKeys message
  | regroup result => ∃ base added : List TMessage, result = base ++ added ∧
      base.map indexKeys = list.map indexKeys ∧
        (added = [] ∨ ∃ m, added = [m] ∧ ∀ key ∈ indexKeys m, key.1 ≠ .terminalId)
  | _ => True

end Effect

def staleAfter (stale : List (Slot × String)) (list : List TMessage) (effect : Effect) :
    List (Slot × String) :=
  (stale.filter fun key ↦ !effect.records key) ++ effect.unrecorded list

def Agree (stale : List (Slot × String)) (index : MessageIndex) (list : List TMessage) : Prop :=
  ∀ key, key ∉ stale → index.lookup key = lastIndex indexKeys list key

theorem agree_build (stale : List (Slot × String)) (list : List TMessage) :
    Agree stale (buildMessageIndex list) list :=
  fun _ _ ↦ lookup_buildMessageIndex

theorem lastIndex_of_map_eq {base : List TMessage} (h : base.map indexKeys = list.map indexKeys) :
    lastIndex indexKeys base key = lastIndex indexKeys list key := by
  apply lastIndex_congr
  have hmap := congrArg (List.map fun keys ↦ key ∈ keys) h
  rw [List.map_map, List.map_map] at hmap
  exact hmap

theorem Agree.apply {stale : List (Slot × String)} {effect : Effect} (h : Agree stale index list)
    (hsound : effect.Sound list) :
    Agree (staleAfter stale list effect) (effect.apply list index).2
      (effect.apply list index).1 := by
  intro key hkey
  rw [staleAfter, List.mem_append, not_or, List.mem_filter, not_and] at hkey
  obtain ⟨hstale, hunrecorded⟩ := hkey
  cases effect with
  | keep =>
      apply h
      intro hmem
      exact hstale hmem rfl
  | append message recorded =>
      simp only [Effect.apply]
      rw [MessageIndex.lookup_setAll, lastIndex_append]
      by_cases hrecorded : key ∈ recorded
      · rw [if_pos hrecorded, if_pos (hsound key hrecorded)]
      · have hkeys : key ∉ indexKeys message := by
          intro hmem
          exact hunrecorded (List.mem_filter.mpr ⟨hmem, decide_eq_true hrecorded⟩)
        rw [if_neg hrecorded, if_neg hkeys]
        apply h
        intro hmem
        exact hstale hmem (by simpa [Effect.records] using hrecorded)
  | replace i message =>
      simp only [Effect.apply]
      have hsame : ∀ old, list[i]? = some old → (key ∈ indexKeys old ↔ key ∈ indexKeys message) := by
        intro old hold
        rw [Effect.unrecorded, hold] at hunrecorded
        simp only [List.mem_append, List.mem_filter, decide_eq_true_eq, not_or, not_and,
          not_not] at hunrecorded
        exact ⟨hunrecorded.1, hunrecorded.2⟩
      rw [lastIndex_set hsame]
      apply h
      intro hmem
      exact hstale hmem rfl
  | regroup result =>
      simp only [Effect.apply]
      obtain ⟨slot, k⟩ := key
      by_cases hslot : slot = .terminalId
      · subst hslot
        obtain ⟨base, added, rfl, hbase, hadded⟩ := hsound
        have hindex : index.lookup (.terminalId, k) = lastIndex indexKeys list (.terminalId, k) := by
          apply h
          intro hmem
          exact hstale hmem rfl
        have hresult : lastIndex indexKeys (base ++ added) (.terminalId, k) =
            lastIndex indexKeys list (.terminalId, k) := by
          obtain rfl | ⟨m, rfl, hm⟩ := hadded
          · rw [List.append_nil, lastIndex_of_map_eq hbase]
          · rw [lastIndex_append, if_neg fun hmem ↦ hm _ hmem rfl, lastIndex_of_map_eq hbase]
        exact hindex.trans hresult.symm
      · rw [← lookup_buildMessageIndex]
        cases slot with
        | terminalId => exact absurd rfl hslot
        | msgId => rfl
        | callId => rfl
        | toolCallId => rfl
        | permissionCallId => rfl

end Effects

section Soundness

theorem indexKeys_withTools {tools updated : List Tool} (h : message.content = .toolGroup tools) :
    indexKeys { message with content := .toolGroup updated } = indexKeys message := by
  simp only [indexKeys, msgIdKey, ownKey, getMessageIndexKey, h]

theorem indexKeys_updateToolGroups {remaining : List Tool} :
    (updateToolGroups remaining list).1.map indexKeys = list.map indexKeys := by
  induction list generalizing remaining with
  | nil => rfl
  | cons message list ih =>
      rw [updateToolGroups]
      cases hcontent : message.content with
      | toolGroup tools =>
          simp only [List.map_cons, ih]
          rw [indexKeys_withTools hcontent]
      | _ => simp only [List.map_cons, ih]

theorem composeToolGroup_sound {tools : List Tool} {result : List TMessage}
    (h : composeToolGroup message tools list = some result) : (Effect.regroup result).Sound list := by
  have hkeys : (updateToolGroups (toolMap tools) list).1.map indexKeys = list.map indexKeys :=
    indexKeys_updateToolGroups
  rw [composeToolGroup] at h
  split at h
  · cases h
  · split at h
    next updatedList left heq =>
    rw [heq] at hkeys
    split at h
    · obtain rfl := Option.some.inj h
      exact ⟨updatedList, [], (List.append_nil _).symm, hkeys, Or.inl rfl⟩
    · obtain rfl := Option.some.inj h
      refine ⟨updatedList, _, rfl, hkeys, Or.inr ⟨_, rfl, ?_⟩⟩
      intro key hkey
      simp only [indexKeys, ownKey, List.append_nil, msgIdKey, Option.mem_toList,
        Option.map_eq_some_iff] at hkey
      obtain ⟨k, -, rfl⟩ := hkey
      exact Slot.noConfusion

theorem msgIdKey_subset (h : key ∈ msgIdKey message) : key ∈ indexKeys message :=
  List.mem_append_left _ h

theorem ownKey_subset (h : key ∈ ownKey message) : key ∈ indexKeys message :=
  List.mem_append_right _ h

theorem msgIdKey_eq {k : String} (h : getMessageIndexKey message = some k) :
    msgIdKey message = [(.msgId, k)] := by
  rw [msgIdKey, h]
  rfl

theorem append_msgIdKey_sound : (Effect.append message (msgIdKey message)).Sound list :=
  fun _ ↦ msgIdKey_subset

theorem append_cons_sound (h : key ∈ ownKey message) :
    (Effect.append message (key :: msgIdKey message)).Sound list :=
  List.forall_mem_cons.mpr ⟨ownKey_subset h, fun _ ↦ msgIdKey_subset⟩

theorem composeAfterLast_sound : (composeAfterLast message last list).Sound list := by
  rw [composeAfterLast]
  split
  · exact append_msgIdKey_sound
  · trivial

theorem composeOther_sound : (composeOther message last list find).Sound list := by
  rw [composeOther]
  split
  · split
    · trivial
    · exact composeAfterLast_sound
  · exact composeAfterLast_sound

theorem sanitize_keys (message : TMessage) :
    msgIdKey (sanitizeMessageForList message) = msgIdKey message ∧
      ownKey (sanitizeMessageForList message) = ownKey message := by
  rw [sanitizeMessageForList]
  cases hcontent : message.content with
  | acpToolCall content =>
      constructor
      · simp only [msgIdKey, getMessageIndexKey, hcontent]
      · simp only [ownKey, hcontent, sanitizeAcpToolCallContent, sanitizeAcpToolUpdate]
  | _ => exact ⟨rfl, rfl⟩

theorem composeArm_sound : (composeArm message last list find).Sound list := by
  rw [composeArm]
  cases hcontent : message.content with
  | toolGroup tools =>
      simp only
      cases hresult : composeToolGroup message tools list with
      | none => trivial
      | some result => exact composeToolGroup_sound hresult
  | tips content =>
      simp only
      split
      · rw [composeSupersedingTip]
        split
        · trivial
        · exact append_msgIdKey_sound
      · exact composeOther_sound
  | toolCall content =>
      simp only
      cases hid : truthy content.callId with
      | none => exact composeOther_sound
      | some callId =>
          have hkey : (Slot.callId, callId) ∈ ownKey message := by simp [ownKey, hcontent, hid]
          simp only [composeToolCall]
          split
          · split
            · trivial
            · exact append_cons_sound hkey
          · exact append_cons_sound hkey
  | acpTerminalOutput content =>
      simp only
      cases hid : truthy content.terminalId with
      | none => exact composeOther_sound
      | some terminalId =>
          have hsound : (Effect.append message [(.terminalId, terminalId)]).Sound list := by
            refine List.forall_mem_singleton.mpr (ownKey_subset ?_)
            simp [ownKey, hcontent, hid]
          simp only [composeTerminalOutput]
          split
          · split
            · trivial
            · exact hsound
          · exact hsound
  | acpToolCall content =>
      simp only
      cases hid : truthy content.update.toolCallId with
      | none => exact composeOther_sound
      | some toolCallId =>
          have hkey : (Slot.toolCallId, toolCallId) ∈ ownKey message := by
            simp [ownKey, hcontent, hid]
          obtain ⟨hmsg, hown⟩ := sanitize_keys message
          have hsound : (Effect.append (sanitizeMessageForList message)
              ((.toolCallId, toolCallId) :: msgIdKey message)).Sound list := by
            rw [← hmsg]
            exact append_cons_sound (hown ▸ hkey)
          simp only [composeAcpToolCall]
          split
          · split
            · trivial
            · exact hsound
          · exact hsound
  | permission content =>
      simp only
      cases hid : truthy content.callId with
      | none => exact composeOther_sound
      | some callId =>
          have hkey : (Slot.permissionCallId, callId) ∈ ownKey message := by
            simp [ownKey, hcontent, hid]
          simp only [composePermission]
          split
          · split
            · trivial
            · exact append_cons_sound hkey
          · exact append_cons_sound hkey
  | text content =>
      simp only
      cases hmsg : truthy message.msgId with
      | none => exact composeOther_sound
      | some msgId =>
          have hkey : msgIdKey message = [(.msgId, msgId)] :=
            msgIdKey_eq (by simp only [getMessageIndexKey, hmsg, hcontent, Option.map_some])
          simp only [composeText]
          split
          · trivial
          · rw [composeTextChunk, ← hkey]
            split
            · split
              · trivial
              · exact append_msgIdKey_sound
            · exact append_msgIdKey_sound
  | thinking content =>
      simp only
      cases hmsg : truthy message.msgId with
      | none => exact composeOther_sound
      | some msgId =>
          have hkey : msgIdKey message = [(.msgId, "thinking:" ++ msgId)] :=
            msgIdKey_eq (by simp only [getMessageIndexKey, hmsg, hcontent, Option.map_some])
          have hchunk : (composeThinkingChunk message last list content msgId).Sound list := by
            rw [composeThinkingChunk, ← hkey]
            split
            · split
              · trivial
              · exact append_msgIdKey_sound
            · exact append_msgIdKey_sound
          simp only [composeThinking]
          split
          · split
            · split
              · trivial
              · exact hchunk
            · exact hchunk
          · exact hchunk
  | plan fields =>
      simp only
      cases hmsg : truthy message.msgId with
      | none => exact composeOther_sound
      | some msgId =>
          have hkey : msgIdKey message = [(.msgId, "plan:" ++ msgId)] :=
            msgIdKey_eq (by simp only [getMessageIndexKey, hmsg, hcontent, Option.map_some])
          simp only [composePlan, ← hkey]
          split
          · split
            · trivial
            · exact append_msgIdKey_sound
          · exact append_msgIdKey_sound
  | agentStatus fields => exact composeOther_sound
  | acpPermission fields => exact composeOther_sound
  | ask fields => exact composeOther_sound
  | availableCommands fields => exact composeOther_sound

theorem composeEffect_sound : (composeEffect message list find).Sound list := by
  rw [composeEffect]
  split
  · trivial
  · cases list.getLast? with
    | none => exact append_msgIdKey_sound
    | some last => exact composeArm_sound

theorem PendingItem.effect_sound {item : PendingItem} : (item.effect list find).Sound list := by
  rw [PendingItem.effect]
  split
  · split
    · trivial
    · exact fun _ hkey ↦ hkey
  · exact composeEffect_sound

end Soundness

section Appending

theorem composeOther_eq_append (h : composeOther message last list find = .append m recorded) :
    composeOther message last list (fun _ ↦ none) = .append m recorded := by
  rw [composeOther] at h ⊢
  cases hmsg : truthy message.msgId with
  | none => rwa [hmsg] at h
  | some msgId =>
      simp only [hmsg] at h ⊢
      split at h
      · cases h
      · exact h

theorem composeArm_eq_append (h : composeArm message last list find = .append m recorded) :
    composeArm message last list (fun _ ↦ none) = .append m recorded := by
  rw [composeArm] at h ⊢
  cases hcontent : message.content with
  | toolGroup tools =>
      simp only [hcontent] at h
      split at h <;> cases h
  | tips content =>
      simp only [hcontent] at h ⊢
      split at h
      · exact h
      · exact composeOther_eq_append h
  | toolCall content =>
      simp only [hcontent] at h ⊢
      split at h
      · rw [composeToolCall] at h ⊢
        split at h
        · split at h
          · cases h
          · exact h
        · exact h
      · exact composeOther_eq_append h
  | acpTerminalOutput content =>
      simp only [hcontent] at h ⊢
      split at h
      · rw [composeTerminalOutput] at h ⊢
        split at h
        · split at h
          · cases h
          · exact h
        · exact h
      · exact composeOther_eq_append h
  | acpToolCall content =>
      simp only [hcontent] at h ⊢
      split at h
      · rw [composeAcpToolCall] at h ⊢
        split at h
        · split at h
          · cases h
          · exact h
        · exact h
      · exact composeOther_eq_append h
  | permission content =>
      simp only [hcontent] at h ⊢
      split at h
      · rw [composePermission] at h ⊢
        split at h
        · split at h
          · cases h
          · exact h
        · exact h
      · exact composeOther_eq_append h
  | text content =>
      simp only [hcontent] at h ⊢
      split at h
      · rw [composeText] at h ⊢
        split at h
        · cases h
        · exact h
      · exact composeOther_eq_append h
  | thinking content =>
      simp only [hcontent] at h ⊢
      split at h
      · rw [composeThinking] at h ⊢
        split at h
        · next hdone =>
            rw [if_pos hdone]
            split at h
            · split at h
              · cases h
              · exact h
            · exact h
        · next hdone =>
            rw [if_neg hdone]
            exact h
      · exact composeOther_eq_append h
  | plan fields =>
      simp only [hcontent] at h ⊢
      split at h
      · rw [composePlan] at h ⊢
        split at h
        · split at h
          · cases h
          · exact h
        · exact h
      · exact composeOther_eq_append h
  | agentStatus fields =>
      simp only [hcontent] at h ⊢
      exact composeOther_eq_append h
  | acpPermission fields =>
      simp only [hcontent] at h ⊢
      exact composeOther_eq_append h
  | ask fields =>
      simp only [hcontent] at h ⊢
      exact composeOther_eq_append h
  | availableCommands fields =>
      simp only [hcontent] at h ⊢
      exact composeOther_eq_append h

theorem composeEffect_eq_append (h : composeEffect message list find = .append m recorded) :
    composeEffect message list (fun _ ↦ none) = .append m recorded := by
  rw [composeEffect] at h ⊢
  split at h
  · cases h
  · next hkept =>
      rw [if_neg hkept]
      cases hlast : list.getLast? with
      | none =>
          rw [hlast] at h
          exact h
      | some last =>
          rw [hlast] at h
          exact composeArm_eq_append h

end Appending

section Regrouping

/-- The effect is a new list of groups. -/
def Effect.isRegroup : Effect → Bool
  | regroup _ => true
  | _ => false

theorem composeAfterLast_isRegroup : (composeAfterLast message last list).isRegroup = false := by
  rw [composeAfterLast]
  split <;> rfl

theorem composeOther_isRegroup : (composeOther message last list find).isRegroup = false := by
  rw [composeOther]
  split
  · split
    · rfl
    · exact composeAfterLast_isRegroup
  · exact composeAfterLast_isRegroup

theorem composeArm_isRegroup (h : asks message = some key) :
    (composeArm message last list find).isRegroup = false := by
  rw [composeArm]
  cases hcontent : message.content with
  | toolGroup tools => simp [asks, hcontent] at h
  | tips content =>
      simp only
      split
      · rw [composeSupersedingTip]
        split <;> rfl
      · exact composeOther_isRegroup
  | toolCall content =>
      simp only
      split
      · rw [composeToolCall]
        split
        · split <;> rfl
        · rfl
      · exact composeOther_isRegroup
  | acpTerminalOutput content =>
      simp only
      split
      · rw [composeTerminalOutput]
        split
        · split <;> rfl
        · rfl
      · exact composeOther_isRegroup
  | acpToolCall content =>
      simp only
      split
      · rw [composeAcpToolCall]
        split
        · split <;> rfl
        · rfl
      · exact composeOther_isRegroup
  | permission content =>
      simp only
      split
      · rw [composePermission]
        split
        · split <;> rfl
        · rfl
      · exact composeOther_isRegroup
  | text content =>
      simp only
      split
      · rw [composeText]
        split
        · rfl
        · rw [composeTextChunk]
          split
          · split <;> rfl
          · rfl
      · exact composeOther_isRegroup
  | thinking content =>
      simp only
      split
      · next msgId _ =>
          have hchunk :
              (composeThinkingChunk message last list content msgId).isRegroup = false := by
            rw [composeThinkingChunk]
            split
            · split <;> rfl
            · rfl
          rw [composeThinking]
          split
          · split
            · split
              · rfl
              · exact hchunk
            · exact hchunk
          · exact hchunk
      · exact composeOther_isRegroup
  | plan fields =>
      simp only
      split
      · rw [composePlan]
        split
        · split <;> rfl
        · rfl
      · exact composeOther_isRegroup
  | agentStatus fields => exact composeOther_isRegroup
  | acpPermission fields => exact composeOther_isRegroup
  | ask fields => exact composeOther_isRegroup
  | availableCommands fields => exact composeOther_isRegroup

theorem composeEffect_isRegroup (h : asks message = some key) :
    (composeEffect message list find).isRegroup = false := by
  rw [composeEffect]
  split
  · rfl
  · cases list.getLast? with
    | none => rfl
    | some last => exact composeArm_isRegroup h

end Regrouping

end Zaowutai.MessageList
