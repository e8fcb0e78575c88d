import Zaowutai.Stream.StreamRelay

/-!
# The text rows of a turn

While a turn is streamed, the text rows written for it keep their texts
whatever else is stored: rows are only added or changed in place, under ids
that no two rows share.
-/

namespace Zaowutai.Stream

open Zaowutai.Conversation

def writtenRows (before : ℕ) (m : MessageStore) : List MessageRow :=
  (m.rows.drop before).filter fun row ↦ row.type = .text

def textsOf (rows : List MessageRow) : List (String × Option String) :=
  rows.map fun row ↦ (row.id, row.content.text)

namespace MessageStore

variable {m : MessageStore}

theorem insertMessage_spec {row : MessageRow} (h : (m.insertMessage row).1.failed = false) :
    m.failed = false ∧ ∃ hnew, m.insertMessage row = (m.append row hnew, true) := by
  by_cases hmem : row.id ∈ m.rows.map (·.id)
  · rw [insertMessage, dif_pos hmem] at h
    cases h
  · rw [insertMessage, dif_neg hmem] at h ⊢
    exact ⟨h, hmem, rfl⟩

theorem updateMessage_spec {conversationId id : String} {updates : MessageRowUpdate}
    (h : (m.updateMessage conversationId id updates).1.failed = false) :
    m.failed = false ∧ (m.updateMessage conversationId id updates).2 = true ∧
      (m.updateMessage conversationId id updates).1.rows = m.rows.map fun row ↦
        if row.conversationId = conversationId ∧ row.id = id then row.update updates else row := by
  rw [updateMessage] at h ⊢
  split at h
  · next hmem =>
      rw [if_pos hmem]
      exact ⟨h, rfl, rfl⟩
  · cases h

theorem upsertMessage_spec {row : MessageRow} (h : (m.upsertMessage row).1.failed = false) :
    m.failed = false ∧
      ((m.upsertMessage row).1.rows = m.rows ++ [row] ∨
        (m.upsertMessage row).1.rows =
          m.rows.map fun old ↦ if old.id = row.id then row.merge old else old) := by
  rw [upsertMessage] at h ⊢
  split at h
  · next hmem =>
      rw [dif_pos hmem]
      split at h
      · next hconversation =>
          rw [if_pos hconversation]
          exact ⟨h, .inr rfl⟩
      · cases h
  · next hmem =>
      rw [dif_neg hmem]
      exact ⟨h, .inl rfl⟩

end MessageStore

structure Scope where
  conversationId : String
  before : ℕ

namespace Scope

variable (c : Scope)

structure Holds (m : MessageStore) (texts : List (String × Option String)) : Prop where
  size : c.before ≤ m.rows.length
  texts : textsOf (writtenRows c.before m) = texts
  own : ∀ row ∈ writtenRows c.before m,
    row.conversationId = c.conversationId ∧ row.hidden = false

theorem writtenRows_nodup (before : ℕ) (m : MessageStore) :
    ((writtenRows before m).map (·.id)).Nodup :=
  m.ids.sublist ((List.filter_sublist.trans (List.drop_sublist _ _)).map _)

section Rows

variable {c} {m m' : MessageStore} {texts texts' : List (String × Option String)}

theorem writtenRows_append {before : ℕ} {row : MessageRow} (h : before ≤ m.rows.length)
    (hm' : m'.rows = m.rows ++ [row]) :
    writtenRows before m' =
      writtenRows before m ++ if row.type = .text then [row] else [] := by
  rw [writtenRows, hm', List.drop_append_of_le_length h, List.filter_append, writtenRows]
  congr 1
  by_cases ht : row.type = .text <;> simp [ht]

theorem writtenRows_map {before : ℕ} {f : MessageRow → MessageRow}
    (htype : ∀ row, (f row).type = row.type) (hm' : m'.rows = m.rows.map f) :
    writtenRows before m' = (writtenRows before m).map f := by
  rw [writtenRows, hm', ← List.map_drop, List.filter_map, writtenRows]
  congr 1
  refine List.filter_congr fun row _ ↦ ?_
  simp only [Function.comp_apply, htype]

theorem Holds.append (h : c.Holds m texts) {row : MessageRow}
    (hm' : m'.rows = m.rows ++ [row])
    (hown : row.type = .text → row.conversationId = c.conversationId ∧ row.hidden = false) :
    c.Holds m' (texts ++ if row.type = .text then [(row.id, row.content.text)] else []) := by
  have hwritten := writtenRows_append h.size hm'
  refine ⟨?_, ?_, ?_⟩
  · rw [hm', List.length_append]
    exact h.size.trans (Nat.le_add_right _ _)
  · rw [hwritten, ← h.texts, textsOf, textsOf, List.map_append]
    congr 1
    split <;> rfl
  · intro other hother
    rw [hwritten, List.mem_append] at hother
    rcases hother with hother | hother
    · exact h.own other hother
    · split at hother
      · next htext =>
          cases List.mem_singleton.mp hother
          exact hown htext
      · cases hother

theorem Holds.map (h : c.Holds m texts) {f : MessageRow → MessageRow}
    (hm' : m'.rows = m.rows.map f)
    (hkeys : ∀ row, (f row).id = row.id ∧ (f row).conversationId = row.conversationId ∧
      (f row).type = row.type)
    (htexts : textsOf ((writtenRows c.before m).map f) = texts')
    (hvisible : ∀ row ∈ writtenRows c.before m, (f row).hidden = false) :
    c.Holds m' texts' := by
  have hwritten : writtenRows c.before m' = (writtenRows c.before m).map f :=
    writtenRows_map (fun row ↦ (hkeys row).2.2) hm'
  refine ⟨?_, ?_, ?_⟩
  · rw [hm', List.length_map]
    exact h.size
  · rw [hwritten]
    exact htexts
  · intro row' hrow'
    rw [hwritten] at hrow'
    obtain ⟨row, hrow, rfl⟩ := List.mem_map.mp hrow'
    rw [(hkeys row).2.1]
    exact ⟨(h.own row hrow).1, hvisible row hrow⟩

theorem Holds.map_same (h : c.Holds m texts) {f : MessageRow → MessageRow}
    (hm' : m'.rows = m.rows.map f)
    (hkeys : ∀ row, (f row).id = row.id ∧ (f row).conversationId = row.conversationId ∧
      (f row).type = row.type)
    (hsame : ∀ row ∈ writtenRows c.before m,
      (f row).content.text = row.content.text ∧ (f row).hidden = false) :
    c.Holds m' texts := by
  refine h.map hm' hkeys ?_ fun row hrow ↦ (hsame row hrow).2
  rw [← h.texts, textsOf, textsOf, List.map_map]
  refine List.map_congr_left fun row hrow ↦ ?_
  rw [Function.comp_apply, (hkeys row).1, (hsame row hrow).1]

theorem Holds.map_last {id : String} {text text' : Option String}
    (h : c.Holds m (texts ++ [(id, text)])) {f : MessageRow → MessageRow}
    (hm' : m'.rows = m.rows.map f)
    (hkeys : ∀ row, (f row).id = row.id ∧ (f row).conversationId = row.conversationId ∧
      (f row).type = row.type)
    (hat : ∀ row ∈ writtenRows c.before m, row.id = id →
      (f row).content.text = text' ∧ (f row).hidden = false)
    (hoff : ∀ row, row.id ≠ id → f row = row) : c.Holds m' (texts ++ [(id, text')]) := by
  refine h.map hm' hkeys ?_ fun row hrow ↦ ?_
  · obtain ⟨front, last, hsplit, hfront, hlast⟩ := List.map_eq_append_iff.mp h.texts
    obtain ⟨row, rfl, hrow⟩ := List.map_eq_singleton_iff.mp hlast
    have hid : row.id = id := congrArg Prod.fst hrow
    have hmem : row ∈ writtenRows c.before m := hsplit ▸ List.mem_append_right _ (by simp)
    have hnodup := writtenRows_nodup c.before m
    rw [hsplit, List.map_append, List.map_singleton, List.nodup_append] at hnodup
    rw [hsplit, textsOf, List.map_append, List.map_append]
    congr 1
    · rw [← hfront, List.map_map]
      refine List.map_congr_left fun other hother ↦ ?_
      have hne : other.id ≠ id := by
        rw [← hid]
        exact hnodup.2.2 _ (List.mem_map_of_mem hother) _ (by simp)
      rw [Function.comp_apply, hoff other hne]
    · simp only [List.map_cons, List.map_nil, (hkeys row).1, (hat row hmem hid).1, hid]
  · by_cases hid : row.id = id
    · exact (hat row hrow hid).2
    · rw [hoff row hid]
      exact (h.own row hrow).2

theorem update_keys (conversationId id : String) (updates : MessageRowUpdate) (row : MessageRow) :
    let row' := if row.conversationId = conversationId ∧ row.id = id then row.update updates
      else row
    row'.id = row.id ∧ row'.conversationId = row.conversationId ∧ row'.type = row.type := by
  simp only
  split <;> exact ⟨rfl, rfl, rfl⟩

end Rows

end Scope

section Quiet

variable {c : Scope} {a a' a'' : StreamPersistenceAdapter}

structure Scope.Stores (c : Scope) (a : StreamPersistenceAdapter)
    (texts : List (String × Option String)) : Prop where
  conversationId : a.conversationId = c.conversationId
  holds : a.repo.failed = false → c.Holds a.repo texts

/-- The texts stay as they are, and a failure is not forgotten. -/
structure Scope.Quiet (c : Scope) (a a' : StreamPersistenceAdapter) : Prop where
  kept : ∀ texts, c.Stores a texts → c.Stores a' texts
  failed : a'.repo.failed = false → a.repo.failed = false

theorem Scope.Quiet.refl (c : Scope) (a : StreamPersistenceAdapter) : c.Quiet a a :=
  ⟨fun _ h ↦ h, id⟩

theorem Scope.Quiet.trans (h : c.Quiet a a') (h' : c.Quiet a' a'') : c.Quiet a a'' :=
  ⟨fun texts hstores ↦ h'.kept texts (h.kept texts hstores), fun hok ↦ h.failed (h'.failed hok)⟩

namespace StreamPersistenceAdapter

theorem quiet_mintMsgId (c : Scope) (a : StreamPersistenceAdapter) : c.Quiet a a.mintMsgId.2 :=
  ⟨fun _ h ↦ ⟨h.conversationId, h.holds⟩, id⟩

theorem quiet_setBackendTurnId (c : Scope) (a : StreamPersistenceAdapter) (id : String) :
    c.Quiet a (a.setBackendTurnId id) :=
  ⟨fun _ h ↦ ⟨h.conversationId, h.holds⟩, fun h ↦ h⟩

theorem quiet_insert {row : MessageRow} (htype : row.type ≠ .text) :
    c.Quiet a (a.insert row).1 := by
  constructor
  · intro texts h
    refine ⟨h.conversationId, fun hok ↦ ?_⟩
    obtain ⟨hok', hnew, heq⟩ := MessageStore.insertMessage_spec hok
    have hholds := (h.holds hok').append (congrArg (fun m ↦ m.1.rows) heq)
      fun htext ↦ absurd htext htype
    rw [if_neg htype, List.append_nil] at hholds
    exact hholds
  · exact fun hok ↦ (MessageStore.insertMessage_spec hok).1

theorem quiet_upsert {row : MessageRow} (htype : row.type ≠ .text)
    (hvisible : row.hidden = false) : c.Quiet a (a.upsert row) := by
  constructor
  · intro texts h
    refine ⟨h.conversationId, fun hok ↦ ?_⟩
    obtain ⟨hok', hcases⟩ := MessageStore.upsertMessage_spec hok
    rcases hcases with hrows | hrows
    · have hholds := (h.holds hok').append hrows fun htext ↦ absurd htext htype
      rw [if_neg htype, List.append_nil] at hholds
      exact hholds
    · refine (h.holds hok').map_same hrows (fun old ↦ ?_) fun old hold ↦ ?_
      · split <;> exact ⟨rfl, rfl, rfl⟩
      · split
        · exact ⟨rfl, hvisible⟩
        · exact ⟨rfl, ((h.holds hok').own old hold).2⟩
  · exact fun hok ↦ (MessageStore.upsertMessage_spec hok).1

variable (lifecycle : RuntimeLifecycleState)

theorem quiet_persistNote (content : Content) (status : MessageStatus) :
    c.Quiet a (a.persistNote lifecycle content status) := by
  rw [persistNote]
  split
  · exact .refl c a
  · exact (quiet_mintMsgId c a).trans (quiet_insert fun h ↦ (by cases h))

theorem quiet_persistThinkingSegment (segment : ThinkingSegmentState) :
    c.Quiet a (a.persistThinkingSegment lifecycle segment) := by
  rw [persistThinkingSegment]
  split
  · exact .refl c a
  · exact quiet_insert fun h ↦ (by cases h)

theorem quiet_persistToolCall (data : ToolCallEventData) :
    c.Quiet a (a.persistToolCall lifecycle data) := by
  rw [persistToolCall]
  split
  · exact .refl c a
  · exact quiet_upsert (fun h ↦ (by cases h)) rfl

theorem quiet_persistPlan (data : PlanEventData) (turnId : String) :
    c.Quiet a (a.persistPlan lifecycle data turnId) := by
  rw [persistPlan]
  split
  · exact .refl c a
  · exact quiet_upsert (fun h ↦ (by cases h)) rfl

theorem quiet_persistAcpToolCall (data : AcpToolCallEventData) :
    c.Quiet a (a.persistAcpToolCall lifecycle data) := by
  rw [persistAcpToolCall]
  split
  · exact .refl c a
  · exact quiet_upsert (fun h ↦ (by cases h)) rfl

theorem quiet_settleToolCallIfPresent (data : ToolCallEventData) :
    c.Quiet a (a.settleToolCallIfPresent lifecycle data).1 := by
  rw [settleToolCallIfPresent]
  split
  · exact .refl c a
  · exact quiet_persistToolCall lifecycle data

theorem quiet_updateGroup {groupId : String} {group : MessageRow}
    (hgroup : a.repo.getMessageByMsgId a.conversationId groupId .toolGroup = some group)
    (updates : MessageRowUpdate) : c.Quiet a (a.update groupId updates).1 := by
  constructor
  · intro texts h
    refine ⟨h.conversationId, fun hok ↦ ?_⟩
    obtain ⟨hok', -, hrows⟩ := MessageStore.updateMessage_spec hok
    have hholds := h.holds hok'
    refine hholds.map_same hrows (Scope.update_keys _ _ _) ?_
    intro row hrow
    have hother : row.id ≠ groupId := by
      rintro rfl
      have hmem := List.mem_of_find?_eq_some hgroup
      have hkeys := List.find?_some hgroup
      simp only [decide_eq_true_eq] at hkeys
      have hrow' : row ∈ a.repo.rows := (List.drop_subset _ _) (List.mem_of_mem_filter hrow)
      have htext : row.type = .text := of_decide_eq_true (List.mem_filter.mp hrow).2
      have hid : group.id = row.id := Option.some.inj ((group.group hkeys.2.2).symm.trans hkeys.2.1)
      have hsame := List.inj_on_of_nodup_map a.repo.ids hmem hrow' hid
      rw [← hsame, hkeys.2.2] at htext
      cases htext
    rw [if_neg fun hboth ↦ hother hboth.2]
    exact ⟨rfl, (hholds.own row hrow).2⟩
  · exact fun hok ↦ (MessageStore.updateMessage_spec hok).1

theorem quiet_persistToolGroup (entries : List ToolGroupEntry) :
    c.Quiet a (a.persistToolGroup lifecycle entries) := by
  rw [persistToolGroup]
  split
  · exact .refl c a
  · cases entries with
    | nil =>
        refine (quiet_mintMsgId c a).trans ?_
        simp only [List.head?_nil]
        split
        · next hgroup => exact quiet_updateGroup hgroup _
        · exact quiet_insert fun h ↦ (by cases h)
    | cons entry entries =>
        simp only [List.head?_cons]
        split
        · next hgroup => exact quiet_updateGroup hgroup _
        · exact quiet_insert fun h ↦ (by cases h)

end StreamPersistenceAdapter

end Quiet

section Segments

variable {c : Scope} {a : StreamPersistenceAdapter} {texts : List (String × Option String)}

namespace StreamPersistenceAdapter

theorem stores_insertText {row : MessageRow} (h : c.Stores a texts) (htext : row.type = .text)
    (hown : row.conversationId = c.conversationId ∧ row.hidden = false) :
    c.Stores (a.insert row).1 (texts ++ [(row.id, row.content.text)]) := by
  refine ⟨h.conversationId, fun hok ↦ ?_⟩
  obtain ⟨hok', hnew, heq⟩ := MessageStore.insertMessage_spec hok
  have hholds := (h.holds hok').append (congrArg (fun m ↦ m.1.rows) heq) fun _ ↦ hown
  rw [if_pos htext] at hholds
  exact hholds

theorem stores_updateText {id : String} {text : Option String} {content : Content}
    {status : Option MessageStatus} {hidden : Option Bool}
    (h : c.Stores a (texts ++ [(id, text)])) (hhidden : hidden.getD false = false) :
    c.Stores (a.update id ⟨some content, status, hidden⟩).1 (texts ++ [(id, content.text)]) := by
  refine ⟨h.conversationId, fun hok ↦ ?_⟩
  obtain ⟨hok', -, hrows⟩ := MessageStore.updateMessage_spec hok
  have hholds := h.holds hok'
  refine hholds.map_last hrows (Scope.update_keys _ _ _) ?_ ?_
  · intro row hrow hid
    obtain ⟨hconversation, hvisible⟩ := hholds.own row hrow
    rw [if_pos ⟨hconversation.trans h.conversationId.symm, hid⟩]
    refine ⟨rfl, ?_⟩
    rw [MessageRow.update, hvisible]
    exact hhidden
  · exact fun row hid ↦ if_neg fun hboth ↦ hid hboth.2

end StreamPersistenceAdapter

def pendingText (segment : Option TextSegmentState) (flushed : String) :
    List (String × Option String) :=
  match segment with
  | some segment => if segment.recordCreated then [(segment.id, some flushed)] else []
  | none => []

def TextSegmentState.Sound (segment : TextSegmentState) : Prop :=
  segment.recordCreated = true → segment.buffer ≠ ""

namespace StreamPersistenceAdapter

variable (lifecycle : RuntimeLifecycleState) {segment : TextSegmentState} {flushed : String}

theorem flushTextSegment_spec
    (h : c.Stores a (texts ++ pendingText (some segment) flushed)) (hsound : segment.Sound) :
    (∃ flushed', c.Stores (a.flushTextSegment lifecycle segment).1
        (texts ++ pendingText (some (a.flushTextSegment lifecycle segment).2) flushed')) ∧
      ((a.flushTextSegment lifecycle segment).1.repo.failed = false → a.repo.failed = false) ∧
      (a.flushTextSegment lifecycle segment).2.id = segment.id ∧
      (a.flushTextSegment lifecycle segment).2.buffer = segment.buffer ∧
      (a.flushTextSegment lifecycle segment).2.Sound := by
  rw [flushTextSegment]
  split
  · exact ⟨⟨flushed, h⟩, id, rfl, rfl, hsound⟩
  · next hflush =>
      have hbuffer : segment.buffer ≠ "" := by
        intro hempty
        rw [hempty] at hflush
        simp at hflush
      simp only
      split
      · next hcreated =>
          rw [pendingText, if_pos hcreated] at h
          refine ⟨⟨segment.buffer, ?_⟩, fun hok ↦ (MessageStore.updateMessage_spec hok).1, rfl, rfl,
            hsound⟩
          rw [pendingText, if_pos hcreated]
          exact stores_updateText h rfl
      · next hcreated =>
          rw [pendingText, if_neg hcreated, List.append_nil] at h
          refine ⟨⟨segment.buffer, ?_⟩, fun hok ↦ (MessageStore.insertMessage_spec hok).1, rfl, rfl,
            fun _ ↦ hbuffer⟩
          exact stores_insertText h rfl ⟨h.conversationId, rfl⟩

theorem finalizeTextSegment_spec (status : MessageStatus)
    (h : c.Stores a (texts ++ pendingText (some segment) flushed)) (hsound : segment.Sound) :
    c.Stores (a.finalizeTextSegment .active segment status).1
        (texts ++ if segment.buffer = "" then [] else [(segment.id, some segment.buffer)]) ∧
      ((a.finalizeTextSegment .active segment status).1.repo.failed = false →
        a.repo.failed = false ∧ (a.finalizeTextSegment .active segment status).2 =
          if segment.buffer = "" then none else some segment.id) := by
  rw [finalizeTextSegment]
  by_cases hempty : segment.buffer = ""
  · have hcreated : ¬ segment.recordCreated = true := fun hcreated ↦ hsound hcreated hempty
    rw [pendingText, if_neg hcreated] at h
    simp only [hempty, decide_true, Bool.or_true, if_true]
    exact ⟨h, fun hok ↦ ⟨hok, trivial⟩⟩
  · simp only [hempty, decide_false, RuntimeLifecycleState.allows, Bool.not_true, Bool.or_self, Bool.false_eq_true,
      if_false]
    by_cases hcreated : segment.recordCreated = true
    · rw [pendingText, if_pos hcreated] at h
      simp only [hcreated, if_true]
      refine ⟨stores_updateText h rfl, fun hok ↦ ?_⟩
      obtain ⟨hok', hstored, -⟩ := MessageStore.updateMessage_spec hok
      refine ⟨hok', if_pos ?_⟩
      exact hstored
    · rw [pendingText, if_neg hcreated, List.append_nil] at h
      simp only [hcreated]
      refine ⟨stores_insertText h rfl ⟨h.conversationId, rfl⟩, fun hok ↦ ?_⟩
      obtain ⟨hok', hnew, heq⟩ := MessageStore.insertMessage_spec hok
      refine ⟨hok', ?_⟩
      rw [insert, heq]
      rfl

end StreamPersistenceAdapter

end Segments

section FinalText

variable {a : StreamPersistenceAdapter} {ids : List String} {updates : MessageRowUpdate}

theorem MessageRow.update_update (row : MessageRow) (updates : MessageRowUpdate) :
    (row.update updates).update updates = row.update updates := by
  obtain ⟨content, status, hidden⟩ := updates
  cases content <;> cases status <;> cases hidden <;> rfl

namespace StreamPersistenceAdapter

theorem updateAll_spec (ids : List String) (updates : MessageRowUpdate)
    (a : StreamPersistenceAdapter) (hok : (a.updateAll ids updates).repo.failed = false) :
    a.repo.failed = false ∧ (a.updateAll ids updates).repo.rows = a.repo.rows.map fun row ↦
      if row.conversationId = a.conversationId ∧ row.id ∈ ids then row.update updates else row := by
  induction ids generalizing a with
  | nil => exact ⟨hok, by simp [updateAll]⟩
  | cons id ids ih =>
      obtain ⟨hok', hrows⟩ := ih (a.update id updates).1 hok
      obtain ⟨hok'', -, hrows'⟩ := MessageStore.updateMessage_spec hok'
      refine ⟨hok'', hrows.trans ?_⟩
      change ((a.repo.updateMessage a.conversationId id updates).1.rows).map _ = _
      rw [hrows', List.map_map]
      refine List.map_congr_left fun row _ ↦ ?_
      rw [Function.comp_apply]
      by_cases hid : row.conversationId = a.conversationId ∧ row.id = id
      · have hcons : row.conversationId = a.conversationId ∧ row.id ∈ id :: ids :=
          ⟨hid.1, List.mem_cons.mpr (.inl hid.2)⟩
        rw [if_pos hid, if_pos hcons]
        split
        · exact MessageRow.update_update row updates
        · rfl
      · have hiff : (row.conversationId = a.conversationId ∧ row.id ∈ id :: ids) ↔
            row.conversationId = a.conversationId ∧ row.id ∈ ids := by
          rw [List.mem_cons]
          exact and_congr_right fun hconversation ↦
            or_iff_right fun heq ↦ hid ⟨hconversation, heq⟩
        rw [if_neg hid]
        exact (if_congr hiff rfl rfl).symm

theorem writtenRows_updateAll {before : ℕ}
    (hown : ∀ row ∈ writtenRows before a.repo, row.conversationId = a.conversationId)
    (hok : (a.updateAll ids updates).repo.failed = false) :
    a.repo.failed = false ∧ writtenRows before (a.updateAll ids updates).repo =
      (writtenRows before a.repo).map fun row ↦
        if row.id ∈ ids then row.update updates else row := by
  obtain ⟨hok', hrows⟩ := updateAll_spec ids updates a hok
  have htype : ∀ row : MessageRow, (if row.conversationId = a.conversationId ∧ row.id ∈ ids then
      row.update updates else row).type = row.type := by
    intro row
    split <;> rfl
  refine ⟨hok', (Scope.writtenRows_map htype hrows).trans ?_⟩
  refine List.map_congr_left fun row hrow ↦ ?_
  simp only [hown row hrow, true_and]

theorem writtenRows_rewrite {before : ℕ} {first : MessageRow} {others : List MessageRow}
    (hrows : writtenRows before a.repo = first :: others)
    (hown : ∀ row ∈ writtenRows before a.repo, row.conversationId = a.conversationId)
    {content : Content} {status : MessageStatus} {hidden : Bool}
    (hok : ((a.update first.id ⟨some content, some status, some hidden⟩).1.updateAll
      (others.map (·.id)) ⟨none, some status, some true⟩).repo.failed = false) :
    a.repo.failed = false ∧
      writtenRows before ((a.update first.id ⟨some content, some status, some hidden⟩).1.updateAll
          (others.map (·.id)) ⟨none, some status, some true⟩).repo =
        first.update ⟨some content, some status, some hidden⟩ ::
          others.map (·.update ⟨none, some status, some true⟩) := by
  have hnodup := Scope.writtenRows_nodup before a.repo
  rw [hrows, List.map_cons, List.nodup_cons] at hnodup
  have hne : ∀ row ∈ others, row.id ≠ first.id := fun row hrow heq ↦
    hnodup.1 (heq ▸ List.mem_map_of_mem hrow)
  have hok₁ : (a.updateAll [first.id] ⟨some content, some status, some hidden⟩).repo.failed = false :=
    (updateAll_spec _ _ _ hok).1
  obtain ⟨hok₀, hfirst⟩ := writtenRows_updateAll hown hok₁
  have hrows₁ : writtenRows before
      (a.update first.id ⟨some content, some status, some hidden⟩).1.repo =
        first.update ⟨some content, some status, some hidden⟩ :: others := by
    refine hfirst.trans ?_
    rw [hrows, List.map_cons, if_pos (List.mem_singleton.mpr rfl)]
    congr 1
    refine (List.map_congr_left fun row hrow ↦ ?_).trans (List.map_id others)
    exact if_neg fun hmem ↦ hne row hrow (List.mem_singleton.mp hmem)
  refine ⟨hok₀, ?_⟩
  have hown₁ : ∀ row ∈ writtenRows before
      (a.update first.id ⟨some content, some status, some hidden⟩).1.repo,
      row.conversationId = a.conversationId := by
    rw [hrows₁]
    rw [hrows] at hown
    intro row hrow
    rcases List.mem_cons.mp hrow with rfl | hrow
    · exact hown first List.mem_cons_self
    · exact hown row (List.mem_cons_of_mem _ hrow)
  refine (writtenRows_updateAll hown₁ hok).2.trans ?_
  rw [hrows₁, List.map_cons, if_neg]
  · congr 1
    refine List.map_congr_left fun row hrow ↦ if_pos ?_
    exact List.mem_map_of_mem hrow
  · exact hnodup.1

end StreamPersistenceAdapter

end FinalText

end Zaowutai.Stream
