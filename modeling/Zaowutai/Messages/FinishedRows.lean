import Zaowutai.Lib.Json
import Zaowutai.Lib.Run
import Zaowutai.Messages.MessagePages

/-!
# Rows that are merged by later messages

A message whose id is stored is merged into the row.  A row that has finished
is protected from messages of work that are late: its status is kept, and the
status in its content is put back after the merge.
-/

namespace Zaowutai.Messages

open Zaowutai.Lib

inductive JsonScalar
  | text (value : String)
  | other (written : String)
  deriving DecidableEq, Repr

abbrev Content := Json JsonScalar

def statusPath (type : String) : List String :=
  if type = "acp_tool_call" then ["update", "status"] else ["status"]

section Merge

-- how a number, boolean or array is written that `json_extract` has read
variable (rewritten : String → String)

/-- What `json_set` writes of a value that `json_extract` has found.  There is no absent value. -/
def restored : Option Content → Content
  | none => .null
  | some (.scalar (.other written)) => .scalar (.other (rewritten written))
  | some found => found

def IsLate (old new : MessageRow Content) : Prop :=
  (old.status = some "finish" ∨ old.status = some "error") ∧ new.status = some "work"

instance (old new : MessageRow Content) : Decidable (IsLate old new) :=
  inferInstanceAs (Decidable (_ ∧ _))

def mergeRow (old new : MessageRow Content) : MessageRow Content :=
  let merged := Json.patch old.content new.content
  let path := statusPath old.type
  { old with
    content :=
      if IsLate old new then Json.set path (restored rewritten (Json.get path old.content)) merged
      else merged
    status := if IsLate old new then old.status else new.status
    position := old.position.or new.position
    hidden := new.hidden
    createdAt := min old.createdAt new.createdAt
    backendTurnId := old.backendTurnId.or new.backendTurnId }

variable (db : MessageTables Content) (userId id : String)

def MessageTables.store (message row : MessageRow Content) : MessageTables Content where
  conversations := db.conversations.modify message.conversationId fun conversation ↦
    { conversation with updatedAt := max conversation.updatedAt message.createdAt }
  messages := db.messages.insert id row

def MessageTables.upsertMessageOnce (message : MessageRow Content) :
    Except DbError (MessageTables Content) :=
  match db.messages.lookup id with
  | none => .ok (db.store id message message)
  | some old =>
      if old.conversationId = message.conversationId ∧
          ∃ conversation ∈ db.conversations.lookup old.conversationId,
            conversation.userId = userId then
        .ok (db.store id message (mergeRow rewritten old message))
      else
        .error (.conflict ("Message with id '" ++ id ++
          "' already exists outside the requested conversation"))

def MessageTables.upserted (message : MessageRow Content) : MessageTables Content :=
  match db.upsertMessageOnce rewritten userId id message with
  | .ok next => next
  | .error _ => db

end Merge

/-!
## Finished rows and late messages

A late message leaves the status of a finished row and merges the rest.  The
status inside the content is kept exactly if there is one to put back, and room
for it, or if there is neither.
-/

section Spec

variable (rewritten : String → String) (userId id : String)

def Protects (db : MessageTables Content) (message : MessageRow Content) : Prop :=
  ∀ row, db.messages.lookup id = some row → IsLate row message →
    ∃ row', (db.upserted rewritten userId id message).messages.lookup id = some row' ∧
      row'.status = row.status ∧
      Json.get (statusPath row.type) row'.content = Json.get (statusPath row.type) row.content ∧
      (∀ path, Json.Apart (statusPath row.type) path →
        Json.get path row'.content = Json.get path (Json.patch row.content message.content)) ∧
      row'.hidden = message.hidden

def Restorable (db : MessageTables Content) (message : MessageRow Content) : Prop :=
  ∀ row, db.messages.lookup id = some row → IsLate row message →
    (∃ status, Json.get (statusPath row.type) row.content = some status ∧
      restored rewritten (some status) = status ∧
      Json.Reaches (statusPath row.type) (Json.patch row.content message.content)) ∨
    Json.get (statusPath row.type) row.content = none ∧
      ¬Json.Reaches (statusPath row.type) (Json.patch row.content message.content)

def Finished (db : MessageTables Content) : Prop :=
  ∃ row, db.messages.lookup id = some row ∧
    (row.status = some "finish" ∨ row.status = some "error")

def Gathers (db : MessageTables Content) (convId : String)
    (messages : List (MessageRow Content)) : Prop :=
  ∃ row, db.messages.lookup id = some row ∧
    (∀ message ∈ messages, row.createdAt ≤ message.createdAt) ∧
    (∃ message ∈ messages, row.createdAt = message.createdAt) ∧
    row.position = messages.findSome? (·.position) ∧
    row.backendTurnId = messages.findSome? (·.backendTurnId) ∧
    ∃ conversation ∈ db.conversations.lookup convId,
      ∀ message ∈ messages, message.createdAt ≤ conversation.updatedAt

end Spec

def Fits (convId : String) (message : MessageRow Content) : Prop :=
  message.conversationId = convId ∧
    (message.status = some "work" ∨ message.status = some "finish" ∨
      message.status = some "error")

instance (convId : String) (message : MessageRow Content) : Decidable (Fits convId message) :=
  inferInstanceAs (Decidable (_ ∧ _))

structure Home (userId id convId : String) (db : MessageTables Content) : Prop where
  owned : ∃ conversation ∈ db.conversations.lookup convId, conversation.userId = userId
  row : ∀ row, db.messages.lookup id = some row → row.conversationId = convId

section Step

variable {rewritten : String → String} {userId id convId : String} {db : MessageTables Content}
  {message row : MessageRow Content} {messages : List (MessageRow Content)}

theorem upserted_new (h : db.messages.lookup id = none) :
    db.upserted rewritten userId id message = db.store id message message := by
  simp only [MessageTables.upserted, MessageTables.upsertMessageOnce, h]

theorem upserted_merged (hhome : Home userId id convId db) (hfits : Fits convId message)
    (h : db.messages.lookup id = some row) :
    db.upserted rewritten userId id message =
      db.store id message (mergeRow rewritten row message) := by
  have hconv := hhome.row row h
  have hsame : row.conversationId = message.conversationId ∧
      ∃ conversation ∈ db.conversations.lookup row.conversationId,
        conversation.userId = userId :=
    ⟨hconv.trans hfits.1.symm, hconv ▸ hhome.owned⟩
  simp only [MessageTables.upserted, MessageTables.upsertMessageOnce, h, if_pos hsame]

theorem lookup_store (stored : MessageRow Content) :
    (db.store id message stored).messages.lookup id = some stored :=
  AList.lookup_insert _

theorem lookup_conversation_store (stored : MessageRow Content) (hfits : Fits convId message) :
    (db.store id message stored).conversations.lookup convId =
      (db.conversations.lookup convId).map fun conversation ↦
        { conversation with updatedAt := max conversation.updatedAt message.createdAt } := by
  rw [MessageTables.store, hfits.1, Table.lookup_modify, if_pos rfl]

theorem upserted_cases (hhome : Home userId id convId db) (hfits : Fits convId message) :
    db.messages.lookup id = none ∧
        db.upserted rewritten userId id message = db.store id message message ∨
      ∃ row, db.messages.lookup id = some row ∧
        db.upserted rewritten userId id message =
          db.store id message (mergeRow rewritten row message) := by
  cases h : db.messages.lookup id with
  | none => exact .inl ⟨rfl, upserted_new h⟩
  | some row => exact .inr ⟨row, rfl, upserted_merged hhome hfits h⟩

theorem Home.store {stored : MessageRow Content} (hhome : Home userId id convId db)
    (hfits : Fits convId message) (hstored : stored.conversationId = convId) :
    Home userId id convId (db.store id message stored) := by
  refine ⟨?_, fun row hrow ↦ ?_⟩
  · obtain ⟨conversation, hconversation, huser⟩ := hhome.owned
    rw [lookup_conversation_store stored hfits, Option.mem_def.mp hconversation]
    exact ⟨_, rfl, huser⟩
  · cases (lookup_store stored).symm.trans hrow
    exact hstored

theorem Home.upserted (hhome : Home userId id convId db) (hfits : Fits convId message) :
    Home userId id convId (db.upserted rewritten userId id message) := by
  rcases upserted_cases hhome hfits with ⟨-, hnext⟩ | ⟨row, hrow, hnext⟩
  · rw [hnext]
    exact hhome.store hfits hfits.1
  · rw [hnext]
    exact hhome.store hfits (hhome.row row hrow)

theorem protects_iff (hhome : Home userId id convId db) (hfits : Fits convId message) :
    Protects rewritten userId id db message ↔ Restorable rewritten id db message := by
  refine forall_congr' fun row ↦ forall_congr' fun hrow ↦ forall_congr' fun hlate ↦ ?_
  have hcontent : (mergeRow rewritten row message).content =
      Json.set (statusPath row.type)
        (restored rewritten (Json.get (statusPath row.type) row.content))
        (Json.patch row.content message.content) := if_pos hlate
  have hfound : ∀ row', (db.upserted rewritten userId id message).messages.lookup id = some row' ↔
      mergeRow rewritten row message = row' := by
    intro row'
    rw [upserted_merged hhome hfits hrow, lookup_store, Option.some_inj]
  constructor
  · rintro ⟨row', hrow', -, hstatus, -, -⟩
    obtain rfl := (hfound row').mp hrow'
    rw [hcontent] at hstatus
    by_cases hreaches : Json.Reaches (statusPath row.type) (Json.patch row.content message.content)
    · rw [Json.get_set _ hreaches] at hstatus
      refine .inl ⟨_, hstatus.symm, ?_, hreaches⟩
      rw [hstatus]
    · rw [Json.get_set_of_not_reaches _ hreaches] at hstatus
      exact .inr ⟨hstatus.symm, hreaches⟩
  · intro h
    refine ⟨_, (hfound _).mpr rfl, if_pos hlate, ?_, fun path hapart ↦ ?_, rfl⟩
    · rw [hcontent]
      rcases h with ⟨status, hget, hwritten, hreaches⟩ | ⟨hget, hreaches⟩
      · rw [Json.get_set _ hreaches, hget, hwritten]
      · rw [Json.get_set_of_not_reaches _ hreaches, hget]
    · rw [hcontent, Json.get_set_of_apart _ _ hapart]

theorem Finished.upserted (h : Finished id db) (hhome : Home userId id convId db)
    (hfits : Fits convId message) :
    Finished id (db.upserted rewritten userId id message) := by
  obtain ⟨row, hrow, hterminal⟩ := h
  rw [upserted_merged hhome hfits hrow]
  refine ⟨_, lookup_store _, ?_⟩
  by_cases hlate : IsLate row message
  · have hstatus : (mergeRow rewritten row message).status = row.status := if_pos hlate
    rw [hstatus]
    exact hterminal
  · have hstatus : (mergeRow rewritten row message).status = message.status := if_neg hlate
    rw [hstatus]
    rcases hfits.2 with hwork | hend
    · exact absurd ⟨hterminal, hwork⟩ hlate
    · exact hend

theorem findSome?_concat {α β : Type} (f : α → Option β) (l : List α) (a : α) :
    (l ++ [a]).findSome? f = (l.findSome? f).or (f a) := by
  rw [List.findSome?_append, List.findSome?_singleton]

theorem gathers_first (hhome : Home userId id convId db) (hfits : Fits convId message) :
    Gathers id (db.store id message message) convId [message] := by
  obtain ⟨conversation, hconversation, -⟩ := hhome.owned
  refine ⟨message, lookup_store message, ?_, ⟨message, by simp, rfl⟩, by simp, by simp, ?_⟩
  · intro other hother
    rw [List.mem_singleton.mp hother]
  · rw [lookup_conversation_store message hfits, Option.mem_def.mp hconversation]
    refine ⟨_, rfl, fun other hother ↦ ?_⟩
    rw [List.mem_singleton.mp hother]
    exact le_max_right _ _

theorem Gathers.upserted (h : Gathers id db convId messages) (hhome : Home userId id convId db)
    (hfits : Fits convId message) :
    Gathers id (db.upserted rewritten userId id message) convId (messages ++ [message]) := by
  obtain ⟨row, hrow, hleast, ⟨first, hfirst, hcreated⟩, hposition, hturn, conversation,
    hconversation, hupdated⟩ := h
  rw [upserted_merged hhome hfits hrow]
  have hmerged : (mergeRow rewritten row message).createdAt =
      min row.createdAt message.createdAt := rfl
  refine ⟨_, lookup_store _, ?_, ?_, ?_, ?_, ?_⟩
  · intro other hother
    rw [hmerged]
    rcases List.mem_append.mp hother with hother | hother
    · exact (min_le_left _ _).trans (hleast other hother)
    · rw [List.mem_singleton.mp hother]
      exact min_le_right _ _
  · rw [hmerged]
    rcases le_total row.createdAt message.createdAt with hle | hle
    · exact ⟨first, List.mem_append_left _ hfirst, (min_eq_left hle).trans hcreated⟩
    · exact ⟨message, by simp, min_eq_right hle⟩
  · rw [findSome?_concat, ← hposition]
    rfl
  · rw [findSome?_concat, ← hturn]
    rfl
  · rw [lookup_conversation_store _ hfits, Option.mem_def.mp hconversation]
    refine ⟨_, rfl, fun other hother ↦ ?_⟩
    rcases List.mem_append.mp hother with hother | hother
    · exact (hupdated other hother).trans (le_max_left _ _)
    · rw [List.mem_singleton.mp hother]
      exact le_max_right _ _

end Step

section Run

variable {rewritten : String → String} {userId id convId : String} {db : MessageTables Content}
  {messages seen : List (MessageRow Content)}

theorem Home.run (hhome : Home userId id convId db) (hfits : ∀ message ∈ messages, Fits convId message) :
    Home userId id convId (run (fun db message ↦ db.upserted rewritten userId id message) db messages) :=
  run_of_meets (P := Home userId id convId) (fun _ _ hs hguard ↦ hs.upserted hguard) hhome
    (meets_of_forall hfits)

theorem Gathers.run (h : Gathers id db convId seen) (hhome : Home userId id convId db)
    (hfits : ∀ message ∈ messages, Fits convId message) :
    Gathers id (run (fun db message ↦ db.upserted rewritten userId id message) db messages) convId
      (seen ++ messages) := by
  induction messages generalizing db seen with
  | nil =>
      rw [List.append_nil]
      exact h
  | cons message messages ih =>
      have hfirst := hfits message List.mem_cons_self
      rw [run_cons, List.append_cons]
      exact ih (h.upserted hhome hfirst) (hhome.upserted hfirst) fun other hother ↦
        hfits other (List.mem_cons_of_mem message hother)

/-- A finished row stays finished, and the status in its content is kept exactly while it can be
put back.  Of all messages the row keeps the earliest time and the first position and turn. -/
theorem protects_iff_restorable
    (howned : ∃ conversation ∈ db.conversations.lookup convId, conversation.userId = userId)
    (hnew : db.messages.lookup id = none)
    (hfits : ∀ message ∈ messages, Fits convId message) :
    (Meets (fun db message ↦ db.upserted rewritten userId id message)
        (Protects rewritten userId id) db messages ↔
      Meets (fun db message ↦ db.upserted rewritten userId id message)
        (Restorable rewritten id) db messages) ∧
    (∀ before after, messages = before ++ after →
      Finished id (run (fun db message ↦ db.upserted rewritten userId id message) db before) →
        Finished id (run (fun db message ↦ db.upserted rewritten userId id message) db messages)) ∧
    (messages ≠ [] →
      Gathers id (run (fun db message ↦ db.upserted rewritten userId id message) db messages) convId
        messages) := by
  have hhome : Home userId id convId db := ⟨howned, fun row hrow ↦ (by cases hnew.symm.trans hrow)⟩
  refine ⟨?_, ?_, ?_⟩
  · exact meets_iff_meets_of_meets (Q := Home userId id convId)
      (fun _ _ hs hguard _ ↦ hs.upserted hguard) (fun _ _ hs hguard ↦ protects_iff hs hguard) hhome
      (meets_of_forall hfits)
  · rintro before after rfl hfinished
    have hbefore : ∀ message ∈ before, Fits convId message := fun message hmem ↦
      hfits message (List.mem_append_left after hmem)
    have hafter : ∀ message ∈ after, Fits convId message := fun message hmem ↦
      hfits message (List.mem_append_right before hmem)
    have hmeets := @meets_of_forall _ _ (fun db message ↦ db.upserted rewritten userId id message)
      (run (fun db message ↦ db.upserted rewritten userId id message) db before) _ _ hafter
    rw [run_append]
    exact (run_of_meets (P := fun db ↦ Finished id db ∧ Home userId id convId db)
      (fun _ _ hs hguard ↦ ⟨hs.1.upserted hs.2 hguard, hs.2.upserted hguard⟩)
      ⟨hfinished, hhome.run hbefore⟩ hmeets).1
  · intro hne
    obtain ⟨message, rest, rfl⟩ := List.exists_cons_of_ne_nil hne
    have hfirst := hfits message List.mem_cons_self
    rw [run_cons, upserted_new hnew]
    exact (gathers_first hhome hfirst).run (hhome.store hfirst hfirst.1) fun other hother ↦
      hfits other (List.mem_cons_of_mem message hother)

end Run

def toolConversation : MessageTables Content :=
  ⟨(∅ : Table String ConversationRow).insert "conv" ⟨"user", 0⟩, ∅⟩

def toolMessage (content : Content) (status : String) (createdAt : ℤ) : MessageRow Content :=
  ⟨"conv", some "tool", "tool_call", content, some "left", some status, false, createdAt, none⟩

/-- The call is over, and its content says nothing of a status. -/
def finishedTool : MessageRow Content :=
  toolMessage (.object (.cons "output" (.scalar (.text "done")) .nil)) "finish" 2

def runningTool : MessageRow Content :=
  toolMessage (.object (.cons "status" (.scalar (.text "running")) .nil)) "work" 1

theorem protects_iff_restorable_late :
    Meets (fun db message ↦ db.upserted id "user" "tool" message) (Protects id "user" "tool")
        toolConversation [finishedTool, runningTool] ↔
      Meets (fun db message ↦ db.upserted id "user" "tool" message) (Restorable id "tool")
        toolConversation [finishedTool, runningTool] :=
  (@protects_iff_restorable id "user" "tool" "conv" toolConversation [finishedTool, runningTool]
    ⟨_, rfl, rfl⟩ rfl (by decide)).1

/-- The absent status comes back as a null. -/
theorem runningTool_not_protected :
    ¬Meets (fun db message ↦ db.upserted id "user" "tool" message) (Protects id "user" "tool")
      toolConversation [finishedTool, runningTool] := by
  rintro ⟨-, hlate, -⟩
  obtain ⟨row, hrow, -, hstatus, -, -⟩ := hlate finishedTool rfl ⟨.inl rfl, rfl⟩
  cases hrow
  cases hstatus

end Zaowutai.Messages
