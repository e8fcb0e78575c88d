import Mathlib.Data.List.Nodup
import Zaowutai.Channel.ChatSessions

/-!
# One chat, one conversation

A chat splits in three ways: a session is inserted although another task has
inserted one since the lookup, a conversation is created for a session that
another message has taken to a conversation of its own, and a message that a
reset overtook is given the session of a later interval.  Runs without these
steps keep every chat in one conversation between two resets.
-/

namespace Zaowutai.Channel

open Zaowutai.Lib

def ChatTask.session : ChatTask → Option ℕ
  | .touchActivity .text session _ | .readInserted .text session => some session
  | .getSessionById session _ | .createConversation session _ => some session
  | .warmup session _ _ | .sendMessage session _ _ | .bindConversation session _ => some session
  | _ => none

def ChatTask.conversation : ChatTask → Option ℕ
  | .warmup _ _ conversation | .sendMessage _ _ conversation => some conversation
  | .bindConversation _ conversation => some conversation
  | _ => none

namespace ChatStore

variable {s : ChatStore}

structure OneConversation (s : ChatStore) : Prop where
  session : (s.sessions.map AssistantSessionRow.chat).Nodup
  binding : ∀ a ∈ s.bindings, ∀ b ∈ s.bindings, a.1 = b.1 → a.2 = b.2
  message : ∀ m ∈ s.sent, ∀ m' ∈ s.sent, m.chat = m'.chat → m.interval = m'.interval →
    m.conversation = m'.conversation
  bound : ∀ m ∈ s.sent, ∀ b ∈ s.bindings, b.1 = m.session → b.2 = m.conversation

def sessionsOf (s : ChatStore) (chat : Chat) (interval : ℕ) : List ℕ :=
  (s.tasks.filter fun op ↦ op.chat = chat ∧ op.interval = interval).filterMap (·.next.session) ++
    (s.sent.filter fun m ↦ m.chat = chat ∧ m.interval = interval).map SentMessage.session

def conversationsOf (s : ChatStore) (session : ℕ) : List ℕ :=
  (s.bindings.filter fun b ↦ b.1 = session).map Prod.snd ++
    ((s.tasks.filter fun op ↦ op.next.session = some session).filterMap (·.next.conversation) ++
      (s.sent.filter fun m ↦ m.session = session).map SentMessage.conversation)

/-- The chat was reset since the message came in. -/
def Overtaken (s : ChatStore) (op : ChatOp) : Prop := op.interval ≠ s.resetsOf op.chat

def InTurn (s : ChatStore) (op : ChatOp) : Prop :=
  match op.next with
  | .findSession .text => s.Overtaken op → ∀ row ∈ s.findSession op.chat,
      ∀ session ∈ s.sessionsOf op.chat op.interval, session = row.id
  | .insertSession request => s.findSession op.chat = none ∧
      (request = .text → s.Overtaken op → s.sessionsOf op.chat op.interval = [])
  | .createConversation session _ => s.conversationsOf session = []
  | _ => True

def StepInTurn (s : ChatStore) : ChatStep → Prop
  | .begin _ _ => True
  | .advance index ok => ok = true → ∀ op ∈ s.tasks[index]?, s.InTurn op

theorem mem_sessionsOf {chat : Chat} {interval session : ℕ} :
    session ∈ s.sessionsOf chat interval ↔
      (∃ op ∈ s.tasks, (op.chat = chat ∧ op.interval = interval) ∧
        op.next.session = some session) ∨
      ∃ m ∈ s.sent, (m.chat = chat ∧ m.interval = interval) ∧ m.session = session := by
  simp [sessionsOf, and_assoc]

theorem mem_conversationsOf {session conversation : ℕ} :
    conversation ∈ s.conversationsOf session ↔
      (session, conversation) ∈ s.bindings ∨
      (∃ op ∈ s.tasks, op.next.session = some session ∧
        op.next.conversation = some conversation) ∨
      ∃ m ∈ s.sent, m.session = session ∧ m.conversation = conversation := by
  simp [conversationsOf, and_assoc]

/-- What the steps of a run in turn keep. -/
structure Coherent (s : ChatStore) : Prop where
  rows : (s.sessions.map AssistantSessionRow.chat).Nodup
  bound : ∀ row ∈ s.sessions, ∀ c ∈ row.conversationId, (row.id, c) ∈ s.bindings
  conversations : ∀ session, ∀ c ∈ s.conversationsOf session, ∀ c' ∈ s.conversationsOf session,
    c = c'
  sessions : ∀ chat interval, ∀ x ∈ s.sessionsOf chat interval,
    ∀ x' ∈ s.sessionsOf chat interval, x = x'
  current : ∀ chat, ∀ x ∈ s.sessionsOf chat (s.resetsOf chat),
    ∃ row ∈ s.sessions, row.chat = chat ∧ row.id = x
  arrived : ∀ op ∈ s.tasks, op.interval ≤ s.resetsOf op.chat
  delivered : ∀ m ∈ s.sent, m.interval ≤ s.resetsOf m.chat

theorem Coherent.oneConversation (h : s.Coherent) : s.OneConversation where
  session := h.rows
  binding := by
    rintro ⟨session, c⟩ hc ⟨session', c'⟩ hc' (rfl : session = session')
    exact h.conversations session c (mem_conversationsOf.mpr (Or.inl hc)) c'
      (mem_conversationsOf.mpr (Or.inl hc'))
  message := by
    intro m hm m' hm' hchat hinterval
    have hsame : m.session = m'.session :=
      h.sessions m.chat m.interval m.session
        (mem_sessionsOf.mpr (Or.inr ⟨m, hm, ⟨rfl, rfl⟩, rfl⟩)) m'.session
        (mem_sessionsOf.mpr (Or.inr ⟨m', hm', ⟨hchat.symm, hinterval.symm⟩, rfl⟩))
    exact h.conversations m.session m.conversation
      (mem_conversationsOf.mpr (Or.inr (Or.inr ⟨m, hm, rfl, rfl⟩))) m'.conversation
      (mem_conversationsOf.mpr (Or.inr (Or.inr ⟨m', hm', hsame.symm, rfl⟩)))
  bound := by
    rintro m hm ⟨session, c⟩ hc (rfl : session = m.session)
    exact h.conversations m.session c (mem_conversationsOf.mpr (Or.inl hc)) m.conversation
      (mem_conversationsOf.mpr (Or.inr (Or.inr ⟨m, hm, rfl, rfl⟩)))

/-! ### The rows a call finds -/

theorem findSession_some {chat : Chat} {row : AssistantSessionRow}
    (h : s.findSession chat = some row) : row ∈ s.sessions ∧ row.chat = chat :=
  ⟨List.mem_of_find?_eq_some h, by simpa using List.find?_some h⟩

theorem findSession_none {chat : Chat} :
    s.findSession chat = none ↔ ∀ row ∈ s.sessions, row.chat ≠ chat := by
  simp [findSession]

theorem getSession_some {session : ℕ} {row : AssistantSessionRow}
    (h : s.getSession session = some row) : row ∈ s.sessions ∧ row.id = session :=
  ⟨List.mem_of_find?_eq_some h, by simpa using List.find?_some h⟩

@[simp] theorem bound_chat (session conversation : ℕ) (row : AssistantSessionRow) :
    (row.bound session conversation).chat = row.chat := by
  unfold AssistantSessionRow.bound
  split <;> rfl

@[simp] theorem bound_id (session conversation : ℕ) (row : AssistantSessionRow) :
    (row.bound session conversation).id = row.id := by
  unfold AssistantSessionRow.bound
  split <;> rfl

/-! ### What a call changes -/

section Write

variable {op : ChatOp}

theorem resetsOf_le_write (chat : Chat) : s.resetsOf chat ≤ (s.write op).resetsOf chat := by
  unfold write
  cases op.next with
  | deleteSessionByUserChat => exact List.Sublist.count_le _ (List.sublist_append_left ..)
  | bindConversation session conversation =>
      simp only [updateSessionConversation]
      split <;> exact le_rfl
  | _ => exact le_rfl

theorem mem_bindings_write {b : ℕ × ℕ} (h : b ∈ (s.write op).bindings) :
    b ∈ s.bindings ∨ op.next = .bindConversation b.1 b.2 := by
  unfold write at h
  cases hnext : op.next with
  | bindConversation session conversation =>
      simp only [hnext, updateSessionConversation] at h
      split at h
      · obtain hold | hnew := List.mem_append.mp h
        · exact Or.inl hold
        · obtain rfl := List.mem_singleton.mp hnew
          exact Or.inr rfl
      · exact Or.inl h
  | _ => exact Or.inl (by simpa only [hnext] using h)

theorem mem_sent_write {m : SentMessage} (h : m ∈ (s.write op).sent) :
    m ∈ s.sent ∨ ((m.chat = op.chat ∧ m.interval = op.interval) ∧
      op.next.session = some m.session ∧ op.next.conversation = some m.conversation) := by
  unfold write at h
  cases hnext : op.next with
  | sendMessage session dispatched conversation =>
      simp only [hnext] at h
      obtain hold | hnew := List.mem_append.mp h
      · exact Or.inl hold
      · obtain rfl := List.mem_singleton.mp hnew
        exact Or.inr ⟨⟨rfl, rfl⟩, rfl, rfl⟩
  | bindConversation session conversation =>
      simp only [hnext, updateSessionConversation] at h
      split at h <;> exact Or.inl h
  | _ => exact Or.inl (by simpa only [hnext] using h)

theorem nodup_chats_write (h : (s.sessions.map AssistantSessionRow.chat).Nodup)
    (hturn : s.InTurn op) : ((s.write op).sessions.map AssistantSessionRow.chat).Nodup := by
  unfold write
  unfold InTurn at hturn
  cases hnext : op.next with
  | deleteSessionByUserChat => exact h.sublist (List.filter_sublist.map _)
  | insertSession request =>
      simp only [hnext] at hturn
      simp only [List.map_append, List.map_cons, List.map_nil]
      refine List.nodup_append.mpr ⟨h, by simp, ?_⟩
      rintro chat hchat new hnew rfl
      obtain rfl := List.mem_singleton.mp hnew
      obtain ⟨row, hrow, hsame⟩ := List.mem_map.mp hchat
      exact findSession_none.mp hturn.1 row hrow hsame
  | bindConversation session conversation =>
      simp only [updateSessionConversation]
      split
      · simpa [Function.comp_def] using h
      · exact h
  | _ => exact h

theorem bound_write (h : ∀ row ∈ s.sessions, ∀ c ∈ row.conversationId, (row.id, c) ∈ s.bindings) :
    ∀ row ∈ (s.write op).sessions, ∀ c ∈ row.conversationId, (row.id, c) ∈ (s.write op).bindings := by
  unfold write
  cases op.next with
  | deleteSessionByUserChat => exact fun row hrow ↦ h row (List.mem_of_mem_filter hrow)
  | insertSession request =>
      intro row hrow c hc
      obtain hold | hnew := List.mem_append.mp hrow
      · exact h row hold c hc
      · obtain rfl := List.mem_singleton.mp hnew
        cases hc
  | bindConversation session conversation =>
      simp only [updateSessionConversation]
      split
      · intro row hrow c hc
        obtain ⟨old, hold, rfl⟩ := List.mem_map.mp hrow
        by_cases hid : old.id = session
        · simp only [AssistantSessionRow.bound, if_pos hid] at hc ⊢
          obtain rfl := Option.mem_some_iff.mp hc
          exact List.mem_append_right _ (by simp [hid])
        · simp only [AssistantSessionRow.bound, if_neg hid] at hc ⊢
          exact List.mem_append_left _ (h old hold c hc)
      · exact h
  | _ => exact h

theorem row_write {chat : Chat} {session : ℕ} (hsame : (s.write op).resetsOf chat = s.resetsOf chat)
    (h : ∃ row ∈ s.sessions, row.chat = chat ∧ row.id = session) :
    ∃ row ∈ (s.write op).sessions, row.chat = chat ∧ row.id = session := by
  obtain ⟨row, hrow, hchat, hid⟩ := h
  unfold write at hsame ⊢
  cases hnext : op.next with
  | deleteSessionByUserChat =>
      simp only [hnext, resetsOf, List.count_append] at hsame
      have hother : row.chat ≠ op.chat := by
        rintro hreset
        rw [← hchat, hreset, List.count_singleton_self] at hsame
        omega
      exact ⟨row, List.mem_filter.mpr ⟨hrow, by simpa using hother⟩, hchat, hid⟩
  | insertSession request => exact ⟨row, List.mem_append_left _ hrow, hchat, hid⟩
  | bindConversation session conversation =>
      simp only [updateSessionConversation]
      split
      · exact ⟨_, List.mem_map_of_mem hrow, by simpa using hchat, by simpa using hid⟩
      · exact ⟨row, hrow, hchat, hid⟩
  | _ => exact ⟨row, hrow, hchat, hid⟩

def Gives (s : ChatStore) (op : ChatOp) (session : ℕ) : Prop :=
  (op.next = .findSession .text ∧ ∃ row ∈ s.findSession op.chat, row.id = session) ∨
    op.next = .insertSession .text ∧ session = s.nextId

theorem Gives.unique {session session' : ℕ} (h : s.Gives op session) (h' : s.Gives op session') :
    session = session' := by
  obtain ⟨hnext, row, hrow, rfl⟩ | ⟨hnext, rfl⟩ := h
  · obtain ⟨-, row', hrow', rfl⟩ | ⟨hnext', -⟩ := h'
    · rw [Option.mem_unique hrow hrow']
    · rw [hnext] at hnext'
      cases hnext'
  · obtain ⟨hnext', -⟩ | ⟨-, rfl⟩ := h'
    · rw [hnext] at hnext'
      cases hnext'
    · rfl

/-- A call that names a session has it from the call before, or was given it just now; and so
with its conversation, which the row of the session may have as well. -/
theorem bound_after {next : ChatTask} {session : ℕ} (hnext : s.after op = some next)
    (h : next.session = some session) :
    (op.next.session = some session ∨ s.Gives op session) ∧
      ∀ conversation, next.conversation = some conversation →
        (op.next.session = some session ∧ op.next.conversation = some conversation) ∨
          (∃ row ∈ s.sessions, row.id = session ∧ row.conversationId = some conversation) ∨
          (∃ dispatched, op.next = .createConversation session dispatched) ∧
            conversation = s.nextId := by
  unfold after at hnext
  cases hcall : op.next with
  | authorize request =>
      simp only [hcall] at hnext
      obtain rfl := Option.some.inj hnext
      cases request <;> cases h
  | deleteSessionByUserChat =>
      simp only [hcall] at hnext
      obtain rfl := Option.some.inj hnext
      cases h
  | findSession request =>
      simp only [hcall] at hnext
      cases hrow : s.findSession op.chat with
      | some row =>
          simp only [hrow] at hnext
          obtain rfl := Option.some.inj hnext
          cases request with
          | text =>
              exact ⟨.inr (.inl ⟨hcall, row, hrow, Option.some.inj h⟩), fun _ hconv ↦ by cases hconv⟩
          | sessionNew => cases h
      | none =>
          simp only [hrow] at hnext
          obtain rfl := Option.some.inj hnext
          cases h
  | touchActivity request old dispatched =>
      simp only [hcall] at hnext
      cases request with
      | text =>
          obtain rfl := Option.some.inj hnext
          exact ⟨.inl h, fun _ hconv ↦ by cases hconv⟩
      | sessionNew => cases hnext
  | insertSession request =>
      simp only [hcall] at hnext
      obtain rfl := Option.some.inj hnext
      cases request with
      | text =>
          exact ⟨.inr (.inr ⟨hcall, (Option.some.inj h).symm⟩), fun _ hconv ↦ by cases hconv⟩
      | sessionNew => cases h
  | readInserted request old =>
      simp only [hcall] at hnext
      obtain ⟨row, hrow, hafter⟩ := Option.bind_eq_some_iff.mp hnext
      obtain rfl := (getSession_some hrow).2
      cases request with
      | text =>
          obtain rfl := Option.some.inj hafter
          exact ⟨.inl h, fun _ hconv ↦ by cases hconv⟩
      | sessionNew => cases hafter
  | getSessionById old dispatched =>
      simp only [hcall] at hnext
      obtain ⟨row, hrow, rfl⟩ := Option.map_eq_some_iff.mp hnext
      obtain ⟨hmem, rfl⟩ := getSession_some hrow
      unfold sendToAgent at h ⊢
      cases hbound : row.conversationId with
      | some bound =>
          simp only [hbound] at h ⊢
          exact ⟨.inl h, fun conversation hconv ↦
            .inr (.inl ⟨row, hmem, Option.some.inj h, hbound.trans hconv⟩)⟩
      | none =>
          simp only [hbound] at h ⊢
          exact ⟨.inl h, fun _ hconv ↦ by cases hconv⟩
  | createConversation old dispatched =>
      simp only [hcall] at hnext
      obtain rfl := Option.some.inj hnext
      obtain rfl := Option.some.inj h
      exact ⟨.inl rfl, fun _ hconv ↦ .inr (.inr ⟨⟨dispatched, rfl⟩, (Option.some.inj hconv).symm⟩)⟩
  | warmup old dispatched sent =>
      simp only [hcall] at hnext
      obtain rfl := Option.some.inj hnext
      exact ⟨.inl h, fun _ hconv ↦ .inl ⟨h, hconv⟩⟩
  | sendMessage old dispatched sent =>
      simp only [hcall] at hnext
      split at hnext
      · obtain rfl := Option.some.inj hnext
        exact ⟨.inl h, fun _ hconv ↦ .inl ⟨h, hconv⟩⟩
      · cases hnext
  | bindConversation old sent =>
      simp only [hcall] at hnext
      cases hnext

/-! ### What a step changes -/

section Advance

variable {rest : List ChatOp}

theorem mem_tasks_advance {o : ChatOp} (hrest : rest ⊆ s.tasks)
    (h : o ∈ (s.advance op rest).tasks) :
    o ∈ s.tasks ∨ ∃ next, s.after op = some next ∧ o = { op with next := next } := by
  obtain hold | hnew := List.mem_append.mp h
  · exact Or.inl (hrest hold)
  · obtain ⟨next, hnext, rfl⟩ := Option.map_eq_some_iff.mp (Option.mem_toList.mp hnew)
    exact Or.inr ⟨next, hnext, rfl⟩

theorem mem_sessionsOf_advance {chat : Chat} {interval session : ℕ} (hrest : rest ⊆ s.tasks)
    (hop : op ∈ s.tasks) (h : session ∈ (s.advance op rest).sessionsOf chat interval) :
    session ∈ s.sessionsOf chat interval ∨
      (op.chat = chat ∧ op.interval = interval) ∧ s.Gives op session := by
  obtain ⟨o, ho, hat, hsession⟩ | ⟨m, hm, hat, hsession⟩ := mem_sessionsOf.mp h
  · obtain hold | ⟨next, hnext, rfl⟩ := mem_tasks_advance hrest ho
    · exact Or.inl (mem_sessionsOf.mpr (Or.inl ⟨o, hold, hat, hsession⟩))
    · obtain hkept | hgiven := (bound_after hnext hsession).1
      · exact Or.inl (mem_sessionsOf.mpr (Or.inl ⟨op, hop, hat, hkept⟩))
      · exact Or.inr ⟨hat, hgiven⟩
  · refine Or.inl (mem_sessionsOf.mpr ?_)
    obtain hold | ⟨⟨hchat, hinterval⟩, hkept, -⟩ := mem_sent_write hm
    · exact Or.inr ⟨m, hold, hat, hsession⟩
    · rw [hchat, hinterval] at hat
      rw [hsession] at hkept
      exact Or.inl ⟨op, hop, hat, hkept⟩

theorem mem_conversationsOf_advance {session conversation : ℕ} (hrest : rest ⊆ s.tasks)
    (hop : op ∈ s.tasks)
    (hbound : ∀ row ∈ s.sessions, ∀ c ∈ row.conversationId, (row.id, c) ∈ s.bindings)
    (h : conversation ∈ (s.advance op rest).conversationsOf session) :
    conversation ∈ s.conversationsOf session ∨
      (∃ dispatched, op.next = .createConversation session dispatched) ∧
        conversation = s.nextId := by
  have hkeep : op.next.session = some session → op.next.conversation = some conversation →
      conversation ∈ s.conversationsOf session := fun hs hc ↦
    mem_conversationsOf.mpr (Or.inr (Or.inl ⟨op, hop, hs, hc⟩))
  obtain hb | ⟨o, ho, hsession, hconv⟩ | ⟨m, hm, rfl, rfl⟩ := mem_conversationsOf.mp h
  · refine Or.inl ?_
    obtain hold | hnew := mem_bindings_write hb
    · exact mem_conversationsOf.mpr (Or.inl hold)
    · exact hkeep (by rw [hnew]; rfl) (by rw [hnew]; rfl)
  · obtain hold | ⟨next, hnext, rfl⟩ := mem_tasks_advance hrest ho
    · exact Or.inl (mem_conversationsOf.mpr (Or.inr (Or.inl ⟨o, hold, hsession, hconv⟩)))
    · obtain ⟨hs, hc⟩ | ⟨row, hrow, rfl, hc⟩ | hcreated :=
          (bound_after hnext hsession).2 _ hconv
      · exact Or.inl (hkeep hs hc)
      · exact Or.inl (mem_conversationsOf.mpr (Or.inl (hbound row hrow _ hc)))
      · exact Or.inr hcreated
  · refine Or.inl ?_
    obtain hold | ⟨-, hs, hc⟩ := mem_sent_write hm
    · exact mem_conversationsOf.mpr (Or.inr (Or.inr ⟨m, hold, rfl, rfl⟩))
    · exact hkeep hs hc

theorem sessionsOf_given (hs : s.Coherent) (hturn : s.InTurn op) {given : ℕ}
    (h : s.Gives op given) : ∀ session ∈ s.sessionsOf op.chat op.interval, session = given := by
  intro session hsession
  unfold InTurn at hturn
  obtain ⟨hnext, row, hrow, rfl⟩ | ⟨hnext, rfl⟩ := h
  · simp only [hnext] at hturn
    by_cases hover : s.Overtaken op
    · exact hturn hover row hrow session hsession
    · rw [not_not.mp hover] at hsession
      obtain ⟨row', hrow', hchat', rfl⟩ := hs.current op.chat session hsession
      have hfound := findSession_some hrow
      exact congrArg AssistantSessionRow.id
        (List.inj_on_of_nodup_map hs.rows hrow' hfound.1 (hchat'.trans hfound.2.symm))
  · simp only [hnext] at hturn
    by_cases hover : s.Overtaken op
    · rw [hturn.2 trivial hover] at hsession
      cases hsession
    · rw [not_not.mp hover] at hsession
      obtain ⟨row', hrow', hchat', -⟩ := hs.current op.chat session hsession
      exact absurd hchat' (findSession_none.mp hturn.1 row' hrow')

theorem row_given {given : ℕ} (h : s.Gives op given) :
    ∃ row ∈ (s.write op).sessions, row.chat = op.chat ∧ row.id = given := by
  unfold write
  obtain ⟨hnext, row, hrow, rfl⟩ | ⟨hnext, rfl⟩ := h
  · have hfound := findSession_some hrow
    simp only [hnext]
    exact ⟨row, hfound.1, hfound.2, rfl⟩
  · simp only [hnext]
    exact ⟨_, List.mem_append_right _ (List.mem_singleton_self _), rfl, rfl⟩

theorem interval_le_of_mem_sessionsOf (hs : s.Coherent) {chat : Chat} {interval session : ℕ}
    (h : session ∈ s.sessionsOf chat interval) : interval ≤ s.resetsOf chat := by
  obtain ⟨o, ho, ⟨rfl, rfl⟩, -⟩ | ⟨m, hm, ⟨rfl, rfl⟩, -⟩ := mem_sessionsOf.mp h
  · exact hs.arrived o ho
  · exact hs.delivered m hm

theorem coherent_advance (hs : s.Coherent) (hrest : rest ⊆ s.tasks) (hop : op ∈ s.tasks)
    (hturn : s.InTurn op) : (s.advance op rest).Coherent where
  rows := nodup_chats_write hs.rows hturn
  bound := bound_write hs.bound
  conversations session c hc c' hc' := by
    have hfresh : (∃ dispatched, op.next = .createConversation session dispatched) →
        s.conversationsOf session = [] := by
      rintro ⟨dispatched, hnext⟩
      simpa only [InTurn, hnext] using hturn
    obtain hold | ⟨hcreate, rfl⟩ := mem_conversationsOf_advance hrest hop hs.bound hc
    · obtain hold' | ⟨hcreate, rfl⟩ := mem_conversationsOf_advance hrest hop hs.bound hc'
      · exact hs.conversations session c hold c' hold'
      · rw [hfresh hcreate] at hold
        cases hold
    · obtain hold' | ⟨-, rfl⟩ := mem_conversationsOf_advance hrest hop hs.bound hc'
      · rw [hfresh hcreate] at hold'
        cases hold'
      · rfl
  sessions chat interval x hx x' hx' := by
    obtain hold | ⟨⟨rfl, rfl⟩, hgiven⟩ := mem_sessionsOf_advance hrest hop hx
    · obtain hold' | ⟨⟨rfl, rfl⟩, hgiven'⟩ := mem_sessionsOf_advance hrest hop hx'
      · exact hs.sessions chat interval x hold x' hold'
      · exact sessionsOf_given hs hturn hgiven' x hold
    · obtain hold' | ⟨-, hgiven'⟩ := mem_sessionsOf_advance hrest hop hx'
      · exact (sessionsOf_given hs hturn hgiven x' hold').symm
      · exact hgiven.unique hgiven'
  current chat x hx := by
    obtain hold | ⟨⟨rfl, hinterval⟩, hgiven⟩ := mem_sessionsOf_advance hrest hop hx
    · have hsame : (s.write op).resetsOf chat = s.resetsOf chat :=
        le_antisymm (interval_le_of_mem_sessionsOf hs hold) (resetsOf_le_write chat)
      refine row_write hsame (hs.current chat x ?_)
      rw [← hsame]
      exact hold
    · exact row_given hgiven
  arrived o ho := by
    obtain hold | ⟨next, -, rfl⟩ := mem_tasks_advance hrest ho
    · exact (hs.arrived o hold).trans (resetsOf_le_write o.chat)
    · exact (hs.arrived op hop).trans (resetsOf_le_write op.chat)
  delivered m hm := by
    obtain hold | ⟨⟨hchat, hinterval⟩, -⟩ := mem_sent_write hm
    · exact (hs.delivered m hold).trans (resetsOf_le_write m.chat)
    · rw [hchat, hinterval]
      exact (hs.arrived op hop).trans (resetsOf_le_write op.chat)

end Advance

end Write

theorem coherent_tasks {tasks : List ChatOp} (hs : s.Coherent)
    (htasks : ∀ op ∈ tasks,
      op ∈ s.tasks ∨ op.next.session = none ∧ op.interval ≤ s.resetsOf op.chat) :
    ({ s with tasks := tasks } : ChatStore).Coherent := by
  have hsessions : ∀ {chat interval session},
      session ∈ ({ s with tasks := tasks } : ChatStore).sessionsOf chat interval →
        session ∈ s.sessionsOf chat interval := by
    intro chat interval session h
    refine mem_sessionsOf.mpr ?_
    obtain ⟨op, hop, hat, hsession⟩ | hsent := mem_sessionsOf.mp h
    · obtain hold | ⟨hnone, -⟩ := htasks op hop
      · exact Or.inl ⟨op, hold, hat, hsession⟩
      · rw [hnone] at hsession
        cases hsession
    · exact Or.inr hsent
  have hconversations : ∀ {session c},
      c ∈ ({ s with tasks := tasks } : ChatStore).conversationsOf session →
        c ∈ s.conversationsOf session := by
    intro session c h
    refine mem_conversationsOf.mpr ?_
    obtain hbound | ⟨op, hop, hsession, hc⟩ | hsent := mem_conversationsOf.mp h
    · exact Or.inl hbound
    · obtain hold | ⟨hnone, -⟩ := htasks op hop
      · exact Or.inr (Or.inl ⟨op, hold, hsession, hc⟩)
      · rw [hnone] at hsession
        cases hsession
    · exact Or.inr (Or.inr hsent)
  exact
    { rows := hs.rows
      bound := hs.bound
      conversations := fun session c hc c' hc' ↦
        hs.conversations session c (hconversations hc) c' (hconversations hc')
      sessions := fun chat interval x hx x' hx' ↦
        hs.sessions chat interval x (hsessions hx) x' (hsessions hx')
      current := fun chat x hx ↦ hs.current chat x (hsessions hx)
      arrived := fun op hop ↦ (htasks op hop).elim (hs.arrived op) And.right
      delivered := hs.delivered }

theorem coherent_step {a : ChatStep} (hs : s.Coherent) (hturn : s.StepInTurn a) :
    (s.step a).Coherent := by
  cases a with
  | begin request chat =>
      refine coherent_tasks hs fun op hop ↦ ?_
      obtain hold | hnew := List.mem_append.mp hop
      · exact Or.inl hold
      · obtain rfl := List.mem_singleton.mp hnew
        exact Or.inr ⟨rfl, le_rfl⟩
  | advance index ok =>
      cases hget : s.tasks[index]? with
      | none =>
          have hsame : s.step (.advance index ok) = s := by simp only [step, hget]
          rwa [hsame]
      | some op =>
          have hrest : s.tasks.eraseIdx index ⊆ s.tasks := List.eraseIdx_subset
          have hstep : s.step (.advance index ok) =
              if ok then s.advance op (s.tasks.eraseIdx index)
              else { s with tasks := s.tasks.eraseIdx index } := by simp only [step, hget]
          rw [hstep]
          cases ok with
          | true =>
              exact coherent_advance hs hrest (List.mem_of_getElem? hget) (hturn rfl op hget)
          | false => exact coherent_tasks hs fun op hop ↦ Or.inl (hrest hop)

theorem coherent_opened {rows : List AssistantSessionRow} {nextId : ℕ}
    (hids : (rows.map AssistantSessionRow.id).Nodup)
    (hchats : (rows.map AssistantSessionRow.chat).Nodup) : (opened rows nextId).Coherent := by
  have hbinding : ∀ {session c}, c ∈ (opened rows nextId).conversationsOf session →
      ∃ row ∈ rows, row.id = session ∧ row.conversationId = some c := by
    intro session c h
    obtain hbound | ⟨op, hop, -⟩ | ⟨m, hm, -⟩ := mem_conversationsOf.mp h
    · obtain ⟨row, hrow, hpair⟩ := List.mem_filterMap.mp hbound
      obtain ⟨c', hc', heq⟩ := Option.map_eq_some_iff.mp hpair
      cases heq
      exact ⟨row, hrow, rfl, hc'⟩
    · cases hop
    · cases hm
  exact
    { rows := hchats
      bound := fun row hrow c hc ↦ List.mem_filterMap.mpr ⟨row, hrow, by rw [hc]; rfl⟩
      conversations := by
        intro session c hc c' hc'
        obtain ⟨row, hrow, hid, hconv⟩ := hbinding hc
        obtain ⟨row', hrow', hid', hconv'⟩ := hbinding hc'
        obtain rfl := List.inj_on_of_nodup_map hids hrow hrow' (hid.trans hid'.symm)
        exact Option.some.inj (hconv.symm.trans hconv')
      sessions := fun chat interval x hx ↦ by cases hx
      current := fun chat x hx ↦ by cases hx
      arrived := fun op hop ↦ by cases hop
      delivered := fun m hm ↦ by cases hm }

/-- A chat keeps to one conversation between two resets in every run whose calls are in turn, from
any stored sessions that are one for each chat. -/
theorem one_conversation_in_turn {rows : List AssistantSessionRow} {nextId : ℕ}
    (hids : (rows.map AssistantSessionRow.id).Nodup)
    (hchats : (rows.map AssistantSessionRow.chat).Nodup) {steps : List ChatStep}
    (h : Meets step StepInTurn (opened rows nextId) steps) :
    Throughout step OneConversation (opened rows nextId) steps :=
  (throughout_of_meets (fun _ _ hs hturn ↦ coherent_step hs hturn) (coherent_opened hids hchats)
    h).mono fun _ ↦ Coherent.oneConversation

instance (s : ChatStore) (op : ChatOp) : Decidable (s.Overtaken op) :=
  inferInstanceAs (Decidable (_ ≠ _))

instance InTurn.decidable (s : ChatStore) : ∀ op, Decidable (s.InTurn op)
  | ⟨_, _, .findSession .text⟩ => inferInstanceAs (Decidable (_ → ∀ row ∈ _, _))
  | ⟨_, _, .findSession .sessionNew⟩ => isTrue trivial
  | ⟨_, _, .insertSession _⟩ => inferInstanceAs (Decidable (_ ∧ (_ → _ → _ = _)))
  | ⟨_, _, .createConversation _ _⟩ => inferInstanceAs (Decidable (_ = _))
  | ⟨_, _, .authorize _⟩ | ⟨_, _, .deleteSessionByUserChat⟩ => isTrue trivial
  | ⟨_, _, .touchActivity _ _ _⟩ | ⟨_, _, .readInserted _ _⟩ => isTrue trivial
  | ⟨_, _, .getSessionById _ _⟩ | ⟨_, _, .warmup _ _ _⟩ => isTrue trivial
  | ⟨_, _, .sendMessage _ _ _⟩ | ⟨_, _, .bindConversation _ _⟩ => isTrue trivial

instance (s : ChatStore) (a : ChatStep) : Decidable (s.StepInTurn a) := by
  cases a <;> unfold StepInTurn <;> infer_instance

def resetInTurn : List ChatStep :=
  .begin .text ⟨0, 0⟩ :: List.replicate 9 (.advance 0 true) ++
    .begin .sessionNew ⟨0, 0⟩ :: List.replicate 5 (.advance 0 true) ++
    .begin .text ⟨0, 0⟩ :: List.replicate 9 (.advance 0 true) ++
    .begin .text ⟨0, 0⟩ :: .begin .text ⟨0, 0⟩ :: List.replicate 14 (.advance 0 true)

theorem one_conversation_resetInTurn :
    Throughout step OneConversation (opened [⟨0, ⟨0, 1⟩, some 1⟩] 2) resetInTurn :=
  one_conversation_in_turn (by decide) (by decide) (by decide)

def twoFirstMessages : List ChatStep :=
  .begin .text ⟨0, 0⟩ :: .begin .text ⟨0, 0⟩ :: List.replicate 18 (.advance 0 true)

/-- Both messages insert a session and are sent to a conversation of their own. -/
theorem two_first_messages_split :
    ¬ Throughout step OneConversation (opened [] 0) twoFirstMessages := by
  intro h
  exact absurd h.last.session (by decide)

end ChatStore

end Zaowutai.Channel
