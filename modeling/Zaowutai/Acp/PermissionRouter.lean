import Mathlib.Data.List.Basic
import Zaowutai.Lib.Run
import Zaowutai.Lib.Table

/-!
# Permission requests of a CLI

A request names its tool call, what the tool was called with and the options
to choose from.  The tools of the team server are approved at once; any other
request is shown as a confirmation under the id of its tool call.
-/

namespace Zaowutai.Acp

inductive Json
  | null
  | bool (value : Bool)
  | number (text : String)
  | string (value : String)
  | array (items : List Json)
  | object (fields : List (String × Json))

namespace Json

def get? (key : String) : Json → Option Json
  | .object fields => (fields.find? (·.1 = key)).map (·.2)
  | .null | .bool _ | .number _ | .string _ | .array _ => none

def asStr? : Json → Option String
  | .string value => some value
  | .null | .bool _ | .number _ | .array _ | .object _ => none

def asArray? : Json → Option (List Json)
  | .array items => some items
  | .null | .bool _ | .number _ | .string _ | .object _ => none

end Json

inductive PermissionOptionKind
  | allowOnce
  | allowAlways
  | rejectOnce
  | rejectAlways
  deriving DecidableEq, Repr

structure PermissionOption where
  optionId : String
  name : String
  kind : PermissionOptionKind
  deriving DecidableEq, Repr

inductive ToolKind
  | read
  | edit
  | delete
  | move
  | search
  | execute
  | think
  | fetch
  | switchMode
  | other
  deriving DecidableEq, Repr

structure RequestPermissionRequest where
  toolCallId : String
  title : Option String
  kind : Option ToolKind
  rawInput : Option Json
  options : List PermissionOption

structure ConfirmationOption where
  label : String
  value : String
  deriving DecidableEq, Repr

structure Confirmation where
  id : String
  callId : String
  title : Option String
  description : String
  commandType : Option String
  questions : Option Json
  options : List ConfirmationOption

def autoApproveMcpServers : List String := ["aionui-team"]

def splitOnce (separator : List Char) : List Char → Option (List Char × List Char)
  | [] => none
  | c :: rest =>
      if separator.isPrefixOf (c :: rest) then some ([], (c :: rest).drop separator.length)
      else (splitOnce separator rest).map fun parts ↦ (c :: parts.1, parts.2)

/-- The server of a title such as `mcp__server__tool`. -/
def extractMcpServerFromPrefixedTitle (title : String) : Option String :=
  match (title.toList.dropPrefix? "mcp__".toList).bind (splitOnce "__".toList) with
  | none => none
  | some (serverName, toolName) =>
      if serverName.isEmpty || toolName.isEmpty then none else some (String.ofList serverName)

def commandType : ToolKind → String
  | .read | .search => "read"
  | .edit | .delete | .move => "edit"
  | .execute | .think | .fetch | .switchMode | .other => "execute"

def isQuestionList (questions : Json) : Bool :=
  questions.asArray?.any fun items ↦
    !items.isEmpty && items.all fun item ↦
      (item.get? "question").isSome && (item.get? "options").isSome

namespace RequestPermissionRequest

variable (request : RequestPermissionRequest)

def extractMcpServerFromRawInput : Option String :=
  ((request.rawInput.bind (Json.get? "server_name")).bind Json.asStr?).filter (!·.isEmpty)

def extractMcpServerName : Option String :=
  request.extractMcpServerFromRawInput.or
    (request.title.bind extractMcpServerFromPrefixedTitle)

def selectAllowOptionId : Option String :=
  ((request.options.find? (·.kind = .allowAlways)).or
    (request.options.find? (·.kind = .allowOnce))).map (·.optionId)

def autoApproveOptionId : Option String :=
  request.extractMcpServerName.bind fun serverName ↦
    if serverName ∈ autoApproveMcpServers then request.selectAllowOptionId else none

def toConfirmation : Confirmation where
  id := request.toolCallId
  callId := request.toolCallId
  title := request.title
  description := ((request.rawInput.bind (Json.get? "description")).bind Json.asStr?).getD ""
  commandType := request.kind.map Acp.commandType
  questions := (request.rawInput.bind (Json.get? "questions")).filter isQuestionList
  options := request.options.map fun option ↦ ⟨option.name, option.optionId⟩

theorem autoApproveOptionId_allows {optionId : String}
    (h : request.autoApproveOptionId = some optionId) :
    ∃ option ∈ request.options, option.optionId = optionId ∧
      (option.kind = .allowAlways ∨ option.kind = .allowOnce) := by
  obtain ⟨serverName, -, hselect⟩ := Option.bind_eq_some_iff.mp h
  obtain ⟨-, hselect⟩ := Option.ite_none_right_eq_some.mp hselect
  obtain ⟨option, hfound, rfl⟩ := Option.map_eq_some_iff.mp hselect
  obtain halways | ⟨-, honce⟩ := Option.or_eq_some_iff.mp hfound
  · have hkind := List.find?_some halways
    exact ⟨option, List.mem_of_find?_eq_some halways, rfl, .inl (of_decide_eq_true hkind)⟩
  · have hkind := List.find?_some honce
    exact ⟨option, List.mem_of_find?_eq_some honce, rfl, .inr (of_decide_eq_true hkind)⟩

end RequestPermissionRequest

/-!
## The permission router

One loop takes the requests out of the channel: it registers a request, then
publishes its event and, if nobody hears the event, removes what is registered
under the call id.  The other operations come in between.  A request is known
by its place in the order of arrival.
-/

open Zaowutai.Lib

inductive PermissionDecision
  | selected (optionId : String)
  | cancelled
  deriving DecidableEq, Repr

structure PendingPermission where
  request : ℕ
  confirmation : Confirmation

inductive RouterPhase
  | idle
  | registered (request : ℕ) (callId : String)
  | undelivered (request : ℕ) (callId : String)
  deriving DecidableEq, Repr

/-- A decision that was sent to a request, and whether anybody still waited for it. -/
structure PermissionAnswer where
  request : ℕ
  decision : PermissionDecision
  delivered : Bool
  deriving DecidableEq, Repr

/-- Beside the channel, the map and the flag, what is received and answered so far, the requests
whose side of the responder is gone, and whether all were cancelled after the flag was set. -/
structure PermissionRouter where
  channel : List (ℕ × RequestPermissionRequest)
  phase : RouterPhase
  pending : Table String PendingPermission
  closing : Bool
  arrived : ℕ
  received : List ℕ
  abandoned : List ℕ
  answers : List PermissionAnswer
  shutDown : Bool

inductive RouterAction
  | arrive (request : RequestPermissionRequest)
  | receive
  | publish (heard : Bool)
  | withdraw
  | confirm (callId optionId : String)
  | cancelAll
  | setClosing
  | abandon (request : ℕ)

namespace PermissionRouter

def new : PermissionRouter := ⟨[], .idle, ∅, false, 0, [], [], [], false⟩

variable (s : PermissionRouter)

def send (request : ℕ) (decision : PermissionDecision) : PermissionRouter :=
  { s with answers := s.answers ++ [⟨request, decision, request ∉ s.abandoned⟩] }

def answer (callId : String) (decision : PermissionDecision) : PermissionRouter :=
  match s.pending.lookup callId with
  | none => s
  | some pending => send { s with pending := s.pending.erase callId } pending.request decision

def register (request : ℕ) (confirmation : Confirmation) : PermissionRouter :=
  let displaced := s.answer confirmation.callId .cancelled
  { displaced with
    pending := displaced.pending.insert confirmation.callId ⟨request, confirmation⟩
    received := request :: s.received
    phase := .registered request confirmation.callId }

def approve (request : ℕ) (optionId : String) : PermissionRouter :=
  { s.send request (.selected optionId) with received := request :: s.received }

/-- The loop takes the next request once it is done with the one before. -/
def receive : PermissionRouter :=
  match s.phase, s.channel with
  | .idle, (request, permission) :: rest =>
      let taken := { s with channel := rest }
      match permission.autoApproveOptionId with
      | some optionId => taken.approve request optionId
      | none => taken.register request permission.toConfirmation
  | _, _ => s

def publish (heard : Bool) : PermissionRouter :=
  match s.phase with
  | .registered request callId =>
      { s with phase := if heard then .idle else .undelivered request callId }
  | .idle | .undelivered _ _ => s

def withdraw : PermissionRouter :=
  match s.phase with
  | .undelivered _ callId => { s.answer callId .cancelled with phase := .idle }
  | .idle | .registered _ _ => s

def getConfirmations : List Confirmation := s.pending.values.map (·.confirmation)

def confirm (callId optionId : String) : PermissionRouter × Except String Unit :=
  match s.pending.lookup callId with
  | none => (s, .error ("Pending ACP permission not found: " ++ callId))
  | some pending =>
      (s.answer callId (.selected optionId),
        if pending.request ∈ s.abandoned then
          .error ("Pending ACP permission expired: " ++ callId)
        else .ok ())

def cancelAll : PermissionRouter :=
  { s.pending.keys.foldl (fun s callId ↦ s.answer callId .cancelled) s with
    shutDown := s.shutDown || s.closing }

def setClosing : PermissionRouter := { s with closing := true }

def step : RouterAction → PermissionRouter
  | .arrive request =>
      { s with channel := s.channel ++ [(s.arrived, request)], arrived := s.arrived + 1 }
  | .receive => s.receive
  | .publish heard => s.publish heard
  | .withdraw => s.withdraw
  | .confirm callId optionId => (s.confirm callId optionId).1
  | .cancelAll => s.cancelAll
  | .setClosing => s.setClosing
  | .abandon request => { s with abandoned := request :: s.abandoned }

def waiting (callId : String) : Option ℕ := (s.pending.lookup callId).map (·.request)

def answersTo (request : ℕ) : List PermissionAnswer := s.answers.filter (·.request = request)

def IsPending (request : ℕ) : Prop := ∃ callId, s.waiting callId = some request

structure Balanced (s : PermissionRouter) : Prop where
  unique : ∀ callId callId' request, s.waiting callId = some request →
    s.waiting callId' = some request → callId = callId'
  unanswered : ∀ request, s.IsPending request → s.answersTo request = []
  answered : ∀ request ∈ s.received, ¬s.IsPending request →
    ∃ answer, s.answersTo request = [answer]
  received : ∀ request, s.IsPending request ∨ s.answersTo request ≠ [] → request ∈ s.received
  listed : ∀ callId pending, s.pending.lookup callId = some pending →
    pending.confirmation.callId = callId

section Answer

variable {s} {callId : String} {request : ℕ}

theorem answersTo_send (decision : PermissionDecision) (other : ℕ) :
    (s.send request decision).answersTo other =
      s.answersTo other ++
        if request = other then [⟨request, decision, request ∉ s.abandoned⟩] else [] := by
  rw [answersTo, send, List.filter_append, List.filter_cons, List.filter_nil]
  simp only [decide_eq_true_eq]
  rfl

theorem answer_of_none (h : s.waiting callId = none) (decision : PermissionDecision) :
    s.answer callId decision = s := by
  rw [answer, Option.map_eq_none_iff.mp h]

theorem answer_of_some (h : s.waiting callId = some request) (decision : PermissionDecision) :
    s.answer callId decision =
      send { s with pending := s.pending.erase callId } request decision := by
  obtain ⟨pending, hlookup, rfl⟩ := Option.map_eq_some_iff.mp h
  rw [answer, hlookup]

theorem lookup_answer (decision : PermissionDecision) (other : String) :
    (s.answer callId decision).pending.lookup other =
      if other = callId then none else s.pending.lookup other := by
  cases hwaiting : s.waiting callId with
  | none =>
      rw [answer_of_none hwaiting]
      split
      · next heq => rw [heq, Option.map_eq_none_iff.mp hwaiting]
      · rfl
  | some request =>
      rw [answer_of_some hwaiting]
      exact Table.lookup_erase_eq

theorem waiting_answer (decision : PermissionDecision) (other : String) :
    (s.answer callId decision).waiting other =
      if other = callId then none else s.waiting other := by
  rw [waiting, lookup_answer]
  split <;> rfl

theorem received_answer (decision : PermissionDecision) :
    (s.answer callId decision).received = s.received := by
  cases hwaiting : s.waiting callId with
  | none => rw [answer_of_none hwaiting]
  | some request => rw [answer_of_some hwaiting]; rfl

theorem answersTo_answer (h : s.waiting callId = some request) (decision : PermissionDecision)
    (other : ℕ) :
    (s.answer callId decision).answersTo other =
      s.answersTo other ++
        if request = other then [⟨request, decision, request ∉ s.abandoned⟩] else [] := by
  rw [answer_of_some h]
  exact answersTo_send decision other

theorem waiting_answer_some {decision : PermissionDecision} {other : String} :
    (s.answer callId decision).waiting other = some request ↔
      other ≠ callId ∧ s.waiting other = some request := by
  rw [waiting_answer]
  split
  · next heq => simp [heq]
  · next hne => simp [hne]

theorem Balanced.answer (h : s.Balanced) (callId : String) (decision : PermissionDecision) :
    (s.answer callId decision).Balanced := by
  cases hwaiting : s.waiting callId with
  | none => rwa [answer_of_none hwaiting]
  | some request =>
      have hpending : s.IsPending request := ⟨callId, hwaiting⟩
      have hstays : ∀ other, (s.answer callId decision).IsPending other →
          other ≠ request ∧ s.IsPending other := by
        rintro other ⟨callId', hother⟩
        obtain ⟨hne, hother⟩ := waiting_answer_some.mp hother
        refine ⟨?_, callId', hother⟩
        rintro rfl
        exact hne (h.unique callId' callId other hother hwaiting)
      have hanswers : ∀ other, other ≠ request →
          (s.answer callId decision).answersTo other = s.answersTo other := by
        intro other hne
        rw [answersTo_answer hwaiting, if_neg hne.symm, List.append_nil]
      constructor
      · intro first second other hfirst hsecond
        exact h.unique first second other (waiting_answer_some.mp hfirst).2
          (waiting_answer_some.mp hsecond).2
      · intro other hother
        obtain ⟨hne, hold⟩ := hstays other hother
        rw [hanswers other hne, h.unanswered other hold]
      · intro other hreceived hother
        by_cases heq : other = request
        · subst heq
          rw [answersTo_answer hwaiting, if_pos rfl, h.unanswered other hpending]
          exact ⟨_, rfl⟩
        · rw [hanswers other heq]
          rw [received_answer] at hreceived
          refine h.answered other hreceived ?_
          rintro ⟨callId', hold⟩
          refine hother ⟨callId', waiting_answer_some.mpr ⟨?_, hold⟩⟩
          rintro rfl
          exact heq (Option.some_inj.mp (hold.symm.trans hwaiting))
      · intro other hother
        rw [received_answer]
        by_cases heq : other = request
        · exact heq ▸ h.received request (.inl hpending)
        · rw [hanswers other heq] at hother
          exact h.received other (hother.imp_left fun hother ↦ (hstays other hother).2)
      · intro other pending hlookup
        rw [lookup_answer] at hlookup
        split at hlookup
        · cases hlookup
        · exact h.listed other pending hlookup

theorem Balanced.insert {t : PermissionRouter} {confirmation : Confirmation} (h : s.Balanced)
    (hnew : request ∉ s.received) (hfree : s.waiting confirmation.callId = none)
    (hpending : t.pending = s.pending.insert confirmation.callId ⟨request, confirmation⟩)
    (hanswers : t.answers = s.answers) (hreceived : t.received = request :: s.received) :
    t.Balanced := by
  have hwaiting : ∀ callId other, t.waiting callId = some other ↔
      callId = confirmation.callId ∧ other = request ∨ s.waiting callId = some other := by
    intro callId other
    rw [waiting, hpending, Table.lookup_insert_eq]
    split
    · next heq => simp [heq, hfree, eq_comm]
    · next hne => simp [hne, waiting]
  have hto : t.answersTo = s.answersTo := by
    funext other
    rw [answersTo, hanswers, answersTo]
  have hold : ∀ other, s.IsPending other → other ≠ request := by
    rintro other hother rfl
    exact hnew (h.received other (.inl hother))
  have hnone : s.answersTo request = [] := by
    by_contra hsome
    exact hnew (h.received request (.inr hsome))
  constructor
  · intro first second other hfirst hsecond
    obtain ⟨rfl, rfl⟩ | hfirst := (hwaiting first other).mp hfirst
    · obtain ⟨rfl, -⟩ | hsecond := (hwaiting second other).mp hsecond
      · rfl
      · exact absurd rfl (hold other ⟨second, hsecond⟩)
    · obtain ⟨-, rfl⟩ | hsecond := (hwaiting second other).mp hsecond
      · exact absurd rfl (hold other ⟨first, hfirst⟩)
      · exact h.unique first second other hfirst hsecond
  · rintro other ⟨callId, hother⟩
    rw [hto]
    obtain ⟨-, rfl⟩ | hother := (hwaiting callId other).mp hother
    · exact hnone
    · exact h.unanswered other ⟨callId, hother⟩
  · intro other hmem hother
    rw [hto]
    rw [hreceived] at hmem
    obtain rfl | hmem := List.mem_cons.mp hmem
    · exact absurd ⟨_, (hwaiting _ _).mpr (.inl ⟨rfl, rfl⟩)⟩ hother
    · refine h.answered other hmem ?_
      rintro ⟨callId, hpending⟩
      exact hother ⟨callId, (hwaiting _ _).mpr (.inr hpending)⟩
  · intro other hother
    rw [hreceived, List.mem_cons]
    rw [hto] at hother
    obtain ⟨callId, hother⟩ | hother := hother
    · obtain ⟨-, rfl⟩ | hother := (hwaiting callId other).mp hother
      · exact .inl rfl
      · exact .inr (h.received other (.inl ⟨callId, hother⟩))
    · exact .inr (h.received other (.inr hother))
  · intro callId pending hlookup
    rw [hpending, Table.lookup_insert_eq] at hlookup
    split at hlookup
    · next heq =>
        cases hlookup
        exact heq.symm
    · exact h.listed callId pending hlookup

theorem Balanced.register {confirmation : Confirmation} (h : s.Balanced)
    (hnew : request ∉ s.received) : (s.register request confirmation).Balanced := by
  have hdisplaced := h.answer confirmation.callId .cancelled
  refine hdisplaced.insert ?_ ?_ rfl rfl ?_
  · rwa [received_answer]
  · rw [waiting_answer, if_pos rfl]
  · rw [received_answer]
    rfl

theorem Balanced.approve (h : s.Balanced) (hnew : request ∉ s.received) (optionId : String) :
    (s.approve request optionId).Balanced := by
  have hto : ∀ other, (s.approve request optionId).answersTo other = s.answersTo other ++
      if request = other then [⟨request, .selected optionId, request ∉ s.abandoned⟩] else [] :=
    answersTo_send _
  have hold : ∀ other, s.IsPending other → request ≠ other := by
    rintro other hother rfl
    exact hnew (h.received request (.inl hother))
  constructor
  · exact h.unique
  · intro other hother
    rw [hto, if_neg (hold other hother), List.append_nil]
    exact h.unanswered other hother
  · intro other hmem hother
    rw [hto]
    obtain rfl | hmem := List.mem_cons.mp hmem
    · have hnone : s.answersTo other = [] := by
        by_contra hsome
        exact hnew (h.received other (.inr hsome))
      rw [hnone, if_pos rfl]
      exact ⟨_, rfl⟩
    · rw [if_neg fun heq : request = other ↦ hnew (heq ▸ hmem), List.append_nil]
      exact h.answered other hmem hother
  · intro other hother
    by_cases heq : request = other
    · exact heq ▸ List.mem_cons_self
    · rw [hto, if_neg heq, List.append_nil] at hother
      exact List.mem_cons_of_mem request (h.received other hother)
  · exact h.listed

/-- What holds and is kept whenever a request is taken out holds once all of them are. -/
theorem foldl_answer_induction (P : PermissionRouter → Prop) (hs : P s)
    (hanswer : ∀ t callId, P t → P (t.answer callId .cancelled)) :
    P (s.pending.keys.foldl (fun s callId ↦ s.answer callId .cancelled) s) := by
  suffices hfold : ∀ (callIds : List String) (t : PermissionRouter), P t →
      P (callIds.foldl (fun s callId ↦ s.answer callId .cancelled) t) from hfold _ s hs
  intro callIds
  induction callIds with
  | nil => exact fun _ ht ↦ ht
  | cons callId callIds ih => exact fun t ht ↦ ih _ (hanswer t callId ht)

theorem Balanced.cancelAll (h : s.Balanced) : s.cancelAll.Balanced := by
  have hall := foldl_answer_induction Balanced h fun t callId ht ↦ ht.answer callId .cancelled
  exact ⟨hall.unique, hall.unanswered, hall.answered, hall.received, hall.listed⟩

end Answer

end PermissionRouter

end Zaowutai.Acp
