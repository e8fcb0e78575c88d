import Mathlib.Data.Prod.Lex
import Mathlib.Data.String.Basic
import Zaowutai.Lib.Json
import Zaowutai.Lib.Like
import Zaowutai.Lib.LossyText
import Zaowutai.Lib.Ranking
import Zaowutai.Lib.Table

/-!
# Conversations that can be mentioned

The query ranks the conversations of a user and returns a window of them.  The
service drops its own conversation and those of teams from the window, so it
reads on until the page is full, and resumes behind the last row it looked at.
-/

namespace Zaowutai.SessionMessage

open Zaowutai.Lib

structure ConversationRow where
  userId : String
  name : String
  extra : String
  projectId : Option String
  updatedAt : ℤ
  archivedAt : Option ℤ
  deriving DecidableEq, Repr

abbrev Candidate := (_ : String) × ConversationRow

structure MentionableCandidatesParams where
  projectId : Option String
  id : Option String
  filterProjectId : Option String
  nameQuery : Option String
  limit : ℕ
  offset : ℕ
  deriving DecidableEq, Repr

/-- `str::trim`, where blank text counts as absent. -/
def nonBlank (text : Option String) : Option String :=
  (text.map fun value ↦ String.ofList (trim value.toList)).filter (· ≠ "")

def escapeLikePattern (term : List Char) : List Char :=
  term.flatMap fun c ↦ if c = '\\' ∨ c = '%' ∨ c = '_' then ['\\', c] else [c]

section Query

variable (toLowercase : String → String)

def needle (nameQuery : Option String) : Option (List Char) :=
  (nonBlank nameQuery).map fun term ↦ escapeLikePattern (toLowercase term).toList

/-- `lower(c.name) LIKE ?` -/
def nameLike (pattern : List Char) (row : ConversationRow) : Bool :=
  like pattern (asciiLower row.name.toList)

def whereClause (userId : String) (params : MentionableCandidatesParams) (candidate : Candidate) :
    Bool :=
  candidate.2.userId = userId && candidate.2.archivedAt.isNone &&
    (needle toLowercase params.nameQuery).all
      (fun needle ↦ nameLike ('%' :: (needle ++ ['%'])) candidate.2) &&
    params.filterProjectId.all (fun projectId ↦ candidate.2.projectId = some projectId) &&
    params.id.all fun id ↦ candidate.1 = id

/-- What the rows ascend by: prefix matches first, then the project of the caller, then the last
update, then the id. -/
abbrev Rank := ℕ ×ₗ ℕ ×ₗ ℤᵒᵈ ×ₗ Stringᵒᵈ

def rank (projectId nameQuery : Option String) (candidate : Candidate) : Rank :=
  let prefixTier := (needle toLowercase nameQuery).elim 0 fun needle ↦
    if nameLike (needle ++ ['%']) candidate.2 then 0 else 1
  let projectTier := if projectId.isSome ∧ candidate.2.projectId = projectId then 0 else 1
  toLex (prefixTier, toLex (projectTier,
    toLex (OrderDual.toDual candidate.2.updatedAt, OrderDual.toDual candidate.1)))

def rankedCandidates (rows : Table String ConversationRow) (userId : String)
    (params : MentionableCandidatesParams) : List Candidate :=
  (rows.entries.filter (whereClause toLowercase userId params)).insertionSort fun a b ↦
    rank toLowercase params.projectId params.nameQuery a ≤
      rank toLowercase params.projectId params.nameQuery b

def listMentionableCandidates (rows : Table String ConversationRow) (userId : String)
    (params : MentionableCandidatesParams) : List Candidate :=
  ((rankedCandidates toLowercase rows userId params).drop params.offset).take (max params.limit 1)

end Query

def maxLimit : ℕ := 50

def defaultLimit : ℕ := 20

def scanSlack : ℕ := 10

def maxScans : ℕ := 5

structure SessionMentionableQuery where
  q : Option String
  projectId : Option String
  limit : Option ℕ
  cursor : Option String
  id : Option String
  deriving DecidableEq, Repr

structure SessionMentionTarget where
  id : String
  name : String
  project : Option String
  modifiedAt : ℤ
  deriving DecidableEq, Repr

structure SessionMentionableResponse where
  items : List SessionMentionTarget
  nextCursor : Option String
  deriving DecidableEq, Repr

/-- `str::parse` for a number without a sign other than `+`.  The number is an offset in a table, so
its width plays no part. -/
def parseOffset (raw : List Char) : Option ℕ :=
  let digits := if raw.head? = some '+' then raw.tail else raw
  if digits ≠ [] ∧ digits.all Char.isDigit then some (Nat.ofDigitChars 10 digits 0) else none

def parseCursor (cursor : Option String) : ℕ :=
  (nonBlank cursor).elim 0 fun raw ↦ (parseOffset raw.toList).getD 0

inductive Scalar
  | string (value : String)
  | other
  deriving DecidableEq, Repr

def extraStringField (extra : Json Scalar) (key : String) : Option String :=
  match extra with
  | .object members =>
      match members.find key with
      | some (.scalar (.string value)) => if nonBlank (some value) = none then none else some value
      | _ => none
  | _ => none

structure Scan where
  offset : ℕ
  kept : List Candidate
  exhausted : Bool
  deriving DecidableEq, Repr

/-- The tables, the names of the user's projects and what the standard library and the JSON reader
make of a text. -/
structure MentionableTargets where
  conversations : Table String ConversationRow
  projectName : String → String → Option String
  toLowercase : String → String
  fromStr : String → Option (Json Scalar)

namespace MentionableTargets

variable (targets : MentionableTargets)

def teamIdFromExtraStr (extra : String) : Option String :=
  (targets.fromStr extra).bind fun value ↦ extraStringField value "teamId"

/-- The hard filters, which the query knows nothing of. -/
def passes (currentConversationId : String) (candidate : Candidate) : Bool :=
  candidate.1 ≠ currentConversationId && (targets.teamIdFromExtraStr candidate.2.extra).isNone

/-- The rows of one read, until the page is full. -/
def scanRows (currentConversationId : String) (limit : ℕ) : List Candidate → Scan → Scan
  | [], scan => scan
  | row :: rows, scan =>
      let scan := { scan with offset := scan.offset + 1 }
      if targets.passes currentConversationId row then
        let scan := { scan with kept := scan.kept ++ [row] }
        if scan.kept.length = limit then scan
        else scanRows currentConversationId limit rows scan
      else scanRows currentConversationId limit rows scan

def scans (currentConversationId : String) (limit : ℕ) (read : ℕ → List Candidate) :
    ℕ → Scan → Scan
  | 0, scan => scan
  | n + 1, scan =>
      let rows := read scan.offset
      let scanned := rows.length
      let scan := targets.scanRows currentConversationId limit rows scan
      if scan.kept.length = limit then scan
      else if scanned < limit + scanSlack then { scan with exhausted := true }
      else scans currentConversationId limit read n scan

def resolveProjectNames (userId : String) (candidates : List Candidate) : Table String String :=
  (candidates.filterMap (·.2.projectId)).foldl
    (fun names projectId ↦
      if names.lookup projectId = none then
        (targets.projectName userId projectId).elim names fun name ↦ names.insert projectId name
      else names) ∅

def currentProjectId (userId currentConversationId : String) : Option String :=
  ((targets.conversations.lookup currentConversationId).filter (·.userId = userId)).bind
    (·.projectId)

def pageLimit (query : SessionMentionableQuery) : ℕ :=
  min (max (query.limit.getD defaultLimit) 1) maxLimit

def paramsOf (userId currentConversationId : String) (query : SessionMentionableQuery)
    (offset : ℕ) : MentionableCandidatesParams where
  projectId := targets.currentProjectId userId currentConversationId
  id := nonBlank query.id
  filterProjectId := nonBlank query.projectId
  nameQuery := nonBlank query.q
  limit := pageLimit query + scanSlack
  offset := offset

def list (userId currentConversationId : String) (query : SessionMentionableQuery) :
    SessionMentionableResponse :=
  let scan := targets.scans currentConversationId (pageLimit query)
    (fun offset ↦ listMentionableCandidates targets.toLowercase targets.conversations userId
      (targets.paramsOf userId currentConversationId query offset)) maxScans
    ⟨parseCursor query.cursor, [], false⟩
  let projectNames := targets.resolveProjectNames userId scan.kept
  { items := scan.kept.map fun candidate ↦
      { id := candidate.1
        name := candidate.2.name
        project := candidate.2.projectId.bind (projectNames.lookup ·)
        modifiedAt := candidate.2.updatedAt }
    nextCursor := if scan.exhausted then none else some scan.offset.repr }

end MentionableTargets

end Zaowutai.SessionMessage
