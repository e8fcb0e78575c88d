import Mathlib.Data.Prod.Lex
import Mathlib.Data.String.Basic
import Zaowutai.Lib.Ranking
import Zaowutai.Lib.Run
import Zaowutai.Lib.Table

/-!
# Paginated list of conversations

A page of the conversations of a user, the most recently updated first.  The
cursor is the id of the last conversation of the previous page, whose
`updated_at` is looked up again.  A scan asks for page after page while other
calls change the table.  The columns that no filter reads are left out.
-/

namespace Zaowutai.Listing

open Zaowutai.Lib

structure ConversationRow where
  userId : String
  extra : String
  source : Option String
  pinned : Bool
  archivedAt : Option ℤ
  updatedAt : ℤ
  deriving DecidableEq, Repr

abbrev Conversations := Table String ConversationRow

abbrev Entry := (_ : String) × ConversationRow

structure ConversationFilters where
  /-- The id of the last conversation of the previous page. -/
  cursor : Option String
  limit : UInt32
  source : Option String
  cronJobId : Option String
  pinned : Option Bool

def ConversationFilters.effectiveLimit (filters : ConversationFilters) : UInt32 :=
  if filters.limit = 0 then 20 else filters.limit

structure PaginatedResult where
  items : List Entry
  total : ℕ
  hasMore : Bool

/-- What `ORDER BY updated_at DESC, id DESC` ascends by. -/
def position (entry : Entry) : (ℤ ×ₗ String)ᵒᵈ :=
  OrderDual.toDual (toLex (entry.2.updatedAt, entry.1))

section Query

-- `jsonExtract extra path` is the text SQLite's `json_extract` finds.
variable (jsonExtract : String → String → Option String)

/-- `c.user_id = ? AND c.archived_at IS NULL` and the conditions of the filters. -/
def Matches (userId : String) (filters : ConversationFilters) (row : ConversationRow) : Prop :=
  row.userId = userId ∧ row.archivedAt = none ∧
    (∀ source ∈ filters.source, row.source = some source) ∧
    (∀ cronJobId ∈ filters.cronJobId,
      jsonExtract row.extra "$.cronJobId" = some cronJobId ∨
        jsonExtract row.extra "$.cron_job_id" = some cronJobId) ∧
    ∀ pinned ∈ filters.pinned, row.pinned = pinned

instance (userId : String) (filters : ConversationFilters) :
    DecidablePred (Matches jsonExtract userId filters) :=
  fun _ ↦ inferInstanceAs (Decidable (_ ∧ _ ∧ _ ∧ _ ∧ _))

variable (t : Conversations)

/-- The condition of the cursor.  Without a row for it the comparisons are `NULL`. -/
def AfterCursor (cursor : Option String) (entry : Entry) : Prop :=
  ∀ cursorId ∈ cursor, ∃ row ∈ t.lookup cursorId,
    entry.2.updatedAt < row.updatedAt ∨
      entry.2.updatedAt = row.updatedAt ∧ entry.1 < cursorId

instance (cursor : Option String) : DecidablePred (AfterCursor t cursor) :=
  fun _ ↦ inferInstanceAs (Decidable (∀ _ ∈ _, ∃ _ ∈ _, _))

def listPaginated (userId : String) (filters : ConversationFilters) : PaginatedResult :=
  let limit := filters.effectiveLimit
  -- One extra row tells whether there are more; the sum wraps as `u32` does.
  let fetchLimit := limit + 1
  let found := t.entries.filter fun entry ↦
    Matches jsonExtract userId filters entry.2 ∧ AfterCursor t filters.cursor entry
  let rows := (found.insertionSort fun a b ↦ position a ≤ position b).take fetchLimit.toNat
  let hasMore := limit.toNat < rows.length
  { items := if hasMore then rows.dropLast else rows
    total := t.entries.countP fun entry ↦ Matches jsonExtract userId filters entry.2
    hasMore }

def listing (userId : String) (filters : ConversationFilters) : List Entry :=
  (t.entries.filter fun entry ↦ Matches jsonExtract userId filters entry.2).insertionSort
    fun a b ↦ position a ≤ position b

end Query

/-- What other calls do to the table.  An update covers every change of one row: a bump of its
`updated_at`, its archiving, and the edits of its other columns. -/
inductive ConversationChange where
  | create (id : String) (row : ConversationRow)
  | update (id : String) (row : ConversationRow)
  | delete (id : String)

def ConversationChange.apply (t : Conversations) : ConversationChange → Conversations
  | .create id row => if id ∈ t then t else t.insert id row
  | .update id row => t.modify id fun _ ↦ row
  | .delete id => t.erase id

structure Scan where
  table : Conversations
  cursor : Option String
  returned : List String
  finished : Bool

inductive ScanStep where
  | request
  | change (c : ConversationChange)

/-- A scan of the listing of one user by requests with the same filters and limit. -/
structure Scanner where
  jsonExtract : String → String → Option String
  userId : String
  filters : ConversationFilters

namespace Scanner

variable (p : Scanner)

def start (t : Conversations) : Scan := ⟨t, none, [], false⟩

def request (s : Scan) : Scan :=
  if s.finished then s
  else
    let result := listPaginated p.jsonExtract s.table p.userId { p.filters with cursor := s.cursor }
    { s with
      cursor := if result.hasMore then result.items.getLast?.map Sigma.fst else s.cursor
      returned := s.returned ++ result.items.map Sigma.fst
      finished := !result.hasMore }

def step (s : Scan) : ScanStep → Scan
  | .request => p.request s
  | .change c => { s with table := c.apply s.table }

def Wanted (row : ConversationRow) : Prop := Matches p.jsonExtract p.userId p.filters row

instance : DecidablePred p.Wanted := fun _ ↦ inferInstanceAs (Decidable (Matches _ _ _ _))

end Scanner

/-!
## What a scan returns

The pages follow the order of the list, and the cursor marks how far they have
come.  As long as no change moves the row of the cursor, a conversation that
stays as it is has been returned once the cursor has passed it, and the last
page passes them all.
-/

section Page

variable {jsonExtract : String → String → Option String} {userId : String}
  {filters : ConversationFilters} {t : Conversations} {cursor : Option String} {entry : Entry}

theorem mem_listing : entry ∈ listing jsonExtract t userId filters ↔
    t.lookup entry.1 = some entry.2 ∧ Matches jsonExtract userId filters entry.2 := by
  rw [listing, List.mem_insertionSort, List.mem_filter, decide_eq_true_iff, ← Table.mem_entries_iff]

theorem listing_nodup_ids : ((listing jsonExtract t userId filters).map Sigma.fst).Nodup := by
  have hperm := (List.perm_insertionSort (fun a b ↦ position a ≤ position b)
    (t.entries.filter fun entry ↦ Matches jsonExtract userId filters entry.2)).map Sigma.fst
  exact hperm.nodup_iff.mpr (t.nodupKeys.sublist List.filter_sublist)

theorem position_injective {other : Entry} (h : position entry = position other) :
    entry.1 = other.1 :=
  congrArg (fun p ↦ (ofLex (OrderDual.ofDual p)).2) h

theorem listing_ranked : Ranked position (listing jsonExtract t userId filters) := by
  have hsorted : (listing jsonExtract t userId filters).Pairwise (position · ≤ position ·) :=
    List.pairwise_insertionSort (fun a b ↦ position a ≤ position b) _
  have hids : (listing jsonExtract t userId filters).Pairwise (·.1 ≠ ·.1) :=
    List.pairwise_map.mp listing_nodup_ids
  exact (hsorted.and hids).imp fun h ↦ lt_of_le_of_ne h.1 fun heq ↦ h.2 (position_injective heq)

def Passed (t : Conversations) (cursor : Option String) (entry : Entry) : Prop :=
  ∃ cursorId ∈ cursor, ∃ row ∈ t.lookup cursorId, position entry ≤ position ⟨cursorId, row⟩

instance : DecidablePred (Passed t cursor) :=
  fun _ ↦ inferInstanceAs (Decidable (∃ _ ∈ _, ∃ _ ∈ _, _))

def Anchored (t : Conversations) (cursor : Option String) : Prop :=
  ∀ cursorId ∈ cursor, ∃ row, t.lookup cursorId = some row

theorem passed_some_iff {cursorId : String} {row : ConversationRow}
    (hrow : t.lookup cursorId = some row) :
    Passed t (some cursorId) entry ↔ position entry ≤ position ⟨cursorId, row⟩ := by
  constructor
  · rintro ⟨cursorId', hcursor, row', hrow', hle⟩
    obtain rfl := Option.some.inj hcursor
    obtain rfl := Option.some.inj (hrow.symm.trans hrow')
    exact hle
  · exact fun hle ↦ ⟨cursorId, rfl, row, hrow, hle⟩

theorem position_lt {other : Entry} : position other < position entry ↔
    entry.2.updatedAt < other.2.updatedAt ∨
      entry.2.updatedAt = other.2.updatedAt ∧ entry.1 < other.1 := by
  rw [position, position, OrderDual.toDual_lt_toDual, Prod.Lex.toLex_lt_toLex]

theorem afterCursor_iff (h : Anchored t cursor) :
    AfterCursor t cursor entry ↔ ¬Passed t cursor entry := by
  constructor
  · rintro hafter ⟨cursorId, hcursor, row, hrow, hle⟩
    obtain ⟨row', hrow', hlt⟩ := hafter cursorId hcursor
    obtain rfl := Option.some.inj (hrow.symm.trans hrow')
    exact absurd hle (not_le.mpr (position_lt.mpr hlt))
  · intro hpassed cursorId hcursor
    obtain ⟨row, hrow⟩ := h cursorId hcursor
    have hlt : position ⟨cursorId, row⟩ < position entry :=
      not_le.mp fun hle ↦ hpassed ⟨cursorId, hcursor, row, hrow, hle⟩
    exact ⟨row, hrow, position_lt.mp hlt⟩

def rest (jsonExtract : String → String → Option String) (t : Conversations) (userId : String)
    (filters : ConversationFilters) : List Entry :=
  (listing jsonExtract t userId filters).filter (AfterCursor t filters.cursor)

theorem found_eq :
    (t.entries.filter fun entry ↦ Matches jsonExtract userId filters entry.2 ∧
      AfterCursor t filters.cursor entry).insertionSort (fun a b ↦ position a ≤ position b) =
        rest jsonExtract t userId filters := by
  refine (listing_ranked.filter _).insertionSort_eq (fun a b hlt ↦ not_le.mpr hlt) ?_
  have hfound : (t.entries.filter fun entry ↦ Matches jsonExtract userId filters entry.2 ∧
      AfterCursor t filters.cursor entry) =
        (t.entries.filter fun entry ↦ Matches jsonExtract userId filters entry.2).filter
          (AfterCursor t filters.cursor) := by
    rw [List.filter_filter]
    refine List.filter_congr fun entry _ ↦ ?_
    rw [← Bool.decide_and, decide_eq_decide]
    exact and_comm
  rw [hfound]
  exact (List.perm_insertionSort _ _).symm.filter _

theorem effectiveLimit_pos : 0 < filters.effectiveLimit.toNat := by
  rw [ConversationFilters.effectiveLimit]
  split
  · decide
  · next h => exact Nat.pos_of_ne_zero fun h0 ↦ h (UInt32.toNat_inj.mp h0)

theorem toNat_succ_effectiveLimit (h : filters.limit + 1 ≠ 0) :
    (filters.effectiveLimit + 1).toNat = filters.effectiveLimit.toNat + 1 := by
  rw [ConversationFilters.effectiveLimit]
  split
  · decide
  · have hne : (filters.limit + 1).toNat ≠ 0 := fun h0 ↦ h (UInt32.toNat_inj.mp h0)
    have hlt := filters.limit.toNat_lt
    rw [UInt32.toNat_add, UInt32.toNat_one] at hne ⊢
    omega

theorem listPaginated_items (h : filters.limit + 1 ≠ 0) :
    (listPaginated jsonExtract t userId filters).items =
      (rest jsonExtract t userId filters).take filters.effectiveLimit.toNat := by
  simp only [listPaginated, found_eq, toNat_succ_effectiveLimit h]
  split
  · next hmore =>
      rw [List.length_take] at hmore
      rw [List.dropLast_eq_take, List.take_take, List.length_take]
      congr 1
      omega
  · next hmore =>
      rw [List.length_take] at hmore
      rw [List.take_of_length_le (by omega), List.take_of_length_le (by omega)]

theorem listPaginated_hasMore (h : filters.limit + 1 ≠ 0) :
    (listPaginated jsonExtract t userId filters).hasMore =
      decide (filters.effectiveLimit.toNat < (rest jsonExtract t userId filters).length) := by
  simp only [listPaginated, found_eq, toNat_succ_effectiveLimit h, List.length_take,
    decide_eq_decide]
  omega

end Page

namespace Scanner

variable {p : Scanner} {s : Scan} {id : String} {row : ConversationRow}

def left (p : Scanner) (s : Scan) : List Entry :=
  (listing p.jsonExtract s.table p.userId p.filters).filter (AfterCursor s.table s.cursor)

def page (p : Scanner) (s : Scan) : List Entry :=
  (p.left s).take p.filters.effectiveLimit.toNat

theorem request_eq (hlimit : p.filters.limit + 1 ≠ 0) (hopen : s.finished = false) :
    p.request s = { s with
      cursor := if p.filters.effectiveLimit.toNat < (p.left s).length then
        (p.page s).getLast?.map Sigma.fst else s.cursor
      returned := s.returned ++ (p.page s).map Sigma.fst
      finished := !decide (p.filters.effectiveLimit.toNat < (p.left s).length) } := by
  have hitems : (listPaginated p.jsonExtract s.table p.userId
      { p.filters with cursor := s.cursor }).items = p.page s := listPaginated_items hlimit
  have hmore : (listPaginated p.jsonExtract s.table p.userId
      { p.filters with cursor := s.cursor }).hasMore =
        decide (p.filters.effectiveLimit.toNat < (p.left s).length) := listPaginated_hasMore hlimit
  simp only [request, hopen, Bool.false_eq_true, if_false, hitems, hmore, decide_eq_true_iff]

theorem exists_last (hmore : p.filters.effectiveLimit.toNat < (p.left s).length) :
    ∃ last ∈ p.left s, (p.page s).getLast? = some last := by
  have hne : p.page s ≠ [] := by
    have hpos : 0 < p.filters.effectiveLimit.toNat := effectiveLimit_pos
    rw [page, ← List.length_pos_iff, List.length_take]
    omega
  refine ⟨(p.page s).getLast hne, ?_, List.getLast?_eq_some_getLast hne⟩
  exact List.mem_of_mem_take (List.getLast_mem hne)

theorem mem_left {entry : Entry} (h : Anchored s.table s.cursor) :
    entry ∈ p.left s ↔ (s.table.lookup entry.1 = some entry.2 ∧ p.Wanted entry.2) ∧
      ¬Passed s.table s.cursor entry := by
  rw [left, List.mem_filter, mem_listing, decide_eq_true_iff, afterCursor_iff h]
  rfl

theorem left_ranked : Ranked position (p.left s) := listing_ranked.filter _

theorem page_nodup_ids : ((p.page s).map Sigma.fst).Nodup := by
  have hleft : ((p.left s).map Sigma.fst).Nodup :=
    listing_nodup_ids.sublist (List.filter_sublist.map _)
  exact hleft.sublist ((List.take_sublist _ _).map _)

theorem count_page (hrow : s.table.lookup id = some row) :
    ((p.page s).map Sigma.fst).count id = if (⟨id, row⟩ : Entry) ∈ p.page s then 1 else 0 := by
  have hmem : id ∈ (p.page s).map Sigma.fst ↔ (⟨id, row⟩ : Entry) ∈ p.page s := by
    constructor
    · intro h
      obtain ⟨⟨id', row'⟩, hentry, rfl⟩ := List.mem_map.mp h
      have hlookup := (mem_listing.mp (List.mem_of_mem_filter (List.mem_of_mem_take hentry))).1
      obtain rfl := Option.some.inj (hrow.symm.trans hlookup)
      exact hentry
    · exact fun h ↦ List.mem_map.mpr ⟨_, h, rfl⟩
  rw [List.Nodup.count page_nodup_ids, if_congr hmem rfl rfl]

def Covers (id : String) (row : ConversationRow) (s : Scan) : Prop :=
  if s.finished then s.returned.count id = 1
  else Anchored s.table s.cursor ∧
    (Passed s.table s.cursor ⟨id, row⟩ → s.returned.count id = 1) ∧
    (¬Passed s.table s.cursor ⟨id, row⟩ → s.returned.count id = 0)

theorem covers_start (t : Conversations) : Covers id row (start t) := by
  rw [Covers, if_neg (by simp [start])]
  refine ⟨fun cursorId h ↦ (nomatch h), ?_, fun _ ↦ rfl⟩
  rintro ⟨cursorId, h, -⟩
  cases h

theorem position_le_of_passed {entry other : Entry} (h : Passed s.table s.cursor entry)
    (hother : ¬Passed s.table s.cursor other) : position entry ≤ position other := by
  obtain ⟨cursorId, hcursor, row, hrow, hle⟩ := h
  by_contra hlt
  exact hother ⟨cursorId, hcursor, row, hrow, (not_le.mp hlt).le.trans hle⟩

theorem Covers.request (hlimit : p.filters.limit + 1 ≠ 0) (h : Covers id row s)
    (hrow : s.table.lookup id = some row) (hwanted : p.Wanted row) :
    Covers id row (p.request s) := by
  by_cases hopen : s.finished = true
  · rw [Scanner.request, if_pos hopen]
    exact h
  · have hopen : s.finished = false := by simpa using hopen
    rw [Covers, if_neg (by simp [hopen])] at h
    obtain ⟨hanchor, hpassed, hunpassed⟩ := h
    have hleft : (⟨id, row⟩ : Entry) ∈ p.left s ↔ ¬Passed s.table s.cursor ⟨id, row⟩ :=
      (mem_left hanchor).trans (and_iff_right ⟨hrow, hwanted⟩)
    rw [request_eq hlimit hopen, Covers, List.count_append, count_page hrow]
    by_cases hmore : p.filters.effectiveLimit.toNat < (p.left s).length
    · obtain ⟨last, hlastleft, hlast⟩ := exists_last hmore
      obtain ⟨⟨hlookup, -⟩, hlastunpassed⟩ := (mem_left hanchor).mp hlastleft
      have hpage : (⟨id, row⟩ : Entry) ∈ p.page s ↔
          (⟨id, row⟩ : Entry) ∈ p.left s ∧ position ⟨id, row⟩ ≤ position last := by
        rw [page, left_ranked.take_eq_upTo hlast, mem_upTo]
      have hpassed' : Passed s.table (some last.1) ⟨id, row⟩ ↔
          position ⟨id, row⟩ ≤ position last := passed_some_iff hlookup
      rw [if_neg (by simp [hmore]), if_pos hmore, hlast, Option.map_some, hpassed']
      refine ⟨fun cursorId h ↦ ⟨last.2, Option.some.inj h ▸ hlookup⟩, fun hle ↦ ?_, fun hle ↦ ?_⟩
      · by_cases hold : Passed s.table s.cursor ⟨id, row⟩
        · rw [if_neg fun h ↦ hleft.mp (hpage.mp h).1 hold, hpassed hold]
        · rw [if_pos (hpage.mpr ⟨hleft.mpr hold, hle⟩), hunpassed hold]
      · have hold : ¬Passed s.table s.cursor ⟨id, row⟩ := fun hold ↦
          hle (position_le_of_passed hold hlastunpassed)
        rw [if_neg fun h ↦ hle (hpage.mp h).2, hunpassed hold]
    · have hpage : p.page s = p.left s := List.take_of_length_le (not_lt.mp hmore)
      rw [if_pos (by simp [hmore]), hpage]
      by_cases hold : Passed s.table s.cursor ⟨id, row⟩
      · rw [if_neg fun h ↦ hleft.mp h hold, hpassed hold]
      · rw [if_pos (hleft.mpr hold), hunpassed hold]

/-- The change neither deletes the row of the cursor nor changes its `updated_at`. -/
def Keeps (s : Scan) : ScanStep → Prop
  | .request | .change (.create _ _) => True
  | .change (.update id row) => s.finished = false → s.cursor = some id →
      ∀ old ∈ s.table.lookup id, row.updatedAt = old.updatedAt
  | .change (.delete id) => s.finished = false → s.cursor ≠ some id

theorem Keeps.anchor {c : ConversationChange} (h : Keeps s (.change c)) (hopen : s.finished = false)
    {cursorId : String} (hcursor : s.cursor = some cursorId) {old : ConversationRow}
    (hold : s.table.lookup cursorId = some old) :
    ∃ new, (c.apply s.table).lookup cursorId = some new ∧ new.updatedAt = old.updatedAt := by
  cases c with
  | create id row =>
      refine ⟨old, ?_, rfl⟩
      rw [ConversationChange.apply]
      split
      · exact hold
      · next hfresh =>
          rw [Table.lookup_insert_eq, if_neg, hold]
          rintro rfl
          exact hfresh (AList.lookup_isSome.mp (by simp [hold]))
  | update id row =>
      rw [ConversationChange.apply, Table.lookup_modify]
      by_cases hid : cursorId = id
      · subst hid
        rw [if_pos rfl, hold]
        exact ⟨row, rfl, h hopen hcursor old hold⟩
      · exact ⟨old, by rw [if_neg hid, hold], rfl⟩
  | delete id =>
      refine ⟨old, ?_, rfl⟩
      rw [ConversationChange.apply, Table.lookup_erase_eq, if_neg, hold]
      rintro rfl
      exact h hopen hcursor

theorem Covers.change {c : ConversationChange} (h : Covers id row s) (hkeep : Keeps s (.change c)) :
    Covers id row { s with table := c.apply s.table } := by
  by_cases hopen : s.finished = true
  · rw [Covers, if_pos hopen] at h ⊢
    exact h
  · rw [Covers, if_neg hopen] at h ⊢
    have hopen : s.finished = false := by simpa using hopen
    obtain ⟨hanchor, hpassed, hunpassed⟩ := h
    have hiff : Passed (c.apply s.table) s.cursor ⟨id, row⟩ ↔
        Passed s.table s.cursor ⟨id, row⟩ := by
      constructor
      · rintro ⟨cursorId, hcursor, new, hnew, hle⟩
        obtain ⟨old, hold⟩ := hanchor cursorId hcursor
        obtain ⟨new', hnew', hsame⟩ := hkeep.anchor hopen hcursor hold
        obtain rfl := Option.some.inj (hnew.symm.trans hnew')
        exact ⟨cursorId, hcursor, old, hold, by rwa [position, position, hsame] at hle⟩
      · rintro ⟨cursorId, hcursor, old, hold, hle⟩
        obtain ⟨new, hnew, hsame⟩ := hkeep.anchor hopen hcursor hold
        exact ⟨cursorId, hcursor, new, hnew, by rwa [position, position, ← hsame] at hle⟩
    refine ⟨fun cursorId hcursor ↦ ?_, fun h ↦ hpassed (hiff.mp h), fun h ↦ hunpassed (mt hiff.mpr h)⟩
    obtain ⟨old, hold⟩ := hanchor cursorId hcursor
    obtain ⟨new, hnew, -⟩ := hkeep.anchor hopen hcursor hold
    exact ⟨new, hnew⟩

theorem Covers.run (hlimit : p.filters.limit + 1 ≠ 0) (hwanted : p.Wanted row)
    {steps : List ScanStep} (h : Covers id row s) (hkeeps : Meets p.step Keeps s steps)
    (hstays : Throughout p.step (fun s ↦ s.table.lookup id = some row) s steps) :
    Covers id row (run p.step s steps) := by
  induction steps generalizing s with
  | nil => exact h
  | cons a steps ih =>
      refine ih ?_ hkeeps.2 hstays.2
      cases a with
      | request => exact h.request hlimit hstays.1 hwanted
      | change c => exact h.change hkeeps.1

def Collects (p : Scanner) (t : Conversations) (s : Scan) : Prop :=
  s.table = t ∧ if s.finished then
      s.returned = (listing p.jsonExtract t p.userId p.filters).map Sigma.fst
    else Anchored t s.cursor ∧ s.returned =
      ((listing p.jsonExtract t p.userId p.filters).filter (Passed t s.cursor)).map Sigma.fst

theorem passed_append_left (h : Anchored s.table s.cursor) :
    (listing p.jsonExtract s.table p.userId p.filters).filter (Passed s.table s.cursor) ++
      p.left s = listing p.jsonExtract s.table p.userId p.filters := by
  rw [left]
  cases hcursor : s.cursor with
  | none =>
      rw [List.filter_eq_nil_iff.mpr, List.nil_append, List.filter_eq_self]
      · exact fun entry _ ↦ decide_eq_true fun cursorId h ↦ nomatch h
      · intro entry _
        rw [decide_eq_true_iff]
        rintro ⟨cursorId, h, -⟩
        cases h
  | some cursorId =>
      obtain ⟨row, hrow⟩ := h cursorId hcursor
      have hpassed : ∀ entry, Passed s.table (some cursorId) entry ↔
          position entry ≤ position ⟨cursorId, row⟩ := fun entry ↦ passed_some_iff hrow
      have hafter : ∀ entry, AfterCursor s.table (some cursorId) entry ↔
          position ⟨cursorId, row⟩ < position entry := by
        intro entry
        rw [afterCursor_iff (hcursor ▸ h), hpassed, not_le]
      rw [List.filter_congr fun entry _ ↦ decide_eq_decide.mpr (hpassed entry),
        List.filter_congr fun entry _ ↦ decide_eq_decide.mpr (hafter entry)]
      exact listing_ranked.upTo_append_behind _

theorem Collects.request {t : Conversations} (hlimit : p.filters.limit + 1 ≠ 0)
    (h : p.Collects t s) : p.Collects t (p.request s) := by
  obtain ⟨rfl, h⟩ := h
  by_cases hopen : s.finished = true
  · rw [Scanner.request, if_pos hopen]
    exact ⟨rfl, h⟩
  · have hopen : s.finished = false := by simpa using hopen
    rw [if_neg (by simp [hopen])] at h
    obtain ⟨hanchor, hreturned⟩ := h
    have hsplit := passed_append_left (p := p) hanchor
    rw [request_eq hlimit hopen, hreturned, ← List.map_append]
    refine ⟨rfl, ?_⟩
    by_cases hmore : p.filters.effectiveLimit.toNat < (p.left s).length
    · obtain ⟨last, hlastleft, hlast⟩ := exists_last hmore
      obtain ⟨⟨hlookup, -⟩, hlastunpassed⟩ := (mem_left hanchor).mp hlastleft
      have hpage : p.page s = upTo position (position last) (p.left s) :=
        left_ranked.take_eq_upTo hlast
      have hpassed : ∀ entry, Passed s.table (some last.1) entry ↔
          position entry ≤ position last := fun entry ↦ passed_some_iff hlookup
      rw [if_neg (by simp [hmore]), if_pos hmore, hlast, Option.map_some]
      refine ⟨fun cursorId h ↦ ⟨last.2, Option.some.inj h ▸ hlookup⟩, congrArg (List.map _) ?_⟩
      have hold : upTo position (position last) ((listing p.jsonExtract s.table p.userId
          p.filters).filter (Passed s.table s.cursor)) = (listing p.jsonExtract s.table p.userId
            p.filters).filter (Passed s.table s.cursor) := by
        refine List.filter_eq_self.mpr fun entry hentry ↦ decide_eq_true ?_
        exact position_le_of_passed (of_decide_eq_true (List.mem_filter.mp hentry).2) hlastunpassed
      rw [hpage, ← hold, upTo, upTo, ← List.filter_append, hsplit]
      exact List.filter_congr fun entry _ ↦ decide_eq_decide.mpr (hpassed entry).symm
    · have hpage : p.page s = p.left s := List.take_of_length_le (not_lt.mp hmore)
      rw [if_pos (by simp [hmore]), hpage, hsplit]

theorem collects_start (t : Conversations) : p.Collects t (start t) := by
  refine ⟨rfl, ?_⟩
  rw [if_neg (by simp [start])]
  refine ⟨fun cursorId h ↦ (nomatch h), ?_⟩
  rw [List.filter_eq_nil_iff.mpr]
  · rfl
  · intro entry _
    rw [decide_eq_true_iff]
    rintro ⟨cursorId, h, -⟩
    cases h

theorem Collects.run {t : Conversations} (hlimit : p.filters.limit + 1 ≠ 0) (h : p.Collects t s)
    {steps : List ScanStep} (hrequests : ∀ a ∈ steps, a = .request) :
    p.Collects t (run p.step s steps) := by
  induction steps generalizing s with
  | nil => exact h
  | cons a steps ih =>
      obtain ⟨rfl, htail⟩ := List.forall_mem_cons.mp hrequests
      exact ih (h.request hlimit) htail

def ReturnsAll (p : Scanner) (t : Conversations) (steps : List ScanStep) : Prop :=
  (∀ id row, p.Wanted row →
    Throughout p.step (fun s ↦ s.table.lookup id = some row) (start t) steps →
      (run p.step (start t) steps).returned.count id ≤ 1 ∧
        ((run p.step (start t) steps).finished = true →
          (run p.step (start t) steps).returned.count id = 1)) ∧
    ((∀ a ∈ steps, a = .request) → (run p.step (start t) steps).finished = true →
      (run p.step (start t) steps).returned =
        (listing p.jsonExtract t p.userId p.filters).map Sigma.fst)

/-- A scan returns what it is to return, when no change moves or deletes the row of its cursor. -/
theorem returnsAll_of_keeps (p : Scanner) (t : Conversations) (steps : List ScanStep)
    (hlimit : p.filters.limit + 1 ≠ 0) (hkeeps : Meets p.step Keeps (start t) steps) :
    p.ReturnsAll t steps := by
  refine ⟨fun id row hwanted hstays ↦ ?_, fun hrequests hfinished ↦ ?_⟩
  · have hcovers := (covers_start t).run hlimit hwanted hkeeps hstays
    rw [Covers] at hcovers
    split at hcovers
    · exact ⟨hcovers.le, fun _ ↦ hcovers⟩
    · next hopen =>
        refine ⟨?_, fun h ↦ absurd h hopen⟩
        by_cases hpassed : Passed (run p.step (start t) steps).table
            (run p.step (start t) steps).cursor ⟨id, row⟩
        · exact (hcovers.2.1 hpassed).le
        · exact (hcovers.2.2 hpassed).le.trans (Nat.zero_le 1)
  · have hreturned := ((collects_start t).run hlimit hrequests).2
    rwa [if_pos hfinished] at hreturned

def oneByOne : Scanner := ⟨fun _ _ ↦ none, "user", ⟨none, 1, none, none, none⟩⟩

def plain (updatedAt : ℤ) : ConversationRow := ⟨"user", "{}", none, false, none, updatedAt⟩

def twoConversations : Conversations :=
  AList.insert "old" (plain 1) (AList.insert "new" (plain 2) ∅)

theorem oneByOne_returnsAll :
    oneByOne.ReturnsAll twoConversations [.request, .change (.update "old" (plain 3)), .request] :=
  returnsAll_of_keeps oneByOne twoConversations _ (by decide)
    ⟨trivial, fun _ h ↦ absurd h (by decide), trivial, trivial⟩

/-- The conversation the cursor names is deleted between two requests: the second page is empty
and the last one. -/
theorem deleted_cursor_ends_scan :
    ¬∀ (p : Scanner) (t : Conversations) (steps : List ScanStep), p.ReturnsAll t steps := by
  intro h
  have hold := (h oneByOne twoConversations [.request, .change (.delete "new"), .request]).1 "old"
    (plain 1) (by decide) ⟨rfl, rfl, rfl, rfl⟩
  exact absurd (hold.2 (by decide)) (by decide)

end Scanner

end Zaowutai.Listing
