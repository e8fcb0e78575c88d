import Zaowutai.SessionMessage.MentionTargets

/-!
# The pages of conversations that can be mentioned

A request keeps what passes among the rows that it looked at, and tells where
it stopped.  Until the rows run out it looks at one row at least, so that
requests which each resume where the last one stopped read the ranked list.
-/

namespace Zaowutai.SessionMessage

open Zaowutai.Lib

theorem likeItems_escapeLikePattern (term rest : List Char) :
    likeItems (escapeLikePattern term ++ rest) = term.map .char ++ likeItems rest := by
  induction term with
  | nil => rfl
  | cons c term ih =>
      have hcons : escapeLikePattern (c :: term) ++ rest =
          (if c = '\\' ∨ c = '%' ∨ c = '_' then ['\\', c] else [c]) ++
            (escapeLikePattern term ++ rest) := by
        rw [escapeLikePattern, List.flatMap_cons, List.append_assoc, ← escapeLikePattern]
      rw [hcons]
      split
      · rw [List.cons_append, List.cons_append, List.nil_append, likeItems, ih, List.map_cons,
          List.cons_append]
      · next hc =>
          simp only [not_or] at hc
          obtain ⟨hback, hpercent, hunder⟩ := hc
          rw [List.cons_append, List.nil_append, likeItems, ih, List.map_cons, List.cons_append]
          all_goals simp_all

theorem nonBlank_some (value : String) :
    nonBlank (some value) = if String.ofList (trim value.toList) = "" then none
      else some (String.ofList (trim value.toList)) := by
  rw [nonBlank, Option.map_some]
  split
  · next hblank => rw [hblank, Option.filter_some_neg (by simp)]
  · next hblank => exact Option.filter_some_pos (decide_eq_true hblank)

theorem nonBlank_nonBlank (text : Option String) : nonBlank (nonBlank text) = nonBlank text := by
  cases text with
  | none => rfl
  | some value =>
      rw [nonBlank_some]
      split
      · rfl
      · next hblank => rw [nonBlank_some, String.toList_ofList, trim_trim, if_neg hblank]

section Query

variable {toLowercase : String → String} {rows : Table String ConversationRow} {userId : String}
  {params : MentionableCandidatesParams} {candidate : Candidate} {term : String}

theorem nameLike_within :
    nameLike ('%' :: (escapeLikePattern term.toList ++ ['%'])) candidate.2 = true ↔
      asciiLower term.toList <:+: asciiLower candidate.2.name.toList := by
  rw [nameLike, like, likeItems, likeItems_escapeLikePattern, likeItems, likeItems,
    itemsMatch_within, asciiLower_asciiLower]

theorem rank_injective {projectId nameQuery : Option String} {a b : Candidate}
    (h : rank toLowercase projectId nameQuery a = rank toLowercase projectId nameQuery b) :
    a.1 = b.1 :=
  congrArg (fun r : Rank ↦ OrderDual.ofDual (ofLex (ofLex (ofLex r).2).2).2) h

theorem rankedCandidates_ranked (params : MentionableCandidatesParams) :
    Ranked (rank toLowercase params.projectId params.nameQuery)
      (rankedCandidates toLowercase rows userId params) := by
  apply ranked_insertionSort
  have hids : ((rows.entries.filter (whereClause toLowercase userId params)).map Sigma.fst).Nodup :=
    rows.nodupKeys.sublist List.filter_sublist
  exact List.pairwise_map.mpr
    ((List.pairwise_map.mp hids).imp fun hne heq ↦ hne (rank_injective heq))

theorem mem_rankedCandidates :
    candidate ∈ rankedCandidates toLowercase rows userId params ↔
      rows.lookup candidate.1 = some candidate.2 ∧
        whereClause toLowercase userId params candidate = true := by
  rw [rankedCandidates, List.mem_insertionSort, List.mem_filter, ← Table.mem_entries_iff]

end Query

def Scan.past (p : Candidate → Bool) (looked : List Candidate) (scan : Scan) : Scan :=
  { scan with offset := scan.offset + looked.length, kept := scan.kept ++ looked.filter p }

section Scan

variable {p : Candidate → Bool} {scan : Scan}

theorem Scan.past_nil : scan.past p [] = scan := by
  rw [past, List.filter_nil, List.append_nil]
  rfl

theorem Scan.past_append (looked more : List Candidate) :
    (scan.past p looked).past p more = scan.past p (looked ++ more) := by
  simp only [past, List.length_append, List.filter_append, List.append_assoc, Nat.add_assoc]

end Scan

namespace MentionableTargets

variable {targets : MentionableTargets} {userId currentConversationId : String} {limit : ℕ}
  {scan : Scan}

variable (targets currentConversationId) in
theorem scanRows_reads (rows : List Candidate) (hroom : scan.kept.length < limit) :
    ∃ looked unread, rows = looked ++ unread ∧
      targets.scanRows currentConversationId limit rows scan =
        scan.past (targets.passes currentConversationId) looked ∧
      ((scan.past (targets.passes currentConversationId) looked).kept.length = limit ∧
          looked ≠ [] ∨
        (scan.past (targets.passes currentConversationId) looked).kept.length < limit ∧
          unread = []) := by
  induction rows generalizing scan with
  | nil => exact ⟨[], [], rfl, Scan.past_nil.symm, Or.inr ⟨by rw [Scan.past_nil]; exact hroom, rfl⟩⟩
  | cons row rows ih =>
      -- the rest is looked at from where this row leaves the scan
      have hgo : ∀ scan' : Scan, scan' = scan.past (targets.passes currentConversationId) [row] →
          scan'.kept.length < limit →
          ∃ looked unread, row :: rows = looked ++ unread ∧
            targets.scanRows currentConversationId limit rows scan' =
              scan.past (targets.passes currentConversationId) looked ∧
            ((scan.past (targets.passes currentConversationId) looked).kept.length = limit ∧
                looked ≠ [] ∨
              (scan.past (targets.passes currentConversationId) looked).kept.length < limit ∧
                unread = []) := by
        intro scan' hscan' hroom'
        obtain ⟨looked, unread, hrows, hscan, hend⟩ := ih hroom'
        rw [hscan', Scan.past_append, List.singleton_append] at hscan hend
        refine ⟨row :: looked, unread, by rw [hrows, List.cons_append], ?_, ?_⟩
        · rw [hscan', hscan]
        · exact hend.imp (fun hfull ↦ ⟨hfull.1, List.cons_ne_nil row looked⟩) id
      by_cases hp : targets.passes currentConversationId row = true
      · have hpast : scan.past (targets.passes currentConversationId) [row] =
            { scan with offset := scan.offset + 1, kept := scan.kept ++ [row] } := by
          simp only [Scan.past, List.filter_cons_of_pos hp, List.filter_nil, List.length_singleton]
        rw [scanRows, if_pos hp]
        by_cases hfull : (scan.kept ++ [row]).length = limit
        · refine ⟨[row], rows, rfl, ?_, Or.inl ⟨?_, List.cons_ne_nil row []⟩⟩
          · rw [hpast]
            exact if_pos hfull
          · rw [hpast]
            exact hfull
        · refine (hgo _ hpast.symm ?_).imp fun looked ↦ Exists.imp fun unread h ↦ ⟨h.1, ?_, h.2.2⟩
          · simp only [List.length_append, List.length_singleton] at hfull ⊢
            omega
          · rw [← h.2.1]
            exact if_neg hfull
      · have hpast : scan.past (targets.passes currentConversationId) [row] =
            { scan with offset := scan.offset + 1 } := by
          simp only [Scan.past, List.filter_cons_of_neg hp, List.filter_nil, List.append_nil,
            List.length_singleton]
        rw [scanRows, if_neg hp]
        exact hgo _ hpast.symm hroom

variable (targets currentConversationId) in
theorem scans_reads {l : List Candidate} {read : ℕ → List Candidate}
    (hread : ∀ offset, read offset = (l.drop offset).take (limit + scanSlack)) (n : ℕ)
    (hroom : scan.kept.length < limit) :
    ∃ looked unread, l.drop scan.offset = looked ++ unread ∧
      (scan.past (targets.passes currentConversationId) looked).kept.length ≤ limit ∧
      (targets.scans currentConversationId limit read n scan =
            scan.past (targets.passes currentConversationId) looked ∧ (0 < n → looked ≠ []) ∨
        targets.scans currentConversationId limit read n scan =
            { scan.past (targets.passes currentConversationId) looked with exhausted := true } ∧
          unread = []) := by
  induction n generalizing scan with
  | zero =>
      refine ⟨[], l.drop scan.offset, rfl, ?_, Or.inl ⟨Scan.past_nil.symm, fun h ↦ absurd h ?_⟩⟩
      · rw [Scan.past_nil]
        exact hroom.le
      · exact Nat.lt_irrefl 0
  | succ n ih =>
      obtain ⟨looked, unread, hrows, hscan, hend⟩ := scanRows_reads targets
        currentConversationId (read scan.offset) hroom
      have hsplit : l.drop scan.offset =
          looked ++ (unread ++ (l.drop scan.offset).drop (limit + scanSlack)) := by
        rw [← List.append_assoc, ← hrows, hread, List.take_append_drop]
      rw [scans]
      simp only [hscan]
      rcases hend with ⟨hfull, hlooked⟩ | ⟨hmore, rfl⟩
      · exact ⟨looked, _, hsplit, hfull.le, Or.inl ⟨if_pos hfull, fun _ ↦ hlooked⟩⟩
      · rw [if_neg hmore.ne]
        rw [List.append_nil] at hrows
        rw [List.nil_append] at hsplit
        by_cases hshort : (read scan.offset).length < limit + scanSlack
        · rw [if_pos hshort]
          refine ⟨looked, _, hsplit, hmore.le, Or.inr ⟨rfl, List.drop_eq_nil_of_le ?_⟩⟩
          rw [hread, List.length_take] at hshort
          omega
        · rw [if_neg hshort]
          have hlength : looked.length = limit + scanSlack := by
            have hread' := congrArg List.length (hread scan.offset)
            rw [List.length_take, ← hrows] at *
            omega
          obtain ⟨looked', unread', hdrop, hle, hend⟩ := ih hmore
          rw [Scan.past_append] at hle hend
          refine ⟨looked ++ looked', unread', ?_, hle, hend.imp (fun h ↦ ⟨h.1, fun _ hnil ↦ ?_⟩) id⟩
          · rw [hsplit, List.append_assoc, ← hdrop, List.drop_drop, ← hlength]
            rfl
          · obtain ⟨hnil, -⟩ := List.append_eq_nil_iff.mp hnil
            rw [hnil, scanSlack, List.length_nil] at hlength
            omega

theorem resolveProjectNames_from (projectIds : List String) (names : Table String String)
    (projectId : String) :
    (projectIds.foldl (fun names projectId ↦
      if names.lookup projectId = none then
        (targets.projectName userId projectId).elim names fun name ↦ names.insert projectId name
      else names) names).lookup projectId =
      (names.lookup projectId).or
        (if projectId ∈ projectIds then targets.projectName userId projectId else none) := by
  induction projectIds generalizing names with
  | nil => rw [List.foldl_nil, if_neg List.not_mem_nil, Option.or_none]
  | cons first projectIds ih =>
      rw [List.foldl_cons, ih]
      by_cases hfirst : projectId = first
      · subst hfirst
        rw [if_pos List.mem_cons_self]
        cases hlookup : names.lookup projectId with
        | some name => simp [hlookup]
        | none =>
            cases hname : targets.projectName userId projectId with
            | none => simp [hlookup]
            | some name => simp [AList.lookup_insert]
      · have hmem : projectId ∈ first :: projectIds ↔ projectId ∈ projectIds := by
          rw [List.mem_cons, or_iff_right hfirst]
        simp only [hmem]
        congr 1
        split
        · cases targets.projectName userId first with
          | none => rfl
          | some name => exact AList.lookup_insert_ne hfirst
        · rfl

theorem lookup_resolveProjectNames {candidates : List Candidate} {candidate : Candidate}
    {projectId : String} (hmem : candidate ∈ candidates)
    (hproject : candidate.2.projectId = some projectId) :
    (targets.resolveProjectNames userId candidates).lookup projectId =
      targets.projectName userId projectId := by
  have hlisted : projectId ∈ candidates.filterMap (·.2.projectId) :=
    List.mem_filterMap.mpr ⟨candidate, hmem, hproject⟩
  rw [resolveProjectNames, resolveProjectNames_from, if_pos hlisted, AList.lookup_empty,
    Option.none_or]

variable (targets userId currentConversationId) in
def ranked (query : SessionMentionableQuery) : List Candidate :=
  rankedCandidates targets.toLowercase targets.conversations userId
    (targets.paramsOf userId currentConversationId query 0)

variable (targets userId) in
def target (candidate : Candidate) : SessionMentionTarget where
  id := candidate.1
  name := candidate.2.name
  project := candidate.2.projectId.bind (targets.projectName userId)
  modifiedAt := candidate.2.updatedAt

variable {query : SessionMentionableQuery}

theorem pageLimit_pos : 0 < pageLimit query := by
  rw [pageLimit, maxLimit]
  omega

variable (targets userId currentConversationId) in
def scanOf (query : SessionMentionableQuery) : Scan :=
  targets.scans currentConversationId (pageLimit query)
    (fun offset ↦ listMentionableCandidates targets.toLowercase targets.conversations userId
      (targets.paramsOf userId currentConversationId query offset)) maxScans
    ⟨parseCursor query.cursor, [], false⟩

theorem list_items :
    (targets.list userId currentConversationId query).items =
      (targets.scanOf userId currentConversationId query).kept.map (targets.target userId) := by
  apply List.map_congr_left
  intro candidate hmem
  have hproject : candidate.2.projectId.bind ((targets.resolveProjectNames userId
      (targets.scanOf userId currentConversationId query).kept).lookup ·) =
      candidate.2.projectId.bind (targets.projectName userId) := by
    cases hproject : candidate.2.projectId with
    | none => rfl
    | some projectId => exact lookup_resolveProjectNames hmem hproject
  rw [target, ← hproject]
  rfl

variable (userId currentConversationId) in
theorem list_reads (query : SessionMentionableQuery) :
    ∃ looked unread,
      (targets.ranked userId currentConversationId query).drop (parseCursor query.cursor) =
        looked ++ unread ∧
      (targets.list userId currentConversationId query).items =
        (looked.filter (targets.passes currentConversationId)).map (targets.target userId) ∧
      (looked.filter (targets.passes currentConversationId)).length ≤ pageLimit query ∧
      ((targets.list userId currentConversationId query).nextCursor =
            some (parseCursor query.cursor + looked.length).repr ∧ looked ≠ [] ∨
        (targets.list userId currentConversationId query).nextCursor = none ∧ unread = []) := by
  have hread : ∀ offset, listMentionableCandidates targets.toLowercase targets.conversations userId
      (targets.paramsOf userId currentConversationId query offset) =
      ((targets.ranked userId currentConversationId query).drop offset).take
        (pageLimit query + scanSlack) := fun offset ↦ rfl
  have hroom : (⟨parseCursor query.cursor, [], false⟩ : Scan).kept.length < pageLimit query :=
    pageLimit_pos
  obtain ⟨looked, unread, hsplit, hle, hend⟩ :=
    scans_reads targets currentConversationId hread maxScans hroom
  have hkept : (targets.scanOf userId currentConversationId query).kept =
      looked.filter (targets.passes currentConversationId) :=
    hend.elim (fun h ↦ congrArg Scan.kept h.1) fun h ↦ congrArg Scan.kept h.1
  refine ⟨looked, unread, hsplit, by rw [list_items, hkept], hle, ?_⟩
  rcases hend with ⟨hscan, hlooked⟩ | ⟨hscan, hunread⟩
  · refine Or.inl ⟨?_, hlooked (by decide)⟩
    rw [list, hscan]
    rfl
  · refine Or.inr ⟨?_, hunread⟩
    rw [list, hscan]
    rfl

theorem isWhitespace_of_isDigit {c : Char} (hc : c.isDigit = true) : isWhitespace c = false := by
  obtain ⟨hlow, hhigh⟩ := Char.isDigit_iff_toNat.mp hc
  have hzero : '0'.toNat = 48 := rfl
  have hnine : '9'.toNat = 57 := rfl
  rw [hzero] at hlow
  rw [hnine] at hhigh
  simp only [isWhitespace, Bool.or_eq_false_iff, Bool.and_eq_false_iff, decide_eq_false_iff_not,
    beq_eq_false_iff_ne]
  omega

theorem parseCursor_repr (offset : ℕ) : parseCursor (some offset.repr) = offset := by
  have hdigits : ∀ c ∈ Nat.toDigits 10 offset, c.isDigit = true := fun c hc ↦
    Nat.isDigit_of_mem_toDigits (by decide) (by decide) hc
  have hne : Nat.toDigits 10 offset ≠ [] := Nat.toDigits_ne_nil
  have htrim : trim offset.repr.toList = offset.repr.toList := by
    rw [Nat.toList_repr]
    apply trim_eq_self
    · exact fun c hc ↦ isWhitespace_of_isDigit (hdigits c (List.mem_of_mem_head? hc))
    · exact fun c hc ↦ isWhitespace_of_isDigit (hdigits c (List.mem_of_mem_getLast? hc))
  have hblank : offset.repr ≠ "" := by
    intro h
    apply hne
    rw [← Nat.toList_repr, h]
    rfl
  have hsign : (Nat.toDigits 10 offset).head? ≠ some '+' := by
    intro h
    exact absurd (hdigits '+' (List.mem_of_mem_head? h)) (by decide)
  rw [parseCursor, nonBlank_some, htrim, String.ofList_toList, if_neg hblank, Option.elim_some,
    Nat.toList_repr, parseOffset, if_neg hsign,
    if_pos ⟨hne, List.all_eq_true.mpr hdigits⟩, Nat.ofDigitChars_ten_toDigits, Option.getD_some]

variable (targets userId currentConversationId query) in
inductive Pages : Option String → List SessionMentionableResponse → Prop
  | last {cursor : Option String} {page : SessionMentionableResponse} :
      targets.list userId currentConversationId { query with cursor := cursor } = page →
      page.nextCursor = none → Pages cursor [page]
  | more {cursor : Option String} {page : SessionMentionableResponse} {next : String}
      {pages : List SessionMentionableResponse} :
      targets.list userId currentConversationId { query with cursor := cursor } = page →
      page.nextCursor = some next → Pages (some next) pages → Pages cursor (page :: pages)

theorem Pages.unique {cursor : Option String} {pages pages' : List SessionMentionableResponse}
    (h : targets.Pages userId currentConversationId query cursor pages)
    (h' : targets.Pages userId currentConversationId query cursor pages') : pages = pages' := by
  induction h generalizing pages' with
  | last hpage hnone =>
      cases h' with
      | last hpage' _ => rw [← hpage, ← hpage']
      | more hpage' hnext _ =>
          rw [← hpage', hpage, hnone] at hnext
          cases hnext
  | more hpage hnext _ ih =>
      cases h' with
      | last hpage' hnone =>
          rw [← hpage', hpage, hnext] at hnone
          cases hnone
      | more hpage' hnext' hpages =>
          have hsame := hpage.symm.trans hpage'
          rw [hsame, hnext', Option.some_inj] at hnext
          rw [hsame, ih (hnext ▸ hpages)]

variable (targets userId currentConversationId query) in
theorem exists_pages (cursor : Option String) :
    ∃ pages, targets.Pages userId currentConversationId query cursor pages ∧
      (∀ page ∈ pages, page.items.length ≤ pageLimit query) ∧
      pages.flatMap (·.items) =
        (((targets.ranked userId currentConversationId query).drop (parseCursor cursor)).filter
          (targets.passes currentConversationId)).map (targets.target userId) := by
  induction hleft : ((targets.ranked userId currentConversationId query).drop
    (parseCursor cursor)).length using Nat.strong_induction_on generalizing cursor with
  | h left ih =>
      obtain ⟨looked, unread, hsplit, hitems, hle, hend⟩ :=
        targets.list_reads userId currentConversationId { query with cursor := cursor }
      have hpage : (targets.list userId currentConversationId
          { query with cursor := cursor }).items.length ≤ pageLimit query := by
        rw [hitems, List.length_map]
        exact hle
      change (targets.ranked userId currentConversationId query).drop (parseCursor cursor) =
        looked ++ unread at hsplit
      rw [hsplit]
      rcases hend with ⟨hnext, hlooked⟩ | ⟨hnext, rfl⟩
      · have hdrop : (targets.ranked userId currentConversationId query).drop
            (parseCursor cursor + looked.length) = unread := by
          rw [← List.drop_drop, hsplit, List.drop_left]
        have hfewer : unread.length < left := by
          have hpos := List.length_pos_iff.mpr hlooked
          rw [← hleft, hsplit, List.length_append]
          omega
        obtain ⟨pages, hpages, hlimit, hrest⟩ := ih unread.length hfewer
          (some (parseCursor cursor + looked.length).repr) (by rw [parseCursor_repr, hdrop])
        rw [parseCursor_repr, hdrop] at hrest
        refine ⟨_ :: pages, Pages.more rfl hnext hpages, ?_, ?_⟩
        · exact List.forall_mem_cons.mpr ⟨hpage, hlimit⟩
        · rw [List.flatMap_cons, hrest, hitems, List.filter_append, List.map_append]
      · refine ⟨[_], Pages.last rfl hnext, List.forall_mem_singleton.mpr hpage, ?_⟩
        rw [List.flatMap_singleton, hitems, List.append_nil]

variable (targets userId currentConversationId query) in
structure Mentionable (candidate : Candidate) : Prop where
  stored : targets.conversations.lookup candidate.1 = some candidate.2
  owned : candidate.2.userId = userId
  notArchived : candidate.2.archivedAt = none
  named : ∀ term ∈ nonBlank query.q, asciiLower (targets.toLowercase term).toList <:+:
    asciiLower candidate.2.name.toList
  inProject : ∀ projectId ∈ nonBlank query.projectId, candidate.2.projectId = some projectId
  asked : ∀ id ∈ nonBlank query.id, candidate.1 = id
  other : candidate.1 ≠ currentConversationId
  notTeam : targets.teamIdFromExtraStr candidate.2.extra = none

theorem mem_filter_ranked {candidate : Candidate} :
    candidate ∈ (targets.ranked userId currentConversationId query).filter
        (targets.passes currentConversationId) ↔
      targets.Mentionable userId currentConversationId query candidate := by
  rw [List.mem_filter, ranked, mem_rankedCandidates]
  simp only [whereClause, passes, paramsOf, needle, nonBlank_nonBlank, Bool.and_eq_true,
    decide_eq_true_eq, Option.isNone_iff_eq_none, Option.all_eq_true, Option.map_eq_some_iff,
    forall_exists_index, and_imp, forall_apply_eq_imp_iff₂, nameLike_within]
  constructor
  · rintro ⟨⟨hstored, ⟨⟨⟨howned, hactive⟩, hnamed⟩, hproject⟩, hid⟩, hother, hteam⟩
    exact ⟨hstored, howned, hactive, hnamed, hproject, hid, hother, hteam⟩
  · rintro ⟨hstored, howned, hactive, hnamed, hproject, hid, hother, hteam⟩
    exact ⟨⟨hstored, ⟨⟨⟨howned, hactive⟩, hnamed⟩, hproject⟩, hid⟩, hother, hteam⟩

/-- Following the cursors from the first page comes to an end.  The pages are within the limit,
where a limit of 0 counts as 1, and put together they are what can be mentioned, in the ranked
order. -/
theorem exhaustive (targets : MentionableTargets) (userId currentConversationId : String)
    (query : SessionMentionableQuery) :
    ∃ pages, targets.Pages userId currentConversationId query none pages ∧
      (∀ pages', targets.Pages userId currentConversationId query none pages' → pages' = pages) ∧
      (∀ page ∈ pages, page.items.length ≤ min (max (query.limit.getD 20) 1) 50) ∧
      ∃ candidates : List Candidate,
        pages.flatMap (·.items) = candidates.map (targets.target userId) ∧
        Ranked (rank targets.toLowercase
          (targets.currentProjectId userId currentConversationId) (nonBlank query.q)) candidates ∧
        ∀ candidate, candidate ∈ candidates ↔
          targets.Mentionable userId currentConversationId query candidate := by
  obtain ⟨pages, hpages, hlimit, hitems⟩ :=
    exists_pages targets userId currentConversationId query none
  have hall : (targets.ranked userId currentConversationId query).drop (parseCursor none) =
      targets.ranked userId currentConversationId query := rfl
  rw [hall] at hitems
  have hranked : Ranked (rank targets.toLowercase
      (targets.currentProjectId userId currentConversationId) (nonBlank query.q))
      (targets.ranked userId currentConversationId query) :=
    rankedCandidates_ranked (targets.paramsOf userId currentConversationId query 0)
  refine ⟨pages, hpages, fun pages' hpages' ↦ hpages'.unique hpages, hlimit, _, hitems, ?_, ?_⟩
  · exact hranked.filter (targets.passes currentConversationId)
  · exact fun candidate ↦ mem_filter_ranked

def oneConversation : MentionableTargets where
  conversations := AList.insert "a" ⟨"u", "", "", none, 0, none⟩ ∅
  projectName := fun _ _ ↦ none
  toLowercase := id
  fromStr := fun _ ↦ none

/-- A request for pages of no items is answered with a page of one. -/
theorem noItems_exceeded :
    ¬ ∀ (targets : MentionableTargets) (userId currentConversationId : String)
      (query : SessionMentionableQuery) (pages : List SessionMentionableResponse),
      targets.Pages userId currentConversationId query none pages →
      ∀ page ∈ pages, page.items.length ≤ query.limit.getD 20 := by
  intro h
  obtain ⟨pages, hpages, -, hitems⟩ :=
    exists_pages oneConversation "u" "b" ⟨none, none, some 0, none, none⟩ none
  have hnone : pages.flatMap (·.items) = [] := by
    refine List.flatMap_eq_nil_iff.mpr fun page hpage ↦ List.length_eq_zero_iff.mp ?_
    exact Nat.le_zero.mp (h _ _ _ _ pages hpages page hpage)
  have hmentionable : oneConversation.Mentionable "u" "b" ⟨none, none, some 0, none, none⟩
      ⟨"a", ⟨"u", "", "", none, 0, none⟩⟩ :=
    ⟨AList.lookup_insert _, rfl, rfl, nofun, nofun, nofun, by decide, rfl⟩
  have hmem := mem_filter_ranked.mpr hmentionable
  rw [hnone, eq_comm, List.map_eq_nil_iff] at hitems
  exact List.ne_nil_of_mem hmem hitems

end MentionableTargets

end Zaowutai.SessionMessage
