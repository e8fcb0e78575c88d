import Zaowutai.Lib.Run
import Zaowutai.Lib.Keyset
import Zaowutai.Messages.MessagePages

/-!
# The pages tile the conversation

All queries agree with one list of the visible messages.  A page is a window of
that list, its flags tell whether the window leaves something out on a side,
and the next page on a side is the window that touches it there.
-/

namespace Zaowutai.Messages

open Zaowutai.Lib

section Place

variable {Content : Type} {entry other : Entry Content}

theorem isBefore_iff {cursor : MessagePageCursor} :
    IsBefore cursor entry ↔ place entry < toLex (cursor.createdAt, cursor.id) := by
  rw [place, Prod.Lex.toLex_lt_toLex]
  exact Iff.rfl

theorem isAfter_iff {cursor : MessagePageCursor} :
    IsAfter cursor entry ↔ toLex (cursor.createdAt, cursor.id) < place entry := by
  rw [place, Prod.Lex.toLex_lt_toLex, IsAfter, eq_comm]

theorem place_injective (h : place entry = place other) : entry.1 = other.1 :=
  congrArg (fun p ↦ (ofLex p).2) h

end Place

theorem shares_fill {limit before after x y extra rest : ℕ} (hx : x ≤ before) (hy : y ≤ after)
    (hroom : 1 + x + y ≤ limit) (hextra : extra = min (after - y) (limit - (1 + x + y)))
    (hrest : rest = min (before - x) (limit - (1 + x + y) - extra)) :
    x + rest ≤ before ∧ y + extra ≤ after ∧
      (x + rest + 1 + (y + extra) = limit ∨
        x + rest = before ∧ y + extra = after ∧ before + 1 + after ≤ limit) := by
  rcases Nat.le_total (after - y) (limit - (1 + x + y)) with hall | hfull
  · rw [Nat.min_eq_left hall] at hextra
    rcases Nat.le_total (before - x) (limit - (1 + x + y) - extra) with hall' | hfull'
    · rw [Nat.min_eq_left hall'] at hrest
      omega
    · rw [Nat.min_eq_right hfull'] at hrest
      omega
  · rw [Nat.min_eq_right hfull] at hextra
    have hnone : limit - (1 + x + y) - extra = 0 := by omega
    rw [hnone, Nat.min_zero] at hrest
    omega

theorem anchorWindow_eq {Content : Type} {limit : ℕ} (hlimit : 0 < limit)
    (pre post : List (Entry Content)) (anchor : Entry Content) :
    ∃ x y, x ≤ pre.length ∧ y ≤ post.length ∧
      x + 1 + y = min limit (pre.length + 1 + post.length) ∧
      anchorWindow limit (pre.drop (pre.length - limit)) anchor (post.take limit) =
        pre.drop (pre.length - x) ++ anchor :: post.take y := by
  have hbefore : (pre.drop (pre.length - limit)).length = min limit pre.length := by
    rw [List.length_drop]
    omega
  have hafter : (post.take limit).length = min limit post.length := List.length_take
  obtain ⟨x, hx⟩ : ∃ x, x = min (min limit pre.length) ((limit - 1) / 2) := ⟨_, rfl⟩
  obtain ⟨y, hy⟩ : ∃ y, y = min (min limit post.length) (limit - (1 + (limit - 1) / 2)) := ⟨_, rfl⟩
  have hxle : x ≤ min limit pre.length := hx ▸ Nat.min_le_left _ _
  have hyle : y ≤ min limit post.length := hy ▸ Nat.min_le_left _ _
  have hxhalf : x ≤ (limit - 1) / 2 := hx ▸ Nat.min_le_right _ _
  have hyhalf : y ≤ limit - (1 + (limit - 1) / 2) := hy ▸ Nat.min_le_right _ _
  have hfirst : 1 + x + y ≤ limit := by omega
  obtain ⟨hxall, hyall, hfill⟩ := shares_fill hxle hyle hfirst rfl rfl
  refine ⟨_, _, hxall.trans (Nat.min_le_right _ _), hyall.trans (Nat.min_le_right _ _), ?_, ?_⟩
  · rcases hfill with hfull | ⟨hxmin, hymin, hroom⟩
    · rw [hfull, Nat.min_eq_left]
      have hxpre := hxall.trans (Nat.min_le_right _ _)
      have hypost := hyall.trans (Nat.min_le_right _ _)
      omega
    · have hpre : min limit pre.length = pre.length := Nat.min_eq_right (by omega)
      have hpost : min limit post.length = post.length := Nat.min_eq_right (by omega)
      rw [hpre, hpost] at hroom
      rw [hxmin, hymin, hpre, hpost, Nat.min_eq_right (by omega)]
  · have hdrop : pre.length - limit + (min limit pre.length - (x + min (min limit pre.length - x)
        (limit - (1 + x + y) - min (min limit post.length - y) (limit - (1 + x + y))))) =
        pre.length - (x + min (min limit pre.length - x)
          (limit - (1 + x + y) - min (min limit post.length - y) (limit - (1 + x + y)))) := by
      have hpre : pre.length - limit + min limit pre.length = pre.length := by omega
      omega
    simp only [anchorWindow, hbefore, hafter, ← hx, ← hy]
    rw [List.drop_drop, hdrop, List.take_take,
      Nat.min_eq_left (hyall.trans (Nat.min_le_left _ _))]

namespace MessageTables

variable {Content : Type} {db : MessageTables Content} {userId convId : String}
  {entry : Entry Content} {pre post items : List (Entry Content)}

theorem mem_visible : entry ∈ db.visible userId convId ↔
    db.messages.lookup entry.1 = some entry.2 ∧ db.Visible userId convId entry := by
  rw [visible, oldestFirst, List.mem_insertionSort, select, List.mem_filter, decide_eq_true_iff,
    and_true, ← Table.mem_entries_iff]

theorem visible_perm :
    (db.visible userId convId).Perm (db.select userId convId fun _ ↦ True) :=
  List.perm_insertionSort _ _

theorem visible_ranked : Ranked place (db.visible userId convId) := by
  have hids : ((db.visible userId convId).map Sigma.fst).Nodup :=
    (visible_perm.map Sigma.fst).nodup_iff.mpr (db.messages.nodupKeys.sublist List.filter_sublist)
  have hsorted : (db.visible userId convId).Pairwise (place · ≤ place ·) :=
    List.pairwise_insertionSort (fun a b ↦ place a ≤ place b) _
  exact (hsorted.and (List.pairwise_map.mp hids)).imp fun h ↦
    lt_of_le_of_ne h.1 fun heq ↦ h.2 (place_injective heq)

theorem select_perm (p : Entry Content → Prop) [DecidablePred p] :
    (db.select userId convId p).Perm ((db.visible userId convId).filter (p ·)) := by
  have hselect : db.select userId convId p =
      (db.select userId convId fun _ ↦ True).filter (p ·) := by
    rw [select, select, List.filter_filter]
    refine List.filter_congr fun entry _ ↦ ?_
    simp [and_comm]
  rw [hselect]
  exact visible_perm.symm.filter (p ·)

theorem oldestFirst_select (p : Entry Content → Prop) [DecidablePred p] :
    oldestFirst (db.select userId convId p) = (db.visible userId convId).filter (p ·) :=
  (visible_ranked.filter (p ·)).insertionSort_key (select_perm p)

theorem latestFirst_select (p : Entry Content → Prop) [DecidablePred p] :
    latestFirst (db.select userId convId p) = ((db.visible userId convId).filter (p ·)).reverse :=
  (visible_ranked.filter (p ·)).insertionSort_reverse (select_perm p)

theorem filter_isBefore (cursor : MessagePageCursor) :
    (db.visible userId convId).filter (IsBefore cursor ·) =
      ahead place (toLex (cursor.createdAt, cursor.id)) (db.visible userId convId) :=
  List.filter_congr fun _ _ ↦ decide_eq_decide.mpr isBefore_iff

theorem filter_isAfter (cursor : MessagePageCursor) :
    (db.visible userId convId).filter (IsAfter cursor ·) =
      behind place (toLex (cursor.createdAt, cursor.id)) (db.visible userId convId) :=
  List.filter_congr fun _ _ ↦ decide_eq_decide.mpr isAfter_iff

theorem filter_isBefore_split (h : db.visible userId convId = pre ++ entry :: post) :
    (db.visible userId convId).filter (IsBefore (cursorOf entry) ·) = pre := by
  have hranked : Ranked place (db.visible userId convId) := visible_ranked
  rw [filter_isBefore]
  rw [h] at hranked ⊢
  exact hranked.ahead_split

theorem filter_isAfter_split (h : db.visible userId convId = pre ++ entry :: post) :
    (db.visible userId convId).filter (IsAfter (cursorOf entry) ·) = post := by
  have hranked : Ranked place (db.visible userId convId) := visible_ranked
  rw [filter_isAfter]
  rw [h] at hranked ⊢
  exact hranked.behind_split

theorem select_ne_nil_iff (p : Entry Content → Prop) [DecidablePred p] :
    db.select userId convId p ≠ [] ↔ (db.visible userId convId).filter (p ·) ≠ [] := by
  rw [← List.length_pos_iff, ← List.length_pos_iff, (select_perm p).length_eq]

structure IsPage (db : MessageTables Content) (userId convId : String) (limit : ℕ)
    (pre post : List (Entry Content)) (page : MessagePageResult Content) : Prop where
  window : db.visible userId convId = pre ++ page.items ++ post
  before : page.items ≠ [] → (page.hasMoreBefore = true ↔ pre ≠ [])
  after : page.items ≠ [] → (page.hasMoreAfter = true ↔ post ≠ [])
  none : page.items = [] → page.hasMoreBefore = false ∧ page.hasMoreAfter = false
  length : page.items.length ≤ limit

theorem pageWithFlags_isPage {limit : ℕ} (h : db.visible userId convId = pre ++ items ++ post)
    (hlimit : items.length ≤ limit) :
    db.IsPage userId convId limit pre post (db.pageWithFlags userId convId (oldestFirst items)) ∧
      (db.pageWithFlags userId convId (oldestFirst items)).items = items := by
  have hranked : Ranked place (pre ++ items ++ post) := h ▸ visible_ranked
  have hsorted : oldestFirst items = items :=
    (ranked_append.mp (ranked_append.mp hranked).1).2.1.insertionSort_key (List.Perm.refl items)
  rw [hsorted, pageWithFlags]
  rcases List.eq_nil_or_concat' items with rfl | ⟨init, last, rfl⟩
  · exact ⟨⟨h, fun hne ↦ absurd rfl hne, fun hne ↦ absurd rfl hne, fun _ ↦ ⟨rfl, rfl⟩, hlimit⟩, rfl⟩
  · obtain ⟨first, tail, hfirst⟩ : ∃ first tail, init ++ [last] = first :: tail :=
      List.exists_cons_of_ne_nil (by simp)
    have hhead : db.visible userId convId = pre ++ first :: (tail ++ post) := by
      rw [h, hfirst, List.append_assoc, List.cons_append]
    have hlast : db.visible userId convId = (pre ++ init) ++ last :: post := by
      rw [h, ← List.append_assoc, List.append_assoc, List.singleton_append]
    have hbefore := filter_isBefore_split hhead
    have hafter := filter_isAfter_split hlast
    rw [List.getLast?_concat, hfirst, List.head?_cons]
    refine ⟨⟨by rw [h, hfirst], fun _ ↦ ?_, fun _ ↦ ?_, fun hnil ↦ (by cases hnil), ?_⟩, rfl⟩
    · rw [decide_eq_true_iff, select_ne_nil_iff, hbefore]
    · rw [decide_eq_true_iff, select_ne_nil_iff, hafter]
    · rw [← hfirst]
      exact hlimit

theorem exists_page {params : MessagePageParams} {page : MessagePageResult Content}
    (h : db.listMessagesPage userId convId params = .ok page) :
    ∃ rows, db.pageRows userId convId (max params.limit 1) params.direction = .ok rows ∧
      page = db.pageWithFlags userId convId (oldestFirst rows) := by
  cases hfound : db.ensureConversationForUser userId convId with
  | error e =>
      rw [listMessagesPage, hfound] at h
      cases h
  | ok _ =>
      cases hrows : db.pageRows userId convId (max params.limit 1) params.direction with
      | error e =>
          rw [listMessagesPage, hfound, hrows] at h
          cases h
      | ok rows =>
          rw [listMessagesPage, hfound, hrows] at h
          cases h
          exact ⟨rows, rfl, rfl⟩

theorem page_eq {limit : ℕ} {direction : MessagePageDirection} {rows : List (Entry Content)}
    (hfound : db.ensureConversationForUser userId convId = .ok ())
    (hrows : db.pageRows userId convId (max limit 1) direction = .ok rows) :
    db.listMessagesPage userId convId ⟨limit, direction⟩ =
      .ok (db.pageWithFlags userId convId (oldestFirst rows)) := by
  rw [listMessagesPage, hfound, hrows]
  rfl

theorem take_succ_take {α : Type} (l : List α) (n : ℕ) : (l.take (n + 1)).take n = l.take n := by
  rw [List.take_take, Nat.min_eq_left (Nat.le_succ n)]

theorem pageRows_initialLatest (limit : ℕ) :
    db.pageRows userId convId limit .initialLatest =
      .ok ((db.visible userId convId).drop ((db.visible userId convId).length - limit)) := by
  rw [pageRows, latestFirst_select, take_succ_take, reverse_take_reverse]
  simp

theorem pageRows_before (limit : ℕ) (cursor : MessagePageCursor)
    (h : (db.visible userId convId).filter (IsBefore cursor ·) = pre) :
    db.pageRows userId convId limit (.before cursor) = .ok (pre.drop (pre.length - limit)) := by
  rw [pageRows, latestFirst_select, take_succ_take, reverse_take_reverse, h]

theorem pageRows_after (limit : ℕ) (cursor : MessagePageCursor)
    (h : (db.visible userId convId).filter (IsAfter cursor ·) = post) :
    db.pageRows userId convId limit (.after cursor) = .ok (post.take limit) := by
  rw [pageRows, oldestFirst_select, take_succ_take, h]

theorem mem_select {p : Entry Content → Prop} [DecidablePred p] :
    entry ∈ db.select userId convId p ↔ entry ∈ db.visible userId convId ∧ p entry := by
  rw [(select_perm p).mem_iff, List.mem_filter, decide_eq_true_iff]

theorem head_select_id (h : entry ∈ db.visible userId convId) :
    (db.select userId convId fun other ↦ other.1 = entry.1).head? = some entry := by
  have hmem : entry ∈ db.select userId convId fun other ↦ other.1 = entry.1 :=
    mem_select.mpr ⟨h, rfl⟩
  obtain ⟨first, rest, hfirst⟩ := List.exists_cons_of_ne_nil (List.ne_nil_of_mem hmem)
  have hother : first ∈ db.select userId convId fun other ↦ other.1 = entry.1 := by
    rw [hfirst]
    exact List.mem_cons_self
  obtain ⟨hvisible, hid⟩ := mem_select.mp hother
  have hrow := (mem_visible.mp hvisible).1
  rw [hid, (mem_visible.mp h).1] at hrow
  rw [hfirst, List.head?_cons]
  exact congrArg some (Sigma.ext hid (heq_of_eq (Option.some.inj hrow).symm))

theorem pageRows_anchor (limit : ℕ) (h : db.visible userId convId = pre ++ entry :: post) :
    db.pageRows userId convId limit (.anchor entry.1) =
      .ok (anchorWindow limit (pre.drop (pre.length - limit)) entry (post.take limit)) := by
  have hmem : entry ∈ db.visible userId convId := by
    rw [h]
    exact List.mem_append_right pre List.mem_cons_self
  simp only [pageRows, head_select_id hmem]
  rw [latestFirst_select, oldestFirst_select, filter_isBefore_split h, filter_isAfter_split h,
    reverse_take_reverse]

theorem latest_isPage {limit : ℕ} (h : db.visible userId convId = pre ++ post) :
    db.IsPage userId convId limit (pre.take (pre.length - limit)) post
        (db.pageWithFlags userId convId (oldestFirst (pre.drop (pre.length - limit)))) ∧
      (db.pageWithFlags userId convId (oldestFirst (pre.drop (pre.length - limit)))).items =
        pre.drop (pre.length - limit) := by
  refine pageWithFlags_isPage ?_ ?_
  · rw [h, List.take_append_drop]
  · rw [List.length_drop]
    omega

theorem earliest_isPage {limit : ℕ} (h : db.visible userId convId = pre ++ post) :
    db.IsPage userId convId limit pre (post.drop limit)
        (db.pageWithFlags userId convId (oldestFirst (post.take limit))) ∧
      (db.pageWithFlags userId convId (oldestFirst (post.take limit))).items =
        post.take limit := by
  refine pageWithFlags_isPage ?_ ?_
  · rw [h, List.append_assoc, List.take_append_drop]
  · rw [List.length_take]
    omega

theorem anchor_isPage {limit : ℕ} (hlimit : 0 < limit)
    (h : db.visible userId convId = pre ++ entry :: post) :
    ∃ rows before after, db.pageRows userId convId limit (.anchor entry.1) = .ok rows ∧
      entry ∈ rows ∧ rows.length = min limit (db.visible userId convId).length ∧
      db.IsPage userId convId limit before after
        (db.pageWithFlags userId convId (oldestFirst rows)) ∧
      (db.pageWithFlags userId convId (oldestFirst rows)).items = rows := by
  obtain ⟨x, y, hx, hy, hsum, hwindow⟩ := anchorWindow_eq hlimit pre post entry
  have htotal : (db.visible userId convId).length = pre.length + 1 + post.length := by
    rw [h, List.length_append, List.length_cons]
    omega
  have hlength : (pre.drop (pre.length - x) ++ entry :: post.take y).length =
      min limit (db.visible userId convId).length := by
    rw [htotal, ← hsum, List.length_append, List.length_drop, List.length_cons, List.length_take,
      Nat.min_eq_left hy]
    omega
  refine ⟨_, pre.take (pre.length - x), post.drop y, pageRows_anchor limit h, ?_, ?_, ?_⟩
  · rw [hwindow]
    exact List.mem_append_right _ List.mem_cons_self
  · rw [hwindow, hlength]
  · rw [hwindow]
    refine pageWithFlags_isPage ?_ (hlength.le.trans (Nat.min_le_left _ _))
    rw [h, ← List.append_assoc, List.take_append_drop, List.append_assoc, List.cons_append,
      List.take_append_drop]

theorem isPage_of_ok {params : MessagePageParams} {page : MessagePageResult Content}
    (h : db.listMessagesPage userId convId params = .ok page) :
    ∃ pre post, db.IsPage userId convId (max params.limit 1) pre post page := by
  obtain ⟨rows, hrows, rfl⟩ := exists_page h
  have hranked : Ranked place (db.visible userId convId) := visible_ranked
  cases hdirection : params.direction with
  | initialLatest =>
      rw [hdirection, pageRows_initialLatest] at hrows
      cases hrows
      exact ⟨_, _, (latest_isPage (List.append_nil _).symm).1⟩
  | before cursor =>
      rw [hdirection, pageRows_before _ cursor (filter_isBefore cursor)] at hrows
      cases hrows
      exact ⟨_, _, (latest_isPage (hranked.ahead_append _).symm).1⟩
  | after cursor =>
      rw [hdirection, pageRows_after _ cursor (filter_isAfter cursor)] at hrows
      cases hrows
      exact ⟨_, _, (earliest_isPage (hranked.upTo_append_behind _).symm).1⟩
  | anchor messageId =>
      cases hhead : (db.select userId convId fun entry ↦ entry.1 = messageId).head? with
      | none =>
          simp only [hdirection, pageRows, hhead] at hrows
          cases hrows
      | some entry =>
          obtain ⟨hvisible, rfl⟩ := mem_select.mp (List.mem_of_head? hhead)
          obtain ⟨pre, post, hsplit⟩ := List.append_of_mem hvisible
          obtain ⟨found, before, after, hfound, -, -, hpage, -⟩ :=
            anchor_isPage (Nat.le_max_right params.limit 1) hsplit
          rw [hdirection, hfound] at hrows
          cases hrows
          exact ⟨before, after, hpage⟩

end MessageTables

def PageStep.isOlder : PageStep → Bool
  | .older _ => true
  | .newer _ => false

namespace Reading

variable {Content : Type} {db : MessageTables Content} {userId convId : String}
  {r : Reading Content} {a b limit : ℕ}

/-- The pages read are a window of the messages, with at most so many left out on either side. -/
structure Covers (db : MessageTables Content) (userId convId : String) (a b : ℕ)
    (pre post : List (Entry Content)) (r : Reading Content) : Prop where
  window : db.visible userId convId = pre ++ r.items ++ post
  before : r.moreBefore = true ↔ pre ≠ []
  after : r.moreAfter = true ↔ post ≠ []
  nonempty : r.items = [] → db.visible userId convId = []
  older : pre.length ≤ a
  newer : post.length ≤ b

theorem items_cons (page : MessagePageResult Content) (pages : List (MessagePageResult Content)) :
    (Reading.mk (page :: pages)).items = page.items ++ (Reading.mk pages).items :=
  List.flatMap_cons

theorem items_concat (page : MessagePageResult Content) (pages : List (MessagePageResult Content)) :
    (Reading.mk (pages ++ [page])).items = (Reading.mk pages).items ++ page.items := by
  simp [items]

theorem pages_ne_nil (h : r.items ≠ []) : r.pages ≠ [] := by
  intro hnil
  rw [items, hnil] at h
  exact h rfl

theorem covers_start {direction : MessagePageDirection} {page : MessagePageResult Content}
    (hdirection : direction = .initialLatest ∨ ∃ messageId, direction = .anchor messageId)
    (h : db.listMessagesPage userId convId ⟨limit, direction⟩ = .ok page) :
    ∃ pre post, Covers db userId convId (db.visible userId convId).length
      (db.visible userId convId).length pre post ⟨[page]⟩ := by
  have hitems : (Reading.mk [page]).items = page.items := List.flatMap_singleton _ _
  have hnonempty : page.items = [] → db.visible userId convId = [] := by
    obtain ⟨rows, hrows, rfl⟩ := MessageTables.exists_page h
    rcases hdirection with rfl | ⟨messageId, rfl⟩
    · rw [MessageTables.pageRows_initialLatest] at hrows
      cases hrows
      rw [(MessageTables.latest_isPage (List.append_nil _).symm).2, List.drop_eq_nil_iff]
      intro hlength
      exact List.eq_nil_of_length_eq_zero (by omega)
    · cases hhead : (db.select userId convId fun entry ↦ entry.1 = messageId).head? with
      | none =>
          simp only [MessageTables.pageRows, hhead] at hrows
          cases hrows
      | some entry =>
          obtain ⟨hvisible, rfl⟩ := MessageTables.mem_select.mp (List.mem_of_head? hhead)
          obtain ⟨pre, post, hsplit⟩ := List.append_of_mem hvisible
          obtain ⟨found, before, after, hfound, hmem, -, -, hpage⟩ :=
            MessageTables.anchor_isPage (Nat.le_max_right limit 1) hsplit
          rw [hfound] at hrows
          cases hrows
          rw [hpage]
          exact fun hnil ↦ absurd hmem (hnil ▸ List.not_mem_nil)
  obtain ⟨pre, post, hpage⟩ := MessageTables.isPage_of_ok h
  have hlength := congrArg List.length hpage.window
  rw [List.length_append, List.length_append] at hlength
  refine ⟨pre, post, by rw [hitems]; exact hpage.window, ?_, ?_, by rwa [hitems], by omega, by omega⟩
  · by_cases hnil : page.items = []
    · have hpre : pre = [] := by
        refine List.eq_nil_of_length_eq_zero ?_
        rw [hnonempty hnil] at hlength
        simp only [List.length_nil] at hlength
        omega
      simp [moreBefore, (hpage.none hnil).1, hpre]
    · exact hpage.before hnil
  · by_cases hnil : page.items = []
    · have hpost : post = [] := by
        refine List.eq_nil_of_length_eq_zero ?_
        rw [hnonempty hnil] at hlength
        simp only [List.length_nil] at hlength
        omega
      simp [moreAfter, (hpage.none hnil).2, hpost]
    · exact hpage.after hnil

theorem Covers.step_older {pre post : List (Entry Content)}
    (hfound : db.ensureConversationForUser userId convId = .ok ())
    (h : Covers db userId convId a b pre post r) :
    ∃ pre', Covers db userId convId (a - 1) b pre' post (r.step db userId convId (.older limit)) := by
  cases hmore : r.moreBefore with
  | false =>
      have hpre : pre = [] := by
        by_contra hne
        rw [h.before.mpr hne] at hmore
        cases hmore
      refine ⟨[], ?_⟩
      have hstep : r.step db userId convId (.older limit) = r := by
        simp only [step, hmore]
      rw [hstep]
      subst hpre
      exact ⟨h.window, h.before, h.after, h.nonempty, Nat.zero_le _, h.newer⟩
  | true =>
      have hpre := h.before.mp hmore
      have hitems : r.items ≠ [] := by
        intro hnil
        have hempty := h.nonempty hnil
        rw [h.window] at hempty
        simp only [List.append_eq_nil_iff] at hempty
        exact hpre hempty.1.1
      obtain ⟨first, tail, hfirst⟩ := List.exists_cons_of_ne_nil hitems
      have hsplit : db.visible userId convId = pre ++ first :: (tail ++ post) := by
        rw [h.window, hfirst, List.append_assoc, List.cons_append]
      have hside : db.visible userId convId = pre ++ (r.items ++ post) := by
        rw [h.window, List.append_assoc]
      obtain ⟨hpage, hrows⟩ := @MessageTables.latest_isPage _ _ _ _ _ _ (max limit 1) hside
      have hcall := MessageTables.page_eq hfound (MessageTables.pageRows_before (max limit 1)
        (cursorOf first) (MessageTables.filter_isBefore_split hsplit))
      refine ⟨pre.take (pre.length - max limit 1), ?_⟩
      have hstep : r.step db userId convId (.older limit) =
          ⟨db.pageWithFlags userId convId
            (oldestFirst (pre.drop (pre.length - max limit 1))) :: r.pages⟩ := by
        simp only [step, hmore, hfirst, List.head?_cons, hcall]
      have hlength := List.length_pos_iff.mpr hpre
      have hne : pre.drop (pre.length - max limit 1) ≠ [] := by
        rw [← List.length_pos_iff, List.length_drop]
        omega
      rw [hstep]
      refine ⟨?_, ?_, ?_, ?_, ?_, h.newer⟩
      · rw [items_cons, hrows, ← List.append_assoc, List.take_append_drop]
        exact h.window
      · exact hpage.before (by rwa [hrows])
      · rw [moreAfter, List.getLast?_cons_of_ne_nil (pages_ne_nil hitems)]
        exact h.after
      · rw [items_cons, hrows]
        exact fun hnil ↦ absurd (List.append_eq_nil_iff.mp hnil).1 hne
      · have holder := h.older
        rw [List.length_take]
        omega

theorem Covers.step_newer {pre post : List (Entry Content)}
    (hfound : db.ensureConversationForUser userId convId = .ok ())
    (h : Covers db userId convId a b pre post r) :
    ∃ post', Covers db userId convId a (b - 1) pre post' (r.step db userId convId (.newer limit)) := by
  cases hmore : r.moreAfter with
  | false =>
      have hpost : post = [] := by
        by_contra hne
        rw [h.after.mpr hne] at hmore
        cases hmore
      refine ⟨[], ?_⟩
      have hstep : r.step db userId convId (.newer limit) = r := by
        simp only [step, hmore]
      rw [hstep]
      subst hpost
      exact ⟨h.window, h.before, h.after, h.nonempty, h.older, Nat.zero_le _⟩
  | true =>
      have hpost := h.after.mp hmore
      have hitems : r.items ≠ [] := by
        intro hnil
        have hempty := h.nonempty hnil
        rw [h.window] at hempty
        simp only [List.append_eq_nil_iff] at hempty
        exact hpost hempty.2
      obtain hnil | ⟨init, last, hlast⟩ := List.eq_nil_or_concat' r.items
      · exact absurd hnil hitems
      have hsplit : db.visible userId convId = (pre ++ init) ++ last :: post := by
        rw [h.window, hlast, ← List.append_assoc, List.append_assoc, List.singleton_append]
      obtain ⟨hpage, hrows⟩ := @MessageTables.earliest_isPage _ _ _ _ _ _ (max limit 1) h.window
      have hcall := MessageTables.page_eq hfound (MessageTables.pageRows_after (max limit 1)
        (cursorOf last) (MessageTables.filter_isAfter_split hsplit))
      refine ⟨post.drop (max limit 1), ?_⟩
      have hstep : r.step db userId convId (.newer limit) =
          ⟨r.pages ++ [db.pageWithFlags userId convId (oldestFirst (post.take (max limit 1)))]⟩ := by
        simp only [step, hmore, hlast, List.getLast?_concat, hcall]
      have hlength := List.length_pos_iff.mpr hpost
      have hne : post.take (max limit 1) ≠ [] := by
        rw [← List.length_pos_iff, List.length_take]
        omega
      rw [hstep]
      refine ⟨?_, ?_, ?_, ?_, h.older, ?_⟩
      · rw [items_concat, hrows, ← List.append_assoc, List.append_assoc, List.take_append_drop]
        exact h.window
      · rw [moreBefore, List.head?_append_of_ne_nil _ (pages_ne_nil hitems)]
        exact h.before
      · rw [moreAfter, List.getLast?_concat]
        exact hpage.after (by rwa [hrows])
      · rw [items_concat, hrows]
        exact fun hnil ↦ absurd (List.append_eq_nil_iff.mp hnil).2 hne
      · have hnewer := h.newer
        rw [List.length_drop]
        omega

theorem Covers.run {steps : List PageStep} {pre post : List (Entry Content)}
    (hfound : db.ensureConversationForUser userId convId = .ok ())
    (h : Covers db userId convId a b pre post r) :
    ∃ pre' post', Covers db userId convId (a - steps.countP PageStep.isOlder)
      (b - steps.countP fun step ↦ !step.isOlder) pre' post'
      (Lib.run (step db userId convId) r steps) := by
  induction steps generalizing r a b pre post with
  | nil => exact ⟨pre, post, h⟩
  | cons s steps ih =>
      cases s with
      | older limit =>
          obtain ⟨pre', hnext⟩ := @Covers.step_older _ _ _ _ _ _ _ limit _ _ hfound h
          obtain ⟨pre'', post', hrest⟩ := ih hnext
          refine ⟨pre'', post', hrest.window, hrest.before, hrest.after, hrest.nonempty, ?_, ?_⟩
          · have holder := hrest.older
            rw [List.countP_cons_of_pos (by rfl)]
            omega
          · have hnewer := hrest.newer
            rw [List.countP_cons_of_neg (by simp [PageStep.isOlder])]
            exact hnewer
      | newer limit =>
          obtain ⟨post', hnext⟩ := @Covers.step_newer _ _ _ _ _ _ _ limit _ _ hfound h
          obtain ⟨pre', post'', hrest⟩ := ih hnext
          refine ⟨pre', post'', hrest.window, hrest.before, hrest.after, hrest.nonempty, ?_, ?_⟩
          · have holder := hrest.older
            rw [List.countP_cons_of_neg (by simp [PageStep.isOlder])]
            exact holder
          · have hnewer := hrest.newer
            rw [List.countP_cons_of_pos (by rfl)]
            omega

end Reading

/-- What a reader may rely on.  A limit of zero counts as one. -/
structure Tiles {Content : Type} (db : MessageTables Content) (userId convId : String) : Prop where
  ordered : (db.visible userId convId).Pairwise fun a b ↦ place a < place b
  listed : ∀ entry, entry ∈ db.visible userId convId ↔
    db.messages.lookup entry.1 = some entry.2 ∧ db.Visible userId convId entry
  bounded : ∀ params page, db.listMessagesPage userId convId params = .ok page →
    page.items.length ≤ max params.limit 1
  flags : ∀ params page, db.listMessagesPage userId convId params = .ok page → page.items ≠ [] →
    (page.hasMoreBefore = true ↔ ∃ entry ∈ db.visible userId convId,
      ∀ item ∈ page.items, place entry < place item) ∧
    (page.hasMoreAfter = true ↔ ∃ entry ∈ db.visible userId convId,
      ∀ item ∈ page.items, place item < place entry)
  anchored : db.ensureConversationForUser userId convId = .ok () →
    ∀ limit, ∀ entry ∈ db.visible userId convId, ∃ page,
      db.listMessagesPage userId convId ⟨limit, .anchor entry.1⟩ = .ok page ∧ entry ∈ page.items ∧
        page.items.length = min (max limit 1) (db.visible userId convId).length
  latest : db.ensureConversationForUser userId convId = .ok () →
    ∀ limit, ∃ page, db.listMessagesPage userId convId ⟨limit, .initialLatest⟩ = .ok page
  /-- However the reader proceeds, the pages make one window, and all of it in the end. -/
  tiled : ∀ limit direction page steps,
    (direction = .initialLatest ∨ ∃ messageId, direction = .anchor messageId) →
    db.listMessagesPage userId convId ⟨limit, direction⟩ = .ok page →
      (run (Reading.step db userId convId) ⟨[page]⟩ steps).items <:+: db.visible userId convId ∧
      ((db.visible userId convId).length ≤ steps.countP PageStep.isOlder →
        (db.visible userId convId).length ≤ steps.countP (fun step ↦ !step.isOlder) →
          (run (Reading.step db userId convId) ⟨[page]⟩ steps).moreBefore = false ∧
          (run (Reading.step db userId convId) ⟨[page]⟩ steps).moreAfter = false) ∧
      ((run (Reading.step db userId convId) ⟨[page]⟩ steps).moreBefore = false →
        (run (Reading.step db userId convId) ⟨[page]⟩ steps).moreAfter = false →
          (run (Reading.step db userId convId) ⟨[page]⟩ steps).items = db.visible userId convId)

theorem ensure_of_ok {Content : Type} {db : MessageTables Content} {userId convId : String}
    {params : MessagePageParams} {page : MessagePageResult Content}
    (h : db.listMessagesPage userId convId params = .ok page) :
    db.ensureConversationForUser userId convId = .ok () := by
  cases hfound : db.ensureConversationForUser userId convId with
  | error e =>
      rw [MessageTables.listMessagesPage, hfound] at h
      cases h
  | ok _ => rfl

/-- The pages of a conversation tile its visible messages. -/
theorem tiles {Content : Type} (db : MessageTables Content) (userId convId : String) :
    Tiles db userId convId := by
  have hranked : Ranked place (db.visible userId convId) := MessageTables.visible_ranked
  refine ⟨hranked, fun entry ↦ MessageTables.mem_visible, ?_, ?_, ?_, ?_, ?_⟩
  · intro params page h
    obtain ⟨pre, post, hpage⟩ := MessageTables.isPage_of_ok h
    exact hpage.length
  · intro params page h hne
    obtain ⟨pre, post, hpage⟩ := MessageTables.isPage_of_ok h
    have hsplit : Ranked place (pre ++ page.items ++ post) := hpage.window ▸ hranked
    obtain ⟨hfront, -, hlater⟩ := ranked_append.mp hsplit
    obtain ⟨-, -, hearlier⟩ := ranked_append.mp hfront
    obtain ⟨item, hitem⟩ := List.exists_mem_of_ne_nil page.items hne
    rw [hpage.before hne, hpage.after hne, hpage.window]
    refine ⟨⟨fun hpre ↦ ?_, ?_⟩, ⟨fun hpost ↦ ?_, ?_⟩⟩
    · obtain ⟨entry, hentry⟩ := List.exists_mem_of_ne_nil pre hpre
      exact ⟨entry, by simp [hentry], fun other hother ↦ hearlier entry hentry other hother⟩
    · rintro ⟨entry, hentry, hbelow⟩ rfl
      rcases List.mem_append.mp hentry with hentry | hentry
      · exact lt_irrefl _ (hbelow entry hentry)
      · exact lt_asymm (hbelow item hitem) (hlater item hitem entry hentry)
    · obtain ⟨entry, hentry⟩ := List.exists_mem_of_ne_nil post hpost
      exact ⟨entry, by simp [hentry], fun other hother ↦
        hlater other (List.mem_append_right pre hother) entry hentry⟩
    · rintro ⟨entry, hentry, habove⟩ rfl
      rw [List.append_nil] at hentry
      rcases List.mem_append.mp hentry with hentry | hentry
      · exact lt_asymm (habove item hitem) (hearlier entry hentry item hitem)
      · exact lt_irrefl _ (habove entry hentry)
  · intro hfound limit entry hmem
    obtain ⟨pre, post, hsplit⟩ := List.append_of_mem hmem
    obtain ⟨rows, before, after, hrows, hentry, hlength, -, hitems⟩ :=
      MessageTables.anchor_isPage (Nat.le_max_right limit 1) hsplit
    refine ⟨_, MessageTables.page_eq hfound hrows, ?_, ?_⟩
    · rw [hitems]
      exact hentry
    · rw [hitems]
      exact hlength
  · intro hfound limit
    exact ⟨_, MessageTables.page_eq hfound (MessageTables.pageRows_initialLatest (max limit 1))⟩
  · intro limit direction page steps hdirection h
    obtain ⟨pre, post, hstart⟩ := Reading.covers_start hdirection h
    obtain ⟨pre', post', hrun⟩ := @Reading.Covers.run _ _ _ _ _ _ _ steps _ _ (ensure_of_ok h) hstart
    refine ⟨⟨pre', post', hrun.window.symm⟩, ?_, ?_⟩
    · intro holder hnewer
      have hpre : pre' = [] := List.eq_nil_of_length_eq_zero (by have := hrun.older; omega)
      have hpost : post' = [] := List.eq_nil_of_length_eq_zero (by have := hrun.newer; omega)
      refine ⟨?_, ?_⟩
      · exact Bool.eq_false_iff.mpr fun hmore ↦ hrun.before.mp hmore hpre
      · exact Bool.eq_false_iff.mpr fun hmore ↦ hrun.after.mp hmore hpost
    · intro hbefore hafter
      have hpre : pre' = [] := by
        by_contra hne
        rw [hrun.before.mpr hne] at hbefore
        cases hbefore
      have hpost : post' = [] := by
        by_contra hne
        rw [hrun.after.mpr hne] at hafter
        cases hafter
      rw [hrun.window, hpre, hpost, List.nil_append, List.append_nil]

def oneMessage : MessageTables Unit :=
  { conversations := (∅ : Table String ConversationRow).insert "conv" ⟨"user", 0⟩
    messages := (∅ : Table String (MessageRow Unit)).insert "msg"
      ⟨"conv", none, "text", (), none, none, false, 1, none⟩ }

/-- A limit of zero does not make an empty page. -/
theorem oneMessage_exceeds_limit :
    ∃ page, oneMessage.listMessagesPage "user" "conv" ⟨0, .initialLatest⟩ = .ok page ∧
      ¬page.items.length ≤ 0 :=
  ⟨_, rfl, by decide⟩

end Zaowutai.Messages
