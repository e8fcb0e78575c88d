import Mathlib.Data.List.Dedup
import Zaowutai.Lib.FileTree

/-!
# Trees that grow

A tree that only gets new places: a path that led to a place still does, and one
that led to a missing last name leads to what has been put there.
-/

namespace Zaowutai.Lib

namespace FileTree

variable {α β : Type*} {t t' t'' : FileTree α β} {p q dir : List α} {name : α}
  {moves more : List (Move α)} {links : ℕ} {stop : Stop α} {e : Entry α β}

def resume (t : FileTree α β) (more : List (Move α)) : Stop α → Except FollowError (Stop α)
  | .found q => t.advance q more
  | .missing _ _ => .error .notFound
  | .link dir target rest => .ok (.link dir target (rest ++ more))

section Advance

theorem entry_cases (t : FileTree α β) (p : List α) :
    t.entry p = none ∨ (∃ target, t.entry p = some (.link target)) ∨ t.Real p := by
  cases hentry : t.entry p with
  | none => exact .inl rfl
  | some e =>
      by_cases hlink : ∃ target, e = .link target
      · obtain ⟨target, rfl⟩ := hlink
        exact .inr (.inl ⟨target, rfl⟩)
      · exact .inr (.inr ⟨e, hentry, fun target he ↦ hlink ⟨target, he⟩⟩)

theorem advance_of_not_isDir {move : Move α} (h : t.isDir p = false) :
    t.advance p (move :: moves) = .error .notADirectory := by
  unfold advance
  rw [if_neg (by simp [h])]

theorem advance_stay (h : t.isDir p = true) :
    t.advance p (.stay :: moves) = t.advance p moves := by
  conv_lhs => unfold advance
  rw [if_pos h]

theorem advance_up (h : t.isDir p = true) :
    t.advance p (.up :: moves) = t.advance p.dropLast moves := by
  conv_lhs => unfold advance
  rw [if_pos h]

theorem advance_down_none (hdir : t.isDir p = true) (h : t.entry (p ++ [name]) = none) :
    t.advance p (.down name :: moves) =
      if moves.isEmpty then .ok (.missing p name) else .error .notFound := by
  rw [advance, if_pos hdir]
  simp only [h]

theorem advance_down_link {target : LinkTarget α} (hdir : t.isDir p = true)
    (h : t.entry (p ++ [name]) = some (.link target)) :
    t.advance p (.down name :: moves) = .ok (.link p target moves) := by
  rw [advance, if_pos hdir]
  simp only [h]

theorem advance_append (t : FileTree α β) (p : List α) (moves : List (Move α)) (hmore : more ≠ []) :
    t.advance p (moves ++ more) = (t.advance p moves).bind (t.resume more) := by
  induction moves generalizing p with
  | nil =>
      conv_rhs => unfold advance
      rfl
  | cons move moves ih =>
      rw [List.cons_append]
      cases hdir : t.isDir p with
      | false =>
          rw [advance_of_not_isDir hdir, advance_of_not_isDir hdir]
          rfl
      | true =>
          cases move with
          | stay =>
              rw [advance_stay hdir, advance_stay hdir]
              exact ih p
          | up =>
              rw [advance_up hdir, advance_up hdir]
              exact ih p.dropLast
          | down name =>
              rcases entry_cases t (p ++ [name]) with hnone | ⟨target, hlink⟩ | hreal
              · have hempty : (moves ++ more).isEmpty = false := by simp [hmore]
                rw [advance_down_none hdir hnone, advance_down_none hdir hnone, hempty]
                cases moves with
                | nil => rfl
                | cons move moves => rfl
              · rw [advance_down_link hdir hlink, advance_down_link hdir hlink]
                rfl
              · rw [advance_down hdir hreal, advance_down hdir hreal]
                exact ih (p ++ [name])

end Advance

section Below

theorem entry_append_none_of_not_isDir (h : t.isDir p = false) (name : α) (rest : List α) :
    t.entry (p ++ name :: rest) = none := by
  by_contra hne
  rw [isDir_of_append rest (Option.isSome_iff_ne_none.mpr hne)] at h
  cases h

theorem entry_append_none (h : t.entry p = none) (rest : List α) : t.entry (p ++ rest) = none := by
  cases rest with
  | nil => rwa [List.append_nil]
  | cons name rest =>
      apply entry_append_none_of_not_isDir
      rw [isDir, h]

end Below

section Follow

theorem follow_of_advance (links : ℕ) {result : Except FollowError (Stop α)}
    (hadvance : t.advance p moves = result)
    (h : ∀ dir target rest, result ≠ .ok (.link dir target rest)) :
    t.follow links p moves = result := by
  unfold follow
  rw [hadvance]
  split
  · next dir target rest => exact absurd rfl (h dir target rest)
  · rfl

theorem follow_link_zero {target : LinkTarget α} {rest : List (Move α)}
    (h : t.advance p moves = .ok (.link dir target rest)) :
    t.follow 0 p moves = .error .filesystemLoop := by
  rw [follow, h]

theorem follow_link_succ {target : LinkTarget α} {rest : List (Move α)}
    (h : t.advance p moves = .ok (.link dir target rest)) :
    t.follow (links + 1) p moves =
      t.follow links (if target.absolute then [] else dir) (target.moves ++ rest) := by
  rw [follow, h]

theorem find_eq_ok_iff :
    t.find links p moves = .ok q ↔ t.follow links p moves = .ok (.found q) := by
  rw [find]
  split
  · next hstop => simp [hstop]
  · next stop hother hstop =>
      rw [hstop]
      simpa using fun h ↦ hother q h
  · next e hstop => simp [hstop]

def GoesOn (t : FileTree α β) (links : ℕ) (p : List α) (moves more : List (Move α)) : Prop :=
  (∃ q left, t.follow links p moves = .ok (.found q) ∧
      t.follow links p (moves ++ more) = t.follow left q more) ∨
    ∃ e, t.find links p moves = .error e ∧ t.follow links p (moves ++ more) = .error e

theorem goesOn_of_no_link (links : ℕ) (hmore : more ≠ [])
    (h : ∀ dir target rest, t.advance p moves ≠ .ok (.link dir target rest)) :
    t.GoesOn links p moves more := by
  have happend := advance_append t p moves hmore
  cases hadvance : t.advance p moves with
  | error e =>
      rw [hadvance] at happend
      refine .inr ⟨e, ?_, follow_of_advance links happend (by simp)⟩
      rw [find, follow_of_advance links hadvance (by simp)]
  | ok stop =>
      rw [hadvance] at happend
      cases stop with
      | found q =>
          refine .inl ⟨q, links, follow_of_advance links hadvance (by simp), ?_⟩
          unfold follow
          rw [happend]
          rfl
      | missing dir name =>
          refine .inr ⟨.notFound, ?_, follow_of_advance links happend (by simp)⟩
          rw [find, follow_of_advance links hadvance (by simp)]
      | link dir target rest => exact absurd hadvance (h dir target rest)

theorem goesOn (t : FileTree α β) (links : ℕ) (p : List α) (moves : List (Move α))
    (hmore : more ≠ []) : t.GoesOn links p moves more := by
  induction links generalizing p moves with
  | zero =>
      by_cases hlink : ∃ dir target rest, t.advance p moves = .ok (.link dir target rest)
      · obtain ⟨dir, target, rest, hlink⟩ := hlink
        refine .inr ⟨.filesystemLoop, by rw [find, follow_link_zero hlink], ?_⟩
        apply follow_link_zero
        rw [advance_append t p moves hmore, hlink]
        rfl
      · exact goesOn_of_no_link 0 hmore fun dir target rest h ↦ hlink ⟨dir, target, rest, h⟩
  | succ links ih =>
      by_cases hlink : ∃ dir target rest, t.advance p moves = .ok (.link dir target rest)
      · obtain ⟨dir, target, rest, hlink⟩ := hlink
        have hlong : t.advance p (moves ++ more) = .ok (.link dir target (rest ++ more)) := by
          rw [advance_append t p moves hmore, hlink]
          rfl
        have hnext := ih (if target.absolute then [] else dir) (target.moves ++ rest)
        rw [GoesOn, find, List.append_assoc] at hnext
        rw [GoesOn, find, follow_link_succ hlink, follow_link_succ hlong]
        exact hnext
      · exact goesOn_of_no_link _ hmore fun dir target rest h ↦ hlink ⟨dir, target, rest, h⟩

end Follow

/-- Whatever led to a place leads there still; a file may have another content. -/
structure Keeps (t t' : FileTree α β) : Prop where
  isDir : ∀ {p}, t.isDir p = true → t'.isDir p = true
  link : ∀ {p target}, t.entry p = some (.link target) → t'.entry p = some (.link target)
  real : ∀ {p}, t.Real p → t'.Real p

structure Grows (t t' : FileTree α β) (new : List α → Prop) : Prop where
  kept : ∀ p e, t.entry p = some e → t'.entry p = some e
  only_new : ∀ p, t.entry p = none → (t'.entry p).isSome → new p

section Growth

variable {new new' : List α → Prop}

theorem Grows.refl (t : FileTree α β) (new : List α → Prop) : t.Grows t new := by
  refine ⟨fun p e h ↦ h, fun p hnone hsome ↦ ?_⟩
  rw [hnone] at hsome
  cases hsome

theorem Grows.mono (h : t.Grows t' new) (hnew : ∀ p, new p → new' p) : t.Grows t' new' :=
  ⟨h.kept, fun p hnone hsome ↦ hnew p (h.only_new p hnone hsome)⟩

theorem Grows.trans (h : t.Grows t' new) (h' : t'.Grows t'' new) : t.Grows t'' new := by
  refine ⟨fun p e he ↦ h'.kept p e (h.kept p e he), fun p hnone hsome ↦ ?_⟩
  cases hmid : t'.entry p with
  | none => exact h'.only_new p hmid hsome
  | some e => exact h.only_new p hnone (by rw [hmid, Option.isSome_some])

theorem Grows.isDir (h : t.Grows t' new) (hdir : t.isDir p = true) : t'.isDir p = true :=
  isDir_iff.mpr (h.kept p _ (isDir_iff.mp hdir))

theorem Grows.real (h : t.Grows t' new) (hreal : t.Real p) : t'.Real p := by
  obtain ⟨e, he, hlink⟩ := hreal
  exact ⟨e, h.kept p e he, hlink⟩

theorem Grows.keeps (h : t.Grows t' new) : t.Keeps t' :=
  ⟨h.isDir, fun hlink ↦ h.kept _ _ hlink, h.real⟩

theorem Grows.entry_eq (h : t.Grows t' new) (hnew : ¬new p) : t'.entry p = t.entry p := by
  cases he : t.entry p with
  | some e => exact h.kept p e he
  | none =>
      by_contra hne
      exact hnew (h.only_new p he (Option.isSome_iff_ne_none.mpr hne))

def later : Stop α → Stop α
  | .missing dir name => .found (dir ++ [name])
  | stop => stop

theorem Keeps.advance (h : t.Keeps t') (hstop : t.advance p moves = .ok stop)
    (hthere : ∀ dir name, stop = .missing dir name → t'.Real (dir ++ [name])) :
    t'.advance p moves = .ok (later stop) := by
  induction moves generalizing p with
  | nil =>
      obtain rfl := Except.ok.inj hstop
      rfl
  | cons move moves ih =>
      cases hdir : t.isDir p with
      | false =>
          rw [advance_of_not_isDir hdir] at hstop
          cases hstop
      | true =>
          cases move with
          | stay =>
              rw [advance_stay hdir] at hstop
              rw [advance_stay (h.isDir hdir)]
              exact ih hstop
          | up =>
              rw [advance_up hdir] at hstop
              rw [advance_up (h.isDir hdir)]
              exact ih hstop
          | down name =>
              rcases entry_cases t (p ++ [name]) with hnone | ⟨target, hlink⟩ | hreal
              · rw [advance_down_none hdir hnone] at hstop
                split at hstop
                · next hempty =>
                    obtain rfl := Except.ok.inj hstop
                    obtain rfl := List.isEmpty_iff.mp hempty
                    rw [advance_down (h.isDir hdir) (hthere p name rfl)]
                    rfl
                · cases hstop
              · rw [advance_down_link hdir hlink] at hstop
                obtain rfl := Except.ok.inj hstop
                exact advance_down_link (h.isDir hdir) (h.link hlink)
              · rw [advance_down hdir hreal] at hstop
                rw [advance_down (h.isDir hdir) (h.real hreal)]
                exact ih hstop

theorem Keeps.follow_of_no_link (h : t.Keeps t') (hstop : t.follow links p moves = .ok stop)
    (hthere : ∀ dir name, stop = .missing dir name → t'.Real (dir ++ [name]))
    (hlink : ¬∃ dir target rest, t.advance p moves = .ok (.link dir target rest)) :
    t'.follow links p moves = .ok (later stop) := by
  have hadvance : t.advance p moves = .ok stop := by
    rw [← hstop]
    exact (follow_of_advance links rfl fun dir target rest h ↦ hlink ⟨dir, target, rest, h⟩).symm
  apply follow_of_advance links (h.advance hadvance hthere)
  intro dir target rest hlater
  cases stop with
  | found q => cases hlater
  | missing dir name => cases hlater
  | link dir target rest => exact hlink ⟨dir, target, rest, hadvance⟩

theorem Keeps.follow (h : t.Keeps t') (hstop : t.follow links p moves = .ok stop)
    (hthere : ∀ dir name, stop = .missing dir name → t'.Real (dir ++ [name])) :
    t'.follow links p moves = .ok (later stop) := by
  induction links generalizing p moves with
  | zero =>
      by_cases hlink : ∃ dir target rest, t.advance p moves = .ok (.link dir target rest)
      · obtain ⟨dir, target, rest, hlink⟩ := hlink
        rw [follow_link_zero hlink] at hstop
        cases hstop
      · exact h.follow_of_no_link hstop hthere hlink
  | succ links ih =>
      by_cases hlink : ∃ dir target rest, t.advance p moves = .ok (.link dir target rest)
      · obtain ⟨dir, target, rest, hlink⟩ := hlink
        rw [follow_link_succ hlink] at hstop
        rw [follow_link_succ (h.advance hlink (by simp))]
        exact ih hstop
      · exact h.follow_of_no_link hstop hthere hlink

theorem Keeps.find (h : t.Keeps t') (hfind : t.find links p moves = .ok q) :
    t'.find links p moves = .ok q :=
  find_eq_ok_iff.mpr (h.follow (find_eq_ok_iff.mp hfind) (by simp))

end Growth

section Child

theorem follow_child (hdir : t.isDir p = true) (h : t.Real (p ++ [name])) :
    t.follow links p [.down name] = .ok (.found (p ++ [name])) := by
  apply follow_of_advance
  · rw [advance_down hdir h, advance]
  · simp

theorem follow_child_none (hdir : t.isDir p = true) (h : t.entry (p ++ [name]) = none) :
    t.follow links p [.down name] = .ok (.missing p name) := by
  apply follow_of_advance
  · rw [advance_down_none hdir h]
    rfl
  · simp

theorem find_child (hfind : t.find links q moves = .ok p) (hdir : t.isDir p = true)
    (h : t.Real (p ++ [name])) : t.find links q (moves ++ [.down name]) = .ok (p ++ [name]) := by
  rw [find_eq_ok_iff] at hfind ⊢
  rcases t.goesOn links q moves (List.cons_ne_nil (.down name) []) with
    ⟨p', left, hstop, happend⟩ | ⟨e, herror, -⟩
  · obtain rfl : p = p' := by simpa [hfind] using hstop
    rw [happend, follow_child hdir h]
  · rw [find, hfind] at herror
    cases herror

theorem follow_missing_child (hfind : t.find links q moves = .ok p) (hdir : t.isDir p = true)
    (h : t.entry (p ++ [name]) = none) :
    t.follow links q (moves ++ [.down name]) = .ok (.missing p name) := by
  rw [find_eq_ok_iff] at hfind
  rcases t.goesOn links q moves (List.cons_ne_nil (.down name) []) with
    ⟨p', left, hstop, happend⟩ | ⟨e, herror, -⟩
  · obtain rfl : p = p' := by simpa [hfind] using hstop
    rw [happend, follow_child_none hdir h]
  · rw [find, hfind] at herror
    cases herror

/-- What leads to something below leads to a directory first. -/
theorem exists_find_of_append (hfind : t.find links q (moves ++ [.down name]) = .ok p) :
    ∃ dir, t.find links q moves = .ok dir ∧ t.isDir dir = true := by
  rw [find_eq_ok_iff] at hfind
  rcases t.goesOn links q moves (List.cons_ne_nil (.down name) []) with
    ⟨dir, left, hstop, happend⟩ | ⟨e, -, herror⟩
  · refine ⟨dir, find_eq_ok_iff.mpr hstop, ?_⟩
    by_contra hdir
    rw [happend, follow_of_advance left (advance_of_not_isDir (by simpa using hdir)) (by simp)]
      at hfind
    cases hfind
  · rw [herror] at hfind
    cases hfind

theorem free_child (hdir : t.isDir p = true) (h : t.entry (p ++ [name]) = none) :
    t.Free (p ++ [name]) := by
  refine ⟨by simp, ?_, ?_⟩
  · rwa [List.dropLast_concat]
  · rw [isDir, h]

/-- What is opened for writing is a file, or a missing name of a directory. -/
theorem free_of_openForWrite (hp : t.Real p) (h : t.openForWrite links p moves = .ok q) :
    t.Free q ∧ ∀ target, t.entry q ≠ some (.link target) := by
  rw [openForWrite] at h
  split at h
  · next place hstop =>
      split at h
      · cases h
      · next hdir =>
          obtain rfl := Except.ok.inj h
          obtain ⟨e, he, hreal⟩ : t.Real place := sound_follow hp hstop
          rw [he]
          refine ⟨⟨?_, ?_, by simpa using hdir⟩, by simpa using hreal⟩
          · rintro rfl
            exact hdir (isDir_iff.mpr t.root)
          · rcases List.eq_nil_or_concat' place with rfl | ⟨dir, name, rfl⟩
            · exact absurd (isDir_iff.mpr t.root) hdir
            · rw [List.dropLast_concat]
              exact isDir_of_append [] (by rw [he, Option.isSome_some])
  · next dir name hstop =>
      obtain rfl := Except.ok.inj h
      obtain ⟨hdir, hnone⟩ := sound_follow hp hstop
      exact ⟨free_child hdir hnone, by simp [hnone]⟩
  · cases h
  · cases h

end Child

section Set

variable [DecidableEq α]

/-- The names of the entries of a directory. -/
def children (t : FileTree α β) (p : List α) : List α :=
  (t.places.filterMap fun q ↦ if q.dropLast = p then q.getLast? else none).dedup

theorem mem_children : name ∈ t.children p ↔ (t.entry (p ++ [name])).isSome := by
  rw [children, List.mem_dedup, List.mem_filterMap, ← t.mem_places]
  constructor
  · rintro ⟨q, hq, hname⟩
    split at hname
    · next hdrop =>
        rw [← hdrop, List.dropLast_append_getLast? name hname]
        exact hq
    · cases hname
  · intro h
    exact ⟨p ++ [name], h, by simp⟩

theorem entry_set (h : t.Free p) : (t.set p e).entry = Function.update t.entry p (some e) := by
  rw [set, dif_pos h]
  rfl

theorem entry_set_self (h : t.Free p) : (t.set p e).entry p = some e := by
  rw [entry_set h, Function.update_self]

theorem isDir_set (h : t.isDir q = true) : (t.set p e).isDir q = true := by
  by_cases hfree : t.Free p
  · have hne : q ≠ p := by
      rintro rfl
      rw [hfree.2.2] at h
      cases h
    rw [isDir_iff, entry_set hfree, Function.update_of_ne hne, isDir_iff.mp h]
  · rwa [set, dif_neg hfree]

/-- A file that is written, new or again, changes nothing about where paths lead. -/
theorem keeps_set {content : β} (hlink : ∀ target, t.entry p ≠ some (.link target)) :
    t.Keeps (t.set p (.file content)) := by
  by_cases hfree : t.Free p
  · refine ⟨isDir_set, fun {q target} hq ↦ ?_, fun {q} hq ↦ ?_⟩
    · have hne : q ≠ p := by
        rintro rfl
        exact hlink target hq
      rw [entry_set hfree, Function.update_of_ne hne, hq]
    · by_cases hqp : q = p
      · exact ⟨.file content, by rw [hqp, entry_set_self hfree], by simp⟩
      · obtain ⟨e, he, hreal⟩ := hq
        exact ⟨e, by rw [entry_set hfree, Function.update_of_ne hqp, he], hreal⟩
  · rw [set, dif_neg hfree]
    exact ⟨id, id, id⟩

theorem grows_set (h : t.Free p) (hnone : t.entry p = none) : t.Grows (t.set p e) (· = p) := by
  refine ⟨fun q e' he' ↦ ?_, fun q hq hsome ↦ ?_⟩
  · have hne : q ≠ p := by
      rintro rfl
      rw [hnone] at he'
      cases he'
    rw [entry_set h, Function.update_of_ne hne, he']
  · by_contra hne
    rw [entry_set h, Function.update_of_ne hne, hq] at hsome
    cases hsome

end Set

end FileTree

end Zaowutai.Lib
