import Mathlib.Data.List.Infix
import Mathlib.Logic.Function.Basic
import Zaowutai.Lib.LexicalPath

/-!
# Trees of files, directories and links

A place is the list of the names that lead to it from the root.  What the system
does with a path is to follow it: move by move, and where a name is a link along
the link's moves first, for a limited number of links.  Following comes to a
place that holds a file or a directory, or to one where only the last name is
missing.  A place that has been found is found again by its own names.
-/

namespace Zaowutai.Lib

/-- The moves of a link, from the root or from the directory that holds it. -/
structure LinkTarget (α : Type*) where
  absolute : Bool
  moves : List (Move α)
  deriving DecidableEq, Repr

inductive Entry (α β : Type*)
  | dir
  | file (content : β)
  | link (target : LinkTarget α)
  deriving DecidableEq, Repr

inductive FollowError
  | notFound
  | notADirectory
  | isADirectory
  | filesystemLoop
  | invalidInput
  | alreadyExists
  deriving DecidableEq, Repr

/-- Only directories have entries below them. -/
structure FileTree (α β : Type*) where
  entry : List α → Option (Entry α β)
  places : List (List α)
  mem_places : ∀ p, p ∈ places ↔ (entry p).isSome
  root : entry [] = some .dir
  parent : ∀ p name, (entry (p ++ [name])).isSome → entry p = some .dir

inductive Stop (α : Type*)
  | found (place : List α)
  | missing (dir : List α) (name : α)
  | link (dir : List α) (target : LinkTarget α) (rest : List (Move α))
  deriving DecidableEq, Repr

namespace FileTree

variable {α β : Type*} (t : FileTree α β)

def isDir (p : List α) : Bool :=
  match t.entry p with
  | some .dir => true
  | _ => false

def Real (p : List α) : Prop := ∃ e, t.entry p = some e ∧ ∀ target, e ≠ .link target

def advance : List α → List (Move α) → Except FollowError (Stop α)
  | p, [] => .ok (.found p)
  | p, move :: moves =>
      if t.isDir p then
        match move with
        | .stay => advance p moves
        | .up => advance p.dropLast moves
        | .down name =>
            match t.entry (p ++ [name]) with
            | none => if moves.isEmpty then .ok (.missing p name) else .error .notFound
            | some (.link target) => .ok (.link p target moves)
            | some _ => advance (p ++ [name]) moves
      else .error .notADirectory

def follow : ℕ → List α → List (Move α) → Except FollowError (Stop α)
  | links, p, moves =>
      match t.advance p moves with
      | .ok (.link dir target rest) =>
          match links with
          | 0 => .error .filesystemLoop
          | links + 1 => follow links (if target.absolute then [] else dir) (target.moves ++ rest)
      | stop => stop

def find (links : ℕ) (p : List α) (moves : List (Move α)) : Except FollowError (List α) :=
  match t.follow links p moves with
  | .ok (.found q) => .ok q
  | .ok _ => .error .notFound
  | .error e => .error e

def openForWrite (links : ℕ) (p : List α) (moves : List (Move α)) :
    Except FollowError (List α) :=
  match t.follow links p moves with
  | .ok (.found q) => if t.isDir q then .error .isADirectory else .ok q
  | .ok (.missing dir name) => .ok (dir ++ [name])
  | .ok (.link ..) => .error .filesystemLoop
  | .error e => .error e

/-- Something that is no directory, or nothing, in a directory. -/
def Free (p : List α) : Prop := p ≠ [] ∧ t.isDir p.dropLast = true ∧ t.isDir p = false

instance [DecidableEq α] (p : List α) : Decidable (t.Free p) := instDecidableAnd

variable [DecidableEq α]

def put (p : List α) (e : Entry α β) (h : t.Free p) : FileTree α β where
  entry := Function.update t.entry p (some e)
  places := p :: t.places
  mem_places q := by
    rw [List.mem_cons, t.mem_places]
    by_cases hq : q = p
    · simp [hq]
    · rw [Function.update_of_ne hq]
      simp [hq]
  root := by rw [Function.update_of_ne h.1.symm, t.root]
  parent q name hsome := by
    have hdir : t.isDir q = true := by
      by_cases hq : q ++ [name] = p
      · rw [← hq, Free, List.dropLast_concat] at h
        exact h.2.1
      · rw [Function.update_of_ne hq] at hsome
        rw [isDir, t.parent q name hsome]
    have hne : q ≠ p := by
      rintro rfl
      rw [h.2.2] at hdir
      cases hdir
    rw [Function.update_of_ne hne]
    rw [isDir] at hdir
    split at hdir
    · assumption
    · cases hdir

def set (p : List α) (e : Entry α β) : FileTree α β := if h : t.Free p then t.put p e h else t

def empty : FileTree α β where
  entry p := if p = [] then some .dir else none
  places := [[]]
  mem_places p := by simp
  root := rfl
  parent p name h := by simp at h

end FileTree

section Places

namespace FileTree

variable {α β : Type*} {t : FileTree α β} {p q dir : List α} {name : α} {moves rest : List (Move α)}
  {target : LinkTarget α} {links : ℕ} {stop : Stop α}

theorem isDir_iff : t.isDir p = true ↔ t.entry p = some .dir := by
  rw [isDir]
  split
  · next h => simp [h]
  · next h => simpa using fun hdir ↦ h hdir

theorem real_of_isDir (h : t.isDir p = true) : t.Real p := by
  refine ⟨.dir, isDir_iff.mp h, ?_⟩
  intro target
  simp

theorem isDir_of_append (rest : List α) (h : (t.entry (p ++ name :: rest)).isSome) :
    t.isDir p = true := by
  induction rest using List.reverseRecOn with
  | nil => exact isDir_iff.mpr (t.parent p name h)
  | append_singleton rest last ih =>
      apply ih
      have hdir := t.parent (p ++ name :: rest) last (by simpa using h)
      rw [hdir, Option.isSome_some]

theorem isDir_dropLast (h : t.isDir p = true) : t.isDir p.dropLast = true := by
  rcases List.eq_nil_or_concat' p with rfl | ⟨p, name, rfl⟩
  · exact h
  · rw [List.dropLast_concat]
    exact isDir_of_append [] (by rw [isDir_iff.mp h, Option.isSome_some])

/-- What is known of a stop of the moves. -/
def Stop.Sound (t : FileTree α β) : Stop α → Prop
  | .found q => t.Real q
  | .missing dir name => t.isDir dir = true ∧ t.entry (dir ++ [name]) = none
  | .link dir target _ => t.isDir dir = true ∧ ∃ name, t.entry (dir ++ [name]) = some (.link target)

theorem sound_advance (hp : t.Real p) (h : t.advance p moves = .ok stop) : Stop.Sound t stop := by
  induction moves generalizing p with
  | nil =>
      obtain rfl := Except.ok.inj h
      exact hp
  | cons move moves ih =>
      unfold advance at h
      by_cases hdir : t.isDir p = true
      · rw [if_pos hdir] at h
        cases move with
        | stay => exact ih hp h
        | up => exact ih (real_of_isDir (isDir_dropLast hdir)) h
        | down name =>
            simp only at h
            split at h
            · next hnone =>
                split at h
                · obtain rfl := Except.ok.inj h
                  exact ⟨hdir, hnone⟩
                · cases h
            · next target hlink =>
                obtain rfl := Except.ok.inj h
                exact ⟨hdir, name, hlink⟩
            · next e hother hentry =>
                exact ih ⟨e, hentry, fun target he ↦ hother target he⟩ h
      · rw [if_neg hdir] at h
        cases h

theorem sound_follow (hp : t.Real p) (h : t.follow links p moves = .ok stop) :
    Stop.Sound t stop := by
  induction links generalizing p moves with
  | zero =>
      rw [follow] at h
      split at h
      · cases h
      · exact sound_advance hp h
  | succ links ih =>
      rw [follow] at h
      split at h
      · next dir target rest hstop =>
          have hdir := (sound_advance hp hstop).1
          refine ih ?_ h
          split
          · exact real_of_isDir (isDir_iff.mpr t.root)
          · exact real_of_isDir hdir
      · exact sound_advance hp h

theorem real_of_find (hp : t.Real p) (h : t.find links p moves = .ok q) : t.Real q := by
  rw [find] at h
  split at h
  · next hstop =>
      obtain rfl := Except.ok.inj h
      exact sound_follow hp hstop
  · cases h
  · cases h

theorem advance_down (hdir : t.isDir p = true) (h : t.Real (p ++ [name])) :
    t.advance p (.down name :: moves) = t.advance (p ++ [name]) moves := by
  obtain ⟨e, hentry, hreal⟩ := h
  conv_lhs => unfold advance
  rw [if_pos hdir]
  simp only [hentry]

theorem advance_downs {names : List α} (h : t.Real (p ++ names)) (rest : List (Move α)) :
    t.advance p (names.map .down ++ rest) = t.advance (p ++ names) rest := by
  induction names generalizing p with
  | nil => rw [List.map_nil, List.nil_append, List.append_nil]
  | cons name names ih =>
      have hsome : (t.entry (p ++ name :: names)).isSome := by
        obtain ⟨e, hentry, -⟩ := h
        rw [hentry, Option.isSome_some]
      have hsplit : p ++ name :: names = p ++ [name] ++ names := by simp
      have hnext : t.Real (p ++ [name]) := by
        cases names with
        | nil => exact h
        | cons next names =>
            rw [hsplit] at hsome
            exact real_of_isDir (isDir_of_append names hsome)
      rw [List.map_cons, List.cons_append, advance_down (isDir_of_append _ hsome) hnext, hsplit]
      exact ih (hsplit ▸ h)

theorem find_self (h : t.Real q) : t.find links [] (q.map .down) = .ok q := by
  have hadvance : t.advance [] (q.map .down) = .ok (.found q) := by
    simpa [advance] using advance_downs (p := []) h []
  rw [find, follow, hadvance]

theorem openForWrite_child (hdir : t.Real dir) (hlink : ∀ target, t.entry (dir ++ [name]) ≠
      some (.link target))
    (h : t.openForWrite links [] ((dir ++ [name]).map .down) = .ok q) : q = dir ++ [name] := by
  have hadvance : t.advance [] ((dir ++ [name]).map .down) = t.advance dir [.down name] := by
    rw [List.map_append]
    exact advance_downs (p := []) hdir _
  by_cases hisDir : t.isDir dir = true
  · have hstop : t.advance dir [.down name] = .ok (.missing dir name) ∨
        t.advance dir [.down name] = .ok (.found (dir ++ [name])) := by
      rw [advance, if_pos hisDir]
      cases hentry : t.entry (dir ++ [name]) with
      | none => exact .inl rfl
      | some e =>
          cases e with
          | dir => exact .inr rfl
          | file content => exact .inr rfl
          | link target => exact absurd hentry (hlink target)
    rw [openForWrite, follow, hadvance] at h
    rcases hstop with hstop | hstop
    · rw [hstop] at h
      exact (Except.ok.inj h).symm
    · rw [hstop] at h
      simp only at h
      split at h
      · cases h
      · exact (Except.ok.inj h).symm
  · rw [openForWrite, follow, hadvance, advance, if_neg hisDir] at h
    cases h

end FileTree

end Places

end Zaowutai.Lib
