import Zaowutai.Lib.Distance
import Mathlib.Data.List.Nodup

/-!
# The descendants of a process

What a CLI has spawned is found in a snapshot of the parent links, one level of
children after the other.  The snapshot may be inconsistent: pids may occur
twice, or be their own ancestors.  The pids collected after a round are those of
the levels up to it, and the round's frontier is the last of these levels.
-/

namespace Zaowutai.Process

open Zaowutai.Lib

def reservedPids : List UInt32 := [0, 1]

def maxDepth : ℕ := 64

abbrev ParentRow := UInt32 × UInt32

structure Descent where
  out : List UInt32
  seen : List UInt32
  next : List UInt32
  deriving DecidableEq, Repr

def Descent.visit (frontier : List UInt32) (d : Descent) (row : ParentRow) : Descent :=
  if row.2 ∉ frontier ∨ row.1 ∈ d.seen ∨ row.1 ∈ reservedPids then d
  else ⟨d.out ++ [row.1], d.seen ++ [row.1], d.next ++ [row.1]⟩

def descend (parents : List ParentRow) : ℕ → List UInt32 → List UInt32 → List UInt32 → List UInt32
  | 0, _, _, out => out
  | rounds + 1, frontier, seen, out =>
      let d := parents.foldl (Descent.visit frontier) ⟨out, seen, []⟩
      if d.next = [] then d.out else descend parents rounds d.next d.seen d.out

def collectDescendants (root : UInt32) (parents : List ParentRow) : List UInt32 :=
  if root ∈ reservedPids then []
  else descend parents maxDepth [root] [root] []

def ChildLink (parents : List ParentRow) (parent child : UInt32) : Prop :=
  (child, parent) ∈ parents ∧ parent ∉ reservedPids ∧ child ∉ reservedPids

section Round

variable {frontier seen : List UInt32} {rows : List ParentRow} {pid : UInt32}

/-- The children of the frontier that a round adds, in the order of the table. -/
def freshChildren (frontier : List UInt32) : List UInt32 → List ParentRow → List UInt32
  | _, [] => []
  | seen, row :: rows =>
      if row.2 ∉ frontier ∨ row.1 ∈ seen ∨ row.1 ∈ reservedPids then
        freshChildren frontier seen rows
      else row.1 :: freshChildren frontier (seen ++ [row.1]) rows

theorem foldl_visit (frontier : List UInt32) (rows : List ParentRow) (d : Descent) :
    rows.foldl (Descent.visit frontier) d =
      ⟨d.out ++ freshChildren frontier d.seen rows, d.seen ++ freshChildren frontier d.seen rows,
        d.next ++ freshChildren frontier d.seen rows⟩ := by
  induction rows generalizing d with
  | nil => simp [freshChildren]
  | cons row rows ih =>
      rw [List.foldl_cons, ih, freshChildren, Descent.visit]
      split
      · simp
      · simp [List.append_assoc]

theorem mem_freshChildren :
    pid ∈ freshChildren frontier seen rows ↔
      pid ∉ seen ∧ pid ∉ reservedPids ∧ ∃ parent ∈ frontier, (pid, parent) ∈ rows := by
  induction rows generalizing seen with
  | nil => simp [freshChildren]
  | cons row rows ih =>
      rw [freshChildren]
      split
      · rw [ih]
        grind
      · rw [List.mem_cons, ih]
        grind

theorem nodup_append_freshChildren (h : seen.Nodup) :
    (seen ++ freshChildren frontier seen rows).Nodup := by
  induction rows generalizing seen with
  | nil => simpa [freshChildren] using h
  | cons row rows ih =>
      rw [freshChildren]
      split
      · exact ih h
      · rename_i hfresh
        have hnew : row.1 ∉ seen := fun hseen ↦ hfresh (.inr (.inl hseen))
        have hseen : (seen ++ [row.1]).Nodup := by
          simpa [List.nodup_append] using ⟨h, fun a ha he ↦ hnew (he ▸ ha)⟩
        simpa using ih hseen

end Round

section Levels

variable {parents : List ParentRow} {root pid : UInt32} {frontier out : List UInt32} {n : ℕ}

/-- After `n` rounds: the pids collected lie on the levels from 1 to `n`, the nearest first, and
the frontier is the level `n`. -/
structure DescendedTo (parents : List ParentRow) (root : UInt32) (n : ℕ)
    (frontier out : List UInt32) : Prop where
  nodup : (root :: out).Nodup
  seen : ∀ pid, pid ∈ root :: out ↔ Reached (ChildLink parents) root n pid
  level : ∀ pid, pid ∈ frontier ↔ Level (ChildLink parents) root n pid
  nearest : (root :: out).Pairwise fun a b ↦
    distance (ChildLink parents) root a ≤ distance (ChildLink parents) root b

theorem descendedTo_zero (parents : List ParentRow) (root : UInt32) :
    DescendedTo parents root 0 [root] [] where
  nodup := List.nodup_singleton root
  seen pid := by simp [reached_zero]
  level pid := by simp [level_zero]
  nearest := List.pairwise_singleton _ root

theorem DescendedTo.mem_fresh (h : DescendedTo parents root n frontier out)
    (hroot : root ∉ reservedPids) :
    pid ∈ freshChildren frontier (root :: out) parents ↔
      Level (ChildLink parents) root (n + 1) pid := by
  rw [mem_freshChildren, level_succ_iff, h.seen]
  have hfree : ∀ parent, Level (ChildLink parents) root n parent → parent ∉ reservedPids := by
    intro parent hlevel
    obtain ⟨hchain, -⟩ := hlevel
    cases hchain with
    | nil => exact hroot
    | snoc _ hlink => exact hlink.2.2
  constructor
  · rintro ⟨hnew, hpid, parent, hparent, hrow⟩
    have hlevel := (h.level parent).mp hparent
    exact ⟨hnew, parent, hlevel, hrow, hfree parent hlevel, hpid⟩
  · rintro ⟨hnew, parent, hlevel, hrow, -, hpid⟩
    exact ⟨hnew, hpid, parent, (h.level parent).mpr hlevel, hrow⟩

theorem DescendedTo.round (h : DescendedTo parents root n frontier out)
    (hroot : root ∉ reservedPids) :
    DescendedTo parents root (n + 1) (freshChildren frontier (root :: out) parents)
      (out ++ freshChildren frontier (root :: out) parents) where
  nodup := by
    rw [← List.cons_append]
    exact nodup_append_freshChildren h.nodup
  seen pid := by
    rw [← List.cons_append, List.mem_append, h.seen, h.mem_fresh hroot, reached_succ_iff]
  level pid := h.mem_fresh hroot
  nearest := by
    rw [← List.cons_append, List.pairwise_append]
    refine ⟨h.nearest, ?_, ?_⟩
    · apply List.pairwise_of_forall_mem_list
      intro a ha b hb
      rw [((h.mem_fresh hroot).mp ha).distance_eq, ((h.mem_fresh hroot).mp hb).distance_eq]
    · intro a ha b hb
      obtain ⟨m, hm, hlevel⟩ := ((h.seen a).mp ha).exists_level
      rw [hlevel.distance_eq, ((h.mem_fresh hroot).mp hb).distance_eq]
      omega

theorem DescendedTo.descend (h : DescendedTo parents root n frontier out)
    (hroot : root ∉ reservedPids) (rounds : ℕ) :
    ∃ last, DescendedTo parents root (n + rounds) last
      (descend parents rounds frontier (root :: out) out) := by
  induction rounds generalizing n frontier out with
  | zero => exact ⟨frontier, h⟩
  | succ rounds ih =>
      rw [Process.descend, foldl_visit]
      have hround := h.round hroot
      by_cases hnext : freshChildren frontier (root :: out) parents = []
      · rw [if_pos (by simpa using hnext)]
        have hempty : ∀ pid, ¬Level (ChildLink parents) root (n + 1) pid := by
          intro pid hlevel
          have hmem := (h.mem_fresh hroot).mpr hlevel
          rw [hnext] at hmem
          cases hmem
        refine ⟨[], hround.nodup, fun pid ↦ ?_, fun pid ↦ ?_, hround.nearest⟩
        · refine (hround.seen pid).trans ?_
          rw [reached_iff_of_empty (k := n + 1) hempty (Nat.le_succ n),
            reached_iff_of_empty (k := n + (rounds + 1)) hempty (Nat.le_add_right n _)]
        · constructor
          · intro hmem
            cases hmem
          · exact fun hlevel ↦ absurd hlevel (not_level_of_empty hempty (by omega))
      · rw [if_neg (by simpa using hnext)]
        obtain ⟨last, hlast⟩ := ih hround
        refine ⟨last, ?_⟩
        rw [show n + (rounds + 1) = n + 1 + rounds by omega]
        simpa using hlast

end Levels

/-- The collected pids are the ones within 64 links of the root, the nearest first. -/
theorem collectDescendants_exact (root : UInt32) (parents : List ParentRow)
    (hroot : root ≠ 0 ∧ root ≠ 1) :
    (collectDescendants root parents).Nodup ∧
      (∀ pid, pid ∈ collectDescendants root parents ↔
        pid ≠ root ∧ pid ∉ reservedPids ∧ Reached (ChildLink parents) root 64 pid) ∧
      (collectDescendants root parents).Pairwise fun a b ↦
        distance (ChildLink parents) root a ≤ distance (ChildLink parents) root b := by
  have hfree : root ∉ reservedPids := by simp [reservedPids, hroot.1, hroot.2]
  obtain ⟨last, h⟩ := (descendedTo_zero parents root).descend hfree maxDepth
  rw [collectDescendants, if_neg hfree]
  obtain ⟨hnot, hnodup⟩ := List.nodup_cons.mp h.nodup
  refine ⟨hnodup, fun pid ↦ ?_, (List.pairwise_cons.mp h.nearest).2⟩
  have hseen : pid = root ∨ pid ∈ descend parents maxDepth [root] [root] [] ↔
      Reached (ChildLink parents) root 64 pid := by
    simpa [maxDepth] using h.seen pid
  constructor
  · intro hmem
    have hne : pid ≠ root := fun he ↦ hnot (he ▸ hmem)
    have hreached := hseen.mp (.inr hmem)
    refine ⟨hne, ?_, hreached⟩
    obtain ⟨m, -, hchain⟩ := hreached
    cases hchain with
    | nil => exact absurd rfl hne
    | snoc _ hlink => exact hlink.2.2
  · rintro ⟨hne, -, hreached⟩
    exact (hseen.mpr hreached).resolve_left hne

theorem inconsistentTable_exact :
    (100 : UInt32) ≠ 0 ∧ (100 : UInt32) ≠ 1 ∧
      (collectDescendants 100
        [(300, 200), (200, 100), (100, 200), (200, 200), (1, 200), (400, 1)]).Nodup :=
  ⟨by decide, by decide, (collectDescendants_exact 100
    [(300, 200), (200, 100), (100, 200), (200, 200), (1, 200), (400, 1)]
    ⟨by decide, by decide⟩).1⟩

end Zaowutai.Process
