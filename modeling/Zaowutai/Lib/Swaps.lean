import Mathlib.Data.List.Nodup
import Mathlib.Data.List.Perm.Basic
import Mathlib.Data.List.Infix

/-!
# Swaps that are undone

A swap puts a new value in the place of an old one.  It is undone by putting
the old value back, but only while the new one is still there.  Swaps that are
taken one after the other form a stack, the newest one first.  Undoing them
pops the stack as long as the order meets its top; a swap that is met too early
changes nothing and is lost.
-/

namespace Zaowutai.Lib

variable {α : Type*}

structure Swap (α : Type*) where
  new : α
  old : α
  deriving DecidableEq, Repr

def top (a : α) : List (Swap α) → α
  | [] => a
  | s :: _ => s.new

def Taken (a : α) : List (Swap α) → Prop
  | [] => True
  | s :: stack => s.old = top a stack ∧ Taken a stack

theorem top_append (a : α) (l l' : List (Swap α)) : top a (l ++ l') = top (top a l') l := by
  cases l <;> rfl

theorem taken_append {a : α} {l l' : List (Swap α)} :
    Taken a (l ++ l') ↔ Taken (top a l') l ∧ Taken a l' := by
  induction l with
  | nil => exact ⟨fun h ↦ ⟨trivial, h⟩, fun h ↦ h.2⟩
  | cons s l ih => rw [List.cons_append, Taken, Taken, ih, top_append, and_assoc]

variable [DecidableEq α]

/-- The old value comes back where the new one is still there. -/
def Swap.undo (x : α) (s : Swap α) : α := if x = s.new then s.old else x

def Swap.changes (s : Swap α) : Bool := s.old ≠ s.new

def pop (stack : List (Swap α)) (s : Swap α) : List (Swap α) :=
  match stack with
  | [] => []
  | t :: rest => if s = t then rest else t :: rest

variable {a x : α} {s : Swap α} {stack order older : List (Swap α)}

section Pop

theorem pop_all_iff : order.foldl pop stack = [] ↔ stack.Sublist order := by
  induction order generalizing stack with
  | nil => simp
  | cons o order ih =>
      rw [List.foldl_cons, ih]
      cases stack with
      | nil => simp [pop]
      | cons t rest =>
          rw [pop]
          by_cases ho : o = t
          · rw [if_pos ho, ho, List.cons_sublist_cons]
          · rw [if_neg ho]
            constructor
            · exact List.Sublist.cons o
            · intro h
              cases h with
              | cons _ h => exact h
              | cons_cons _ _ => exact absurd rfl ho

theorem sublist_cons_of_ne {l : List (Swap α)} {o t : Swap α} (h : o ≠ t) :
    (t :: l).Sublist (o :: order) ↔ (t :: l).Sublist order := by
  constructor
  · intro hsub
    cases hsub with
    | cons _ hsub => exact hsub
    | cons_cons _ _ => exact absurd rfl h
  · exact List.Sublist.cons o

/-- A swap is left on top when those above it are met in their order, and it is not met after
them. -/
theorem pop_eq_cons_iff : order.foldl pop stack = s :: older ↔
    ∃ newer, stack = newer ++ s :: older ∧ newer.Sublist order ∧
      ¬ (newer ++ [s]).Sublist order := by
  induction order generalizing stack with
  | nil =>
      constructor
      · rintro rfl
        exact ⟨[], rfl, List.Sublist.refl [], by simp⟩
      · rintro ⟨newer, rfl, hnewer, -⟩
        rw [List.sublist_nil.mp hnewer]
        rfl
  | cons o order ih =>
      rw [List.foldl_cons, ih]
      cases stack with
      | nil => simp [pop]
      | cons t rest =>
          rw [pop]
          by_cases ho : o = t
          · subst ho
            rw [if_pos rfl]
            constructor
            · rintro ⟨newer, rfl, hnewer, hnot⟩
              refine ⟨o :: newer, rfl, hnewer.cons_cons o, ?_⟩
              rwa [List.cons_append, List.cons_sublist_cons]
            · rintro ⟨newer, heq, hnewer, hnot⟩
              cases newer with
              | nil =>
                  obtain ⟨rfl, -⟩ := List.cons.inj heq
                  exact absurd ((List.nil_sublist order).cons_cons o) hnot
              | cons n newer =>
                  obtain ⟨rfl, rfl⟩ := List.cons.inj heq
                  rw [List.cons_sublist_cons] at hnewer
                  rw [List.cons_append, List.cons_sublist_cons] at hnot
                  exact ⟨newer, rfl, hnewer, hnot⟩
          · rw [if_neg ho]
            refine exists_congr fun newer ↦ and_congr_right fun heq ↦ ?_
            cases newer with
            | nil =>
                obtain ⟨rfl, -⟩ := List.cons.inj heq
                rw [List.nil_append, sublist_cons_of_ne ho]
                simp
            | cons n newer =>
                obtain ⟨rfl, -⟩ := List.cons.inj heq
                rw [List.cons_append, sublist_cons_of_ne ho, sublist_cons_of_ne ho]

end Pop

section Undo

theorem undo_of_idle (h : s.changes = false) : s.undo x = x := by
  have heq : s.old = s.new := by simpa [Swap.changes] using h
  rw [Swap.undo]
  split
  · next hx => rw [heq, hx]
  · rfl

theorem undo_filter : (order.filter Swap.changes).foldl (fun x s ↦ s.undo x) x =
    order.foldl (fun x s ↦ s.undo x) x := by
  induction order generalizing x with
  | nil => rfl
  | cons o order ih =>
      by_cases ho : o.changes = true
      · rw [List.filter_cons_of_pos ho, List.foldl_cons, List.foldl_cons, ih]
      · rw [List.filter_cons_of_neg ho, List.foldl_cons, ih,
          undo_of_idle (Bool.eq_false_iff.mpr ho)]

theorem top_filter (h : Taken a stack) : top a (stack.filter Swap.changes) = top a stack := by
  induction stack with
  | nil => rfl
  | cons s stack ih =>
      obtain ⟨hold, hstack⟩ := h
      by_cases hs : s.changes = true
      · rw [List.filter_cons_of_pos hs]
        rfl
      · have heq : s.old = s.new := by simpa [Swap.changes] using hs
        rw [List.filter_cons_of_neg hs, ih hstack, ← hold]
        exact heq

theorem Taken.filter (h : Taken a stack) : Taken a (stack.filter Swap.changes) := by
  induction stack with
  | nil => trivial
  | cons s stack ih =>
      obtain ⟨hold, hstack⟩ := h
      by_cases hs : s.changes = true
      · rw [List.filter_cons_of_pos hs]
        exact ⟨hold.trans (top_filter hstack).symm, ih hstack⟩
      · rw [List.filter_cons_of_neg hs]
        exact ih hstack

theorem undo_eq_top (htaken : Taken a stack) (hnew : (stack.map Swap.new).Nodup)
    (hsub : ∀ o ∈ order, o ∈ stack) (horder : order.Nodup) :
    order.foldl (fun x s ↦ s.undo x) (top a stack) = top a (order.foldl pop stack) := by
  induction order generalizing stack with
  | nil => rfl
  | cons o order ih =>
      obtain ⟨ho, horder⟩ := List.nodup_cons.mp horder
      cases stack with
      | nil => cases hsub o List.mem_cons_self
      | cons t rest =>
          rw [List.foldl_cons, List.foldl_cons, pop]
          by_cases heq : o = t
          · subst heq
            have hundo : o.undo (top a (o :: rest)) = top a rest := by
              exact (if_pos rfl).trans htaken.1
            rw [if_pos rfl, hundo]
            refine ih htaken.2 (List.nodup_cons.mp hnew).2 (fun p hp ↦ ?_) horder
            refine (List.mem_cons.mp (hsub p (List.mem_cons_of_mem o hp))).resolve_left ?_
            rintro rfl
            exact ho hp
          · have hne : t.new ≠ o.new := by
              intro h
              have hmem := (List.mem_cons.mp (hsub o List.mem_cons_self)).resolve_left heq
              exact (List.nodup_cons.mp hnew).1 (h ▸ List.mem_map_of_mem hmem)
            have hundo : o.undo (top a (t :: rest)) = top a (t :: rest) := if_neg hne
            rw [if_neg heq, hundo]
            exact ih htaken hnew (fun p hp ↦ hsub p (List.mem_cons_of_mem o hp)) horder

/-- The swaps are undone from the newest one to the oldest.  Where the first value comes back in
between, a swap that brought it may be the last one of the stack that is left. -/
def UndoneInOrder (a : α) (stack order : List (Swap α)) : Prop :=
  order = stack ∨ ∃ newer s older, stack = newer ++ s :: older ∧ s.new = a ∧
    newer.Sublist order ∧ ¬ (newer ++ [s]).Sublist order

theorem undone_of_distinct (htaken : Taken a stack) (hnew : (stack.map Swap.new).Nodup)
    (hperm : order.Perm stack) :
    order.foldl (fun x s ↦ s.undo x) (top a stack) = a ↔ UndoneInOrder a stack order := by
  have hstack : stack.Nodup := List.Nodup.of_map Swap.new hnew
  rw [undo_eq_top htaken hnew (fun o ho ↦ hperm.mem_iff.mp ho) (hperm.nodup_iff.mpr hstack),
    UndoneInOrder]
  constructor
  · intro h
    cases hleft : order.foldl pop stack with
    | nil =>
        refine Or.inl ((pop_all_iff.mp hleft).eq_of_length ?_).symm
        exact hperm.length_eq.symm
    | cons s older =>
        rw [hleft] at h
        obtain ⟨newer, hnewer⟩ := pop_eq_cons_iff.mp hleft
        exact Or.inr ⟨newer, s, older, hnewer.1, h, hnewer.2⟩
  · rintro (rfl | ⟨newer, s, older, hstack, hs, hnewer⟩)
    · rw [pop_all_iff.mpr (List.Sublist.refl order)]
      rfl
    · rw [pop_eq_cons_iff.mpr ⟨newer, hstack, hnewer⟩]
      exact hs

theorem undone_iff (htaken : Taken a stack)
    (hnew : ((stack.filter Swap.changes).map Swap.new).Nodup) (hperm : order.Perm stack) :
    order.foldl (fun x s ↦ s.undo x) (top a stack) = a ↔
      UndoneInOrder a (stack.filter Swap.changes) (order.filter Swap.changes) := by
  rw [← undo_filter, ← top_filter htaken]
  exact undone_of_distinct htaken.filter hnew (hperm.filter _)

end Undo

end Zaowutai.Lib
