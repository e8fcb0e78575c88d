import Mathlib.Data.List.Basic

/-!
# Moves along a path

A relative path is a list of moves from a place in a tree: down to a child, up
to the parent, or nowhere.  `walk` refuses to go above the place where it
started, and `settle` stays at the top instead.  Where the walk from a place
succeeds, it stays below that place, and it ends where both end from the top.
-/

namespace Zaowutai.Lib

variable {α β : Type*}

inductive Move (α : Type*)
  | stay
  | up
  | down (name : α)
  deriving DecidableEq, Repr

def Move.map (f : α → β) : Move α → Move β
  | .stay => .stay
  | .up => .up
  | .down name => .down (f name)

def walk : List α → List (Move α) → Option (List α)
  | names, [] => some names
  | names, .stay :: moves => walk names moves
  | names, .up :: moves => if names = [] then none else walk names.dropLast moves
  | names, .down name :: moves => walk (names ++ [name]) moves

def settle : List α → List (Move α) → List α
  | names, [] => names
  | names, .stay :: moves => settle names moves
  | names, .up :: moves => settle names.dropLast moves
  | names, .down name :: moves => settle (names ++ [name]) moves

section Walks

variable {base names names' : List α} {moves : List (Move α)}

theorem settle_append_of_walk (h : walk names moves = some names') :
    settle (base ++ names) moves = base ++ names' := by
  induction moves generalizing names with
  | nil =>
      obtain rfl := Option.some.inj h
      rfl
  | cons move moves ih =>
      cases move with
      | stay => exact ih h
      | up =>
          rw [walk] at h
          split at h
          · cases h
          · next hne =>
              rw [settle, List.dropLast_append_of_ne_nil hne]
              exact ih h
      | down name =>
          rw [settle, List.append_assoc]
          exact ih h

theorem walk_downs (names more : List α) : walk names (more.map .down) = some (names ++ more) := by
  induction more generalizing names with
  | nil => rw [List.map_nil, walk, List.append_nil]
  | cons name more ih =>
      rw [List.map_cons, walk, ih, List.append_assoc, List.singleton_append]

theorem mem_walk (h : walk names moves = some names') {name : α} (hmem : name ∈ names') :
    name ∈ names ∨ .down name ∈ moves := by
  induction moves generalizing names with
  | nil =>
      obtain rfl := Option.some.inj h
      exact .inl hmem
  | cons move moves ih =>
      cases move with
      | stay => exact (ih h).imp_right (List.mem_cons_of_mem _)
      | up =>
          rw [walk] at h
          split at h
          · cases h
          · exact (ih h).imp (fun hlast ↦ (List.dropLast_sublist _).subset hlast)
              (List.mem_cons_of_mem _)
      | down first =>
          obtain hnames | hmoves := ih h
          · obtain hnames | hfirst := List.mem_append.mp hnames
            · exact .inl hnames
            · rw [List.mem_singleton.mp hfirst]
              exact .inr List.mem_cons_self
          · exact .inr (List.mem_cons_of_mem _ hmoves)

theorem walk_map (f : α → β) (names : List α) (moves : List (Move α)) :
    walk (names.map f) (moves.map (Move.map f)) = (walk names moves).map (List.map f) := by
  induction moves generalizing names with
  | nil => rfl
  | cons move moves ih =>
      cases move with
      | stay => exact ih names
      | up =>
          rw [List.map_cons, Move.map, walk, walk]
          by_cases hnil : names = []
          · rw [if_pos hnil, if_pos (List.map_eq_nil_iff.mpr hnil), Option.map_none]
          · rw [if_neg hnil, if_neg fun h ↦ hnil (List.map_eq_nil_iff.mp h), ← ih,
              List.map_dropLast]
      | down name =>
          rw [List.map_cons, Move.map, walk, walk, ← ih, List.map_append, List.map_singleton]

end Walks

end Zaowutai.Lib
