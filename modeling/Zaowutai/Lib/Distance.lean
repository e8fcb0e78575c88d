import Mathlib.Order.Lattice.Nat

/-!
# Distance along links

What is at the end of a chain of links, and how long the shortest such chain is.
The elements at one distance are the level of that distance.  A level is found
from the one before it: whatever a link leads to from there and no shorter chain
has reached.  After an empty level there is nothing more to reach.
-/

namespace Zaowutai.Lib

variable {α : Type*} {link : α → α → Prop} {x y z : α} {k m n : ℕ}

/-- `y` is at the end of a chain of `n` links that starts at `x`. -/
inductive ChainOf (link : α → α → Prop) (x : α) : ℕ → α → Prop
  | nil : ChainOf link x 0 x
  | snoc {n : ℕ} {y z : α} : ChainOf link x n y → link y z → ChainOf link x (n + 1) z

/-- The number of links in the shortest chain, 0 where there is none. -/
noncomputable def distance (link : α → α → Prop) (x y : α) : ℕ := sInf {n | ChainOf link x n y}

def Reached (link : α → α → Prop) (x : α) (k : ℕ) (y : α) : Prop := ∃ n ≤ k, ChainOf link x n y

def Level (link : α → α → Prop) (x : α) (n : ℕ) (y : α) : Prop :=
  ChainOf link x n y ∧ ∀ m < n, ¬ChainOf link x m y

theorem chainOf_zero : ChainOf link x 0 y ↔ y = x := by
  constructor
  · intro h
    cases h
    rfl
  · rintro rfl
    exact .nil

theorem chainOf_succ : ChainOf link x (n + 1) z ↔ ∃ y, ChainOf link x n y ∧ link y z := by
  constructor
  · intro h
    cases h with
    | snoc hchain hlink => exact ⟨_, hchain, hlink⟩
  · rintro ⟨y, hchain, hlink⟩
    exact hchain.snoc hlink

theorem level_zero : Level link x 0 y ↔ y = x := by
  simp [Level, chainOf_zero]

theorem reached_zero : Reached link x 0 y ↔ y = x := by
  simp [Reached, chainOf_zero]

theorem Reached.mono (h : Reached link x m y) (hle : m ≤ n) : Reached link x n y := by
  obtain ⟨k, hk, hchain⟩ := h
  exact ⟨k, by omega, hchain⟩

theorem Level.reached (h : Level link x n y) : Reached link x n y := ⟨n, le_refl n, h.1⟩

theorem Level.distance_eq (h : Level link x n y) : distance link x y = n := by
  apply le_antisymm
  · exact Nat.sInf_le h.1
  · have hne : {n | ChainOf link x n y}.Nonempty := ⟨n, h.1⟩
    have hchain : ChainOf link x (distance link x y) y := Nat.sInf_mem hne
    by_contra hlt
    exact h.2 _ (by omega) hchain

theorem Reached.exists_level (h : Reached link x k y) : ∃ n ≤ k, Level link x n y := by
  classical
  obtain ⟨n, hn, hchain⟩ := h
  have hex : ∃ n, ChainOf link x n y := ⟨n, hchain⟩
  refine ⟨Nat.find hex, ?_, Nat.find_spec hex, fun m hm ↦ Nat.find_min hex hm⟩
  have hle := Nat.find_min' hex hchain
  omega

theorem level_succ_iff :
    Level link x (n + 1) z ↔ ¬Reached link x n z ∧ ∃ y, Level link x n y ∧ link y z := by
  constructor
  · intro h
    have hnot : ¬Reached link x n z := fun ⟨m, hm, hchain⟩ ↦ h.2 m (by omega) hchain
    obtain ⟨y, hchain, hlink⟩ := chainOf_succ.mp h.1
    refine ⟨hnot, y, ⟨hchain, ?_⟩, hlink⟩
    intro m hm hshort
    exact hnot ⟨m + 1, by omega, hshort.snoc hlink⟩
  · rintro ⟨hnot, y, hlevel, hlink⟩
    refine ⟨hlevel.1.snoc hlink, ?_⟩
    intro m hm hshort
    exact hnot ⟨m, by omega, hshort⟩

theorem reached_succ_iff :
    Reached link x (n + 1) y ↔ Reached link x n y ∨ Level link x (n + 1) y := by
  constructor
  · intro h
    obtain ⟨m, hm, hlevel⟩ := h.exists_level
    by_cases hlast : m = n + 1
    · subst hlast
      exact .inr hlevel
    · exact .inl (hlevel.reached.mono (by omega))
  · rintro (h | h)
    · exact h.mono (by omega)
    · exact h.reached

theorem not_level_of_empty (hempty : ∀ y, ¬Level link x n y) (hle : n ≤ m) :
    ¬Level link x m y := by
  induction m, hle using Nat.le_induction generalizing y with
  | base => exact hempty y
  | succ m _ ih =>
      intro h
      obtain ⟨-, z, hz, -⟩ := level_succ_iff.mp h
      exact ih hz

theorem reached_iff_of_empty (hempty : ∀ y, ¬Level link x (n + 1) y) (hle : n ≤ k) :
    Reached link x k y ↔ Reached link x n y := by
  refine ⟨fun h ↦ ?_, fun h ↦ h.mono hle⟩
  obtain ⟨m, -, hlevel⟩ := h.exists_level
  by_cases hm : m ≤ n
  · exact hlevel.reached.mono hm
  · exact absurd hlevel (not_level_of_empty hempty (by omega))

end Zaowutai.Lib
