import Mathlib.Data.Fintype.Pigeonhole
import Mathlib.Data.List.Chain

/-!
# Closed walks

An element lies on a cycle of a relation when steps lead from it back to itself.
Where everything in a finite set has a step into the set, everything in it leads
to a cycle.  A search that marks some elements misses no cycle when the steps to
unmarked ones cannot be followed for ever: each element on a cycle is then led to
by a marked one.
-/

namespace Zaowutai.Lib

open Relation

variable {α : Type*} {r : α → α → Prop} {x y z : α} {walk : List α}

structure ClosedWalk (r : α → α → Prop) (walk : List α) : Prop where
  chain : walk.IsChain r
  step : 2 ≤ walk.length
  closed : walk.head? = walk.getLast?

def OnCycle (r : α → α → Prop) (x : α) : Prop := TransGen r x x

def CommonCycle (r : α → α → Prop) (x y : α) : Prop := TransGen r x y ∧ TransGen r y x

def LeadsToCycle (r : α → α → Prop) (x : α) : Prop := ∃ y, ReflTransGen r x y ∧ OnCycle r y

theorem transGen_of_isChain (h : (x :: walk).IsChain r) (hy : y ∈ walk) : TransGen r x y := by
  induction walk generalizing x with
  | nil => cases hy
  | cons z walk ih =>
      obtain ⟨hxz, hchain⟩ := List.isChain_cons_cons.mp h
      rcases List.mem_cons.mp hy with rfl | hy
      · exact TransGen.single hxz
      · exact TransGen.head hxz (ih hchain hy)

theorem ClosedWalk.exists_onCycle (h : ClosedWalk r walk) : ∃ x ∈ walk, OnCycle r x := by
  obtain ⟨hchain, hstep, hclosed⟩ := h
  cases walk with
  | nil => simp at hstep
  | cons x walk =>
      refine ⟨x, List.mem_cons_self, ?_⟩
      have hne : walk ≠ [] := by
        rintro rfl
        simp at hstep
      have hlast : x = walk.getLast hne := by
        rw [List.getLast?_cons, List.getLast?_eq_some_getLast hne] at hclosed
        simpa using hclosed
      have hmem : x ∈ walk := hlast ▸ List.getLast_mem hne
      exact transGen_of_isChain hchain hmem

theorem closedWalk_of_back (path : List α) {post : List α} (hchain : (path ++ y :: post).IsChain r)
    (hback : r ((y :: post).getLast (List.cons_ne_nil y post)) y) :
    ClosedWalk r (y :: post ++ [y]) where
  chain := by
    have hpost := (List.isChain_append.mp hchain).2.1
    rw [List.isChain_append]
    refine ⟨hpost, List.isChain_singleton y, ?_⟩
    intro a ha b hb
    rw [List.getLast?_eq_some_getLast (List.cons_ne_nil y post)] at ha
    simp only [Option.mem_def, Option.some.injEq, List.head?_cons] at ha hb
    rwa [← ha, ← hb]
  step := by simp
  closed := by rw [List.getLast?_concat, List.cons_append, List.head?_cons]

theorem LeadsToCycle.head (hxy : r x y) (h : LeadsToCycle r y) : LeadsToCycle r x := by
  obtain ⟨z, hyz, hz⟩ := h
  exact ⟨z, ReflTransGen.head hxy hyz, hz⟩

theorem OnCycle.leadsToCycle (h : OnCycle r x) : LeadsToCycle r x := ⟨x, .refl, h⟩

theorem LeadsToCycle.exists_step (h : LeadsToCycle r x) : ∃ y, r x y ∧ LeadsToCycle r y := by
  obtain ⟨z, hxz, hz⟩ := h
  rcases ReflTransGen.cases_head hxz with rfl | ⟨y, hxy, hyz⟩
  · obtain ⟨y, hxy, hyx⟩ := TransGen.head'_iff.mp hz
    exact ⟨y, hxy, x, hyx, hz⟩
  · exact ⟨y, hxy, z, hyz, hz⟩

theorem not_leadsToCycle_of_acc (h : Acc (fun y x ↦ r x y) x) : ¬LeadsToCycle r x := by
  induction h with
  | intro x _ ih =>
      intro hcycle
      obtain ⟨y, hxy, hy⟩ := hcycle.exists_step
      exact ih y hxy hy

theorem leadsToCycle_of_steps {s : Set α} (hfinite : s.Finite) (hsteps : ∀ x ∈ s, ∃ y ∈ s, r x y)
    (hx : x ∈ s) : LeadsToCycle r x := by
  choose next hnext hstep using hsteps
  let walk : ℕ → s := fun n ↦ (fun x : s ↦ ⟨next x.1 x.2, hnext x.1 x.2⟩)^[n] ⟨x, hx⟩
  have hwalk : ∀ n, r (walk n) (walk (n + 1)) := by
    intro n
    simp only [walk, Function.iterate_succ_apply']
    exact hstep _ _
  have hreach : ∀ n k, ReflTransGen r (walk n) (walk (n + k)) := by
    intro n k
    induction k with
    | zero => exact .refl
    | succ k ih => exact ih.tail (hwalk (n + k))
  have : Finite s := hfinite
  obtain ⟨m, n, hne, heq⟩ := Finite.exists_ne_map_eq_of_infinite walk
  have hcycle : ∀ m n, m < n → walk m = walk n → OnCycle r (walk m).1 := by
    intro m n hlt heq
    have hsteps := TransGen.head' (hwalk m) (hreach (m + 1) (n - (m + 1)))
    rw [show m + 1 + (n - (m + 1)) = n by omega, ← heq] at hsteps
    exact hsteps
  have hstart : ∀ n, ReflTransGen r x (walk n).1 := by
    intro n
    simpa [walk] using hreach 0 n
  rcases Nat.lt_or_gt_of_ne hne with hlt | hlt
  · exact ⟨walk m, hstart m, hcycle m n hlt heq⟩
  · exact ⟨walk n, hstart n, hcycle n m hlt heq.symm⟩

theorem exists_marked_of_acc (marked : Set α)
    (hacc : ∀ y, LeadsToCycle r y →
      Acc (fun v u ↦ r u v ∧ LeadsToCycle r v ∧ v ∉ marked) y) (hx : OnCycle r x) :
    ∃ v ∈ marked, ReflTransGen r v x := by
  have hround : ∀ y, Acc (fun v u ↦ r u v ∧ LeadsToCycle r v ∧ v ∉ marked) y → TransGen r y x →
      ∃ v ∈ marked, ReflTransGen r v x := by
    intro y hy
    induction hy with
    | intro y _ ih =>
        intro hyx
        obtain ⟨v, hyv, hvx⟩ := TransGen.head'_iff.mp hyx
        by_cases hv : v ∈ marked
        · exact ⟨v, hv, hvx⟩
        · exact ih v ⟨hyv, ⟨x, hvx, hx⟩, hv⟩ (TransGen.trans_right hvx hx)
  exact hround x (hacc x hx.leadsToCycle) hx

end Zaowutai.Lib
