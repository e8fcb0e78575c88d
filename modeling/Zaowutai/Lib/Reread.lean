import Mathlib.Data.Set.Basic

/-!
# Reading keys again

A store keeps what was read of a key until the key is read again.  A reading
that finds nothing worth reporting may leave the old values in place, so the
values read are only kept as far as a view shows them.  Reading the keys in one
go or in several, in any order, then comes to the same.
-/

namespace Zaowutai.Lib

variable {κ α β : Type*}

/-- What is stored after the keys have been read again: the other keys are as before, and the view
shows the truth about these. -/
structure Reread (view : α → β) (base truth : κ → α) (keys : Set κ) (now : κ → α) : Prop where
  kept : ∀ k, k ∉ keys → now k = base k
  either : ∀ k, now k = base k ∨ now k = truth k
  read : ∀ k ∈ keys, view (now k) = view (truth k)

namespace Reread

variable {view : α → β} {base truth : κ → α} {keys more : Set κ} {now next : κ → α}

theorem refl (view : α → β) (base truth : κ → α) : Reread view base truth ∅ base :=
  ⟨fun _ _ ↦ rfl, fun _ ↦ .inl rfl, fun _ h ↦ absurd h (Set.notMem_empty _)⟩

theorem store (h : Reread view base truth keys now) (hread : ∀ k ∈ more, next k = truth k)
    (hkept : ∀ k, k ∉ more → next k = now k) : Reread view base truth (keys ∪ more) next where
  kept k hk := by
    rw [Set.mem_union, not_or] at hk
    rw [hkept k hk.2, h.kept k hk.1]
  either k := by
    by_cases hk : k ∈ more
    · exact .inr (hread k hk)
    · rw [hkept k hk]
      exact h.either k
  read k hk := by
    by_cases hmore : k ∈ more
    · rw [hread k hmore]
    · rw [hkept k hmore]
      exact h.read k (hk.resolve_right hmore)

/-- The values that are read are not stored, but the view does not tell them from the old ones. -/
theorem keep (h : Reread view base truth keys now)
    (halike : ∀ k ∈ more, view (now k) = view (truth k)) :
    Reread view base truth (keys ∪ more) now where
  kept k hk := h.kept k fun hkeys ↦ hk (.inl hkeys)
  either := h.either
  read k hk := hk.elim (h.read k) (halike k)

theorem view_eq (h : Reread view base truth keys now) (h' : Reread view base truth keys next) :
    view ∘ now = view ∘ next := by
  funext k
  by_cases hk : k ∈ keys
  · exact (h.read k hk).trans (h'.read k hk).symm
  · exact congrArg view ((h.kept k hk).trans (h'.kept k hk).symm)

end Reread

end Zaowutai.Lib
