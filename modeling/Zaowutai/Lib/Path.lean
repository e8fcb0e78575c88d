import Mathlib.Data.List.Count

/-!
# Paths of transitions

A list of transitions is a path when each starts where the one before it
ended.  Along a path the transitions into a region and those out of it
alternate, so that their numbers differ by at most one.
-/

namespace Zaowutai.Lib

variable {τ φ : Type*}

/-- The transitions lead from `a` to `b`, each starting where the one before it ended. -/
def Path (source target : τ → φ) (a : φ) : List τ → φ → Prop
  | [], b => a = b
  | t :: ts, b => source t = a ∧ Path source target (target t) ts b

def Enters (source target : τ → φ) (region : φ → Bool) (t : τ) : Bool :=
  !region (source t) && region (target t)

def Leaves (source target : τ → φ) (region : φ → Bool) (t : τ) : Bool :=
  region (source t) && !region (target t)

section Path

variable {source target : τ → φ} {a b : φ}

@[simp] theorem path_nil : Path source target a [] b ↔ a = b := Iff.rfl

@[simp] theorem path_cons {t : τ} {ts : List τ} :
    Path source target a (t :: ts) b ↔ source t = a ∧ Path source target (target t) ts b :=
  Iff.rfl

theorem path_append {ts us : List τ} :
    Path source target a (ts ++ us) b ↔
      ∃ c, Path source target a ts c ∧ Path source target c us b := by
  induction ts generalizing a with
  | nil => simp
  | cons t ts ih =>
      simp only [List.cons_append, path_cons, ih]
      constructor
      · rintro ⟨h, c, hts, hus⟩
        exact ⟨c, ⟨h, hts⟩, hus⟩
      · rintro ⟨c, ⟨h, hts⟩, hus⟩
        exact ⟨h, c, hts, hus⟩

theorem crossing (source target : τ → φ) (region : φ → Bool) (t : τ) :
    (if Enters source target region t then 1 else 0) + (region (source t)).toNat =
      (if Leaves source target region t then 1 else 0) + (region (target t)).toNat := by
  simp only [Enters, Leaves]
  rcases Bool.eq_false_or_eq_true (region (source t)) with hs | hs <;>
    rcases Bool.eq_false_or_eq_true (region (target t)) with ht | ht <;>
      simp [hs, ht]

theorem Path.count_enters {ts : List τ} (h : Path source target a ts b) (region : φ → Bool) :
    ts.countP (Enters source target region) + (region a).toNat =
      ts.countP (Leaves source target region) + (region b).toNat := by
  induction ts generalizing a with
  | nil =>
      rw [path_nil] at h
      rw [h]
      rfl
  | cons t ts ih =>
      obtain ⟨hsource, hrest⟩ := h
      have hcount := ih hrest
      have hcross := crossing source target region t
      rw [List.countP_cons, List.countP_cons, ← hsource]
      omega

theorem Path.enters_between {region : φ → Bool} {pre mid post : List τ} {x y : τ}
    (h : Path source target a (pre ++ x :: (mid ++ y :: post)) b)
    (hx : Leaves source target region x = true) (hy : Leaves source target region y = true) :
    mid.countP (Enters source target region) =
      mid.countP (Leaves source target region) + 1 := by
  obtain ⟨_, -, -, hmid⟩ := path_append.mp h
  obtain ⟨c, hmid, hsource, -⟩ := path_append.mp hmid
  have hcount := hmid.count_enters region
  simp only [Leaves, Bool.and_eq_true, Bool.not_eq_true'] at hx hy
  rw [hx.2, ← hsource, hy.1] at hcount
  simpa using hcount

end Path

end Zaowutai.Lib
