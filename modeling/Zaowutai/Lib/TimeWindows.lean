import Mathlib.Algebra.Order.Ring.Int
import Mathlib.Data.List.Basic

/-!
# Sliding windows

A window of a fixed width ends at any moment.  When nothing is recorded while
the window that ends now is full, no window ever holds more than the limit.
What has left the window may be forgotten at any time.
-/

namespace Zaowutai.Lib

variable {width now later : ℤ} {limit : ℕ} {moments : List ℤ}

def inWindow (width now : ℤ) (moments : List ℤ) : List ℤ :=
  moments.filter fun moment ↦ now - width < moment ∧ moment ≤ now

/-- What remains when the moments before the window are forgotten. -/
def recent (width now : ℤ) (moments : List ℤ) : List ℤ :=
  moments.filter fun moment ↦ now - width < moment

def Limited (width : ℤ) (limit : ℕ) (moments : List ℤ) : Prop :=
  ∀ now, (inWindow width now moments).length ≤ limit

theorem recent_append (first second : List ℤ) :
    recent width now (first ++ second) = recent width now first ++ recent width now second :=
  List.filter_append ..

theorem recent_recent (h : now ≤ later) :
    recent width later (recent width now moments) = recent width later moments := by
  rw [recent, recent, List.filter_filter]
  refine List.filter_congr fun moment _ ↦ ?_
  by_cases hlate : later - width < moment
  · have hearly : now - width < moment := by omega
    simp [hlate, hearly]
  · simp [hlate]

theorem inWindow_eq_recent (h : ∀ moment ∈ moments, moment ≤ now) :
    inWindow width now moments = recent width now moments := by
  refine List.filter_congr fun moment hmem ↦ ?_
  simp [h moment hmem]

theorem limited_nil : Limited width limit [] := fun _ ↦ Nat.zero_le _

/-- The rule for a recorder: a moment may be added when the window that ends with it is not full. -/
theorem Limited.concat (h : Limited width limit moments)
    (hroom : (recent width now moments).length < limit) :
    Limited width limit (moments ++ [now]) := by
  intro ending
  rw [inWindow, List.filter_append, List.length_append]
  by_cases hin : ending - width < now ∧ now ≤ ending
  · -- the window began after the one that ends now
    have hsub : (moments.filter fun moment ↦ ending - width < moment ∧ moment ≤ ending).length ≤
        (recent width now moments).length := by
      refine List.Sublist.length_le (List.monotone_filter_right moments fun moment hmoment ↦ ?_)
      obtain ⟨hstart, -⟩ := of_decide_eq_true hmoment
      exact decide_eq_true (by omega)
    have hone : ([now].filter fun moment ↦ ending - width < moment ∧ moment ≤ ending).length ≤ 1 :=
      List.length_filter_le _ _
    omega
  · have hnone : ([now].filter fun moment ↦ ending - width < moment ∧ moment ≤ ending) = [] := by
      simp [hin]
    rw [hnone]
    exact h ending

theorem Limited.length_recent_le (h : Limited width limit moments)
    (hlast : ∀ moment ∈ moments, moment ≤ now) : (recent width now moments).length ≤ limit := by
  rw [← inWindow_eq_recent hlast]
  exact h now

end Zaowutai.Lib

/-!
## Fixed windows

A counter opens a window when the last one is over and admits no more than the
limit before the window ends.  An interval of one window's width then meets two
windows at most.
-/

namespace Zaowutai.Lib

variable {width limit start now : ℕ} {moments : List ℕ}

def inInterval (width start : ℕ) (moments : List ℕ) : List ℕ :=
  moments.filter fun moment ↦ start ≤ moment ∧ moment < start + width

/-- What is known of the admitted moments while the window from `start` is the last one. -/
structure Spaced (width limit start : ℕ) (moments : List ℕ) : Prop where
  bounded : ∀ moment ∈ moments, moment < start + width
  current : moments.countP (fun moment ↦ start ≤ moment) ≤ limit
  previous : moments.countP (fun moment ↦ start ≤ moment + width ∧ moment < start) ≤ limit
  every : ∀ begin, (inInterval width begin moments).length ≤ 2 * limit

theorem spaced_nil : Spaced width limit start [] :=
  ⟨fun _ h ↦ (by cases h), Nat.zero_le _, Nat.zero_le _, fun _ ↦ Nat.zero_le _⟩

theorem countP_le_add {α : Type*} {p q r : α → Bool} (h : ∀ a, p a → q a ∨ r a) (l : List α) :
    l.countP p ≤ l.countP q + l.countP r := by
  induction l with
  | nil => exact Nat.zero_le _
  | cons a l ih =>
      have hcons := h a
      simp only [List.countP_cons]
      split
      · next hp =>
          rcases hcons hp with hq | hr
          · rw [if_pos hq]
            omega
          · rw [if_pos hr]
            omega
      · omega

theorem countP_eq_zero_of_lt (h : ∀ moment ∈ moments, moment < now) :
    moments.countP (fun moment ↦ now ≤ moment) = 0 := by
  refine List.countP_eq_zero.mpr fun moment hmem hle ↦ ?_
  have hlt := h moment hmem
  have hle := of_decide_eq_true hle
  omega

/-- A new window is opened when the last one is over. -/
theorem Spaced.renew (h : Spaced width limit start moments) (hover : start + width ≤ now) :
    Spaced width limit now moments := by
  have hpast : ∀ moment ∈ moments, moment < now := fun moment hmem ↦
    Nat.lt_of_lt_of_le (h.bounded moment hmem) hover
  refine ⟨fun moment hmem ↦ ?_, ?_, ?_, h.every⟩
  · have hlt := hpast moment hmem
    omega
  · rw [countP_eq_zero_of_lt hpast]
    omega
  · refine Nat.le_trans (List.countP_mono_left fun moment _ hmoment ↦ ?_) h.current
    obtain ⟨hwidth, -⟩ := of_decide_eq_true hmoment
    exact decide_eq_true (by omega)

theorem Spaced.concat (h : Spaced width limit start moments) (hstart : start ≤ now)
    (hend : now < start + width)
    (hroom : moments.countP (fun moment ↦ start ≤ moment) < limit) :
    Spaced width limit start (moments ++ [now]) := by
  refine ⟨?_, ?_, ?_, ?_⟩
  · intro moment hmem
    rcases List.mem_append.mp hmem with hmem | hmem
    · exact h.bounded moment hmem
    · rw [List.mem_singleton.mp hmem]
      exact hend
  · rw [List.countP_append, List.countP_singleton, if_pos (decide_eq_true hstart)]
    omega
  · have hlater : ¬(start ≤ now + width ∧ now < start) := by omega
    rw [List.countP_append, List.countP_singleton, if_neg (by simpa using hlater)]
    exact h.previous
  · intro begin
    have hevery := h.every begin
    rw [inInterval, ← List.countP_eq_length_filter] at hevery ⊢
    rw [List.countP_append, List.countP_singleton]
    split
    · next hin =>
        -- the interval has begun after the previous window did
        have hin := of_decide_eq_true hin
        have hsplit := countP_le_add (l := moments)
          (p := fun moment ↦ begin ≤ moment ∧ moment < begin + width)
          (q := fun moment ↦ start ≤ moment)
          (r := fun moment ↦ start ≤ moment + width ∧ moment < start) fun moment hmoment ↦ by
            have hmoment := of_decide_eq_true hmoment
            rcases Nat.lt_or_ge moment start with hlt | hge
            · exact .inr (decide_eq_true (by omega))
            · exact .inl (decide_eq_true hge)
        have hprevious := h.previous
        omega
    · omega

end Zaowutai.Lib
