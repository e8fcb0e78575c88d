import Mathlib.Algebra.Order.Ring.Int
import Mathlib.Order.Bounds.Basic

/-!
# Times on a grid

A grid starts at a time and has one time after every period.  Its first time
after a moment has a closed form.
-/

namespace Zaowutai.Lib

def laterOnGrid (period start now : ℤ) : Set ℤ :=
  {time | ∃ k : ℤ, 1 ≤ k ∧ time = start + k * period ∧ now < time}

/-- The first time of the grid after the moment, when the moment is not before the start. -/
def nextOnGrid (period start now : ℤ) : ℤ := start + ((now - start) / period + 1) * period

variable {period start now : ℤ}

theorem lt_nextOnGrid (start now : ℤ) (h : 0 < period) : now < nextOnGrid period start now := by
  have hstep := Int.lt_ediv_add_one_mul_self (now - start) h
  rw [nextOnGrid]
  omega

theorem nextOnGrid_le (start now : ℤ) (h : 0 < period) :
    nextOnGrid period start now ≤ now + period := by
  have hstep := Int.ediv_mul_le (now - start) h.ne'
  rw [nextOnGrid, Int.add_mul, Int.one_mul]
  omega

theorem one_le_ediv_add_one (h : 0 < period) (hnow : start ≤ now) :
    1 ≤ (now - start) / period + 1 := by
  have hsteps := Int.ediv_nonneg (Int.sub_nonneg_of_le hnow) h.le
  omega

theorem isLeast_nextOnGrid (h : 0 < period) (hnow : start ≤ now) :
    IsLeast (laterOnGrid period start now) (nextOnGrid period start now) := by
  refine ⟨⟨(now - start) / period + 1, one_le_ediv_add_one h hnow, rfl, lt_nextOnGrid _ _ h⟩, ?_⟩
  rintro time ⟨k, -, rfl, hk⟩
  have hsteps : (now - start) / period < k := by
    rw [Int.ediv_lt_iff_lt_mul h]
    omega
  have hmul : ((now - start) / period + 1) * period ≤ k * period :=
    Int.mul_le_mul_of_nonneg_right hsteps h.le
  rw [nextOnGrid]
  omega

end Zaowutai.Lib
