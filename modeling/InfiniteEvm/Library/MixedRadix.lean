import Mathlib.Tactic.Linarith

/-!
# Amounts in units and fractions

An amount `i * c + f` is kept as `i` units and a fraction `f` of a unit, below `c`.
Subtracting or adding another amount works on both parts, with a borrow or a carry
between them.
-/

namespace InfiniteEvm.Library.MixedRadix

variable {c i f q r : Int}

/-- One, if the fraction `f` does not cover `r`. -/
def borrow (f r : Int) : Int := if f < r then 1 else 0

/-- One, if the fractions `f` and `r` make up a unit. -/
def carry (c f r : Int) : Int := if c ≤ f + r then 1 else 0

theorem borrow_eq_toInt (f r : Int) : borrow f r = (decide (f < r)).toInt := by
  unfold borrow
  by_cases h : f < r <;> simp [h]

theorem carry_eq_toInt (c f r : Int) : carry c f r = (decide (c ≤ f + r)).toInt := by
  unfold carry
  by_cases h : c ≤ f + r <;> simp [h]

/-- The fraction after a subtraction is one again. -/
theorem sub_bounds (hf : 0 ≤ f ∧ f < c) (hr : 0 ≤ r ∧ r < c) :
    0 ≤ f - r + borrow f r * c ∧ f - r + borrow f r * c < c := by
  unfold borrow
  split <;> constructor <;> omega

/-- The fraction after an addition is one again. -/
theorem add_bounds (hf : 0 ≤ f ∧ f < c) (hr : 0 ≤ r ∧ r < c) :
    0 ≤ f + r - carry c f r * c ∧ f + r - carry c f r * c < c := by
  unfold carry
  split <;> constructor <;> omega

/-- An amount is covered when its units are, with the one that is borrowed. -/
theorem le_iff (hf : 0 ≤ f ∧ f < c) (hr : 0 ≤ r ∧ r < c) :
    q * c + r ≤ i * c + f ↔ q + borrow f r ≤ i := by
  have hc : 0 ≤ c := hf.1.trans hf.2.le
  unfold borrow
  constructor
  · by_contra hlt
    split at hlt
    · have hle : i * c ≤ q * c := Int.mul_le_mul_of_nonneg_right (by omega) hc
      omega
    · have hle : i * c ≤ (q - 1) * c := Int.mul_le_mul_of_nonneg_right (by omega) hc
      rw [Int.sub_mul] at hle
      omega
  · intro h
    split at h
    · have hle : (q + 1) * c ≤ i * c := Int.mul_le_mul_of_nonneg_right h hc
      rw [Int.add_mul] at hle
      omega
    · have hle : q * c ≤ i * c := Int.mul_le_mul_of_nonneg_right (by omega) hc
      omega

end InfiniteEvm.Library.MixedRadix
