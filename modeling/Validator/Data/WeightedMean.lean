import Mathlib.Algebra.Order.Floor.Div

namespace Validator.Data

/-! # Rounded-up weighted means

`(a * x + b * y) ⌈/⌉ (x + y)` is the mean of `a` and `b` weighted by `x` and `y`, rounded up: it
lies between `a` and `b`, and multiplied back by the total weight it exceeds the weighted sum by
less than that weight.
-/

section CeilDiv

variable {total : Nat}

theorem le_mul_ceilDiv (numerator : Nat) (positive : 0 < total) :
    numerator ≤ total * (numerator ⌈/⌉ total) :=
  (ceilDiv_le_iff_le_mul positive).mp le_rfl

theorem mul_ceilDiv_lt (numerator : Nat) (positive : 0 < total) :
    total * (numerator ⌈/⌉ total) < numerator + total := by
  cases quotient : numerator ⌈/⌉ total with
  | zero =>
      rw [Nat.mul_zero]
      omega
  | succ below =>
      -- the quotient is the least one whose multiple reaches the numerator
      have notBelow : ¬ numerator ⌈/⌉ total ≤ below := by omega
      rw [ceilDiv_le_iff_le_mul positive] at notBelow
      rw [Nat.mul_succ]
      omega

theorem ceilDiv_mul_cancel (value : Nat) (positive : 0 < total) : total * value ⌈/⌉ total = value :=
  smul_ceilDiv positive value

end CeilDiv

section Weighted

variable {first second firstWeight secondWeight : Nat}

theorem min_mul_le_weighted :
    min first second * (firstWeight + secondWeight) ≤ first * firstWeight + second * secondWeight := by
  rw [Nat.mul_add]
  exact Nat.add_le_add (Nat.mul_le_mul_right _ (min_le_left _ _))
    (Nat.mul_le_mul_right _ (min_le_right _ _))

theorem weighted_le_max_mul :
    first * firstWeight + second * secondWeight ≤ max first second * (firstWeight + secondWeight) := by
  rw [Nat.mul_add]
  exact Nat.add_le_add (Nat.mul_le_mul_right _ (le_max_left _ _))
    (Nat.mul_le_mul_right _ (le_max_right _ _))

theorem ceilDiv_weighted_le_max :
    (first * firstWeight + second * secondWeight) ⌈/⌉ (firstWeight + secondWeight) ≤
      max first second := by
  rcases Nat.eq_zero_or_pos (firstWeight + secondWeight) with empty | positive
  · rw [empty, ceilDiv_zero]
    exact Nat.zero_le _
  · rw [ceilDiv_le_iff_le_mul positive, Nat.mul_comm (firstWeight + secondWeight)]
    exact weighted_le_max_mul

theorem min_le_ceilDiv_weighted (positive : 0 < firstWeight + secondWeight) :
    min first second ≤
      (first * firstWeight + second * secondWeight) ⌈/⌉ (firstWeight + secondWeight) := by
  have reached := le_mul_ceilDiv (first * firstWeight + second * secondWeight) positive
  have below : (firstWeight + secondWeight) * min first second ≤ (firstWeight + secondWeight) *
      ((first * firstWeight + second * secondWeight) ⌈/⌉ (firstWeight + secondWeight)) := by
    rw [Nat.mul_comm]
    exact min_mul_le_weighted.trans reached
  exact Nat.le_of_mul_le_mul_left below positive

end Weighted

end Validator.Data
