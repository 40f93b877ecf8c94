import Mathlib.Algebra.Order.Field.Basic
import Mathlib.Data.Nat.Cast.Order.Field
import Mathlib.Data.Rat.Cast.Order
import Mathlib.Tactic.FieldSimp
import Mathlib.Tactic.GCongr
import Mathlib.Tactic.Linarith
import Mathlib.Tactic.NormNum
import Mathlib.Tactic.Positivity
import Mathlib.Tactic.Ring

/-- Division by a power of two, rounded to the nearest integer and upwards from the middle. -/
def roundShift (x k : Nat) : Nat := (x + 2 ^ (k - 1)) / 2 ^ k

namespace roundShift
variable {x y k : Nat}

theorem mono (le : x ≤ y) : roundShift x k ≤ roundShift y k :=
  Nat.div_le_div_right (Nat.add_le_add_right le _)

theorem pow_mul (pos : 0 < k) (n : Nat) : roundShift (2 ^ k * n) k = n := by
  have small : 2 ^ (k - 1) < 2 ^ k := Nat.pow_lt_pow_right (by decide) (by omega)
  unfold roundShift
  rw [Nat.add_comm, Nat.add_mul_div_left _ _ (Nat.two_pow_pos k), Nat.div_eq_of_lt small, Nat.zero_add]

theorem half (pos : 0 < k) : (2 : ℚ) ^ (k - 1) / 2 ^ k = 1 / 2 := by
  obtain ⟨j, rfl⟩ : ∃ j, k = j + 1 := ⟨k - 1, by omega⟩
  rw [Nat.add_sub_cancel, pow_succ]
  field_simp

theorem upper (pos : 0 < k) : (roundShift x k : ℚ) ≤ x / 2 ^ k + 1 / 2 := by
  have floor : ((roundShift x k : ℕ) : ℚ) ≤ ((x + 2 ^ (k - 1) : ℕ) : ℚ) / ((2 ^ k : ℕ) : ℚ) := Nat.cast_div_le
  push_cast at floor
  rwa [add_div, half pos] at floor

theorem lower (pos : 0 < k) : (x : ℚ) / 2 ^ k - 1 / 2 ≤ roundShift x k := by
  have floor : x + 2 ^ (k - 1) < 2 ^ k * (roundShift x k + 1) := Nat.lt_mul_div_succ _ (Nat.two_pow_pos k)
  have floor' : (x : ℚ) + 2 ^ (k - 1) ≤ 2 ^ k * (roundShift x k + 1) := by exact_mod_cast floor.le
  have quotient : ((x : ℚ) + 2 ^ (k - 1)) / 2 ^ k ≤ roundShift x k + 1 := by
    rw [div_le_iff₀ (by positivity)]
    linarith
  rw [add_div, half pos] at quotient
  linarith

end roundShift

/-- Truncated quotients, against the exact ones. -/
theorem natDiv_lower (c w : Nat) (pos : 0 < w) : (c : ℚ) / w - 1 < (c / w : ℕ) := by
  have floor : c < w * (c / w + 1) := Nat.lt_mul_div_succ _ pos
  have floor' : (c : ℚ) < w * ((c / w : ℕ) + 1) := by exact_mod_cast floor
  have quotient : (c : ℚ) / w < (c / w : ℕ) + 1 := by
    rw [div_lt_iff₀ (by exact_mod_cast pos)]
    linarith
  linarith

/-- A product with a truncated reciprocal falls short by less than its other factor. -/
theorem mul_recip_bounds (t c w : Nat) (wpos : 0 < w) (cpos : 0 < c) :
    (t : ℚ) / w - t / c ≤ t * (c / w : ℕ) / c ∧ (t : ℚ) * (c / w : ℕ) / c ≤ t / w := by
  have wpos' : (0 : ℚ) < w := by exact_mod_cast wpos
  have cpos' : (0 : ℚ) < c := by exact_mod_cast cpos
  have low := natDiv_lower c w wpos
  have high : ((c / w : ℕ) : ℚ) ≤ c / w := Nat.cast_div_le
  have nonneg : (0 : ℚ) ≤ t := Nat.cast_nonneg t
  constructor
  · have scaled : (t : ℚ) * (c / w - 1) / c ≤ t * (c / w : ℕ) / c := by gcongr
    calc (t : ℚ) / w - t / c = t * (c / w - 1) / c := by field_simp
      _ ≤ _ := scaled
  · calc (t : ℚ) * (c / w : ℕ) / c ≤ t * (c / w) / c := by gcongr
      _ = t / w := by field_simp
