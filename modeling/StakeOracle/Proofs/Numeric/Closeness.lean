import Mathlib.Algebra.Order.Field.Basic
import Mathlib.Algebra.Order.Field.Rat
import Mathlib.Algebra.Order.Ring.Pow
import Mathlib.Data.Nat.Cast.Order.Field
import Mathlib.Tactic.FieldSimp
import Mathlib.Tactic.GCongr
import Mathlib.Tactic.Linarith
import Mathlib.Tactic.Positivity
import Mathlib.Tactic.Ring
import StakeOracle.Numeric.Power

/-!
# Numbers within a factor of each other

Relative errors multiply. Two positive numbers are within a factor of each other when neither exceeds
the other times the factor, and then so are their powers and inverses, with the factors that one
expects. A factor close to one bounds the relative error.
-/

namespace StakeOracle

/-- Two positive numbers are at most a factor apart, whichever is the greater. -/
structure Within (factor x y : ℚ) : Prop where
  left_pos : 0 < x
  right_pos : 0 < y
  le : x ≤ factor * y
  ge : y ≤ factor * x

namespace Within

variable {u v x y z x' y' : ℚ}

/-- No factor is less than one. -/
theorem one_le (h : Within u x y) : 1 ≤ u := by
  by_contra hlt
  have hx := h.left_pos
  have hy := h.right_pos
  have hxy : x < y := h.le.trans_lt (by nlinarith)
  have hyx : y < x := h.ge.trans_lt (by nlinarith)
  exact absurd hxy hyx.not_gt

/-- A positive number is within factor one of itself. -/
theorem refl (hx : 0 < x) : Within 1 x x := ⟨hx, hx, (one_mul x).ge, (one_mul x).ge⟩

/-- A greater factor will do as well. -/
theorem mono (h : Within u x y) (huv : u ≤ v) : Within v x y :=
  ⟨h.left_pos, h.right_pos, h.le.trans (mul_le_mul_of_nonneg_right huv h.right_pos.le),
    h.ge.trans (mul_le_mul_of_nonneg_right huv h.left_pos.le)⟩

/-- Factors multiply from one step to the next. -/
theorem trans (h : Within u x y) (h' : Within v y z) : Within (u * v) x z := by
  have hu : 0 ≤ u := zero_le_one.trans h.one_le
  have hv : 0 ≤ v := zero_le_one.trans h'.one_le
  refine ⟨h.left_pos, h'.right_pos, ?_, ?_⟩
  · calc x ≤ u * y := h.le
      _ ≤ u * (v * z) := mul_le_mul_of_nonneg_left h'.le hu
      _ = u * v * z := (mul_assoc u v z).symm
  · calc z ≤ v * y := h'.ge
      _ ≤ v * (u * x) := mul_le_mul_of_nonneg_left h.ge hv
      _ = u * v * x := by ring

/-- Factors multiply where the numbers do. -/
theorem mul (h : Within u x y) (h' : Within v x' y') : Within (u * v) (x * x') (y * y') := by
  have hu : 0 ≤ u := zero_le_one.trans h.one_le
  have hx := h.left_pos
  have hy := h.right_pos
  have hx' := h'.left_pos
  have hy' := h'.right_pos
  refine ⟨mul_pos hx hx', mul_pos hy hy', ?_, ?_⟩
  · calc x * x' ≤ (u * y) * (v * y') :=
        mul_le_mul h.le h'.le hx'.le (mul_nonneg hu hy.le)
      _ = u * v * (y * y') := by ring
  · calc y * y' ≤ (u * x) * (v * x') :=
        mul_le_mul h.ge h'.ge hy'.le (mul_nonneg hu hx.le)
      _ = u * v * (x * x') := by ring

/-- Factors are raised to a power where the numbers are. -/
theorem pow (h : Within u x y) (n : ℕ) : Within (u ^ n) (x ^ n) (y ^ n) := by
  induction n with
  | zero => simpa using refl one_pos
  | succ n ih =>
    rw [pow_succ, pow_succ, pow_succ]
    exact ih.mul h

/-- Inverses are as close as the numbers. -/
theorem inv (h : Within u x y) : Within u x⁻¹ y⁻¹ := by
  have hx := h.left_pos
  have hy := h.right_pos
  refine ⟨inv_pos.mpr hx, inv_pos.mpr hy, ?_, ?_⟩
  · rw [inv_le_iff_one_le_mul₀ hx]
    calc 1 = y * y⁻¹ := (mul_inv_cancel₀ hy.ne').symm
      _ ≤ (u * x) * y⁻¹ := mul_le_mul_of_nonneg_right h.ge (inv_pos.mpr hy).le
      _ = u * y⁻¹ * x := by ring
  · rw [inv_le_iff_one_le_mul₀ hy]
    calc 1 = x * x⁻¹ := (mul_inv_cancel₀ hx.ne').symm
      _ ≤ (u * y) * x⁻¹ := mul_le_mul_of_nonneg_right h.le (inv_pos.mpr hx).le
      _ = u * x⁻¹ * y := by ring

/-- The excess of a factor over one bounds the relative error. -/
theorem abs_sub_le {ε : ℚ} (h : Within (1 + ε) x y) : |x - y| ≤ ε * y := by
  have hε : 0 ≤ ε := by linarith [h.one_le]
  have hx := h.left_pos
  have hle := h.le
  have hge := h.ge
  rw [abs_le]
  constructor
  · rcases le_total x y with hxy | hyx
    · have hscaled := mul_le_mul_of_nonneg_left hxy hε
      linarith
    · have hpositive := mul_nonneg hε h.right_pos.le
      linarith
  · linarith

end Within

/-- A power of a factor slightly above one stays slightly above one. -/
theorem one_add_pow_le {ε : ℚ} {n : ℕ} (hε : 0 ≤ ε) (hsmall : n * ε ≤ 1 / 2) :
    (1 + ε) ^ n ≤ 1 + 2 * (n * ε) := by
  rcases Nat.eq_zero_or_pos n with rfl | hn
  · simp
  · have hone : ε ≤ 1 / 2 := by
      have hcast : (1 : ℚ) ≤ n := by exact_mod_cast hn
      nlinarith
    -- The square of `ε` is lost in `(1 + ε) * (1 - ε)`, and Bernoulli bounds the other power.
    have hproduct : (1 + ε) ^ n * (1 - ε) ^ n ≤ 1 := by
      rw [← mul_pow]
      exact pow_le_one₀ (by nlinarith) (by nlinarith)
    have hbernoulli := one_add_mul_le_pow (by linarith : (-2 : ℚ) ≤ -ε) n
    rw [← sub_eq_add_neg 1 ε] at hbernoulli
    have hpower : 0 ≤ (1 + ε) ^ n := by positivity
    have hremainder : (1 + ε) ^ n * (1 - n * ε) ≤ 1 :=
      (mul_le_mul_of_nonneg_left (by linarith) hpower).trans hproduct
    have hnonneg : 0 ≤ n * ε := by positivity
    have hroom : 1 ≤ (1 + 2 * (n * ε)) * (1 - n * ε) := by nlinarith
    exact le_of_mul_le_mul_right (hremainder.trans hroom) (by linarith)

/-- A truncated quotient is not above the exact one, and less than one below it. -/
theorem natCast_div_bounds (n : ℕ) {d : ℕ} (hd : 0 < d) :
    ((n / d : ℕ) : ℚ) ≤ n / d ∧ (n : ℚ) / d < (n / d : ℕ) + 1 := by
  refine ⟨Nat.cast_div_le, ?_⟩
  have hcast : (0 : ℚ) < d := Nat.cast_pos.mpr hd
  have hlt : n < (n / d + 1) * d := by
    rw [Nat.add_mul, Nat.one_mul]
    exact Nat.lt_div_mul_add hd
  rw [div_lt_iff₀ hcast]
  exact_mod_cast hlt

end StakeOracle
