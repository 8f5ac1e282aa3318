import Mathlib.Algebra.Order.BigOperators.GroupWithZero.List
import Mathlib.Tactic.NormNum
import StakeOracle.Price.Tick
import StakeOracle.Proofs.Numeric.Closeness

/-!
# The stored factors and their products

The first stored factor squares to `1.0001 ^ -1`, and every other factor is the square of the one
before it, up to rounding. So the exact product of the factors at the binary digits of `m` squares to
`1.0001 ^ -m`, with an error that grows with `m`. The computed product truncates after every factor
and loses less than one unit of the last place each time.
-/

namespace StakeOracle

/-- The number that a Q128.128 word stands for. -/
def q128 (w : Word) : ℚ := w.toNat / 2 ^ 128

/-- The unit of relative error of the stored factors. -/
def factorUnit : ℚ := 1 + 1 / 2 ^ 90

/-- A stored factor is positive and less than one. -/
def IsFactor (factor : Word) : Prop := 0 < factor.toNat ∧ factor.toNat < 2 ^ 128

/-- A stored factor is the square of the one before it, up to the unit of error. -/
def IsSquareOf (factor next : Word) : Prop :=
  next.toNat * 2 ^ 218 ≤ (2 ^ 90 + 1) * factor.toNat ^ 2 ∧
    factor.toNat ^ 2 * 2 ^ 90 ≤ (2 ^ 90 + 1) * (next.toNat * 2 ^ 128)

instance : DecidablePred IsFactor := fun _ => inferInstanceAs (Decidable (_ ∧ _))

instance : DecidableRel IsSquareOf := fun _ _ => inferInstanceAs (Decidable (_ ∧ _))

/-- All stored factors are positive and less than one. -/
theorem isFactor_of_mem_rootFactors : ∀ factor ∈ rootFactors, IsFactor factor := by
  have hall : (rootFactors.all fun factor => decide (IsFactor factor)) = true := by decide
  intro factor hmem
  exact of_decide_eq_true (List.all_eq_true.mp hall factor hmem)

/-- Each stored factor is the square of the one before. -/
theorem isChain_rootFactors : rootFactors.IsChain IsSquareOf := by decide

/-- A stored factor denotes a positive number. -/
theorem IsFactor.q128_pos {factor : Word} (h : IsFactor factor) : 0 < q128 factor :=
  div_pos (Nat.cast_pos.mpr h.1) (by positivity)

/-- A stored factor denotes a number that is at most one. -/
theorem IsFactor.q128_le_one {factor : Word} (h : IsFactor factor) : q128 factor ≤ 1 := by
  rw [q128, div_le_one (by positivity)]
  exact_mod_cast h.2.le

/-- The unit of error does not shrink anything. -/
theorem one_le_factorUnit : 1 ≤ factorUnit := by
  norm_num [factorUnit]

/-- A factor and the square of the one before are a unit of error apart. -/
theorem IsSquareOf.within {factor next : Word} (h : IsSquareOf factor next)
    (hfactor : IsFactor factor) (hnext : IsFactor next) :
    Within factorUnit (q128 next) (q128 factor ^ 2) := by
  have hle : (next.toNat : ℚ) * 2 ^ 218 ≤ (2 ^ 90 + 1) * factor.toNat ^ 2 := by exact_mod_cast h.1
  have hge : (factor.toNat : ℚ) ^ 2 * 2 ^ 90 ≤ (2 ^ 90 + 1) * (next.toNat * 2 ^ 128) := by
    exact_mod_cast h.2
  refine ⟨hnext.q128_pos, pow_pos hfactor.q128_pos 2, ?_, ?_⟩
  · rw [q128, q128, factorUnit, div_pow, div_le_iff₀ (by positivity)]
    linarith
  · rw [q128, q128, factorUnit, div_pow, div_le_iff₀ (by positivity)]
    linarith

/-- The exact product of the factors at the binary digits that are set. -/
def rootProduct : List Word → ℕ → ℚ
  | [], _ => 1
  | factor :: rest, m => (if m % 2 = 1 then q128 factor else 1) * rootProduct rest (m / 2)

/-- Where the factors square to each other and the first one to `y`, products square to powers of
`y`. The error of each factor is carried into all that follow, so it counts as often as the power. -/
theorem within_rootProduct {factors : List Word} (hfactors : ∀ factor ∈ factors, IsFactor factor)
    (hchain : factors.IsChain IsSquareOf) {k : ℕ} {y : ℚ} (hy : 0 < y)
    (hhead : ∀ factor ∈ factors.head?, Within (factorUnit ^ k) (q128 factor ^ 2) y) {m : ℕ}
    (hm : m < 2 ^ factors.length) :
    Within (factorUnit ^ ((k + 2) * m)) (rootProduct factors m ^ 2) (y ^ m) := by
  induction factors generalizing k y m with
  | nil =>
    obtain rfl : m = 0 := by simpa using hm
    simpa [rootProduct] using Within.refl one_pos
  | cons factor rest ih =>
    obtain ⟨hfactor, hlisted⟩ := List.forall_mem_cons.mp hfactors
    have hsquare := hhead factor rfl
    have hnext : ∀ next ∈ rest.head?,
        Within (factorUnit ^ (2 * k + 2)) (q128 next ^ 2) (y ^ 2) := by
      intro next hmem
      have hrelated : IsSquareOf factor next := (List.isChain_cons.mp hchain).1 next hmem
      have hlink := hrelated.within hfactor (hlisted next (List.mem_of_mem_head? hmem))
      have hstep := (hlink.pow 2).trans (hsquare.pow 2)
      rwa [← pow_mul, ← pow_add, show 2 + k * 2 = 2 * k + 2 by ring] at hstep
    have hhalf : m / 2 < 2 ^ rest.length := by
      rw [List.length_cons, pow_succ] at hm
      omega
    have hrest := ih hlisted hchain.tail (pow_pos hy 2) hnext hhalf
    rw [← pow_mul] at hrest
    rcases Nat.mod_two_eq_zero_or_one m with heven | hodd
    · rw [rootProduct, if_neg (by omega), one_mul]
      rw [show 2 * (m / 2) = m by omega] at hrest
      refine hrest.mono (pow_le_pow_right₀ one_le_factorUnit ?_)
      have hm : m = 2 * (m / 2) := by omega
      nlinarith
    · rw [rootProduct, if_pos hodd, mul_pow]
      have hproduct := hsquare.mul hrest
      rw [← pow_add, ← pow_succ', show 2 * (m / 2) + 1 = m by omega] at hproduct
      refine hproduct.mono (pow_le_pow_right₀ one_le_factorUnit ?_)
      have hm : m = 2 * (m / 2) + 1 := by omega
      nlinarith

/-- Products of factors are positive. -/
theorem rootProduct_pos {factors : List Word} (hfactors : ∀ factor ∈ factors, IsFactor factor)
    (m : ℕ) : 0 < rootProduct factors m := by
  induction factors generalizing m with
  | nil => exact one_pos
  | cons factor rest ih =>
    obtain ⟨hfactor, hlisted⟩ := List.forall_mem_cons.mp hfactors
    have hrest := ih hlisted (m / 2)
    rw [rootProduct]
    split
    · exact mul_pos hfactor.q128_pos hrest
    · exact mul_pos one_pos hrest

/-- Products of factors are at most one. -/
theorem rootProduct_le_one {factors : List Word} (hfactors : ∀ factor ∈ factors, IsFactor factor)
    (m : ℕ) : rootProduct factors m ≤ 1 := by
  induction factors generalizing m with
  | nil => exact le_refl 1
  | cons factor rest ih =>
    obtain ⟨hfactor, hlisted⟩ := List.forall_mem_cons.mp hfactors
    have hpos := (rootProduct_pos hlisted (m / 2)).le
    rw [rootProduct]
    split
    · exact mul_le_one₀ hfactor.q128_le_one hpos (ih hlisted (m / 2))
    · rw [one_mul]
      exact ih hlisted (m / 2)

/-- No product is less than the product of all factors. -/
theorem prod_le_rootProduct {factors : List Word} (hfactors : ∀ factor ∈ factors, IsFactor factor)
    (m : ℕ) : (factors.map q128).prod ≤ rootProduct factors m := by
  induction factors generalizing m with
  | nil => exact le_refl 1
  | cons factor rest ih =>
    obtain ⟨hfactor, hlisted⟩ := List.forall_mem_cons.mp hfactors
    have hpos := (rootProduct_pos hlisted (m / 2)).le
    rw [List.map_cons, List.prod_cons, rootProduct]
    split
    · exact mul_le_mul_of_nonneg_left (ih hlisted (m / 2)) hfactor.q128_pos.le
    · exact mul_le_mul hfactor.q128_le_one (ih hlisted (m / 2)) (List.prod_nonneg (by
        intro q hq
        obtain ⟨next, hmem, rfl⟩ := List.mem_map.mp hq
        exact (hlisted next hmem).q128_pos.le)) zero_le_one

/-- A product of a ratio and a factor fits in a word. -/
theorem mul_lt_bound {ratio factor : Word} (hratio : ratio.toNat ≤ 2 ^ 128)
    (hfactor : IsFactor factor) : ratio.toNat * factor.toNat < Word.bound := by
  have hpositive : 0 < factor.toNat := hfactor.1
  calc ratio.toNat * factor.toNat ≤ 2 ^ 128 * factor.toNat := Nat.mul_le_mul_right _ hratio
    _ < 2 ^ 128 * 2 ^ 128 := by
      have hless := hfactor.2
      omega
    _ = 2 ^ 256 := by decide

/-- The whole part of such a product is kept. -/
theorem toNat_mul_shiftRight {ratio factor : Word} (hratio : ratio.toNat ≤ 2 ^ 128)
    (hfactor : IsFactor factor) :
    ((ratio * factor) >>> 128).toNat = ratio.toNat * factor.toNat / 2 ^ 128 := by
  rw [BitVec.toNat_ushiftRight, BitVec.toNat_mul, Nat.mod_eq_of_lt (mul_lt_bound hratio hfactor),
    Nat.shiftRight_eq_div_pow]

/-- The computed product is not above the exact one, and below it by at most one for each factor. -/
theorem multiplyRoots_bounds {factors : List Word}
    (hfactors : ∀ factor ∈ factors, IsFactor factor) (m : ℕ) {ratio : Word}
    (hratio : ratio.toNat ≤ 2 ^ 128) :
    ((multiplyRoots factors m ratio).toNat : ℚ) ≤ ratio.toNat * rootProduct factors m ∧
      ratio.toNat * rootProduct factors m - factors.length ≤
        (multiplyRoots factors m ratio).toNat := by
  induction factors generalizing m ratio with
  | nil => simp [multiplyRoots, rootProduct]
  | cons factor rest ih =>
    obtain ⟨hfactor, hlisted⟩ := List.forall_mem_cons.mp hfactors
    have hpos := (rootProduct_pos hlisted (m / 2)).le
    have hone := rootProduct_le_one hlisted (m / 2)
    rw [multiplyRoots, rootProduct, List.length_cons, Nat.cast_succ]
    split
    · have hvalue := toNat_mul_shiftRight hratio hfactor
      have hstep : ((ratio * factor) >>> 128).toNat ≤ 2 ^ 128 := by
        rw [hvalue]
        exact Nat.div_le_of_le_mul (Nat.mul_le_mul hratio hfactor.2.le)
      obtain ⟨hupper, hlower⟩ := ih hlisted (m / 2) hstep
      obtain ⟨hfloor, hloss⟩ :=
        natCast_div_bounds (ratio.toNat * factor.toNat) (d := 2 ^ 128) (by decide)
      have hexact : ((ratio.toNat * factor.toNat : ℕ) : ℚ) / (2 ^ 128 : ℕ) =
          ratio.toNat * q128 factor := by
        rw [q128, ← mul_div_assoc]
        push_cast
        rfl
      rw [← hvalue, hexact] at hfloor hloss
      constructor
      · calc _ ≤ _ := hupper
          _ ≤ ratio.toNat * q128 factor * rootProduct rest (m / 2) :=
            mul_le_mul_of_nonneg_right hfloor hpos
          _ = _ := by ring
      · have hcarried := mul_le_mul_of_nonneg_right hloss.le hpos
        linarith
    · obtain ⟨hupper, hlower⟩ := ih hlisted (m / 2) hratio
      rw [one_mul]
      exact ⟨hupper, by linarith⟩

end StakeOracle
