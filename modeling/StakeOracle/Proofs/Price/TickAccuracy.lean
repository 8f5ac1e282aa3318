import StakeOracle.Proofs.Price.RootFactors

/-!
# The accuracy of tick prices

A tick of magnitude `m` has the computed product for `m` as its root, or the reciprocal of that. The
product of all factors still leaves 52 bits of a root, of which at most 20 units are truncated. So a
root squares to the power of `1.0001` that it stands for, up to `2 ^ -45`, and the price of a tick
misses its true value by the final truncation and by a relative error far below `10 ^ -9`.
-/

namespace StakeOracle

/-- The errors of the stored factors add up to little for all ticks in range. -/
theorem factorUnit_pow_le {m : ℕ} (hm : m ≤ maxTick) : factorUnit ^ (3 * m) ≤ 1 + 1 / 2 ^ 60 := by
  have hcast : (m : ℚ) ≤ 887272 := by exact_mod_cast hm
  have hsmall : ((3 * m : ℕ) : ℚ) * (1 / 2 ^ 90) ≤ 1 / 2 ^ 61 := by
    push_cast
    linarith
  have hpower := one_add_pow_le (n := 3 * m) (by positivity : (0 : ℚ) ≤ 1 / 2 ^ 90) (by linarith)
  rw [factorUnit]
  linarith

/-- The exact product of the factors of a tick squares to the power of `1.0001`. -/
theorem within_rootProduct_rootFactors {m : ℕ} (hm : m ≤ maxTick) :
    Within (1 + 1 / 2 ^ 60) (rootProduct rootFactors m ^ 2) ((10000 / 10001) ^ m) := by
  have hhead : ∀ factor ∈ rootFactors.head?,
      Within (factorUnit ^ 1) (q128 factor ^ 2) (10000 / 10001) := by
    intro factor hmem
    obtain rfl := Option.some.inj hmem
    simp only [q128, factorUnit, BitVec.reduceToNat]
    constructor
    · norm_num
    · norm_num
    · norm_num
    · norm_num
  have hrange : m < 2 ^ rootFactors.length := Nat.lt_of_le_of_lt hm (by decide)
  exact (within_rootProduct isFactor_of_mem_rootFactors isChain_rootFactors (by norm_num) hhead
    hrange).mono (factorUnit_pow_le hm)

/-- Even the product of all factors leaves 52 bits. -/
theorem two_pow_le_rootProduct (m : ℕ) : (2 : ℚ) ^ 52 ≤ 2 ^ 128 * rootProduct rootFactors m := by
  have hall : (2 : ℚ) ^ 52 ≤ 2 ^ 128 * (rootFactors.map q128).prod := by
    simp only [rootFactors, q128, List.map_cons, List.map_nil, List.prod_cons, List.prod_nil,
      BitVec.reduceToNat]
    norm_num
  have hprod := prod_le_rootProduct isFactor_of_mem_rootFactors m
  linarith

/-- The computed root of a magnitude. -/
def computedRoot (m : ℕ) : Word := multiplyRoots rootFactors m (1 <<< 128)

/-- The computed root is at most one and keeps 51 bits, and truncation moves it by less than
`2 ^ -47` of the exact product. -/
theorem computedRoot_bounds (m : ℕ) :
    2 ^ 51 ≤ (computedRoot m).toNat ∧ (computedRoot m).toNat ≤ 2 ^ 128 ∧
      Within (1 + 1 / 2 ^ 47) (q128 (computedRoot m)) (rootProduct rootFactors m) := by
  have hone : ((1 <<< 128 : Word)).toNat = 2 ^ 128 := by decide
  obtain ⟨hupper, hlower⟩ := multiplyRoots_bounds isFactor_of_mem_rootFactors m hone.le
  change ((computedRoot m).toNat : ℚ) ≤ _ at hupper
  change _ ≤ ((computedRoot m).toNat : ℚ) at hlower
  have hlength : rootFactors.length = 20 := rfl
  rw [hone] at hupper hlower
  rw [hlength] at hlower
  push_cast at hupper hlower
  have hbits := two_pow_le_rootProduct m
  have hle := rootProduct_le_one isFactor_of_mem_rootFactors m
  have hpos := rootProduct_pos isFactor_of_mem_rootFactors m
  refine ⟨?_, ?_, ?_, hpos, ?_, ?_⟩
  · have hroot : (2 : ℚ) ^ 51 ≤ (computedRoot m).toNat := by linarith
    exact_mod_cast hroot
  · have hroot : ((computedRoot m).toNat : ℚ) ≤ 2 ^ 128 := by linarith
    exact_mod_cast hroot
  · exact div_pos (by linarith) (by positivity)
  · rw [q128, div_le_iff₀ (by positivity)]
    linarith
  · rw [q128, ← mul_div_assoc, le_div_iff₀ (by positivity)]
    linarith

/-- Dividing the greatest word by a root of at most one gives its reciprocal. -/
theorem within_reciprocal {root : Word} (hpos : 0 < root.toNat) (hle : root.toNat ≤ 2 ^ 128) :
    Within (1 + 1 / 2 ^ 120) (q128 (BitVec.allOnes 256 / root)) (q128 root)⁻¹ := by
  have hvalue : (BitVec.allOnes 256 / root).toNat = (2 ^ 256 - 1) / root.toNat := by
    rw [BitVec.toNat_udiv, BitVec.toNat_allOnes]
  have hroot : (0 : ℚ) < root.toNat := by exact_mod_cast hpos
  have hcap : (root.toNat : ℚ) ≤ 2 ^ 128 := by exact_mod_cast hle
  -- The quotient times the root falls short of the greatest word by less than the root.
  have hupper : ((BitVec.allOnes 256 / root).toNat : ℚ) * root.toNat ≤ 2 ^ 256 := by
    have hproduct := Nat.div_mul_le_self (2 ^ 256 - 1) root.toNat
    rw [← hvalue] at hproduct
    have hbound : (BitVec.allOnes 256 / root).toNat * root.toNat ≤ 2 ^ 256 := by omega
    exact_mod_cast hbound
  have hlower : (2 : ℚ) ^ 256 - 2 ^ 128 ≤ (BitVec.allOnes 256 / root).toNat * root.toNat := by
    have hproduct := Nat.lt_div_mul_add (a := 2 ^ 256 - 1) hpos
    rw [← hvalue] at hproduct
    have hbound : 2 ^ 256 ≤ (BitVec.allOnes 256 / root).toNat * root.toNat + 2 ^ 128 := by omega
    have hcast : (2 : ℚ) ^ 256 ≤ (BitVec.allOnes 256 / root).toNat * root.toNat + 2 ^ 128 := by
      exact_mod_cast hbound
    linarith
  have hquotient : (0 : ℚ) < (BitVec.allOnes 256 / root).toNat := by
    by_contra hzero
    have hnonpos := mul_nonpos_of_nonpos_of_nonneg (not_lt.mp hzero) hroot.le
    linarith
  refine ⟨div_pos hquotient (by positivity), inv_pos.mpr (div_pos hroot (by positivity)), ?_, ?_⟩
  · rw [q128, q128, inv_div, ← mul_div_assoc, div_le_div_iff₀ (by positivity) hroot]
    linarith
  · rw [q128, q128, inv_div, ← mul_div_assoc, div_le_div_iff₀ hroot (by positivity)]
    linarith

/-- The computed root squares to the power of `1.0001` of its magnitude. -/
theorem within_computedRoot {m : ℕ} (hm : m ≤ maxTick) :
    Within ((1 + 1 / 2 ^ 47) ^ 2 * (1 + 1 / 2 ^ 60)) (q128 (computedRoot m) ^ 2)
      ((10000 / 10001) ^ m) := by
  obtain ⟨-, -, hroot⟩ := computedRoot_bounds m
  exact (hroot.pow 2).trans (within_rootProduct_rootFactors hm)

/-- A tick in range has a root of at least 51 bits, and the root squares to the power of `1.0001`
of the tick. -/
theorem within_sqrtRatio {tick : ℤ} (h : tick.natAbs ≤ maxTick) :
    ∃ ratio, sqrtRatio tick = .ok ratio ∧ 2 ^ 51 ≤ ratio.toNat ∧
      Within (1 + 1 / 10 ^ 9) (q128 ratio ^ 2) ((10000 / 10001) ^ (-tick)) := by
  obtain ⟨hbits, hone, -⟩ := computedRoot_bounds tick.natAbs
  have hroot := within_computedRoot h
  have hratio : sqrtRatio tick = .ok (if 0 < tick then
      BitVec.allOnes 256 / computedRoot tick.natAbs else computedRoot tick.natAbs) :=
    if_neg (Nat.not_lt.mpr h)
  refine ⟨_, hratio, ?_⟩
  by_cases hpositive : 0 < tick
  · have htick : -tick = -(tick.natAbs : ℤ) := by omega
    have hquotient : 2 ^ 51 ≤ (BitVec.allOnes 256 / computedRoot tick.natAbs).toNat := by
      rw [BitVec.toNat_udiv, BitVec.toNat_allOnes, Nat.le_div_iff_mul_le (by omega)]
      omega
    have hreciprocal := (within_reciprocal (by omega) hone).pow 2
    rw [inv_pow] at hreciprocal
    rw [if_pos hpositive, htick, zpow_neg, zpow_natCast]
    exact ⟨hquotient, (hreciprocal.trans hroot.inv).mono (by norm_num)⟩
  · have htick : -tick = (tick.natAbs : ℤ) := by omega
    rw [if_neg hpositive, htick, zpow_natCast]
    exact ⟨hbits, hroot.mono (by norm_num)⟩

/-- A root of 51 bits has a price, which is the whole part of the quotient. -/
theorem priceOfRoot_of_bits (tick : ℤ) {ratio : Word} (hbits : 2 ^ 51 ≤ ratio.toNat) :
    ∃ price, priceOfRoot tick ratio = .ok price ∧
      price.toNat = 10 ^ 18 * 2 ^ 256 / (ratio.toNat * ratio.toNat) := by
  have hsquare : 2 ^ 51 * 2 ^ 51 ≤ ratio.toNat * ratio.toNat := Nat.mul_le_mul hbits hbits
  have hfits : 10 ^ 18 * 2 ^ 256 / (ratio.toNat * ratio.toNat) < 2 ^ 256 := by
    rw [Nat.div_lt_iff_lt_mul (by omega)]
    omega
  have hvalue : (BitVec.ofNat 256 (10 ^ 18 * 2 ^ 256 / (ratio.toNat * ratio.toNat))).toNat =
      10 ^ 18 * 2 ^ 256 / (ratio.toNat * ratio.toNat) := by
    rw [BitVec.toNat_ofNat, Nat.mod_eq_of_lt hfits]
  refine ⟨_, ?_, hvalue⟩
  unfold priceOfRoot
  rw [if_neg (by omega), Word.fit?_eq_some_iff.mpr hvalue]

/-- Every tick in range has a price, and it is `10 ^ 18` units at `1.0001` to the minus tick, up to
one unit and a relative error of `10 ^ -9`. -/
theorem priceOfTick_accurate (tick : ℤ) (h : |tick| ≤ 887272) :
    ∃ price, priceOfTick tick = .ok price ∧
      |(price.toNat : ℚ) - 10 ^ 18 * (10000 / 10001) ^ tick| ≤
        1 + 1 / 10 ^ 9 * (10 ^ 18 * (10000 / 10001) ^ tick) := by
  have hrange : tick.natAbs ≤ maxTick := by
    rw [Int.abs_eq_natAbs] at h
    exact_mod_cast h
  obtain ⟨ratio, hratio, hbits, hwithin⟩ := within_sqrtRatio hrange
  obtain ⟨price, hprice, hvalue⟩ := priceOfRoot_of_bits tick hbits
  refine ⟨price, by rw [priceOfTick, hratio]; exact hprice, ?_⟩
  have hsquare : 0 < ratio.toNat * ratio.toNat := Nat.mul_pos (by omega) (by omega)
  have hquotient : ((10 ^ 18 * 2 ^ 256 : ℕ) : ℚ) / (ratio.toNat * ratio.toNat : ℕ) =
      10 ^ 18 * (q128 ratio ^ 2)⁻¹ := by
    rw [q128, div_pow, inv_div, ← mul_div_assoc, Nat.cast_mul, ← pow_two]
    norm_num
  have hfloor : |(price.toNat : ℚ) - 10 ^ 18 * (q128 ratio ^ 2)⁻¹| ≤ 1 := by
    obtain ⟨hle, hlt⟩ := natCast_div_bounds (10 ^ 18 * 2 ^ 256) hsquare
    rw [← hvalue, hquotient] at hle hlt
    rw [abs_le]
    exact ⟨by linarith, by linarith⟩
  have hrelative := hwithin.inv.abs_sub_le
  rw [zpow_neg, inv_inv] at hrelative
  have hscaled : |10 ^ 18 * (q128 ratio ^ 2)⁻¹ - 10 ^ 18 * (10000 / 10001 : ℚ) ^ tick| ≤
      1 / 10 ^ 9 * (10 ^ 18 * (10000 / 10001) ^ tick) := by
    rw [← mul_sub, abs_mul, abs_of_pos (by positivity)]
    linarith
  exact (abs_sub_le _ _ _).trans (add_le_add hfloor hscaled)

/-- One tick down, `10 ^ 18` units cost `1.0001 * 10 ^ 18`. -/
theorem priceOfTick_one_down :
    ∃ price, priceOfTick (-1) = .ok price ∧
      |(price.toNat : ℚ) - 1000100000000000000| ≤ 1000100001 := by
  have h := priceOfTick_accurate (-1) (by decide)
  norm_num at h
  exact h

end StakeOracle
