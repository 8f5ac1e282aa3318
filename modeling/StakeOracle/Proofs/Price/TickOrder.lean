import StakeOracle.Proofs.Price.TickFailures

/-!
# Prices fall as ticks rise

Roots one tick apart differ by half a part in ten thousand, and the roots that are computed miss the
true ones by far less. So the price before its last truncation falls with every tick by almost
`10 ^ -4` of itself, although the factors that make up two neighbouring roots may have nothing in
common. Truncation keeps the order, and keeps it strict as long as a step is worth a whole unit.
-/

namespace StakeOracle

/-- A tick higher, the power of `1.0001` is lower by one factor at least. -/
theorem power_succ_le {tick tick' : ℤ} (h : tick < tick') :
    (10000 / 10001 : ℚ) ^ tick' ≤ 10000 / 10001 * (10000 / 10001) ^ tick := by
  calc (10000 / 10001 : ℚ) ^ tick' ≤ (10000 / 10001) ^ (tick + 1) :=
        zpow_le_zpow_right_of_le_one₀ (by norm_num) (by norm_num) (by omega)
    _ = 10000 / 10001 * (10000 / 10001) ^ tick := by
        rw [zpow_add_one₀ (by norm_num), mul_comm]

/-- Up to tick 300000 the powers leave room for a step of a whole unit. -/
theorem le_power {tick : ℤ} (h : tick ≤ 300000) :
    4 / 10 ^ 14 ≤ (10000 / 10001 : ℚ) ^ tick := by
  have hbernoulli := one_add_mul_le_pow (by norm_num : (-2 : ℚ) ≤ -(1 / 10001)) 100
  have hhundred : (99 / 100 : ℚ) ≤ (10000 / 10001) ^ 100 := by
    calc (99 / 100 : ℚ) ≤ 1 + (100 : ℕ) * -(1 / 10001) := by norm_num
      _ ≤ (1 + -(1 / 10001)) ^ 100 := hbernoulli
      _ = (10000 / 10001) ^ 100 := by norm_num
  have hmyriad : (36 / 100 : ℚ) ≤ (99 / 100) ^ 100 := by norm_num
  calc (4 / 10 ^ 14 : ℚ) ≤ (36 / 100) ^ 30 := by norm_num
    _ ≤ ((99 / 100) ^ 100) ^ 30 := pow_le_pow_left₀ (by norm_num) hmyriad 30
    _ ≤ (((10000 / 10001) ^ 100) ^ 100) ^ 30 :=
      pow_le_pow_left₀ (by positivity) (pow_le_pow_left₀ (by positivity) hhundred 100) 30
    _ = (10000 / 10001) ^ (300000 : ℤ) := by
      rw [← pow_mul, ← pow_mul]
      rfl
    _ ≤ (10000 / 10001) ^ tick := zpow_le_zpow_right_of_le_one₀ (by norm_num) (by norm_num) h

namespace ExactPrice

variable {tick tick' : ℤ} {ratio ratio' price price' : Word}

/-- A price is what truncation leaves of `10 ^ 18` by the square of the root. -/
theorem truncates (h : ExactPrice tick ratio price) :
    (price.toNat : ℚ) ≤ 10 ^ 18 * (q128 ratio ^ 2)⁻¹ ∧
      10 ^ 18 * (q128 ratio ^ 2)⁻¹ < price.toNat + 1 := by
  have hquotient : ((10 ^ 18 * 2 ^ 256 : ℕ) : ℚ) / (ratio.toNat * ratio.toNat : ℕ) =
      10 ^ 18 * (q128 ratio ^ 2)⁻¹ := by
    rw [q128, div_pow, inv_div, ← mul_div_assoc, Nat.cast_mul, ← pow_two]
    norm_num
  obtain ⟨hle, hlt⟩ := natCast_div_bounds (10 ^ 18 * 2 ^ 256) h.square_pos
  rw [← h.toNat_price, hquotient] at hle hlt
  exact ⟨hle, hlt⟩

/-- Before truncation it is a power of `1.0001`. -/
theorem within (h : ExactPrice tick ratio price) :
    Within (1 + 1 / 10 ^ 9) (q128 ratio ^ 2)⁻¹ ((10000 / 10001) ^ tick) := by
  obtain ⟨found, hfound, -, hwithin⟩ := within_sqrtRatio (natAbs_le_maxTick_iff.mpr h.in_range)
  obtain rfl : ratio = found := Except.ok.inj (h.sqrtRatio_eq.symm.trans hfound)
  have hinverse := hwithin.inv
  rwa [zpow_neg, inv_inv] at hinverse

/-- Before truncation prices fall by almost `10 ^ -4` of themselves with every tick. -/
theorem step_le (h : ExactPrice tick ratio price) (h' : ExactPrice tick' ratio' price')
    (hlt : tick < tick') :
    (1 + 99 / 10 ^ 6) * (q128 ratio' ^ 2)⁻¹ ≤ (q128 ratio ^ 2)⁻¹ := by
  have hpositive := h.within.left_pos
  have hupper := h'.within.le
  have hpower := power_succ_le hlt
  have hlower := h.within.ge
  calc (1 + 99 / 10 ^ 6) * (q128 ratio' ^ 2)⁻¹
      ≤ (1 + 99 / 10 ^ 6) * ((1 + 1 / 10 ^ 9) * (10000 / 10001) ^ tick') := by gcongr
    _ ≤ (1 + 99 / 10 ^ 6) * ((1 + 1 / 10 ^ 9) * (10000 / 10001 * (10000 / 10001) ^ tick)) := by
        gcongr
    _ ≤ (1 + 99 / 10 ^ 6) * ((1 + 1 / 10 ^ 9) *
          (10000 / 10001 * ((1 + 1 / 10 ^ 9) * (q128 ratio ^ 2)⁻¹))) := by gcongr
    _ = (1 + 99 / 10 ^ 6) * (1 + 1 / 10 ^ 9) ^ 2 * (10000 / 10001) * (q128 ratio ^ 2)⁻¹ := by ring
    _ ≤ 1 * (q128 ratio ^ 2)⁻¹ := mul_le_mul_of_nonneg_right (by norm_num) hpositive.le
    _ = (q128 ratio ^ 2)⁻¹ := one_mul _

/-- A higher tick has no higher price. -/
theorem price_le (h : ExactPrice tick ratio price) (h' : ExactPrice tick' ratio' price')
    (hle : tick ≤ tick') : price' ≤ price := by
  rcases hle.eq_or_lt with rfl | hlt
  · have hsame : price = price' := Except.ok.inj (h.priceOfTick_eq.symm.trans h'.priceOfTick_eq)
    exact BitVec.le_of_eq hsame.symm
  · have hpositive := h'.within.left_pos
    have hstep := h.step_le h' hlt
    have hnext : (price'.toNat : ℚ) < price.toNat + 1 := by
      linarith [h.truncates.2, h'.truncates.1]
    have hbelow : price'.toNat < price.toNat + 1 := by exact_mod_cast hnext
    exact BitVec.le_def.mpr (Nat.lt_succ_iff.mp hbelow)

/-- Up to tick 300000 it has a lower one. -/
theorem price_lt (h : ExactPrice tick ratio price) (h' : ExactPrice tick' ratio' price')
    (hlt : tick < tick') (hlow : tick' ≤ 300000) : price' < price := by
  have hstep := h.step_le h' hlt
  have hworth : 4 / 10 ^ 14 ≤ (1 + 1 / 10 ^ 9) * (q128 ratio' ^ 2)⁻¹ :=
    (le_power hlow).trans h'.within.ge
  -- So a step is worth four units before truncation, of which truncation takes less than one.
  have hnext : (price'.toNat : ℚ) < price.toNat := by
    linarith [h.truncates.2, h'.truncates.1]
  exact BitVec.lt_def.mpr (by exact_mod_cast hnext)

end ExactPrice

/-- The mean tick rises with the change of the cumulative. -/
theorem floorTick_mono {change change' : ℤ} (h : change ≤ change') (window : UInt32) :
    floorTick change window ≤ floorTick change' window := by
  have hcast : (change : ℚ) ≤ change' := by exact_mod_cast h
  exact Int.floor_mono (div_le_div_of_nonneg_right hcast (Nat.cast_nonneg _))

/-- A source that answers with a price answers with that of the mean tick of its observations. -/
theorem priceOfTick_of_priceAt {chain : Chain} {first second : Int64} {rest : List Int64}
    {pool : Address} {window : UInt32} {block : UInt64} {price : Word}
    (hobserved : (Chain.readTickCumulatives.ask chain).result = .ok (first :: second :: rest))
    (h : (((PriceSource.tick pool window).priceAt block).ask chain).result = .ok price) :
    priceOfTick (floorTick (second.toInt - first.toInt) window) = .ok price := by
  rw [result_priceAt_tick hobserved] at h
  obtain ⟨tick, htick, hprice⟩ := bind_eq_ok.mp h
  obtain ⟨_, _, _, hlist, -, -, rfl⟩ := meanTick_eq_ok_iff.mp htick
  cases hlist
  exact hprice

/-- Ticks in range have prices, a higher tick has no higher price, and up to tick 300000 it has a lower
one. So of two sources with the same window whose observations lead to prices, the one whose
cumulative has grown more has no higher price. -/
theorem price_antitone :
    (∀ tick tick' : ℤ, -887272 ≤ tick → tick ≤ tick' → tick' ≤ 887272 →
      ∃ price price', priceOfTick tick = .ok price ∧ priceOfTick tick' = .ok price' ∧
        price' ≤ price ∧ (tick < tick' → tick' ≤ 300000 → price' < price)) ∧
    ∀ (pool pool' : Address) (window : UInt32) (block block' : UInt64) (chain chain' : Chain)
      (first second first' second' : Int64) (rest rest' : List Int64) (price price' : Word),
      (Chain.readTickCumulatives.ask chain).result = .ok (first :: second :: rest) →
      (Chain.readTickCumulatives.ask chain').result = .ok (first' :: second' :: rest') →
      second.toInt - first.toInt ≤ second'.toInt - first'.toInt →
      (((PriceSource.tick pool window).priceAt block).ask chain).result = .ok price →
      (((PriceSource.tick pool' window).priceAt block').ask chain').result = .ok price' →
      price' ≤ price := by
  constructor
  · intro tick tick' hmin hle hmax
    have hrange : |tick| ≤ 887272 := abs_le.mpr ⟨hmin, hle.trans hmax⟩
    have hrange' : |tick'| ≤ 887272 := abs_le.mpr ⟨hmin.trans hle, hmax⟩
    obtain ⟨ratio, price, hexact⟩ := exists_exactPrice hrange
    obtain ⟨ratio', price', hexact'⟩ := exists_exactPrice hrange'
    exact ⟨price, price', hexact.priceOfTick_eq, hexact'.priceOfTick_eq,
      hexact.price_le hexact' hle,
      fun hlt hlow => hexact.price_lt hexact' hlt hlow⟩
  · intro pool pool' window block block' chain chain' first second first' second' rest rest' price
      price' hobserved hobserved' hchange hanswer hanswer'
    obtain ⟨ratio, hexact⟩ :=
      exists_exactPrice_of_eq_ok (priceOfTick_of_priceAt hobserved hanswer)
    obtain ⟨ratio', hexact'⟩ :=
      exists_exactPrice_of_eq_ok (priceOfTick_of_priceAt hobserved' hanswer')
    exact hexact.price_le hexact' (floorTick_mono hchange window)

/-- A chain whose price pool gained a hundred ticks in a window. -/
def risingPool : Chain := { Chain.fresh with tickCumulatives := some [-40, 60, 0] }

/-- The last of the steps that are strict is worth ten units, and a pool that gained a hundred ticks in
thirty seconds has no higher price than one that lost as many. -/
theorem price_after_rise :
    (∃ price price', priceOfTick 299999 = .ok price ∧ priceOfTick 300000 = .ok price' ∧
      price' < price ∧ price.toNat = 93726 ∧ price'.toNat = 93716) ∧
    (((PriceSource.tick (Octets.replicate 20 7) 30).priceAt 50).ask fallingPool).result =
      .ok 1000400060004000099 ∧
    (((PriceSource.tick (Octets.replicate 20 7) 30).priceAt 50).ask risingPool).result =
      .ok 999700059990001499 ∧
    (999700059990001499 : Word) ≤ 1000400060004000099 := by
  obtain ⟨hticks, hsources⟩ := price_antitone
  have hfallen : (((PriceSource.tick (Octets.replicate 20 7) 30).priceAt 50).ask
      fallingPool).result = .ok 1000400060004000099 := rfl
  have hrisen : (((PriceSource.tick (Octets.replicate 20 7) 30).priceAt 50).ask
      risingPool).result = .ok 999700059990001499 := rfl
  refine ⟨?_, hfallen, hrisen,
    hsources _ _ _ _ _ _ _ _ _ _ _ _ _ _ _ rfl rfl (by decide) hfallen hrisen⟩
  obtain ⟨price, price', hprice, hprice', -, hstrict⟩ :=
    hticks 299999 300000 (by decide) (by decide) (by decide)
  have hvalue : priceOfTick 299999 = .ok 93726 := rfl
  have hvalue' : priceOfTick 300000 = .ok 93716 := rfl
  refine ⟨price, price', hprice, hprice', hstrict (by decide) (by decide), ?_, ?_⟩
  · rw [← Except.ok.inj (hvalue.symm.trans hprice)]
    rfl
  · rw [← Except.ok.inj (hvalue'.symm.trans hprice')]
    rfl

end StakeOracle
