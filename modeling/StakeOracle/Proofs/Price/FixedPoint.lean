import StakeOracle.Price.Reserve

/-!
# Decoding UQ112.112 prices is exact

A price scaled by `10 ^ 18` needs up to 316 bits, so a word cannot hold it. Scaled apart, the whole
part needs 204 bits and the fraction 172, and nothing is lost between them: the scaled whole part is
a whole number of wei, so rounding down concerns the fraction alone.
-/

namespace StakeOracle

/-- The part of a UQ112.112 number before the point. -/
def wholePart (price : Word) : Word := price >>> 112

/-- The part behind the point, in multiples of `1 / 2 ^ 112`. -/
def fractionPart (price : Word) : Word := price &&& ((1 <<< 112) - 1)

/-- A price in wei is put together from its two parts. -/
theorem weiOfUq112_eq_parts (price : Word) : weiOfUq112 price =
    wholePart price * weiPerEth + (fractionPart price * weiPerEth) >>> 112 := rfl

/-- The whole part is the price cut at the point. -/
theorem toNat_wholePart (price : Word) : (wholePart price).toNat = price.toNat / 2 ^ 112 := by
  rw [wholePart, BitVec.toNat_ushiftRight, Nat.shiftRight_eq_div_pow]

/-- The fraction is what is left behind the point. -/
theorem toNat_fractionPart (price : Word) :
    (fractionPart price).toNat = price.toNat % 2 ^ 112 := by
  have hmask : ((1 <<< 112) - 1 : Word).toNat = 2 ^ 112 - 1 := rfl
  rw [fractionPart, BitVec.toNat_and, hmask, Nat.and_two_pow_sub_one_eq_mod]

/-- A price is its whole part and its fraction. -/
theorem wholePart_add_fractionPart (price : Word) :
    (wholePart price).toNat * 2 ^ 112 + (fractionPart price).toNat = price.toNat := by
  rw [toNat_wholePart, toNat_fractionPart]
  exact Nat.div_add_mod' _ _

/-- The whole part has 144 bits. -/
theorem wholePart_lt (price : Word) : (wholePart price).toNat < 2 ^ 144 := by
  have hprice : price.toNat < 2 ^ 256 := price.isLt
  rw [toNat_wholePart]
  omega

/-- The fraction has 112 bits. -/
theorem fractionPart_lt (price : Word) : (fractionPart price).toNat < 2 ^ 112 := by
  rw [toNat_fractionPart]
  exact Nat.mod_lt _ (by decide)

/-- The whole part in wei fits a word. -/
theorem umulOverflow_wholePart (price : Word) :
    ¬ (wholePart price).umulOverflow weiPerEth := by
  have hlt := wholePart_lt price
  intro hwraps
  have hge : 2 ^ 256 ≤ (wholePart price).toNat * weiPerEth.toNat := of_decide_eq_true hwraps
  rw [toNat_weiPerEth] at hge
  omega

/-- The fraction, scaled, fits a word. -/
theorem umulOverflow_fractionPart (price : Word) :
    ¬ (fractionPart price).umulOverflow weiPerEth := by
  have hlt := fractionPart_lt price
  intro hwraps
  have hge : 2 ^ 256 ≤ (fractionPart price).toNat * weiPerEth.toNat := of_decide_eq_true hwraps
  rw [toNat_weiPerEth] at hge
  omega

/-- The whole part in wei is exact. -/
theorem toNat_scaledWhole (price : Word) :
    (wholePart price * weiPerEth).toNat = (wholePart price).toNat * 10 ^ 18 := by
  rw [BitVec.toNat_mul_of_not_umulOverflow (umulOverflow_wholePart price), toNat_weiPerEth]

/-- The fraction in wei is rounded down once. -/
theorem toNat_scaledFraction (price : Word) : ((fractionPart price * weiPerEth) >>> 112).toNat =
    (fractionPart price).toNat * 10 ^ 18 / 2 ^ 112 := by
  rw [BitVec.toNat_ushiftRight, Nat.shiftRight_eq_div_pow,
    BitVec.toNat_mul_of_not_umulOverflow (umulOverflow_fractionPart price), toNat_weiPerEth]

/-- The sum of both fits a word: what is left of the fraction is less than one ether. -/
theorem uaddOverflow_parts (price : Word) : ¬ (wholePart price * weiPerEth).uaddOverflow
    ((fractionPart price * weiPerEth) >>> 112) := by
  have hwhole := wholePart_lt price
  have hfraction := fractionPart_lt price
  intro hwraps
  have hge : 2 ^ 256 ≤ (wholePart price * weiPerEth).toNat +
      ((fractionPart price * weiPerEth) >>> 112).toNat := of_decide_eq_true hwraps
  rw [toNat_scaledWhole, toNat_scaledFraction] at hge
  omega

/-- A multiple of `2 ^ 112` may be divided apart from the rest, before or after scaling. -/
theorem scaled_div_split (whole fraction : Nat) :
    (whole * 2 ^ 112 + fraction) * 10 ^ 18 / 2 ^ 112 =
      whole * 10 ^ 18 + fraction * 10 ^ 18 / 2 ^ 112 := by
  rw [Nat.add_mul, Nat.mul_right_comm, Nat.add_comm, Nat.add_mul_div_right _ _ (by decide),
    Nat.add_comm]

/-- The decoded price is the exact one, rounded down. -/
theorem toNat_weiOfUq112 (price : Word) :
    (weiOfUq112 price).toNat = price.toNat * 10 ^ 18 / 2 ^ 112 := by
  rw [weiOfUq112_eq_parts, BitVec.toNat_add_of_not_uaddOverflow (uaddOverflow_parts price),
    toNat_scaledWhole, toNat_scaledFraction, ← scaled_div_split, wholePart_add_fractionPart]

/-- A price is split without loss, no product and no sum of its decoding wraps, the decoded price is
the exact one rounded down, and greater prices are not decoded as less. -/
theorem weiOfUq112_exact (price : Word) :
    let scaledWhole := wholePart price * weiPerEth
    let scaledFraction := (fractionPart price * weiPerEth) >>> 112
    weiOfUq112 price = scaledWhole + scaledFraction ∧
    (wholePart price).toNat * 2 ^ 112 + (fractionPart price).toNat = price.toNat ∧
    ¬ (wholePart price).umulOverflow weiPerEth ∧ ¬ (fractionPart price).umulOverflow weiPerEth ∧
    ¬ scaledWhole.uaddOverflow scaledFraction ∧
    (weiOfUq112 price).toNat = price.toNat * 10 ^ 18 / 2 ^ 112 ∧
    ∀ greater, price ≤ greater → weiOfUq112 price ≤ weiOfUq112 greater := by
  refine ⟨weiOfUq112_eq_parts price, wholePart_add_fractionPart price, umulOverflow_wholePart price,
    umulOverflow_fractionPart price, uaddOverflow_parts price, toNat_weiOfUq112 price,
    fun greater hle => ?_⟩
  rw [BitVec.le_def, toNat_weiOfUq112, toNat_weiOfUq112]
  exact Nat.div_le_div_right (Nat.mul_le_mul_right _ (BitVec.le_def.mp hle))

/-- One and a half is decoded exactly, and the greatest price, whose product is far beyond a word, as
no less. -/
theorem weiOfUq112_of_one_and_a_half :
    let price : Word := 3 <<< 111
    price ≤ BitVec.allOnes 256 ∧ (weiOfUq112 price).toNat = 1500000000000000000 ∧
      weiOfUq112 price ≤ weiOfUq112 (BitVec.allOnes 256) := by
  intro price
  have hle : price ≤ BitVec.allOnes 256 := by decide
  have hvalue : price.toNat * 10 ^ 18 / 2 ^ 112 = 1500000000000000000 := by decide
  obtain ⟨-, -, -, -, -, hexact, hmono⟩ := weiOfUq112_exact price
  exact ⟨hle, hexact.trans hvalue, hmono _ hle⟩

end StakeOracle
