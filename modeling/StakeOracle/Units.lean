import StakeOracle.Numeric.Binary64
import StakeOracle.Numeric.Decimal
import StakeOracle.Numeric.Word

/-!
# Wei, gwei and ether

Amounts are words of wei. Whole ether and whole gwei always fit; fractional gwei, as people write
fees, are rounded to the nearest wei and refused when they are negative, not finite or beyond
128 bits. For people an amount is written in ether, cut after six decimals.
-/

namespace StakeOracle

/-- Wei in one ether. -/
def weiPerEth : Word := 1000000000000000000

/-- Wei in one gwei. -/
def weiPerGwei : Word := 1000000000

/-- An ether is `10 ^ 18` wei. -/
theorem toNat_weiPerEth : weiPerEth.toNat = 10 ^ 18 := rfl

/-- A gwei is `10 ^ 9` wei. -/
theorem toNat_weiPerGwei : weiPerGwei.toNat = 10 ^ 9 := rfl

/-- Whole ether in wei. -/
def ethToWei (eth : UInt64) : Word := Word.ofUInt64 eth * weiPerEth

/-- Whole gwei in wei. -/
def gweiToWei (gwei : UInt64) : Word := Word.ofUInt64 gwei * weiPerGwei

/-- Whole ether always fit in wei. -/
theorem toNat_ethToWei (eth : UInt64) : (ethToWei eth).toNat = eth.toNat * 10 ^ 18 := by
  have := eth.toNat_lt
  rw [ethToWei, BitVec.toNat_mul, Word.toNat_ofUInt64, toNat_weiPerEth]
  omega

/-- Whole gwei always fit in wei. -/
theorem toNat_gweiToWei (gwei : UInt64) : (gweiToWei gwei).toNat = gwei.toNat * 10 ^ 9 := by
  have := gwei.toNat_lt
  rw [gweiToWei, BitVec.toNat_mul, Word.toNat_ofUInt64, toNat_weiPerGwei]
  omega

/-- Fractional gwei in wei, rounded to the nearest wei, a half away from zero. Exactly `2 ^ 128`
counts as the greatest 128-bit amount. -/
def gweiToWei? (gwei : Float) : Option Word :=
  match Binary64.ofFloat gwei with
  | .notANumber => none
  | .infinite _ => none
  | .finite amount =>
    if amount.negative ∧ amount.mantissa ≠ 0 then none
    else
      match Binary64.ofFloat (gwei * 1e9) with
      | .finite wei =>
        if 2 ^ 128 < wei.rounded then none
        else some (BitVec.ofNat 256 (min wei.rounded (2 ^ 128 - 1)))
      | _ => none

/-- Amounts read from fractional gwei are below `2 ^ 128`. -/
theorem toNat_lt_of_gweiToWei? {gwei : Float} {wei : Word} (h : gweiToWei? gwei = some wei) :
    wei.toNat < 2 ^ 128 := by
  unfold gweiToWei? at h
  split at h
  · cases h
  · cases h
  · split at h
    · cases h
    · split at h
      · split at h
        · cases h
        · cases h
          simp only [BitVec.toNat_ofNat]
          omega
      · cases h

/-- An amount in ether, cut after six decimals. -/
def formatEth (wei : Word) : String :=
  let whole := wei.toNat / 10 ^ 18
  let micro := wei.toNat % 10 ^ 18 / 10 ^ 12
  String.ofList (Decimal.digits whole ++ '.' :: Decimal.padded 6 micro)

end StakeOracle
