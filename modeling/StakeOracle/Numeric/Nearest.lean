import StakeOracle.Numeric.Decimal
import StakeOracle.Numeric.Power

/-!
# The nearest double

A fraction is rounded to the nearest double, a tie to the one with the even mantissa, and to
infinity beyond the greatest finite double. A decimal is read as a fraction first, so one rounding
is all that happens.
-/

namespace StakeOracle.Nearest

/-- A quotient rounded to the nearest whole number, a half to the even one. -/
def quotient (num den : Nat) : Nat :=
  let q := num / den
  let r := num % den
  if 2 * r < den ∨ 2 * r = den ∧ q % 2 = 0 then q else q + 1

/-- The rounded quotient is within one half of the quotient. -/
theorem quotient_near (num : Nat) {den : Nat} (h : 0 < den) :
    2 * (quotient num den * den) ≤ 2 * num + den ∧
      2 * num ≤ 2 * (quotient num den * den) + den := by
  have hsum : num / den * den + num % den = num := Nat.div_add_mod' num den
  have hrest : num % den < den := Nat.mod_lt num h
  unfold quotient
  simp only
  split
  · omega
  · rw [Nat.add_mul, Nat.one_mul]
    omega

/-- The exponent of a fraction above zero: scaled down by it, the fraction has a whole part of 53
binary digits, or fewer when the exponent is the least there is. -/
def exponentOf (num den : Nat) : Int :=
  let guess : Int := (num.log2 : Int) - (den.log2 : Int) - 53
  let exponent :=
    if 2 ^ 53 * den * 2 ^ guess.toNat ≤ num * 2 ^ (-guess).toNat then guess + 1 else guess
  max exponent (-1074)

/-- The bits of positive infinity. -/
def infinityBits : Nat := 2047 * 2 ^ 52

/-- The bits of the double nearest to a fraction. A mantissa that is rounded up to the next power
of two carries into the exponent. -/
def bits (num den : Nat) : Nat :=
  if num = 0 then 0
  else
    let exponent := exponentOf num den
    let mantissa := quotient (num * 2 ^ (-exponent).toNat) (den * 2 ^ exponent.toNat)
    min ((exponent + 1074).toNat * 2 ^ 52 + mantissa) infinityBits

/-- The double with a sign and the bits of a magnitude. -/
def signed (negative : Bool) (magnitude : Nat) : Float :=
  Float.ofBits (UInt64.ofNat (if negative then 2 ^ 63 + magnitude else magnitude))

/-- The double nearest to a whole number. -/
def ofInt (n : Int) : Float := signed (n < 0) (bits n.natAbs 1)

/-- The bits of the double nearest to `units * 10 ^ exponent`. Exponents that are far out of range
are settled by the number of digits alone. -/
def decimalBits (units : Nat) (exponent : Int) : Nat :=
  if units = 0 then 0
  else if 400 < exponent then infinityBits
  else if ((Decimal.digits units).length : Int) + exponent < -400 then 0
  else bits (units * 10 ^ exponent.toNat) (10 ^ (-exponent).toNat)

end StakeOracle.Nearest
