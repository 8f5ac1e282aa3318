import StakeOracle.Numeric.Power

/-!
# Doubles as exact numbers

A finite double is a sign and a whole number scaled by a power of two. Reading a double this way
makes rounding it, and the decimals that denote it, exact arithmetic on natural numbers.
-/

namespace StakeOracle

/-- A sign and the magnitude `mantissa * 2 ^ exponent`. -/
structure Dyadic where
  negative : Bool
  mantissa : Nat
  exponent : Int
  deriving DecidableEq, Repr

/-- What a double denotes. -/
inductive Binary64 where
  | finite (value : Dyadic)
  | infinite (negative : Bool)
  | notANumber
  deriving DecidableEq, Repr

namespace Binary64

/-- Reads the 64 bits of a double. -/
def ofBits (bits : UInt64) : Binary64 :=
  let negative : Bool := bits.toNat / 2 ^ 63 = 1
  let scale : Nat := bits.toNat / 2 ^ 52 % 2 ^ 11
  let fraction : Nat := bits.toNat % 2 ^ 52
  if scale = 2047 then
    if fraction = 0 then .infinite negative else .notANumber
  else if scale = 0 then .finite ⟨negative, fraction, -1074⟩
  else .finite ⟨negative, 2 ^ 52 + fraction, (scale : Int) - 1075⟩

/-- Reads a double. -/
def ofFloat (x : Float) : Binary64 := ofBits x.toBits

end Binary64

namespace Dyadic

/-- The magnitude as a quotient of natural numbers. -/
def numerator (d : Dyadic) : Nat := d.mantissa * 2 ^ d.exponent.toNat

/-- The divisor of that quotient, a power of two. -/
def denominator (d : Dyadic) : Nat := 2 ^ (-d.exponent).toNat

/-- The natural number nearest to the magnitude, the greater of two. -/
def rounded (d : Dyadic) : Nat := (2 * d.numerator + d.denominator) / (2 * d.denominator)

/-- No dyadic number has a zero denominator. -/
theorem denominator_pos (d : Dyadic) : 0 < d.denominator := Nat.two_pow_pos _

end Dyadic

end StakeOracle
