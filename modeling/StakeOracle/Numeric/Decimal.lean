/-!
# Decimal numerals

Numerals as lists of characters, and reading them back. A numeral has no superfluous leading zero
unless it is padded to a width.
-/

namespace StakeOracle.Decimal

/-- The decimal numeral of a number. -/
def digits (n : Nat) : List Char := Nat.toDigits 10 n

/-- A numeral of at least `width` digits, zeros in front. -/
def padded (width n : Nat) : List Char :=
  let ds := digits n
  List.replicate (width - ds.length) '0' ++ ds

/-- The value of a decimal digit. -/
def digit? (c : Char) : Option Nat :=
  if '0' ≤ c ∧ c ≤ '9' then some (c.toNat - '0'.toNat) else none

/-- Continues a number with the digits that follow it; anything but a digit is refused. -/
def continue? : Nat → List Char → Option Nat
  | n, [] => some n
  | n, c :: cs =>
    match digit? c with
    | some d => continue? (10 * n + d) cs
    | none => none

/-- The number that a non-empty run of digits denotes; leading zeros are allowed. -/
def read? : List Char → Option Nat
  | [] => none
  | cs => continue? 0 cs

end StakeOracle.Decimal
