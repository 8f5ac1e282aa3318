import StakeOracle.Numeric.Binary64
import StakeOracle.Numeric.Decimal

/-!
# The shortest decimal of a double

A decimal denotes a double when it lies in the interval of numbers that round to it; the ends
belong to the interval when the mantissa is even. Of the decimals with the fewest digits in that
interval the nearest is chosen, the greater of two equally near. Numbers are written positionally,
with no exponent and no needless fraction.
-/

namespace StakeOracle.Shortest

/-- A double's magnitude and the ends of its interval, all over one divisor. -/
structure Interval where
  low : Nat
  value : Nat
  high : Nat
  divisor : Nat
  /-- Whether the ends themselves round to the double. -/
  closed : Bool
  deriving DecidableEq, Repr

/-- The interval of a double. Below a power of two the neighbours lie twice as close. -/
def Interval.ofDyadic (d : Dyadic) : Interval :=
  let unit := 2 ^ d.exponent.toNat
  let value := 4 * d.numerator
  let below := if d.mantissa = 2 ^ 52 ∧ -1074 < d.exponent then unit else 2 * unit
  ⟨value - below, value, value + 2 * unit, 4 * d.denominator, d.mantissa % 2 = 0⟩

/-- A whole number of units `10 ^ place`. -/
structure Numeral where
  units : Nat
  place : Int
  deriving DecidableEq, Repr

/-- A decimal brought over the interval's divisor: both sides of a comparison, scaled alike. -/
def Interval.compareWith (i : Interval) (x : Numeral) : Nat × Nat :=
  (x.units * 10 ^ x.place.toNat * i.divisor, 10 ^ (-x.place).toNat)

/-- Whether a decimal denotes the double. -/
def Interval.holds (i : Interval) (x : Numeral) : Bool :=
  let (scaled, power) := i.compareWith x
  if i.closed then i.low * power ≤ scaled && scaled ≤ i.high * power
  else i.low * power < scaled && scaled < i.high * power

/-- The greatest decimal at a place that is not above the double. -/
def Interval.floorAt (i : Interval) (place : Int) : Numeral :=
  ⟨i.value * 10 ^ (-place).toNat / (i.divisor * 10 ^ place.toNat), place⟩

/-- The nearer of two neighbours around the double; the upper one on a tie. -/
def Interval.nearer (i : Interval) (lower upper : Numeral) : Numeral :=
  let (below, power) := i.compareWith lower
  let (above, _) := i.compareWith upper
  if i.value * power - below < above - i.value * power then lower else upper

/-- The decimal at a place that denotes the double, if there is one. -/
def Interval.at? (i : Interval) (place : Int) : Option Numeral :=
  let lower := i.floorAt place
  let upper : Numeral := ⟨lower.units + 1, place⟩
  match i.holds lower, i.holds upper with
  | true, true => some (i.nearer lower upper)
  | true, false => some lower
  | false, true => some upper
  | false, false => none

/-- The place just above the leading digit: the value is below `10 ^ place` and not below a tenth
of it. -/
def Interval.leadingPlace (i : Interval) : Int :=
  if i.divisor ≤ i.value then (Decimal.digits (i.value / i.divisor)).length
  else
    match (List.range 400).find? fun k => i.divisor ≤ i.value * 10 ^ (k + 1) with
    | some k => -(k : Int)
    | none => -400

/-- The decimal with the fewest digits that denotes a double other than zero. One digit rounded up
to ten is one unit of the next place. -/
def ofDyadic (d : Dyadic) : Numeral :=
  let i := Interval.ofDyadic d
  let top := i.leadingPlace
  match (List.range 17).findSome? fun k => i.at? (top - (k + 1 : Nat)) with
  | some x => if x.units = 10 then ⟨1, x.place + 1⟩ else x
  | none => ⟨0, 0⟩

/-- A decimal written positionally. -/
def positional (x : Numeral) : List Char :=
  let ds := Decimal.digits x.units
  if 0 ≤ x.place then ds ++ List.replicate x.place.toNat '0'
  else
    let places := (-x.place).toNat
    let padded := List.replicate (places + 1 - ds.length) '0' ++ ds
    let cut := padded.length - places
    padded.take cut ++ '.' :: padded.drop cut

/-- The text of a double: the shortest decimal that denotes it, or a name when none does. -/
def text (x : Float) : String :=
  match Binary64.ofFloat x with
  | .notANumber => "NaN"
  | .infinite negative => if negative then "-inf" else "inf"
  | .finite d =>
    let magnitude := if d.mantissa = 0 then ['0'] else positional (ofDyadic d)
    String.ofList (if d.negative then '-' :: magnitude else magnitude)

end StakeOracle.Shortest
