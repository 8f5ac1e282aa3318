import StakeOracle.Numeric.Nearest
import StakeOracle.Text.Reader

/-!
# Numbers in settings

Integers have 64 bits and may be written in bases sixteen, eight and two. Underscores may stand
between digits, a decimal does not start with a needless zero, and a float needs a fraction or an
exponent. A float too great for a double is refused, while one too far below zero is minus
infinity.
-/

namespace StakeOracle.Toml

open Reader

/-- The value of a digit in a base up to sixteen. -/
def digitValue (c : Char) : Nat :=
  if c.isDigit then c.toNat - '0'.toNat else c.toLower.toNat - 'a'.toNat + 10

/-- The number that digits denote in a base. -/
def numberOf (base : Nat) (digits : List Char) : Nat :=
  digits.foldl (fun n c => base * n + digitValue c) 0

/-- Whether a character is a digit of base sixteen. -/
def isHexDigit (c : Char) : Bool :=
  c.isDigit || ('a' ≤ c && c ≤ 'f') || ('A' ≤ c && c ≤ 'F')

/-- Digits with single underscores between them; they have to start and end with a digit. -/
def digitRun (digit : Char → Bool) : Reader (List Char) := do
  let first ← one digit
  let rest ← many do
    let _ ← optional (char '_')
    one digit
  return first :: rest

/-- The digits of a decimal: a lone zero, or a run that does not start with zero. -/
def decimalDigits : Reader (List Char) := do
  if (← next?) = some '0' then
    char '0'
    return ['0']
  digitRun Char.isDigit

/-- A sign, if there is one; whether it is a minus. -/
def sign : Reader Bool := do
  match ← optional (one fun c => c = '+' || c = '-') with
  | some c => return c = '-'
  | none => return false

/-- An integer, if it fits 64 bits. -/
def sized (n : Int) : Reader Int := do
  require (-2 ^ 63 ≤ n && n < 2 ^ 63)
  return n

/-- An integer in one of the bases that are marked by a letter. -/
def markedInteger (mark : String) (base : Nat) (digit : Char → Bool) : Reader Int := do
  word mark
  sized (numberOf base (← digitRun digit))

/-- A decimal integer. -/
def decimalInteger : Reader Int := do
  let negative ← sign
  let magnitude := numberOf 10 (← decimalDigits)
  sized (if negative then -(magnitude : Int) else magnitude)

/-- An integer. -/
def integer : Reader Int :=
  markedInteger "0x" 16 isHexDigit <|>
  markedInteger "0o" 8 (fun c => '0' ≤ c && c ≤ '7') <|>
  markedInteger "0b" 2 (fun c => c = '0' || c = '1') <|>
  decimalInteger

/-- The fraction of a float. -/
def fraction : Reader (List Char) := do
  char '.'
  digitRun Char.isDigit

/-- The exponent of a float. -/
def exponent : Reader Int := do
  let _ ← one fun c => c = 'e' || c = 'E'
  let negative ← sign
  let magnitude := numberOf 10 (← digitRun Char.isDigit)
  return if negative then -(magnitude : Int) else magnitude

/-- A float with a fraction, an exponent, or both. -/
def finiteFloat : Reader Float := do
  let negative ← sign
  let whole ← decimalDigits
  let places ← optional fraction
  let scale ← optional exponent
  require (places.isSome || scale.isSome)
  let decimals := places.getD []
  let magnitude :=
    Nearest.decimalBits (numberOf 10 (whole ++ decimals)) (scale.getD 0 - decimals.length)
  require (negative || magnitude ≠ Nearest.infinityBits)
  return Nearest.signed negative magnitude

/-- Infinity, or what is not a number. -/
def namedFloat : Reader Float := do
  let negative ← sign
  let magnitude ←
    (do word "inf"; pure Nearest.infinityBits) <|>
    (do word "nan"; pure (Nearest.infinityBits + 2 ^ 51))
  return Nearest.signed negative magnitude

/-- A float. -/
def float : Reader Float := finiteFloat <|> namedFloat

end StakeOracle.Toml
