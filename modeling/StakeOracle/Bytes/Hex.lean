import StakeOracle.Bytes.Octets

/-!
# Hexadecimal text

Octets are written as two lowercase digits each. Reading accepts digits of either case and works
on the octets of the text: an odd number of them is refused first, then the first octet that is no
digit, named by its position. Octet strings of a fixed length are written behind `0x`.
-/

namespace StakeOracle

namespace Hex

/-- The lowercase digit of a value below sixteen. -/
def digit (n : Nat) : Char := Nat.digitChar n

/-- The two digits of an octet. -/
def pair (b : UInt8) : List Char := [digit (b.toNat / 16), digit (b.toNat % 16)]

/-- The digits of a list of octets. -/
def encode (bytes : List UInt8) : List Char := bytes.flatMap pair

/-- The value of a digit, given by its octet; either case is a digit. -/
def value? (b : UInt8) : Option Nat :=
  if 48 ≤ b ∧ b ≤ 57 then some (b.toNat - 48)
  else if 97 ≤ b ∧ b ≤ 102 then some (b.toNat - 87)
  else if 65 ≤ b ∧ b ≤ 70 then some (b.toNat - 55)
  else none

/-- Why a text is not hexadecimal. -/
inductive Fault where
  | oddLength
  | notADigit (octet : UInt8) (position : Nat)
  deriving DecidableEq, Repr

/-- Reads the digit at a position. -/
def valueAt (octet : UInt8) (position : Nat) : Except Fault Nat :=
  match value? octet with
  | some value => .ok value
  | none => .error (.notADigit octet position)

/-- Reads pairs of digits, the first at the given position. -/
def decodeFrom (position : Nat) : List UInt8 → Except Fault (List UInt8)
  | [] => .ok []
  | [_] => .error .oddLength
  | high :: low :: rest => do
    let h ← valueAt high position
    let l ← valueAt low (position + 1)
    let bytes ← decodeFrom (position + 2) rest
    return UInt8.ofNat (16 * h + l) :: bytes

/-- Reads the octets that a text of digits denotes. -/
def decode (text : List UInt8) : Except Fault (List UInt8) :=
  if text.length % 2 = 1 then .error .oddLength else decodeFrom 0 text

/-- An octet as a quoted character: the usual escapes, a code in braces for what has no glyph. -/
def quoted (b : UInt8) : String :=
  if b = 0 then "'\\0'"
  else if b = 9 then "'\\t'"
  else if b = 10 then "'\\n'"
  else if b = 13 then "'\\r'"
  else if b = 39 then "'\\''"
  else if b = 92 then "'\\\\'"
  else if b < 32 ∨ 127 ≤ b ∧ b ≤ 160 ∨ b = 173 then
    "'\\u\x7b" ++ String.ofList (Nat.toDigits 16 b.toNat) ++ "\x7d'"
  else "'" ++ String.ofList [Char.ofNat b.toNat] ++ "'"

/-- The wording of a fault. -/
def Fault.message : Fault → String
  | .oddLength => "Odd number of digits"
  | .notADigit octet position =>
    "Invalid character " ++ quoted octet ++ " at position " ++ toString position

end Hex

namespace Octets

/-- The octets in lowercase digits behind `0x`. -/
def toHex {n : Nat} (o : Octets n) : String := String.ofList ('0' :: 'x' :: Hex.encode o.bytes)

/-- Reads `0x` and exactly `2 n` digits of either case. -/
def ofHex? (n : Nat) (text : String) : Option (Octets n) :=
  match text.toUTF8.toList with
  | 48 :: 120 :: digits =>
    match Hex.decode digits with
    | .ok bytes => ofList? n bytes
    | .error _ => none
  | _ => none

end Octets

end StakeOracle
