import StakeOracle.Bytes.Hex
import StakeOracle.Bytes.Keccak

/-!
# Addresses in messages

In messages an address is written in mixed case: a letter is a capital where the digest of the
lowercase digits has a nibble of eight or more.
-/

namespace StakeOracle.Octets

/-- The nibbles of a list of octets, high one first. -/
def nibbles (bytes : List UInt8) : List Nat := bytes.flatMap fun b => [b.toNat / 16, b.toNat % 16]

/-- The address behind `0x`, its letters cased by the digest of its lowercase digits. -/
def checksummed (address : Address) : String :=
  let digits := Hex.encode address.bytes
  let marks := nibbles (Keccak.digest (digits.map fun c => UInt8.ofNat c.toNat)).bytes
  let marked := List.zipWith (fun c mark => if 8 ≤ mark then c.toUpper else c) digits marks
  String.ofList ('0' :: 'x' :: marked)

end StakeOracle.Octets
