import StakeOracle.Batch
import StakeOracle.Bytes.Octets

/-!
# Keccak-256

The sponge over the 1600-bit permutation, with 136 octets taken in at a time and 32 octets given
out. A message is padded by the octet 1, zeros, and the top bit of the last octet.
-/

namespace StakeOracle.Keccak

/-- Five rows of five 64-bit lanes; lane `x` of row `y` stands at `x + 5 y`. -/
abbrev Lanes := Vector UInt64 25

/-- A lane by its column and row, each taken modulo five. -/
def lane (a : Lanes) (x y : Nat) : UInt64 := a[x % 5 + 5 * (y % 5)]

/-- Rotation towards the high end. -/
def rotate (w : UInt64) (n : UInt64) : UInt64 := (w <<< n) ||| (w >>> (64 - n))

/-- How far each lane is rotated. -/
def offsets : Vector UInt64 25 :=
  #v[0, 1, 62, 28, 27, 36, 44, 6, 55, 20, 3, 10, 43, 25, 39, 41, 45, 15, 21, 8, 18, 2, 61, 56, 14]

/-- The constants of the 24 rounds. -/
def roundConstants : List UInt64 :=
  [0x0000000000000001, 0x0000000000008082, 0x800000000000808a, 0x8000000080008000,
   0x000000000000808b, 0x0000000080000001, 0x8000000080008081, 0x8000000000008009,
   0x000000000000008a, 0x0000000000000088, 0x0000000080008009, 0x000000008000000a,
   0x000000008000808b, 0x800000000000008b, 0x8000000000008089, 0x8000000000008003,
   0x8000000000008002, 0x8000000000000080, 0x000000000000800a, 0x800000008000000a,
   0x8000000080008081, 0x8000000000008080, 0x0000000080000001, 0x8000000080008008]

/-- The parity of a column. -/
def parity (a : Lanes) (x : Nat) : UInt64 :=
  lane a x 0 ^^^ lane a x 1 ^^^ lane a x 2 ^^^ lane a x 3 ^^^ lane a x 4

/-- Mixes into every lane the parities of the two columns beside its own. -/
def theta (a : Lanes) : Lanes :=
  let parities : Vector UInt64 5 := Vector.ofFn fun x => parity a x.val
  Vector.ofFn fun i : Fin 25 =>
    a[i] ^^^ (parities[(i.val + 4) % 5] ^^^ rotate parities[(i.val + 1) % 5] 1)

/-- Rotates every lane and moves it to its new place. -/
def rhoPi (a : Lanes) : Lanes :=
  Vector.ofFn fun i : Fin 25 =>
    let column := i.val % 5
    let source := (column + 3 * (i.val / 5)) % 5 + 5 * column
    have h : source < 25 := by omega
    rotate a[source] offsets[source]

/-- Combines every lane with the two that follow it in its row. -/
def chi (a : Lanes) : Lanes :=
  Vector.ofFn fun i : Fin 25 =>
    a[i] ^^^ (~~~ (lane a (i.val % 5 + 1) (i.val / 5)) &&& lane a (i.val % 5 + 2) (i.val / 5))

/-- One round; the constant enters at the first lane. -/
def round (a : Lanes) (constant : UInt64) : Lanes :=
  let b := chi (rhoPi (theta a))
  b.set 0 (b[0] ^^^ constant)

/-- The permutation. -/
def permute (a : Lanes) : Lanes := roundConstants.foldl round a

/-- The octets taken in at a time. -/
def rate : Nat := 136

/-- The message followed by a one bit, zeros and a closing one bit, to a whole number of blocks. -/
def padded (message : List UInt8) : List UInt8 :=
  let room := rate - message.length % rate
  if room = 1 then message ++ [0x81]
  else message ++ 0x01 :: List.replicate (room - 2) 0 ++ [0x80]

/-- The number that octets denote, least significant first. -/
def littleEndian (bytes : List UInt8) : UInt64 :=
  bytes.foldr (fun b acc => acc * 256 + b.toUInt64) 0

/-- Adds a block to the state and permutes. -/
def absorb (a : Lanes) (block : List UInt8) : Lanes :=
  let words := ((chunksOf 8 block).map littleEndian).toArray
  permute (Vector.ofFn fun i : Fin 25 => a[i] ^^^ words.getD i.val 0)

/-- The eight octets of a lane, least significant first. -/
def laneOctets (w : UInt64) : List UInt8 :=
  (List.range 8).map fun k => (w >>> (8 * UInt64.ofNat k)).toUInt8

/-- A lane is eight octets. -/
theorem length_laneOctets (w : UInt64) : (laneOctets w).length = 8 := by simp [laneOctets]

/-- The 32-octet digest of a message. -/
def digest (message : List UInt8) : Digest :=
  let a := (chunksOf rate (padded message)).foldl absorb (Vector.replicate 25 0)
  ⟨laneOctets a[0] ++ laneOctets a[1] ++ laneOctets a[2] ++ laneOctets a[3], by
    simp [length_laneOctets]⟩

end StakeOracle.Keccak
