/-!
# Octet strings of a fixed length

Account addresses, digests and validator keys are octet strings of 20, 32 and 48 octets. Numbers
enter hashed records as big-endian octet strings.
-/

namespace StakeOracle

/-- `n` octets. -/
structure Octets (n : Nat) where
  bytes : List UInt8
  length_bytes : bytes.length = n
  deriving DecidableEq, Repr

/-- The address of an account. -/
abbrev Address := Octets 20

/-- A 32-octet digest: a storage key or the hash of a transaction. -/
abbrev Digest := Octets 32

/-- The public key of a validator. -/
abbrev Pubkey := Octets 48

/-- The `width` low octets of a number, most significant first. -/
def bigEndian : Nat → Nat → List UInt8
  | 0, _ => []
  | width + 1, n => bigEndian width (n / 256) ++ [UInt8.ofNat n]

/-- A number is written in as many octets as it is given. -/
@[simp] theorem length_bigEndian (width n : Nat) : (bigEndian width n).length = width := by
  induction width generalizing n with
  | zero => rfl
  | succ width ih => simp [bigEndian, ih]

namespace Octets

/-- The octets of a list of the right length. -/
def ofList? (n : Nat) (bytes : List UInt8) : Option (Octets n) :=
  if h : bytes.length = n then some ⟨bytes, h⟩ else none

/-- One octet, `n` times. -/
def replicate (n : Nat) (b : UInt8) : Octets n := ⟨List.replicate n b, List.length_replicate⟩

/-- A number as `n` octets, most significant first. -/
def ofNat (n value : Nat) : Octets n := ⟨bigEndian n value, length_bigEndian n value⟩

/-- A list is read as the octets that it is the list of. -/
theorem ofList?_eq_some_iff {n : Nat} {bytes : List UInt8} {o : Octets n} :
    ofList? n bytes = some o ↔ bytes = o.bytes := by
  unfold ofList?
  constructor
  · intro h
    split at h
    · cases h; rfl
    · cases h
  · rintro rfl
    simp [o.length_bytes]

end Octets

end StakeOracle
