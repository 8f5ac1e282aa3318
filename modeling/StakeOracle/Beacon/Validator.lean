import StakeOracle.Bytes.Hex
import StakeOracle.Numeric.Counter

/-!
# Validators

A validator is known by its public key, written as 96 hexadecimal digits, and has a status at each
epoch.
-/

namespace StakeOracle

/-- Why a text is not a validator key. -/
inductive PubkeyFault where
  | notHex (fault : Hex.Fault)
  | wrongLength (octets : Nat)
  deriving DecidableEq, Repr

/-- The wording of a fault. -/
def PubkeyFault.message (fault : PubkeyFault) : String :=
  "invalid validator pubkey: " ++
    match fault with
    | .notHex fault => fault.message
    | .wrongLength octets => "expected 48 bytes, found " ++ toString octets

/-- The octets of a text without one leading `0x`. -/
def withoutMark : List UInt8 → List UInt8
  | 48 :: 120 :: rest => rest
  | text => text

/-- Reads a key from 96 digits of either case, with or without `0x` in front. -/
def parsePubkey (text : String) : Except PubkeyFault Pubkey :=
  match Hex.decode (withoutMark text.toUTF8.toList) with
  | .error fault => .error (.notHex fault)
  | .ok bytes =>
    match Octets.ofList? 48 bytes with
    | some key => .ok key
    | none => .error (.wrongLength bytes.length)

/-- What the beacon chain says of a validator at an epoch. -/
structure ValidatorStatus where
  /-- Whether the beacon chain knows the validator at all. -/
  present : Bool
  activationEpoch : UInt64
  /-- The greatest counter while the validator has not exited. -/
  exitEpoch : UInt64
  balanceGwei : UInt64
  deriving DecidableEq, Repr

namespace ValidatorStatus

/-- The status of a key that the beacon chain does not know. -/
def missing : ValidatorStatus := ⟨false, UInt64.greatest, UInt64.greatest, 0⟩

/-- Whether the validator was active before an epoch began. -/
def activeAt (status : ValidatorStatus) (epoch : UInt64) : Bool :=
  status.present && status.activationEpoch < epoch

end ValidatorStatus

end StakeOracle
