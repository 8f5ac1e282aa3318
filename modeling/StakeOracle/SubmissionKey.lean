import StakeOracle.Bytes.Keccak
import StakeOracle.Submission

/-!
# Keys of submission flags

The protocol flags every submission of a node in its storage: once for the block (coarse), and once
for the block together with the values (exact). A key is the digest of a record that holds the
flag space of the category, the node, the block and the values, numbers in 32 octets each.
-/

namespace StakeOracle

/-- The node, category, block and values that a flag stands for. -/
structure SubmissionRecord where
  category : Category
  node : Address
  block : UInt64
  values : List Word
  deriving DecidableEq, Repr

namespace SubmissionRecord

/-- The octets of a record. -/
def octets (record : SubmissionRecord) : List UInt8 :=
  record.category.flagSpace.toUTF8.toList ++ record.node.bytes ++ bigEndian 32 record.block.toNat ++
    record.values.flatMap fun value => bigEndian 32 value.toNat

/-- The key of the flag for exactly these values. -/
def exactKey (record : SubmissionRecord) : Digest := Keccak.digest record.octets

/-- The record without its values. -/
def coarse (record : SubmissionRecord) : SubmissionRecord := { record with values := [] }

/-- The key of the flag for any values at all. -/
def coarseKey (record : SubmissionRecord) : Digest := record.coarse.exactKey

/-- The record of a call sent by a node. -/
def ofCall (node : Address) (call : SubmissionCall) : SubmissionRecord :=
  ⟨call.category, node, call.block, call.values⟩

end SubmissionRecord

end StakeOracle
