import StakeOracle.Category
import StakeOracle.Bytes.Octets
import StakeOracle.Numeric.Word

/-!
# Submissions

A report reaches the protocol as a call that names a block and carries values. Sending it needs
fee and gas settings, and inclusion in a block yields a receipt.
-/

namespace StakeOracle

/-- A report as it is submitted. -/
inductive SubmissionCall where
  | balances (block : UInt64) (totalEth stakingEth rethSupply : Word)
  | prices (block : UInt64) (price : Word)
  deriving DecidableEq, Repr

namespace SubmissionCall

/-- The category of a call. -/
def category : SubmissionCall → Category
  | balances .. => .balances
  | prices .. => .prices

/-- The block that a call reports on. -/
def block : SubmissionCall → UInt64
  | balances block .. => block
  | prices block _ => block

/-- The submitted values in argument order, without the block. -/
def values : SubmissionCall → List Word
  | balances _ totalEth stakingEth rethSupply => [totalEth, stakingEth, rethSupply]
  | prices _ price => [price]

/-- A call in messages. -/
def text : SubmissionCall → String
  | balances block .. => "submitBalances@" ++ toString block.toNat
  | prices block _ => "submitPrices@" ++ toString block.toNat

/-- Every call submits some value. -/
theorem values_ne_nil (call : SubmissionCall) : call.values ≠ [] := by
  cases call <;> simp [values]

end SubmissionCall

/-- A gas estimate for a submission and the base fee at its time. -/
structure GasInfo where
  estimatedLimit : UInt64
  /-- The estimate with a margin; it becomes the limit of the transaction. -/
  safeLimit : UInt64
  baseFee : Word
  deriving DecidableEq, Repr

/-- The most that a submission may pay per unit of gas. -/
structure FeeLimits where
  maxFee : Word
  priorityFee : Word
  deriving DecidableEq, Repr

/-- The fee and gas settings of a transaction. -/
structure SendOptions where
  maxFee : Word
  priorityFee : Word
  gasLimit : UInt64
  deriving DecidableEq, Repr

/-- A transaction that was accepted for inclusion. -/
structure SentTransaction where
  call : SubmissionCall
  options : SendOptions
  hash : Digest
  /-- The node whose wallet signed it. -/
  sender : Address
  /-- Whether the protocol recorded the submission. -/
  recorded : Bool
  deriving DecidableEq, Repr

/-- The result of inclusion. -/
structure Receipt where
  hash : Digest
  block : UInt64
  gasUsed : UInt64
  /-- False when the transaction reverted. -/
  success : Bool
  deriving DecidableEq, Repr

end StakeOracle
