import StakeOracle.Chain.Reads
import StakeOracle.SubmissionKey

/-!
# The ledger of submissions

The flags in the protocol's storage tell whether a node has submitted for a block at all, and
whether it has submitted exactly these values. The same values are never submitted twice.
-/

namespace StakeOracle

/-- What a node has submitted for a checkpoint. -/
inductive LedgerStatus where
  | fresh
  /-- Other values. -/
  | stale
  | alreadySubmitted
  deriving DecidableEq, Repr

namespace Ledger

/-- Whether exactly these values were submitted. -/
def submittedExactly (record : SubmissionRecord) : Query ReportError Bool :=
  (Chain.readFlag record.exactKey).within "exact submission flag"

/-- Whether any values were submitted for the block. -/
def submittedAny (record : SubmissionRecord) : Query ReportError Bool :=
  (Chain.readFlag record.coarseKey).within "coarse submission flag"

/-- What was submitted. The coarse flag is read only when the exact one is unset. -/
def status (record : SubmissionRecord) : Query ReportError LedgerStatus := do
  if ← submittedExactly record then return .alreadySubmitted
  if ← submittedAny record then return .stale
  return .fresh

end Ledger

end StakeOracle
