import StakeOracle.Chain.Reads

/-!
# Due checkpoints

The reportable block of a category is what the protocol says it is, or the head rounded down to a
multiple of the submission frequency. It is due when it lies above the block that the category has
recorded.
-/

namespace StakeOracle

/-- Where the reportable block comes from. -/
inductive BlockSource where
  | onChain
  | frequency
  deriving DecidableEq, Repr

/-- Whether a category has a block to report. -/
inductive CheckpointDecision where
  | due (block recorded : UInt64)
  | notDue (reportable recorded : UInt64)
  deriving DecidableEq, Repr

/-- A due and final checkpoint. -/
structure Checkpoint where
  category : Category
  block : UInt64
  /-- The block that the category has recorded. -/
  recordedBlock : UInt64
  blockTime : UInt64
  slot : UInt64
  epoch : UInt64
  deriving DecidableEq, Repr

namespace Checkpoint

/-- The greatest multiple of a frequency that is not above the head; none at frequency zero. -/
def roundToFrequency (head frequency : UInt64) : Option UInt64 :=
  if frequency = 0 then none else some (head / frequency * frequency)

/-- The block that a category may report on. -/
def reportableBlock (category : Category) : BlockSource → Query ReportError UInt64
  | .onChain => (Chain.readReportable category).within "latest reportable block"
  | .frequency => do
    let head ← Chain.readLatestBlock.within "latest block number"
    let frequency ← (Chain.readFrequency category).within "submission frequency"
    match roundToFrequency head frequency with
    | some block => return block
    | none => throw (.zeroFrequency category.name)

/-- Compares the reportable block with the recorded one. -/
def decision (category : Category) (source : BlockSource) :
    Query ReportError CheckpointDecision := do
  let reportable ← reportableBlock category source
  let recorded ← (Chain.readRecorded category).within "recorded block"
  Query.log (.checkpointDecision category reportable recorded)
  if recorded < reportable then return .due reportable recorded
  else return .notDue reportable recorded

end Checkpoint

end StakeOracle
