import StakeOracle.Aggregation
import StakeOracle.Checkpoint
import StakeOracle.Price.Source

/-!
# What a report is computed from

A balances report comes from a snapshot of the backing, a price report from a price source. Both
are computed for a checkpoint and announce their figures.
-/

namespace StakeOracle

/-- The target of a snapshot at a checkpoint. -/
def Checkpoint.target (checkpoint : Checkpoint) : AggregationTarget :=
  ⟨checkpoint.block, checkpoint.blockTime, checkpoint.slot, checkpoint.epoch⟩

/-- Where the values of a report come from. -/
inductive ReportSource where
  | balances (aggregator : Aggregator)
  | price (source : PriceSource)
  /-- A source whose computation breaks down without an answer. -/
  | broken (category : Category)

namespace ReportSource

/-- The category of a source. -/
def category : ReportSource → Category
  | balances _ => .balances
  | price _ => .prices
  | broken category => category

/-- The entries that announce a snapshot. -/
def announcement (b : NetworkBalances) : List LogEntry :=
  [.snapshotBlock b.block,
   .snapshotAmount "deposit pool" b.depositPool,
   .snapshotAmount "minipools total" b.minipoolsTotal,
   .snapshotAmount "minipools staking" b.minipoolsStaking,
   .snapshotAmount "fee distributors" b.distributorShareTotal,
   .snapshotAmount "smoothing pool" b.smoothingPoolShare,
   .snapshotAmount "rETH contract" b.rethContractBalance,
   .snapshotTotal b.totalEth,
   .snapshotAmount "rETH supply" b.rethSupply,
   match b.exchangeRatio with
   | some ratio => .exchangeRatio ratio
   | none => .exchangeRatioUnavailable]

/-- The call of a balances report. -/
def computeBalances (aggregator : Aggregator) (checkpoint : Checkpoint) :
    Query ReportError SubmissionCall := do
  let snapshot ← aggregator.aggregate checkpoint.target
  (announcement snapshot).forM Query.log
  return snapshot.call

/-- The call of a price report. -/
def computePrice (source : PriceSource) (checkpoint : Checkpoint) :
    Query ReportError SubmissionCall := do
  let price ← source.priceAt checkpoint.block
  Query.log (.priceFound source.name checkpoint.block price)
  return .prices checkpoint.block price

/-- The call of a report; a broken source has no computation. -/
def compute? : ReportSource → Option (Checkpoint → Query ReportError SubmissionCall)
  | balances aggregator => some (computeBalances aggregator)
  | price source => some (computePrice source)
  | broken _ => none

end ReportSource

end StakeOracle
