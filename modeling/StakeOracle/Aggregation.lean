import StakeOracle.Batch
import StakeOracle.Bonding
import StakeOracle.Chain.Reads
import StakeOracle.Commission
import StakeOracle.NetworkBalances

/-!
# Aggregating the backing of the network

A snapshot at a checkpoint joins four parts: the deposit pool, the minipools with the fee
distributors of their nodes, the smoothing pool, and the receipt token. A snapshot is complete or
not produced at all: the first failure of any part ends it. Minipools and nodes are read in
batches.
-/

namespace StakeOracle

/-- The block and beacon position that a snapshot is taken for. -/
structure AggregationTarget where
  block : UInt64
  blockTime : UInt64
  slot : UInt64
  epoch : UInt64
  deriving DecidableEq, Repr

/-- Estimates the depositors' share of the smoothing pool. -/
abbrev Estimator := EstimateRequest → Except String Word

/-- How snapshots are taken. -/
structure Aggregator where
  /-- The estimator of the smoothing pool, if there is a smoothing pool. -/
  smoothing : Option Estimator
  curve : BondingCurve
  batchSize : Nat

namespace RewardsInterval

/-- The whole intervals between the start of the interval and a time; none if it has no length. -/
def passedAt (interval : RewardsInterval) (time : UInt64) : UInt64 :=
  (time.subSat interval.startTime).divOrZero interval.duration

/-- What the estimator is told for a target. -/
def request (interval : RewardsInterval) (target : AggregationTarget) : EstimateRequest where
  block := target.block
  blockTime := target.blockTime
  slot := target.slot
  epoch := target.epoch
  intervalIndex := interval.index
  intervalStart := interval.startTime
  intervalsPassed := interval.passedAt target.blockTime

end RewardsInterval

namespace Aggregator

/-- A minipool that counts with its deposits as they were paid in. -/
def idle (minipool : Minipool) : MinipoolBalance :=
  ⟨minipool.status, minipool.userDeposit, minipool.node, minipool.nodeFee, false⟩

/-- What a minipool contributes, given the status of its validator if one is known. Only a
validator that was active before the epoch counts with its live balance. -/
def minipoolBalance (curve : BondingCurve) (epoch : UInt64) (minipool : Minipool)
    (validator : Option ValidatorStatus) : Except ReportError MinipoolBalance :=
  if minipool.status.preStake then .ok (idle minipool)
  else
    match validator with
    | none => .ok (idle minipool)
    | some status =>
      if status.activeAt epoch then
        match curve.minipoolShare minipool (gweiToWei status.balanceGwei) with
        | .error e => .error (.minipool minipool.address e.message)
        | .ok share =>
          .ok { idle minipool with userBalance := share, staking := epoch < status.exitEpoch }
      else .ok (idle minipool)

/-- Before staking a minipool contributes its deposits, whatever is known of its validator. -/
theorem minipoolBalance_preStake (curve : BondingCurve) (epoch : UInt64) {minipool : Minipool}
    (hstage : minipool.status.preStake = true) (validator : Option ValidatorStatus) :
    minipoolBalance curve epoch minipool validator = .ok (idle minipool) := by
  rw [minipoolBalance.eq_def, if_pos hstage]

/-- After that, an active validator makes it contribute its share of the live balance, if there is
one. -/
theorem minipoolBalance_active {curve : BondingCurve} {epoch : UInt64} {minipool : Minipool}
    {status : ValidatorStatus} (hstage : minipool.status.preStake = false)
    (hactive : status.activeAt epoch = true) :
    minipoolBalance curve epoch minipool (some status) =
      match curve.minipoolShare minipool (gweiToWei status.balanceGwei) with
      | .error e => .error (.minipool minipool.address e.message)
      | .ok share =>
        .ok { idle minipool with userBalance := share, staking := epoch < status.exitEpoch } := by
  rw [minipoolBalance.eq_def, if_neg (Bool.eq_false_iff.mp hstage)]
  exact if_pos hactive

/-- Without one it contributes its deposits still. -/
theorem minipoolBalance_inactive {curve : BondingCurve} {epoch : UInt64} {minipool : Minipool}
    {validator : Option ValidatorStatus} (hstage : minipool.status.preStake = false)
    (hinactive : ∀ status, validator = some status → ¬ status.activeAt epoch = true) :
    minipoolBalance curve epoch minipool validator = .ok (idle minipool) := by
  rw [minipoolBalance.eq_def, if_neg (Bool.eq_false_iff.mp hstage)]
  cases validator with
  | none => rfl
  | some status => exact if_neg (hinactive status rfl)

/-- What is known of a minipool's validator does not count before staking. -/
theorem minipoolBalance_congr {curve : BondingCurve} {epoch : UInt64} {minipool : Minipool}
    {known other : Option ValidatorStatus}
    (h : minipool.status.preStake = false → other = known) :
    minipoolBalance curve epoch minipool other = minipoolBalance curve epoch minipool known := by
  cases hstage : minipool.status.preStake with
  | true =>
    rw [minipoolBalance_preStake curve epoch hstage, minipoolBalance_preStake curve epoch hstage]
  | false => rw [h hstage]

/-- The keys whose status matters: those of minipools past the pre-stake stages. -/
def watchedKeys (minipools : List Minipool) : List Pubkey :=
  (minipools.filter fun minipool => !minipool.status.preStake).map (·.pubkey)

/-- Where the statuses of keys come from. They may lack keys that were asked for, and may hold
others. -/
abbrev StatusReader := List Pubkey → Query ChainError (List (Pubkey × ValidatorStatus))

/-- What each minipool contributes at an epoch, given the statuses that are known. -/
def balancesAt (curve : BondingCurve) (epoch : UInt64) (minipools : List Minipool)
    (statuses : List (Pubkey × ValidatorStatus)) : Except ReportError (List MinipoolBalance) :=
  minipools.mapM fun minipool =>
    minipoolBalance curve epoch minipool (statuses.lookup minipool.pubkey)

/-- The statuses of keys. Nobody is asked when there are no keys. -/
def statusesOf (reader : StatusReader) (keys : List Pubkey) :
    Query ReportError (List (Pubkey × ValidatorStatus)) :=
  if keys = [] then pure [] else (reader keys).within "validator statuses"

/-- What each minipool contributes at an epoch that the beacon chain has reached, with statuses
from a reader. -/
def minipoolBalancesFrom (reader : StatusReader) (curve : BondingCurve) (minipools : List Minipool)
    (epoch : UInt64) : Query ReportError (List MinipoolBalance) := do
  let head ← Chain.readHead.within "beacon head"
  if head.epoch < epoch then throw (.epochAhead epoch head.epoch)
  let statuses ← statusesOf reader (watchedKeys minipools)
  Query.ofExcept (balancesAt curve epoch minipools statuses)

/-- What each minipool contributes at an epoch that the beacon chain has reached. -/
def minipoolBalances : BondingCurve → List Minipool → UInt64 →
    Query ReportError (List MinipoolBalance) :=
  minipoolBalancesFrom Chain.readValidators

/-- All minipools, read in batches. -/
def readMinipools (batchSize : Nat) : Query ReportError (List Minipool) := do
  let addresses ← Chain.readMinipoolAddresses.within "minipool addresses"
  addresses |> batched batchSize fun address =>
    (Chain.readMinipool address).within "minipool details"

/-- The depositors' share of one node's fee distributor, given the mean commissions of nodes. -/
def nodeShare (fees : List (Address × Word)) (node : Address) : Query ReportError Word := do
  let distributor ← (Chain.readDistributor node).within "fee distributor address"
  let balance ← (Chain.readBalance distributor).within "fee distributor balance"
  return distributorShare balance (fees.lookup node)

/-- The depositors' shares of all fee distributors, read in batches. -/
def nodeShares (batchSize : Nat) (minipools : List Minipool) : Query ReportError (List Word) := do
  let nodes ← Chain.readNodes.within "node addresses"
  batched batchSize (nodeShare (meanFees minipools)) nodes

/-- The depositors' share of the smoothing pool. -/
def smoothingShare (smoothing : Option Estimator) (target : AggregationTarget) :
    Query ReportError Word := do
  let interval ← Chain.readRewards.within "rewards interval"
  match smoothing with
  | none => return 0
  | some estimate =>
    let request := interval.request target
    Query.note (.asked request)
    match estimate request with
    | .ok share => return share
    | .error reason => throw (.estimator reason)

/-- The balance of the receipt token's contract, then its supply. -/
def reth : Query ReportError (Word × Word) := do
  let address ← Chain.readRethAddress.within "rETH address"
  let balance ← (Chain.readBalance address).within "rETH contract balance"
  let supply ← Chain.readRethSupply.within "rETH total supply"
  return (balance, supply)

/-- A snapshot at a target. -/
def aggregate (aggregator : Aggregator) (target : AggregationTarget) :
    Query ReportError NetworkBalances := do
  let depositPool ← Chain.readDepositPool.within "deposit pool balance"
  let minipools ← readMinipools aggregator.batchSize
  let balances ← minipoolBalances aggregator.curve minipools target.epoch
  let shares ← nodeShares aggregator.batchSize minipools
  let smoothing ← smoothingShare aggregator.smoothing target
  let (rethBalance, rethSupply) ← reth
  Query.log (.aggregated target.block balances.length shares.length)
  return .ofParts target.block depositPool balances shares smoothing rethBalance rethSupply

end Aggregator

end StakeOracle
