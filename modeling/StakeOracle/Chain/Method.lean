/-!
# The calls of a chain

Every call that the engine makes to its chain has a name, under which it is counted and can be
made to fail.
-/

namespace StakeOracle

/-- The calls of a chain. -/
inductive Method where
  | executionSynced
  | latestBlock
  | header
  | balance
  | trustedMember
  | submissionsEnabled
  | recordedBlock
  | reportableBlock
  | submissionFrequency
  | storageFlag
  | depositPool
  | minipoolAddresses
  | minipoolInfo
  | nodeAddresses
  | feeDistributor
  | rethAddress
  | rethSupply
  | rewardsInterval
  | observe
  | reserves
  | cumulativePrice
  | consensusSynced
  | beaconConfig
  | beaconHead
  | validatorStatuses
  | estimateGas
  | send
  | awaitInclusion
  deriving DecidableEq, Repr

namespace Method

/-- The name of a call. -/
def name : Method → String
  | executionSynced => "execution_is_synced"
  | latestBlock => "latest_block_number"
  | header => "header_by_number"
  | balance => "balance_at"
  | trustedMember => "is_trusted_member"
  | submissionsEnabled => "submissions_enabled"
  | recordedBlock => "recorded_block"
  | reportableBlock => "latest_reportable_block"
  | submissionFrequency => "submission_frequency"
  | storageFlag => "storage_bool"
  | depositPool => "deposit_pool_balance"
  | minipoolAddresses => "minipool_addresses"
  | minipoolInfo => "minipool_info"
  | nodeAddresses => "node_addresses"
  | feeDistributor => "fee_distributor"
  | rethAddress => "reth_address"
  | rethSupply => "reth_total_supply"
  | rewardsInterval => "rewards_interval"
  | observe => "observe"
  | reserves => "reserves"
  | cumulativePrice => "price_cumulative_last"
  | consensusSynced => "consensus_is_synced"
  | beaconConfig => "config"
  | beaconHead => "head"
  | validatorStatuses => "validator_statuses"
  | estimateGas => "estimate_gas"
  | send => "send"
  | awaitInclusion => "wait_for_inclusion"

/-- All calls. -/
def all : List Method :=
  [executionSynced, latestBlock, header, balance, trustedMember, submissionsEnabled, recordedBlock,
   reportableBlock, submissionFrequency, storageFlag, depositPool, minipoolAddresses, minipoolInfo,
   nodeAddresses, feeDistributor, rethAddress, rethSupply, rewardsInterval, observe, reserves,
   cumulativePrice, consensusSynced, beaconConfig, beaconHead, validatorStatuses, estimateGas, send,
   awaitInclusion]

/-- The list of all calls leaves none out. -/
theorem mem_all (m : Method) : m ∈ all := by cases m <;> decide

/-- The call of a name. -/
def ofName? (text : String) : Option Method := all.find? fun m => m.name = text

end Method

end StakeOracle
