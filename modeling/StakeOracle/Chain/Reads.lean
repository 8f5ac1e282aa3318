import StakeOracle.Chain.Query

/-!
# The reads of a chain

Reads that name a block answer for the one state a chain has, apart from headers and pools, which
are kept for each block.
-/

namespace StakeOracle.Chain

/-- Whether the execution client is synced. -/
def readExecutionSynced : Query ChainError Bool :=
  .call .executionSynced fun c => .ok c.executionSynced

/-- The number of the head block. -/
def readLatestBlock : Query ChainError UInt64 := .call .latestBlock fun c => .ok c.latestBlock

/-- The time of a block up to the head. -/
def readBlockTime (block : UInt64) : Query ChainError UInt64 :=
  .call .header fun c =>
    if c.latestBlock < block then .error (.notFound ("block " ++ toString block.toNat))
    else .ok (c.blockTime block)

/-- The balance of an account. -/
def readBalance (account : Address) : Query ChainError Word :=
  .call .balance fun c => .ok (c.balances account)

/-- Whether a node is a member of the trusted set. -/
def readTrusted (node : Address) : Query ChainError Bool :=
  .call .trustedMember fun c => .ok (c.trusted node)

/-- Whether submissions are enabled for a category. -/
def readEnabled (category : Category) : Query ChainError Bool :=
  .call .submissionsEnabled fun c => .ok (c.enabled category)

/-- The last block on which a category reached consensus. -/
def readRecorded (category : Category) : Query ChainError UInt64 :=
  .call .recordedBlock fun c => .ok (c.recorded category)

/-- The latest block that the protocol accepts reports for. -/
def readReportable (category : Category) : Query ChainError UInt64 :=
  .call .reportableBlock fun c => .ok (c.reportable category)

/-- The blocks between checkpoints of a category. -/
def readFrequency (category : Category) : Query ChainError UInt64 :=
  .call .submissionFrequency fun c => .ok (c.frequency category)

/-- Whether a flag is set. -/
def readFlag (key : Digest) : Query ChainError Bool :=
  .call .storageFlag fun c => .ok (decide (key ∈ c.flags))

/-- The balance of the deposit pool. -/
def readDepositPool : Query ChainError Word := .call .depositPool fun c => .ok c.depositPool

/-- The addresses of all minipools, in the order in which they were added. -/
def readMinipoolAddresses : Query ChainError (List Address) :=
  .call .minipoolAddresses fun c => .ok (c.minipools.map (·.address))

/-- The first minipool added with an address. -/
def readMinipool (address : Address) : Query ChainError Minipool :=
  .call .minipoolInfo fun c =>
    match c.minipools.find? fun minipool => minipool.address = address with
    | some minipool => .ok minipool
    | none => .error (.notFound ("minipool " ++ address.checksummed))

/-- The addresses of all nodes, in the order in which they were added. -/
def readNodes : Query ChainError (List Address) := .call .nodeAddresses fun c => .ok c.nodes

/-- The fee distributor of a node. -/
def readDistributor (node : Address) : Query ChainError Address :=
  .call .feeDistributor fun c =>
    match c.distributors node with
    | some distributor => .ok distributor
    | none => .error (.notFound ("distributor of " ++ node.checksummed))

/-- The address of the receipt token. -/
def readRethAddress : Query ChainError Address := .call .rethAddress fun c => .ok c.rethAddress

/-- The supply of the receipt token. -/
def readRethSupply : Query ChainError Word := .call .rethSupply fun c => .ok c.rethSupply

/-- The rewards interval that is accruing. -/
def readRewards : Query ChainError RewardsInterval := .call .rewardsInterval fun c => .ok c.rewards

/-- The tick cumulatives of the price pool. -/
def readTickCumulatives : Query ChainError (List Int64) :=
  .call .observe fun c =>
    match c.tickCumulatives with
    | some cumulatives => .ok cumulatives
    | none => .error (.notFound "no pool observations")

/-- The reserves of the price pool at a block. -/
def readReserves (block : UInt64) : Query ChainError PoolReserves :=
  .call .reserves fun c =>
    match c.pools block with
    | some pool => .ok pool.reserves
    | none => .error (.notFound ("reserves at " ++ toString block.toNat))

/-- The accumulated price of one token of the price pool at a block. -/
def readCumulative (token0 : Bool) (block : UInt64) : Query ChainError Word :=
  .call .cumulativePrice fun c =>
    match c.pools block with
    | some pool => .ok (pool.cumulative token0)
    | none => .error (.notFound ("cumulative price at " ++ toString block.toNat))

/-- Whether the beacon client is synced. -/
def readConsensusSynced : Query ChainError Bool :=
  .call .consensusSynced fun c => .ok c.consensusSynced

/-- The timing parameters of the beacon chain. -/
def readTiming : Query ChainError BeaconTiming := .call .beaconConfig fun c => .ok c.timing

/-- The head of the beacon chain. -/
def readHead : Query ChainError BeaconHead := .call .beaconHead fun c => .ok c.head

/-- The status of each key; a key that is not known is missing. -/
def readValidators (keys : List Pubkey) : Query ChainError (List (Pubkey × ValidatorStatus)) :=
  .call .validatorStatuses fun c => .ok (keys.map fun key => (key, c.validators key))

/-- A gas estimate. -/
def readGas : Query ChainError GasInfo := .call .estimateGas fun c => .ok c.gas

/-- The node whose wallet signs submissions; no call is made for it. -/
def readNode : Query ε Address := fun chain => pure (.ok chain.node)

end StakeOracle.Chain
