import StakeOracle.Chain.State

/-!
# Changes to a chain

The world outside the engine moves a chain by changes: new blocks, balances, protocol settings,
pool and beacon states, and the faults that are set on its calls.
-/

namespace StakeOracle

/-- One change to a chain. -/
inductive Change where
  | synced (execution consensus : Bool)
  | latestBlock (block : UInt64)
  | blockTime (block time : UInt64)
  | balance (account : Address) (balance : Word)
  | trusted (node : Address) (trusted : Bool)
  | enabled (category : Category) (enabled : Bool)
  | recorded (category : Category) (block : UInt64)
  | reportable (category : Category) (block : UInt64)
  | frequency (category : Category) (blocks : UInt64)
  | flag (key : Digest)
  | depositPool (balance : Word)
  | minipool (minipool : Minipool)
  | node (node distributor : Address)
  | reth (address : Address) (supply : Word)
  | rewards (interval : RewardsInterval)
  | tickCumulatives (cumulatives : List Int64)
  | pool (block : UInt64) (state : PoolState)
  | timing (timing : BeaconTiming)
  | head (head : BeaconHead)
  | validator (key : Pubkey) (status : ValidatorStatus)
  | ownNode (node : Address)
  | gas (gas : GasInfo)
  | reverting (reverting : Bool)
  | recording (recording : Bool)
  /-- Later waits for inclusion stand before a new, closed gate. -/
  | closeGate
  | fail (method : Method)
  | clearFailures
  deriving DecidableEq, Repr

/-- The chain after a change. -/
def Chain.apply (chain : Chain) : Change → Chain
  | .synced execution consensus =>
    { chain with executionSynced := execution, consensusSynced := consensus }
  | .latestBlock block => { chain with latestBlock := block }
  | .blockTime block time => { chain with timestamps := amended chain.timestamps block (some time) }
  | .balance account balance => { chain with balances := amended chain.balances account balance }
  | .trusted node trusted => { chain with trusted := amended chain.trusted node trusted }
  | .enabled category enabled => { chain with enabled := amended chain.enabled category enabled }
  | .recorded category block => { chain with recorded := amended chain.recorded category block }
  | .reportable category block =>
    { chain with reportable := amended chain.reportable category block }
  | .frequency category blocks =>
    { chain with frequency := amended chain.frequency category blocks }
  | .flag key => { chain with flags := key :: chain.flags }
  | .depositPool balance => { chain with depositPool := balance }
  | .minipool minipool => { chain with minipools := chain.minipools ++ [minipool] }
  | .node node distributor =>
    { chain with
      nodes := chain.nodes ++ [node]
      distributors := amended chain.distributors node (some distributor) }
  | .reth address supply => { chain with rethAddress := address, rethSupply := supply }
  | .rewards interval => { chain with rewards := interval }
  | .tickCumulatives cumulatives => { chain with tickCumulatives := some cumulatives }
  | .pool block state => { chain with pools := amended chain.pools block (some state) }
  | .timing timing => { chain with timing := timing }
  | .head head => { chain with head := head }
  | .validator key status => { chain with validators := amended chain.validators key status }
  | .ownNode node => { chain with node := node }
  | .gas gas => { chain with gas := gas }
  | .reverting reverting => { chain with reverting := reverting }
  | .recording recording => { chain with recording := recording }
  | .closeGate => { chain with gate := some Gate.closed }
  | .fail method => { chain with failing := method :: chain.failing }
  | .clearFailures => { chain with failing := [] }

end StakeOracle
