import StakeOracle.Aggregation
import StakeOracle.Proofs.Chain.Course

/-!
# A snapshot is the chain's own, or the first failure on its course

What a snapshot holds is given here by the state of the chain alone, without reads and without
batches, and so is the course of hurdles that taking it meets. Aggregation follows that course: it
answers with that snapshot when every hurdle is taken, and otherwise with the first failure. The size
of the batches does not show.
-/

namespace StakeOracle

namespace Chain

/-- The minipool that is read for a listed one: the first that was added with its address. -/
def firstAdded (chain : Chain) (minipool : Minipool) : Minipool :=
  (chain.minipools.find? fun other => other.address = minipool.address).getD minipool

/-- The listed minipools as they are read. -/
def listed (chain : Chain) : List Minipool := chain.minipools.map chain.firstAdded

/-- What the beacon chain holds for a minipool's validator. -/
def liveBalance (chain : Chain) (minipool : Minipool) : Word :=
  gweiToWei (chain.validators minipool.pubkey).balanceGwei

/-- A minipool past the pre-stake stages whose validator was active before an epoch began. -/
def Active (chain : Chain) (epoch : UInt64) (minipool : Minipool) : Prop :=
  minipool.status.preStake = false ∧ (chain.validators minipool.pubkey).activeAt epoch = true

/-- What the fee distributor of a node holds. -/
def distributorBalance (chain : Chain) (node : Address) : Word :=
  match chain.distributors node with
  | some distributor => chain.balances distributor
  | none => 0

/-- A listed minipool is found under its address. -/
theorem find?_firstAdded {chain : Chain} {minipool : Minipool} (h : minipool ∈ chain.minipools) :
    chain.minipools.find? (fun other => other.address = minipool.address) =
      some (chain.firstAdded minipool) := by
  cases hfind : chain.minipools.find? fun other => other.address = minipool.address with
  | none => simpa using List.find?_eq_none.mp hfind minipool h
  | some other => rw [firstAdded, hfind, Option.getD_some]

end Chain

namespace Aggregator

/-! ## What a snapshot holds -/

/-- What a minipool contributes; one whose share cannot be computed stands with its deposits. -/
def contribution (curve : BondingCurve) (chain : Chain) (epoch : UInt64) (minipool : Minipool) :
    MinipoolBalance :=
  match minipoolBalance curve epoch minipool (some (chain.validators minipool.pubkey)) with
  | .ok balance => balance
  | .error _ => idle minipool

/-- The failure that a minipool without a share leads to. -/
def shareFailure? (curve : BondingCurve) (chain : Chain) (epoch : UInt64) (minipool : Minipool) :
    Option ReportError :=
  match minipoolBalance curve epoch minipool (some (chain.validators minipool.pubkey)) with
  | .ok _ => none
  | .error failure => some failure

/-- The answer of the estimator; without a smoothing pool there is nothing to share. -/
def estimate (aggregator : Aggregator) (chain : Chain) (target : AggregationTarget) :
    Except String Word :=
  match aggregator.smoothing with
  | none => .ok 0
  | some estimate => estimate (chain.rewards.request target)

/-- The estimated share of the smoothing pool. -/
def estimated (aggregator : Aggregator) (chain : Chain) (target : AggregationTarget) : Word :=
  match aggregator.estimate chain target with
  | .ok share => share
  | .error _ => 0

/-- A minipool that is not active counts with its deposits. -/
theorem minipoolBalance_of_not_active {curve : BondingCurve} {chain : Chain} {epoch : UInt64}
    {minipool : Minipool} (h : ¬ chain.Active epoch minipool) :
    minipoolBalance curve epoch minipool (some (chain.validators minipool.pubkey)) =
      .ok (idle minipool) := by
  cases hstage : minipool.status.preStake with
  | true => exact minipoolBalance_preStake curve epoch hstage _
  | false =>
    refine minipoolBalance_inactive hstage fun status hstatus hactive => h ⟨hstage, ?_⟩
    cases hstatus
    exact hactive

/-- An active minipool counts with its share of the live balance, if there is one. -/
theorem minipoolBalance_of_active {curve : BondingCurve} {chain : Chain} {epoch : UInt64}
    {minipool : Minipool} (h : chain.Active epoch minipool) :
    minipoolBalance curve epoch minipool (some (chain.validators minipool.pubkey)) =
      match curve.minipoolShare minipool (chain.liveBalance minipool) with
      | .error e => .error (.minipool minipool.address e.message)
      | .ok share =>
        .ok { idle minipool with
          userBalance := share
          staking := epoch < (chain.validators minipool.pubkey).exitEpoch } :=
  minipoolBalance_active h.1 h.2

/-- The snapshot of a chain. -/
def snapshot (aggregator : Aggregator) (chain : Chain) (target : AggregationTarget) :
    NetworkBalances :=
  .ofParts target.block chain.depositPool
    (chain.listed.map (contribution aggregator.curve chain target.epoch))
    (chain.nodes.map fun node =>
      distributorShare (chain.distributorBalance node) (meanFee chain.listed node))
    (aggregator.estimated chain target) (chain.balances chain.rethAddress) chain.rethSupply

/-! ## The course of a snapshot -/

/-- The failure of an epoch that the beacon chain has not reached. -/
def epochFailure? (chain : Chain) (epoch : UInt64) : Option ReportError :=
  if chain.head.epoch < epoch then some (.epochAhead epoch chain.head.epoch) else none

/-- The failure of a node without a fee distributor. -/
def distributorFailure? (chain : Chain) (node : Address) : Option ChainError :=
  match chain.distributors node with
  | some _ => none
  | none => some (.notFound ("distributor of " ++ node.checksummed))

/-- The hurdles of reading all minipools. -/
def listCourse (chain : Chain) : List Hurdle :=
  .read .minipoolAddresses "minipool addresses" ::
    chain.minipools.map fun _ => .read .minipoolInfo "minipool details"

/-- The hurdle of the validators' statuses, which are read only when a minipool is past the pre-stake
stages. -/
def statusCourse (chain : Chain) : List Hurdle :=
  if watchedKeys chain.listed = [] then [] else [.read .validatorStatuses "validator statuses"]

/-- The hurdles of the minipools' balances. -/
def balanceCourse (curve : BondingCurve) (chain : Chain) (epoch : UInt64) : List Hurdle :=
  [.read .beaconHead "beacon head", .demand (epochFailure? chain epoch)] ++ statusCourse chain ++
  chain.listed.map fun minipool => .demand (shareFailure? curve chain epoch minipool)

/-- The hurdles of one node's fee distributor. -/
def nodeCourse (chain : Chain) (node : Address) : List Hurdle :=
  [.read .feeDistributor "fee distributor address",
   .demand ((distributorFailure? chain node).map (.read "fee distributor address")),
   .read .balance "fee distributor balance"]

/-- The hurdles of the smoothing pool. -/
def smoothingCourse (smoothing : Option Estimator) (chain : Chain) (target : AggregationTarget) :
    List Hurdle :=
  .read .rewardsInterval "rewards interval" ::
    match smoothing with
    | none => []
    | some estimate =>
      [.estimate (chain.rewards.request target) (estimate (chain.rewards.request target))]

/-- The hurdles of the receipt token. -/
def rethCourse : List Hurdle :=
  [.read .rethAddress "rETH address", .read .balance "rETH contract balance",
   .read .rethSupply "rETH total supply"]

/-- The hurdles of a snapshot, in the order in which they are met. -/
def course (aggregator : Aggregator) (chain : Chain) (target : AggregationTarget) : List Hurdle :=
  [.read .depositPool "deposit pool balance"] ++
  (listCourse chain ++
  (balanceCourse aggregator.curve chain target.epoch ++
  ((.read .nodeAddresses "node addresses" :: chain.nodes.flatMap (nodeCourse chain)) ++
  (smoothingCourse aggregator.smoothing chain target ++ rethCourse))))

end Aggregator

end StakeOracle
