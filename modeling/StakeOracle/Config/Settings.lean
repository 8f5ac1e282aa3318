import StakeOracle.Bonding
import StakeOracle.Checkpoint
import StakeOracle.Numeric.Shortest
import StakeOracle.Price.Source

/-!
# Settings

What the engine can be told: how often each category is polled and where its checkpoints come
from, what a submission may cost, how balances are aggregated, which pool prices are read from, and
where the beacon node is. Every setting has a default, and the defaults are a valid configuration.

A configuration is checked before it is used. The checks have a fixed order, and the first that
fails is reported.
-/

namespace StakeOracle

/-- How a category is scheduled. -/
structure ScheduleSettings where
  /-- Seconds between ticks. -/
  intervalSecs : UInt64
  blockSource : BlockSource
  deriving DecidableEq, Repr

/-- What a submission may cost, in gwei for each unit of gas. -/
structure FeeSettings where
  maxFeeGwei : Float
  maxPriorityFeeGwei : Float
  deriving Repr

/-- How balances are aggregated. -/
structure AggregationSettings where
  /-- The reads that are under way at the same time. -/
  batchSize : UInt64
  launchBalanceEth : UInt64
  fullRefundEth : UInt64
  deriving DecidableEq, Repr

/-- The kinds of pool that a price can be read from. -/
inductive PoolKind where
  | tick
  | reserve
  deriving DecidableEq, Repr

/-- Where the price comes from. -/
structure PriceSettings where
  kind : PoolKind
  /-- The pool, without which no prices are reported. -/
  pool : Option Address
  /-- The window of a tick source, in seconds. -/
  windowSecs : UInt32
  /-- Whether the reward token is the first token of a reserve pool. -/
  token0 : Bool
  /-- How many blocks a reserve source looks back while no price was recorded. -/
  lookbackBlocks : UInt64
  deriving DecidableEq, Repr

/-- Where the beacon node is. -/
structure BeaconSettings where
  url : String
  timeoutSecs : UInt64
  deriving DecidableEq, Repr

/-- The settings of the engine. -/
structure Config where
  balances : ScheduleSettings
  prices : ScheduleSettings
  fees : FeeSettings
  aggregation : AggregationSettings
  price : PriceSettings
  beacon : BeaconSettings
  deriving Repr

/-- Why a configuration is not valid. -/
inductive ConfigFault where
  | zeroInterval (category : Category)
  | zeroBatchSize
  | refundAboveLaunchBalance
  | zeroWindow
  | maxFee (gwei : Float)
  | maxPriorityFee (gwei : Float)
  | priorityFeeAboveMaxFee
  deriving Repr

/-- The wording of a fault. -/
def ConfigFault.message : ConfigFault → String
  | zeroInterval category => category.name ++ " interval_secs must be non-zero"
  | zeroBatchSize => "batch_size must be non-zero"
  | refundAboveLaunchBalance => "full_refund_eth exceeds launch_balance_eth"
  | zeroWindow => "twap_window_secs must be non-zero"
  | maxFee gwei => "max_fee_gwei " ++ Shortest.text gwei
  | maxPriorityFee gwei => "max_priority_fee_gwei " ++ Shortest.text gwei
  | priorityFeeAboveMaxFee => "max_priority_fee_gwei exceeds max_fee_gwei"

/-- A fault as a failure of the configuration. -/
def ConfigFault.error (fault : ConfigFault) : ConfigError := .invalid fault.message

/-- The default schedule. -/
def ScheduleSettings.standard : ScheduleSettings := ⟨60, .onChain⟩

/-- The default fees. -/
def FeeSettings.standard : FeeSettings := ⟨200, 2⟩

/-- The default aggregation. -/
def AggregationSettings.standard : AggregationSettings := ⟨8, 32000000, 16000000⟩

/-- The default price source: a tick pool over half a day, not yet named. -/
def PriceSettings.standard : PriceSettings := ⟨.tick, none, 12 * 60 * 60, true, 3600⟩

/-- The default beacon node. -/
def BeaconSettings.standard : BeaconSettings := ⟨"http://127.0.0.1:5052", 10⟩

/-- The default settings. -/
def Config.standard : Config where
  balances := .standard
  prices := .standard
  fees := .standard
  aggregation := .standard
  price := .standard
  beacon := .standard

/-- The most that a submission may cost, in wei. -/
def FeeSettings.limits (fees : FeeSettings) : Except ConfigFault FeeLimits :=
  match gweiToWei? fees.maxFeeGwei with
  | none => .error (.maxFee fees.maxFeeGwei)
  | some maxFee =>
    match gweiToWei? fees.maxPriorityFeeGwei with
    | none => .error (.maxPriorityFee fees.maxPriorityFeeGwei)
    | some priorityFee => .ok ⟨maxFee, priorityFee⟩

/-- The constants of the bonding curve. -/
def AggregationSettings.curve (aggregation : AggregationSettings) : BondingCurve :=
  ⟨ethToWei aggregation.launchBalanceEth, ethToWei aggregation.fullRefundEth⟩

/-- The price source of a named pool. -/
def PriceSettings.sourceOf (price : PriceSettings) (pool : Address) : PriceSource :=
  match price.kind with
  | .tick => .tick pool price.windowSecs
  | .reserve => .reserve pool price.token0 price.lookbackBlocks

/-- The price source; there is none without a pool. -/
def PriceSettings.source (price : PriceSettings) : Except ReportError PriceSource :=
  match price.pool with
  | some pool => .ok (price.sourceOf pool)
  | none => .error .missingPool

namespace Config

/-- The schedule of a category. -/
def schedule (config : Config) : Category → ScheduleSettings
  | .balances => config.balances
  | .prices => config.prices

/-- Refuses when a condition does not hold. -/
def check (holds : Bool) (fault : ConfigFault) : Except ConfigFault Unit :=
  if holds then .ok () else .error fault

/-- Checks a configuration; a valid one has fee limits. -/
def validate (config : Config) : Except ConfigFault FeeLimits := do
  Category.all.forM fun category =>
    check ((config.schedule category).intervalSecs ≠ 0) (.zeroInterval category)
  check (config.aggregation.batchSize ≠ 0) .zeroBatchSize
  check (config.aggregation.fullRefundEth ≤ config.aggregation.launchBalanceEth)
    .refundAboveLaunchBalance
  check (config.price.windowSecs ≠ 0) .zeroWindow
  let limits ← config.fees.limits
  check (limits.priorityFee ≤ limits.maxFee) .priorityFeeAboveMaxFee
  return limits

end Config

end StakeOracle
