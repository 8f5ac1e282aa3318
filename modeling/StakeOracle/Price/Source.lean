import StakeOracle.Chain.Reads
import StakeOracle.Price.Tick

/-!
# Price sources

The price of the reward token at a block comes from a fixed figure, from the mean tick of a pool
over a window of seconds, or from a pool's accumulated prices between the last recorded block and
the block itself. While nothing was ever recorded, the last kind looks back a fixed number of
blocks.
-/

namespace StakeOracle

/-- Where a price comes from. -/
inductive PriceSource where
  | fixed (price : Word)
  | tick (pool : Address) (window : UInt32)
  | reserve (pool : Address) (token0 : Bool) (lookback : UInt64)
  deriving DecidableEq, Repr

namespace PriceSource

/-- The name of a source in messages. -/
def name : PriceSource → String
  | fixed _ => "fixed"
  | tick .. => "tick-twap"
  | reserve .. => "reserve-twap"

/-- The price at the mean tick of a window. -/
def tickPrice (window : UInt32) (block : UInt64) : Query ReportError Word := do
  let cumulatives ← Chain.readTickCumulatives.within "pool observe"
  let tick ← Query.ofExcept (meanTick cumulatives window)
  Query.log (.meanTick block tick window)
  Query.ofExcept (priceOfTick tick)

/-- The first block of a reserve window: the recorded block, or a look back when there is none. -/
def windowStart (lookback : UInt64) (block recorded : UInt64) : UInt64 :=
  if recorded = 0 then block.subSat lookback else recorded

/-- A pool's accumulated price, brought forward to a block. -/
def observe (token0 : Bool) (block : UInt64) : Query ReportError CumulativeObservation := do
  let reserves ← (Chain.readReserves block).within "pool reserves"
  let cumulative ← (Chain.readCumulative token0 block).within "pool cumulative price"
  let time ← (Chain.readBlockTime block).within "block header"
  let forward ← Query.ofExcept (extrapolate cumulative reserves token0 time)
  return ⟨block, time, forward⟩

/-- The time-weighted price since the last recorded block. -/
def reservePrice (token0 : Bool) (lookback block : UInt64) : Query ReportError Word := do
  let recorded ← (Chain.readRecorded .prices).within "recorded prices block"
  let start := windowStart lookback block recorded
  if block ≤ start then throw (.zeroElapsedTime start block)
  let previous ← observe token0 start
  let current ← observe token0 block
  let average ← Query.ofExcept (timeWeighted previous current)
  Query.log (.reserveAverage start block average (current.timestamp.subSat previous.timestamp))
  return weiOfUq112 average

/-- The price at a block. -/
def priceAt (source : PriceSource) (block : UInt64) : Query ReportError Word :=
  match source with
  | fixed price => pure price
  | tick _ window => tickPrice window block
  | reserve _ token0 lookback => reservePrice token0 lookback block

end PriceSource

end StakeOracle
