import StakeOracle.Error
import StakeOracle.Numeric.Counter
import StakeOracle.Units

/-!
# Prices from reserves

A constant-product pool accumulates its spot price over time, as a UQ112.112 number that is meant
to overflow, at times kept modulo `2 ^ 32`. Brought forward to two block times, the accumulated
prices differ by the time-weighted price of the window, whatever wrapped in between.
-/

namespace StakeOracle

/-- The reserves of a pool and the time of its last update, modulo `2 ^ 32`. -/
structure PoolReserves where
  reserve0 : Word
  reserve1 : Word
  lastUpdate : UInt32
  deriving DecidableEq, Repr

/-- A pool at a block: its reserves and the accumulated price of either token. -/
structure PoolState where
  reserves : PoolReserves
  cumulative0 : Word
  cumulative1 : Word
  deriving DecidableEq, Repr

/-- The accumulated price of the first or the second token. -/
def PoolState.cumulative (pool : PoolState) (token0 : Bool) : Word :=
  if token0 then pool.cumulative0 else pool.cumulative1

/-- An accumulated price brought forward to the time of a block. -/
structure CumulativeObservation where
  block : UInt64
  timestamp : UInt64
  cumulative : Word
  deriving DecidableEq, Repr

/-- The reserve of the reward token, then the reserve it is priced in. -/
def PoolReserves.sides (reserves : PoolReserves) (token0 : Bool) : Word × Word :=
  if token0 then (reserves.reserve0, reserves.reserve1) else (reserves.reserve1, reserves.reserve0)

/-- The spot price as a UQ112.112 number. -/
def spotPrice (quote token : Word) : Word := (quote <<< 112) / token

/-- Brings an accumulated price forward from the pool's last update to a block time. -/
def extrapolate (cumulative : Word) (reserves : PoolReserves) (token0 : Bool) (blockTime : UInt64) :
    Except ReportError Word :=
  let now := blockTime.toUInt32
  if reserves.lastUpdate = now then .ok cumulative
  else
    let (token, quote) := reserves.sides token0
    if token = 0 then .error .emptyReserve
    else
      let elapsed := now - reserves.lastUpdate
      .ok (cumulative + spotPrice quote token * BitVec.ofNat 256 elapsed.toNat)

/-- The mean UQ112.112 price between two observations. -/
def timeWeighted (previous current : CumulativeObservation) : Except ReportError Word :=
  let elapsed := current.timestamp.subSat previous.timestamp
  if elapsed = 0 then .error (.zeroElapsedTime previous.block current.block)
  else .ok ((current.cumulative - previous.cumulative) / Word.ofUInt64 elapsed)

/-- A UQ112.112 price as wei per `10 ^ 18` units, whole part and fraction scaled apart. -/
def weiOfUq112 (price : Word) : Word :=
  let whole := (price >>> 112) * weiPerEth
  let fraction := ((price &&& ((1 <<< 112) - 1)) * weiPerEth) >>> 112
  whole + fraction

end StakeOracle
