import StakeOracle.Error
import StakeOracle.Numeric.Word

/-!
# Prices from ticks

A concentrated-liquidity pool reports the logarithm of its price: tick `t` stands for the ratio
`1.0001 ^ t`. The square root of the ratio is built in Q128.128 from the binary digits of the
tick, one stored factor for each, and the price of `10 ^ 18` units is the truncated quotient of
`10 ^ 18` by the squared root.
-/

namespace StakeOracle

/-- The greatest magnitude of a tick. -/
def maxTick : Nat := 887272

/-- `1.0001 ^ (-2 ^ i / 2)` in Q128.128, for the binary digit `i` of a tick, digit zero first. -/
def rootFactors : List Word :=
  [0xfffcb933bd6fad37aa2d162d1a594001, 0xfff97272373d413259a46990580e213a,
   0xfff2e50f5f656932ef12357cf3c7fdcc, 0xffe5caca7e10e4e61c3624eaa0941cd0,
   0xffcb9843d60f6159c9db58835c926644, 0xff973b41fa98c081472e6896dfb254c0,
   0xff2ea16466c96a3843ec78b326b52861, 0xfe5dee046a99a2a811c461f1969c3053,
   0xfcbe86c7900a88aedcffc83b479aa3a4, 0xf987a7253ac413176f2b074cf7815e54,
   0xf3392b0822b70005940c7a398e4b70f3, 0xe7159475a2c29b7443b29c7fa6e889d9,
   0xd097f3bdfd2022b8845ad8f792aa5825, 0xa9f746462d870fdf8a65dc1f90e061e5,
   0x70d869a156d2a1b890bb3df62baf32f7, 0x31be135f97d08fd981231505542fcfa6,
   0x9aa508b5b7a84e1c677de54f3e99bc9, 0x5d6af8dedb81196699c329225ee604,
   0x2216e584f5fa1ea926041bedfe98, 0x48a170391f7dc42444e8fa2]

/-- Multiplies in the factor of each binary digit that is set, truncating after every product. -/
def multiplyRoots : List Word → Nat → Word → Word
  | [], _, ratio => ratio
  | factor :: rest, magnitude, ratio =>
    multiplyRoots rest (magnitude / 2)
      (if magnitude % 2 = 1 then (ratio * factor) >>> 128 else ratio)

/-- The square root of the ratio of a tick, in Q128.128. -/
def sqrtRatio (tick : Int) : Except ReportError Word :=
  if maxTick < tick.natAbs then .error (.tickOutOfRange tick)
  else
    let ratio := multiplyRoots rootFactors tick.natAbs (1 <<< 128)
    .ok (if 0 < tick then BitVec.allOnes 256 / ratio else ratio)

/-- The price of `10 ^ 18` units where the square root of the ratio at a tick is known. -/
def priceOfRoot (tick : Int) (ratio : Word) : Except ReportError Word :=
  let square := ratio.toNat * ratio.toNat
  if square = 0 then .error (.tickOutOfRange tick)
  else
    match Word.fit? (10 ^ 18 * 2 ^ 256 / square) with
    | some price => .ok price
    | none => .error (.overflow "tick price")

/-- The price of `10 ^ 18` units at a tick. -/
def priceOfTick (tick : Int) : Except ReportError Word := do
  priceOfRoot tick (← sqrtRatio tick)

/-- The mean tick between the first two cumulatives, rounded down. -/
def meanTick (cumulatives : List Int64) (window : UInt32) : Except ReportError Int :=
  match cumulatives with
  | first :: second :: _ =>
    let delta := second.toInt - first.toInt
    if delta < -2 ^ 63 ∨ 2 ^ 63 ≤ delta then .error (.overflow "tick cumulative delta")
    else if window = 0 then .error (.zeroElapsedTime 0 0)
    else .ok (delta.fdiv window.toNat)
  | _ => .error (.insufficientObservations cumulatives.length)

end StakeOracle
