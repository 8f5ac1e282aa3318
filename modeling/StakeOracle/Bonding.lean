import StakeOracle.Error
import StakeOracle.Minipool
import StakeOracle.Units

/-!
# The bonding curve

The depositors' share of a validator's balance, given how its capital was raised. Losses fall on
the node's capital first; rewards are shared in proportion to capital, less the node's commission.
A minipool that the node funded alone and that no deposit has reached yet still owes the node a
refund.
-/

namespace StakeOracle

/-- The constants of the curve. -/
structure BondingCurve where
  launchBalance : Word
  /-- Owed to the node by a minipool it funded alone. -/
  fullRefund : Word
  deriving DecidableEq, Repr

/-- The depositors' share of a balance, for given capital and commission. A commission above
`10 ^ 18` counts as `10 ^ 18`. -/
def userShare (balance userCapital nodeCapital nodeFee : Word) : Except ReportError Word :=
  match userCapital.add? nodeCapital with
  | none => .error (.overflow "bonding capital")
  | some capital =>
    if balance < userCapital then .ok balance
    else if balance < capital then .ok userCapital
    else if capital = 0 then .ok 0
    else
      match (balance - capital).mul? userCapital with
      | none => .error (.overflow "bonding rewards")
      | some product =>
        let userRewards := product / capital
        match userRewards.mul? (if nodeFee < weiPerEth then nodeFee else weiPerEth) with
        | none => .error (.overflow "bonding commission")
        | some scaled => .ok (userCapital + userRewards - scaled / weiPerEth)

namespace BondingCurve

/-- The capital of depositors and node behind a minipool. -/
def capitalSplit (curve : BondingCurve) (minipool : Minipool) : Word × Word :=
  match minipool.depositType with
  | .full => (curve.launchBalance / 2, curve.launchBalance / 2)
  | .half => (curve.launchBalance / 2, curve.launchBalance / 2)
  | .empty => (curve.launchBalance, 0)
  | .recorded => (minipool.userDeposit, minipool.nodeDeposit)
  | .unset => (minipool.userDeposit, minipool.nodeDeposit)

/-- The depositors' share of a minipool's balance, less a refund that is still owed. -/
def minipoolShare (curve : BondingCurve) (minipool : Minipool) (balance : Word) :
    Except ReportError Word := do
  let (userCapital, nodeCapital) := curve.capitalSplit minipool
  let share ← userShare balance userCapital nodeCapital minipool.nodeFee
  if minipool.depositType = .full ∧ minipool.userDeposit = 0 then
    return share.subSat curve.fullRefund
  return share

end BondingCurve

end StakeOracle
