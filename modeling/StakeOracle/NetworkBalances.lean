import StakeOracle.Minipool
import StakeOracle.Submission
import StakeOracle.Units

/-!
# The backing of the network

A snapshot sums up the ether behind the receipt token at one block: the deposit pool, the
depositors' shares of minipools and fee distributors, the smoothing pool and the token contract
itself. Sums are clamped at the greatest word.
-/

namespace StakeOracle

/-- The ether behind the receipt token at a block. -/
structure NetworkBalances where
  block : UInt64
  depositPool : Word
  minipoolsTotal : Word
  minipoolsStaking : Word
  distributorShareTotal : Word
  smoothingPoolShare : Word
  rethContractBalance : Word
  rethSupply : Word
  deriving DecidableEq, Repr

/-- What depositors have in minipools: in all of them, and in the staking ones. -/
structure MinipoolTotals where
  all : Word
  staking : Word
  deriving DecidableEq, Repr

namespace MinipoolTotals

/-- Counts a minipool in, among the staking ones only when it is. -/
def add (totals : MinipoolTotals) (minipool : MinipoolBalance) : MinipoolTotals where
  all := totals.all.addSat minipool.userBalance
  staking :=
    if minipool.staking then totals.staking.addSat minipool.userBalance else totals.staking

/-- Counts in minipools one after the other. -/
def count (minipools : List MinipoolBalance) : MinipoolTotals := minipools.foldl add ⟨0, 0⟩

/-- Counting minipools in adds all of them to one total, and the staking ones to the other. -/
theorem foldl_add (minipools : List MinipoolBalance) (totals : MinipoolTotals) :
    minipools.foldl add totals =
      ⟨(minipools.map (·.userBalance)).foldl Word.addSat totals.all,
        ((minipools.filter (·.staking)).map (·.userBalance)).foldl Word.addSat totals.staking⟩ := by
  induction minipools generalizing totals with
  | nil => rfl
  | cons minipool minipools ih =>
    rw [List.foldl_cons, ih, List.map_cons, List.foldl_cons]
    cases hstaking : minipool.staking with
    | true => simp [add, hstaking]
    | false => simp [add, hstaking]

/-- Every minipool counts with its user balance. -/
theorem all_count (minipools : List MinipoolBalance) :
    (count minipools).all = Word.sumSat (minipools.map (·.userBalance)) :=
  congrArg all (foldl_add minipools ⟨0, 0⟩)

/-- Of the user balances, those of staking minipools count as staking. -/
theorem staking_count (minipools : List MinipoolBalance) : (count minipools).staking =
    Word.sumSat ((minipools.filter (·.staking)).map (·.userBalance)) :=
  congrArg staking (foldl_add minipools ⟨0, 0⟩)

end MinipoolTotals

namespace NetworkBalances

/-- Folds minipool and distributor shares into a snapshot. -/
def ofParts (block : UInt64) (depositPool : Word) (minipools : List MinipoolBalance)
    (distributorShares : List Word) (smoothingPoolShare rethContractBalance rethSupply : Word) :
    NetworkBalances where
  block
  depositPool
  minipoolsTotal := (MinipoolTotals.count minipools).all
  minipoolsStaking := (MinipoolTotals.count minipools).staking
  distributorShareTotal := Word.sumSat distributorShares
  smoothingPoolShare
  rethContractBalance
  rethSupply

/-- The whole backing. -/
def totalEth (b : NetworkBalances) : Word :=
  ((((b.depositPool.addSat b.minipoolsTotal).addSat b.rethContractBalance).addSat
    b.distributorShareTotal).addSat b.smoothingPoolShare)

/-- Ether per receipt token as a share of `10 ^ 18`. There is none without supply, nor when the
scaled backing does not fit a word. -/
def exchangeRatio (b : NetworkBalances) : Option Word :=
  if b.rethSupply = 0 then none
  else (b.totalEth.mul? weiPerEth).map fun scaled => scaled / b.rethSupply

/-- The call that submits a snapshot. -/
def call (b : NetworkBalances) : SubmissionCall :=
  .balances b.block b.totalEth b.minipoolsStaking b.rethSupply

end NetworkBalances

end StakeOracle
