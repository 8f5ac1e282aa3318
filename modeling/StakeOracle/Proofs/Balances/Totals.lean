import Mathlib.Algebra.Order.BigOperators.Group.List
import Mathlib.Algebra.Order.Ring.Nat
import StakeOracle.NetworkBalances

/-!
# The totals of a snapshot are clamped exact sums

Sums of words are clamped after every term, part by part and then once more over the parts. Clamping
early makes no difference: adding what two numbers are clamped to and clamping again is clamping
their sum. So every total is the exact sum of its terms, clamped once, and what holds of exact sums
in their order holds of the totals.
-/

namespace StakeOracle

namespace Word

/-- The total of words is the sum of their values. -/
theorem total_eq_sum (ws : List Word) : total ws = (ws.map BitVec.toNat).sum := by
  induction ws with
  | nil => rfl
  | cons w ws ih => rw [total, ih, List.map_cons, List.sum_cons]

/-- A word is what its own value is clamped to. -/
theorem clamp_toNat (w : Word) : clamp w.toNat = w := by
  have hbound := w.toNat_lt
  apply BitVec.eq_of_toNat_eq
  rw [toNat_clamp]
  omega

/-- Clamping the terms of a sum first makes no difference to the clamped sum. -/
theorem clamp_addSat_clamp (m n : Nat) : (clamp m).addSat (clamp n) = clamp (m + n) := by
  apply BitVec.eq_of_toNat_eq
  rw [toNat_addSat, toNat_clamp, toNat_clamp, toNat_clamp]
  omega

/-- A sum of words is their exact sum, clamped once. -/
theorem sumSat_map_eq_clamp (value : α → Word) (items : List α) :
    sumSat (items.map value) = clamp (items.map fun item => (value item).toNat).sum := by
  apply BitVec.eq_of_toNat_eq
  rw [toNat_sumSat, toNat_clamp, total_eq_sum, List.map_map]
  rfl

/-- What a greater number is clamped to is not less. -/
theorem clamp_mono {m n : Nat} (h : m ≤ n) : clamp m ≤ clamp n := by
  rw [BitVec.le_def, toNat_clamp, toNat_clamp]
  omega

end Word

namespace NetworkBalances

/-- The depositors' shares of minipools, summed up exactly. -/
def exactBalance (minipools : List MinipoolBalance) : Nat :=
  (minipools.map fun minipool => minipool.userBalance.toNat).sum

/-- Some of the minipools hold no more than all of them. -/
theorem exactBalance_filter_le (p : MinipoolBalance → Bool) (minipools : List MinipoolBalance) :
    exactBalance (minipools.filter p) ≤ exactBalance minipools :=
  (List.filter_sublist.map _).sum_le_sum fun _ _ => Nat.zero_le _

variable (block : UInt64) (depositPool : Word) (minipools : List MinipoolBalance)
  (shares : List Word) (smoothing balance supply : Word)

/-- All minipools count with their exact sum, clamped once. -/
theorem minipoolsTotal_ofParts :
    (ofParts block depositPool minipools shares smoothing balance supply).minipoolsTotal =
      Word.clamp (exactBalance minipools) :=
  (MinipoolTotals.all_count minipools).trans (Word.sumSat_map_eq_clamp _ _)

/-- The staking minipools count with theirs, clamped once. -/
theorem minipoolsStaking_ofParts :
    (ofParts block depositPool minipools shares smoothing balance supply).minipoolsStaking =
      Word.clamp (exactBalance (minipools.filter (·.staking))) :=
  (MinipoolTotals.staking_count minipools).trans (Word.sumSat_map_eq_clamp _ _)

/-- The shares of distributors count with theirs, clamped once. -/
theorem distributorShareTotal_ofParts :
    (ofParts block depositPool minipools shares smoothing balance supply).distributorShareTotal =
      Word.clamp (shares.map BitVec.toNat).sum := by
  rw [← Word.sumSat_map_eq_clamp, List.map_id']
  rfl

/-- The whole backing is the exact sum of all that was folded into a snapshot, clamped once. -/
theorem totalEth_ofParts :
    (ofParts block depositPool minipools shares smoothing balance supply).totalEth =
      Word.clamp (depositPool.toNat + exactBalance minipools + balance.toNat +
        (shares.map BitVec.toNat).sum + smoothing.toNat) := by
  rw [totalEth, minipoolsTotal_ofParts, distributorShareTotal_ofParts]
  change ((((depositPool.addSat _).addSat balance).addSat _).addSat smoothing) = _
  calc (((depositPool.addSat (Word.clamp (exactBalance minipools))).addSat balance).addSat
        (Word.clamp (shares.map BitVec.toNat).sum)).addSat smoothing
      = ((((Word.clamp depositPool.toNat).addSat (Word.clamp (exactBalance minipools))).addSat
          (Word.clamp balance.toNat)).addSat (Word.clamp (shares.map BitVec.toNat).sum)).addSat
          (Word.clamp smoothing.toNat) := by simp only [Word.clamp_toNat]
    _ = _ := by simp only [Word.clamp_addSat_clamp]

/-- Every total of a snapshot is an exact sum, clamped once at the greatest word: the depositors'
shares of all minipools and of the staking ones, those of the fee distributors, and the whole backing
as the sum of all that was folded into the snapshot. So no more is staking than there is in
minipools, and the call that submits the snapshot does not claim more ether to be staking than there
is. -/
theorem totals_clamped_once :
    (ofParts block depositPool minipools shares smoothing balance supply).minipoolsTotal.toNat =
      min (exactBalance minipools) (2 ^ 256 - 1) ∧
    (ofParts block depositPool minipools shares smoothing balance supply).minipoolsStaking.toNat =
      min (exactBalance (minipools.filter (·.staking))) (2 ^ 256 - 1) ∧
    (ofParts block depositPool minipools shares smoothing balance
      supply).distributorShareTotal.toNat = min (shares.map BitVec.toNat).sum (2 ^ 256 - 1) ∧
    (ofParts block depositPool minipools shares smoothing balance supply).totalEth.toNat =
      min (depositPool.toNat + exactBalance minipools + balance.toNat +
        (shares.map BitVec.toNat).sum + smoothing.toNat) (2 ^ 256 - 1) ∧
    (ofParts block depositPool minipools shares smoothing balance supply).minipoolsStaking ≤
      (ofParts block depositPool minipools shares smoothing balance supply).minipoolsTotal ∧
    ∃ totalEth stakingEth,
      (ofParts block depositPool minipools shares smoothing balance supply).call =
        .balances block totalEth stakingEth supply ∧
      stakingEth ≤ totalEth := by
  have hpart : exactBalance (minipools.filter (·.staking)) ≤ exactBalance minipools :=
    exactBalance_filter_le _ minipools
  refine ⟨?_, ?_, ?_, ?_, ?_, _, _, rfl, ?_⟩
  · rw [minipoolsTotal_ofParts, Word.toNat_clamp]
  · rw [minipoolsStaking_ofParts, Word.toNat_clamp]
  · rw [distributorShareTotal_ofParts, Word.toNat_clamp]
  · rw [totalEth_ofParts, Word.toNat_clamp]
  · rw [minipoolsStaking_ofParts, minipoolsTotal_ofParts]
    exact Word.clamp_mono hpart
  · rw [minipoolsStaking_ofParts, totalEth_ofParts]
    exact Word.clamp_mono (by omega)

end NetworkBalances

end StakeOracle
