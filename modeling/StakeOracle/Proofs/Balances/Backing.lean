import Mathlib.Algebra.BigOperators.Ring.List
import StakeOracle.Proofs.Balances.Completeness
import StakeOracle.Proofs.Balances.Totals
import StakeOracle.Proofs.Bonding.Shares

/-!
# A snapshot claims no ether that is not there

Every part of a snapshot is bounded by ether that the chain holds: a minipool by its deposits or its
validator's live balance, whichever is greater, and a fee distributor by half of its balance. Sums of
words are clamped, so they are never above the sums in natural numbers, and the bounds add up.
-/

namespace StakeOracle

/-- A clamped sum is not above the sum of bounds on its terms. -/
theorem Word.toNat_sumSat_le {items : List α} {value : α → Word} {bound : α → Nat}
    (h : ∀ item ∈ items, (value item).toNat ≤ bound item) :
    (Word.sumSat (items.map value)).toNat ≤ (items.map bound).sum := by
  rw [Word.sumSat_map_eq_clamp, Word.toNat_clamp]
  exact (Nat.min_le_left _ _).trans (List.sum_le_sum h)

/-- A clamped sum of halves is not above half of the sum. -/
theorem Word.toNat_sumSat_le_half {items : List α} {value : α → Word} {whole : α → Nat}
    (h : ∀ item ∈ items, (value item).toNat ≤ whole item / 2) :
    (Word.sumSat (items.map value)).toNat ≤ (items.map whole).sum / 2 := by
  have hhalves : (items.map fun item => whole item / 2).sum ≤ (items.map whole).sum / 2 := by
    rw [Nat.le_div_iff_mul_le Nat.two_pos, ← List.sum_map_mul_right]
    exact List.sum_le_sum fun item _ => Nat.div_mul_le_self _ _
  exact (Word.toNat_sumSat_le h).trans hhalves

namespace Chain

/-- A validator's live balance in wei. -/
def liveWei (chain : Chain) (minipool : Minipool) : Nat :=
  (chain.validators minipool.pubkey).balanceGwei.toNat * 10 ^ 9

/-- A minipool past the pre-stake stages whose validator was active before an epoch began and leaves
after it. -/
def Staking (chain : Chain) (epoch : UInt64) (minipool : Minipool) : Prop :=
  chain.Active epoch minipool ∧ epoch < (chain.validators minipool.pubkey).exitEpoch

instance (chain : Chain) (epoch : UInt64) (minipool : Minipool) :
    Decidable (chain.Staking epoch minipool) :=
  inferInstanceAs (Decidable ((_ ∧ _) ∧ _))

/-- The live balance is that many wei. -/
theorem toNat_liveBalance (chain : Chain) (minipool : Minipool) :
    (chain.liveBalance minipool).toNat = chain.liveWei minipool := toNat_gweiToWei _

end Chain

/-- A backing is not above the sum of its parts. -/
theorem NetworkBalances.toNat_totalEth_le (b : NetworkBalances) :
    b.totalEth.toNat ≤ b.depositPool.toNat + b.minipoolsTotal.toNat +
      b.rethContractBalance.toNat + b.distributorShareTotal.toNat + b.smoothingPoolShare.toNat := by
  simp only [totalEth, Word.toNat_addSat]
  omega

namespace Aggregator

variable {curve : BondingCurve} {chain : Chain} {epoch : UInt64} {minipool : Minipool}

/-- A minipool contributes its deposits, or a part of its validator's live balance. Only the latter
counts as staking, and only while the minipool is. -/
theorem contribution_cases (curve : BondingCurve) (chain : Chain) (epoch : UInt64)
    (minipool : Minipool) :
    contribution curve chain epoch minipool = idle minipool ∨
      (contribution curve chain epoch minipool).userBalance.toNat ≤ chain.liveWei minipool ∧
        ((contribution curve chain epoch minipool).staking = true →
          chain.Staking epoch minipool) := by
  unfold contribution
  by_cases hactive : chain.Active epoch minipool
  · rw [minipoolBalance_of_active hactive]
    cases hshare : curve.minipoolShare minipool (chain.liveBalance minipool) with
    | error failure => exact .inl rfl
    | ok share =>
      right
      refine ⟨?_, fun hstaking => ⟨hactive, of_decide_eq_true hstaking⟩⟩
      rw [← chain.toNat_liveBalance]
      exact minipoolShare_le hshare
  · rw [minipoolBalance_of_not_active hactive]
    exact .inl rfl

/-- A minipool contributes at most the greater of its deposits and its validator's live balance. -/
theorem contribution_le : (contribution curve chain epoch minipool).userBalance.toNat ≤
    max minipool.userDeposit.toNat (chain.liveWei minipool) := by
  rcases contribution_cases curve chain epoch minipool with h | ⟨hlive, -⟩
  · rw [h]
    exact Nat.le_max_left _ _
  · exact hlive.trans (Nat.le_max_right _ _)

/-- A minipool that counts as staking is, and contributes at most its validator's live balance. -/
theorem staking_contribution (h : (contribution curve chain epoch minipool).staking = true) :
    chain.Staking epoch minipool ∧
      (contribution curve chain epoch minipool).userBalance.toNat ≤ chain.liveWei minipool := by
  rcases contribution_cases curve chain epoch minipool with hidle | ⟨hlive, hstaking⟩
  · rw [hidle] at h
    cases h
  · exact ⟨hstaking h, hlive⟩

/-- The minipools of a snapshot hold at most what they could. -/
theorem minipoolsTotal_le (aggregator : Aggregator) (chain : Chain) (target : AggregationTarget) :
    (aggregator.snapshot chain target).minipoolsTotal.toNat ≤
      (chain.listed.map fun minipool =>
        max minipool.userDeposit.toNat (chain.liveWei minipool)).sum := by
  change (MinipoolTotals.count (chain.listed.map _)).all.toNat ≤ _
  rw [MinipoolTotals.all_count, List.map_map]
  exact Word.toNat_sumSat_le fun minipool _ => contribution_le

/-- The staking minipools of a snapshot hold at most their validators' live balances. -/
theorem minipoolsStaking_le (aggregator : Aggregator) (chain : Chain)
    (target : AggregationTarget) :
    (aggregator.snapshot chain target).minipoolsStaking.toNat ≤
      ((chain.listed.filter fun minipool => chain.Staking target.epoch minipool).map
        chain.liveWei).sum := by
  have hcounted : ∀ minipool ∈ chain.listed.filter fun minipool =>
      (contribution aggregator.curve chain target.epoch minipool).staking,
      (contribution aggregator.curve chain target.epoch minipool).userBalance.toNat ≤
        chain.liveWei minipool := fun minipool hmem =>
    (staking_contribution (List.mem_filter.mp hmem).2).2
  have hsublist := List.monotone_filter_right chain.listed (p := fun minipool =>
    (contribution aggregator.curve chain target.epoch minipool).staking)
    (q := fun minipool => decide (chain.Staking target.epoch minipool))
    fun minipool h => decide_eq_true (staking_contribution h).1
  change (MinipoolTotals.count (chain.listed.map _)).staking.toNat ≤ _
  rw [MinipoolTotals.staking_count, List.filter_map, List.map_map]
  calc (Word.sumSat _).toNat ≤ _ := Word.toNat_sumSat_le hcounted
    _ ≤ _ := (hsublist.map chain.liveWei).sum_le_sum fun _ _ => Nat.zero_le _

/-- The fee distributors of a snapshot hold at most half of their balances. -/
theorem distributorShareTotal_le (aggregator : Aggregator) (chain : Chain)
    (target : AggregationTarget) :
    (aggregator.snapshot chain target).distributorShareTotal.toNat ≤
      (chain.nodes.map fun node => (chain.distributorBalance node).toNat).sum / 2 :=
  Word.toNat_sumSat_le_half fun _ _ => distributorShare_le _ _

/-- No snapshot claims more ether than the chain and the estimator have for it: the deposit pool, the
receipt token's own balance, the estimated share of the smoothing pool, for every minipool the greater
of its deposits and its validator's live balance, and half of what the fee distributors hold. Nor is
more ether said to be staking than the validators of the staking minipools have. -/
theorem no_inflation (aggregator : Aggregator) (chain : Chain) (target : AggregationTarget)
    (b : NetworkBalances) (h : ((aggregator.aggregate target).ask chain).result = .ok b) :
    (∃ share, aggregator.estimate chain target = .ok share ∧
      b.totalEth.toNat ≤ chain.depositPool.toNat + (chain.balances chain.rethAddress).toNat +
        share.toNat +
        (chain.listed.map fun minipool =>
          max minipool.userDeposit.toNat (chain.liveWei minipool)).sum +
        (chain.nodes.map fun node => (chain.distributorBalance node).toNat).sum / 2) ∧
    b.minipoolsStaking.toNat ≤
      ((chain.listed.filter fun minipool => chain.Staking target.epoch minipool).map
        chain.liveWei).sum := by
  have hfollows : Follows chain (aggregator.aggregate target) (aggregator.course chain target)
      (aggregator.snapshot chain target) := follows_aggregate aggregator target
  obtain ⟨hclear, rfl⟩ := hfollows.result_eq_ok_iff.mp h
  obtain ⟨share, hshare⟩ :=
    estimates_given_iff.mp (hfollows.firstFailure?_eq_none_iff.mp hclear).2.2
  refine ⟨⟨share, hshare, ?_⟩, minipoolsStaking_le aggregator chain target⟩
  have hsmoothing : (aggregator.snapshot chain target).smoothingPoolShare = share := by
    change aggregator.estimated chain target = share
    rw [estimated, hshare]
  have hparts := (aggregator.snapshot chain target).toNat_totalEth_le
  have hminipools := minipoolsTotal_le aggregator chain target
  have hdistributors := distributorShareTotal_le aggregator chain target
  rw [hsmoothing] at hparts
  change _ ≤ chain.depositPool.toNat + _ + (chain.balances chain.rethAddress).toNat + _ + _
    at hparts
  omega

/-- A chain with one staking minipool, whose validator has earned one ether, and with two ether of
fees at its node. -/
def onePool : Chain :=
  let node := Octets.replicate 20 1
  { Chain.fresh with
    depositPool := ethToWei 5
    minipools := [⟨Octets.replicate 20 2, Octets.replicate 48 3, .staking, .half, ethToWei 16,
      ethToWei 16, 100000000000000000, node⟩]
    nodes := [node]
    distributors := amended Chain.fresh.distributors node (some node)
    balances := amended Chain.fresh.balances node (ethToWei 2)
    validators := fun _ => ⟨true, 1, UInt64.greatest, 33000000000⟩ }

/-- Takes snapshots with an estimate of three ether for the smoothing pool. -/
def threeSmoothed : Aggregator := ⟨some fun _ => .ok (ethToWei 3), ⟨ethToWei 32, ethToWei 16⟩, 30⟩

/-- What a snapshot of one minipool claims, against what there is for it. -/
theorem no_inflation_onePool :
    ∃ b, ((threeSmoothed.aggregate ⟨100, 1600001200, 100, 3⟩).ask onePool).result = .ok b ∧
      b.totalEth.toNat = 25350000000000000000 ∧ b.totalEth.toNat ≤ 42000000000000000000 ∧
      b.minipoolsStaking.toNat ≤ 33000000000000000000 := by
  have htaken : ((threeSmoothed.aggregate ⟨100, 1600001200, 100, 3⟩).ask onePool).result =
      .ok (threeSmoothed.snapshot onePool ⟨100, 1600001200, 100, 3⟩) := rfl
  obtain ⟨⟨share, hshare, htotal⟩, hstaking⟩ := no_inflation _ _ _ _ htaken
  obtain rfl : ethToWei 3 = share := Except.ok.inj hshare
  exact ⟨_, htaken, by decide, htotal, hstaking⟩

end Aggregator

end StakeOracle
