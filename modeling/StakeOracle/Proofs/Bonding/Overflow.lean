import StakeOracle.Proofs.Balances.Backing
import StakeOracle.Proofs.Batch.Batches
import StakeOracle.Proofs.Bonding.Regularity

/-!
# The bonding arithmetic overflows exactly when recorded deposits do

A validator's balance is below `2 ^ 128` wei. Where there are rewards the capital is not above the
balance, so both checked products on the way to a share are below `2 ^ 256`, whatever the curve and
the minipool. What is left is the sum of the capital. The halves of a launch balance always add up;
deposits as they are recorded may not. So a minipool ends an aggregation only through its deposits.
-/

namespace StakeOracle

/-- A minipool whose capital is that of its recorded deposits, which do not add up to a word. -/
def Minipool.DepositsOverflow (minipool : Minipool) : Prop :=
  (minipool.depositType = .recorded ∨ minipool.depositType = .unset) ∧
    Word.bound ≤ minipool.userDeposit.toNat + minipool.nodeDeposit.toNat

/-- At a balance below `2 ^ 128` everything on the way to a share fits once the capital does. -/
theorem shareFits_iff_of_lt {balance user node fee : Nat} (h : balance < 2 ^ 128) :
    ShareFits balance user node fee ↔ user + node < Word.bound := by
  refine ⟨And.left, fun hcapital => ⟨hcapital, fun hrewarded => ?_⟩⟩
  have hbound : 2 ^ 128 * 2 ^ 128 = Word.bound := rfl
  have hrewards : balance - (user + node) < 2 ^ 128 := by omega
  have huser : user < 2 ^ 128 := by omega
  -- The depositors' rewards are not above all rewards, and the commission not above `10 ^ 18`.
  have hpart := rewards_le (balance - (user + node)) user node
  have hfee : min fee (10 ^ 18) < 2 ^ 128 := by omega
  rw [← hbound]
  exact ⟨Nat.mul_lt_mul'' hrewards huser, Nat.mul_lt_mul'' (by omega) hfee⟩

/-- At such a balance a share fails only with the sum of the capital. -/
theorem userShare_eq_error_iff {balance user node fee : Word} (h : balance.toNat < 2 ^ 128)
    {failure : ReportError} : userShare balance user node fee = .error failure ↔
      failure = .overflow "bonding capital" ∧ Word.bound ≤ user.toNat + node.toNat := by
  cases hcapital : user.add? node with
  | none =>
    have hoverflow : Word.bound ≤ user.toNat + node.toNat := Word.fit?_eq_none_iff.mp hcapital
    rw [userShare, hcapital, Except.error.injEq, and_iff_left hoverflow, eq_comm]
  | some capital =>
    have hsum : capital.toNat = user.toNat + node.toNat := Word.fit?_eq_some_iff.mp hcapital
    have hfits : user.toNat + node.toNat < Word.bound := hsum ▸ Word.toNat_lt capital
    obtain ⟨share, hshare⟩ : ∃ share, userShare balance user node fee = .ok share :=
      exists_userShare_iff.mpr ((shareFits_iff_of_lt h).mpr hfits)
    simp [hshare, Nat.not_le.mpr hfits]

namespace BondingCurve

/-- The capital behind a minipool does not add up to a word exactly when its deposits overflow: the
parts of a launch balance do add up. -/
theorem bound_le_capitalSplit_iff {curve : BondingCurve} {minipool : Minipool} :
    Word.bound ≤ (curve.capitalSplit minipool).1.toNat + (curve.capitalSplit minipool).2.toNat ↔
      minipool.DepositsOverflow := by
  have hlaunch := Word.toNat_lt curve.launchBalance
  have hhalves : (curve.launchBalance / 2).toNat + (curve.launchBalance / 2).toNat < Word.bound := by
    have hhalf : (curve.launchBalance / 2).toNat = curve.launchBalance.toNat / 2 :=
      BitVec.toNat_udiv
    omega
  unfold capitalSplit Minipool.DepositsOverflow
  cases minipool.depositType with
  | full => simpa using hhalves
  | half => simpa using hhalves
  | empty => simpa using hlaunch
  | recorded => simp
  | unset => simp

/-- A minipool's share fails exactly when the share of its capital does: a refund is deducted without
a failure. -/
theorem minipoolShare_eq_error_iff_userShare {curve : BondingCurve} {minipool : Minipool}
    {balance : Word} {failure : ReportError} :
    curve.minipoolShare minipool balance = .error failure ↔
      userShare balance (curve.capitalSplit minipool).1 (curve.capitalSplit minipool).2
        minipool.nodeFee = .error failure := by
  unfold minipoolShare
  rw [bind_eq_error, or_iff_left]
  rintro ⟨share, -, h⟩
  split at h
  · cases h
  · cases h

/-- The share of a live balance fails exactly when the deposits of the minipool overflow. -/
theorem minipoolShare_gwei_eq_error_iff {curve : BondingCurve} {minipool : Minipool}
    {gwei : UInt64} {failure : ReportError} :
    curve.minipoolShare minipool (gweiToWei gwei) = .error failure ↔
      failure = .overflow "bonding capital" ∧ minipool.DepositsOverflow := by
  have hsmall : (gweiToWei gwei).toNat < 2 ^ 128 := by
    have hgwei := gwei.toNat_lt
    rw [toNat_gweiToWei]
    omega
  rw [minipoolShare_eq_error_iff_userShare, userShare_eq_error_iff hsmall,
    bound_le_capitalSplit_iff]

/-- So there is a share exactly when they do not. -/
theorem exists_minipoolShare_gwei_iff {curve : BondingCurve} {minipool : Minipool}
    {gwei : UInt64} : (∃ share, curve.minipoolShare minipool (gweiToWei gwei) = .ok share) ↔
      ¬ minipool.DepositsOverflow := by
  constructor
  · rintro ⟨share, hshare⟩ hoverflow
    have hfails : curve.minipoolShare minipool (gweiToWei gwei) = .error _ :=
      minipoolShare_gwei_eq_error_iff.mpr ⟨rfl, hoverflow⟩
    rw [hshare] at hfails
    cases hfails
  · intro hdeposits
    cases hshare : curve.minipoolShare minipool (gweiToWei gwei) with
    | error failure => exact absurd (minipoolShare_gwei_eq_error_iff.mp hshare).2 hdeposits
    | ok share => exact ⟨share, rfl⟩

end BondingCurve

namespace Aggregator

variable {aggregator : Aggregator} {chain : Chain} {target : AggregationTarget}

/-- A minipool fails with the failure of its share, and only while it is active. -/
theorem shareFailure?_eq_some_iff {curve : BondingCurve} {epoch : UInt64} {minipool : Minipool}
    {failure : ReportError} : shareFailure? curve chain epoch minipool = some failure ↔
      chain.Active epoch minipool ∧
        ∃ cause, curve.minipoolShare minipool (chain.liveBalance minipool) = .error cause ∧
          failure = .minipool minipool.address cause.message := by
  unfold shareFailure?
  by_cases hactive : chain.Active epoch minipool
  · rw [minipoolBalance_of_active hactive]
    cases curve.minipoolShare minipool (chain.liveBalance minipool) with
    | error cause => simp [hactive, eq_comm]
    | ok share => simp
  · rw [minipoolBalance_of_not_active hactive]
    simp [hactive]

/-- An aggregation that fails with a minipool fails with one that is listed. -/
theorem exists_listed_of_minipool_failure {address : Address} {reason : String}
    (h : ((aggregator.aggregate target).ask chain).result = .error (.minipool address reason)) :
    ∃ minipool ∈ chain.listed, shareFailure? aggregator.curve chain target.epoch minipool =
      some (.minipool address reason) := by
  rw [(follows_aggregate aggregator target).result] at h
  cases hfirst : Hurdle.firstFailure? chain (aggregator.course chain target) with
  | none =>
    rw [hfirst] at h
    cases h
  | some failure =>
    rw [hfirst] at h
    obtain rfl : failure = .minipool address reason := Except.error.inj h
    obtain ⟨hurdle, hreached, hfails⟩ := Hurdle.exists_reached_of_firstFailure? hfirst
    -- Of the hurdles of an aggregation only the demand for a share names a minipool.
    cases hurdle with
    | read method context =>
      rw [Hurdle.failure?] at hfails
      split at hfails
      · cases hfails
      · cases hfails
    | estimate request answer =>
      cases answer with
      | error reason => cases hfails
      | ok share => cases hfails
    | demand failure =>
      obtain rfl : failure = some (.minipool address reason) := hfails
      rcases demand_mem_course_iff.mp (Hurdle.mem_of_mem_reached hreached) with
        hepoch | ⟨minipool, hlisted, hshare⟩ | ⟨node, -, hnode⟩
      · simp [epochFailure?] at hepoch
      · exact ⟨minipool, hlisted, hshare.symm⟩
      · obtain ⟨cause, -, hcause⟩ := Option.map_eq_some_iff.mp hnode.symm
        cases hcause

/-- A minipool's share of its validator's balance fails exactly when its capital is that of its
recorded deposits and these overflow; nothing else on the way to a share ever does. So whatever the
curve, minipools stand in the way of a snapshot only where the deposits of one that is listed and
active overflow, and an aggregation that fails with a minipool fails with such a one. -/
theorem share_fails_iff_deposits_overflow (curve : BondingCurve) :
    (∀ (minipool : Minipool) (gwei : UInt64) (failure : ReportError),
      curve.minipoolShare minipool (gweiToWei gwei) = .error failure ↔
        failure = .overflow "bonding capital" ∧ minipool.DepositsOverflow) ∧
    ∀ (smoothing : Option Estimator) (batchSize : Nat) (chain : Chain)
      (target : AggregationTarget),
      let aggregator : Aggregator := ⟨smoothing, curve, batchSize⟩
      let taken := (aggregator.aggregate target).ask chain
      ((∃ snapshot, taken.result = .ok snapshot) ↔
        (∀ method ∈ taken.calls, method ∉ chain.failing) ∧
        chain.Equipped ∧
        target.epoch ≤ chain.head.epoch ∧
        (∀ minipool ∈ chain.listed, chain.Active target.epoch minipool →
          ¬ minipool.DepositsOverflow) ∧
        ∃ share, aggregator.estimate chain target = .ok share) ∧
      ∀ address reason, taken.result = .error (.minipool address reason) →
        reason = (ReportError.overflow "bonding capital").message ∧
        ∃ minipool ∈ chain.listed, minipool.address = address ∧
          chain.Active target.epoch minipool ∧ minipool.DepositsOverflow := by
  refine ⟨fun minipool gwei failure => BondingCurve.minipoolShare_gwei_eq_error_iff, ?_⟩
  intro smoothing batchSize chain target aggregator taken
  refine ⟨?_, fun address reason hfails => ?_⟩
  · have hsucceeds := aggregate_succeeds_iff aggregator chain target
    simp only [Chain.liveBalance, BondingCurve.exists_minipoolShare_gwei_iff] at hsucceeds
    exact hsucceeds
  · obtain ⟨minipool, hlisted, hshare⟩ := exists_listed_of_minipool_failure hfails
    obtain ⟨hactive, cause, hcause, hnamed⟩ := shareFailure?_eq_some_iff.mp hshare
    obtain ⟨rfl, hoverflow⟩ := BondingCurve.minipoolShare_gwei_eq_error_iff.mp hcause
    obtain ⟨rfl, rfl⟩ := ReportError.minipool.inj hnamed
    exact ⟨rfl, minipool, hlisted, rfl, hactive, hoverflow⟩

/-- A chain with one staking minipool, whose recorded deposits are one wei too many for a word. -/
def overflowingPool : Chain :=
  { onePool with
    minipools := onePool.minipools.map fun minipool =>
      { minipool with
        depositType := .recorded
        userDeposit := BitVec.allOnes 256
        nodeDeposit := 1 } }

/-- The snapshot of that chain fails with its minipool, and could not fail so without those deposits. -/
theorem overflowingPool_has_no_snapshot :
    ((threeSmoothed.aggregate ⟨100, 1600001200, 100, 3⟩).ask overflowingPool).result =
        .error (.minipool (Octets.replicate 20 2) (ReportError.overflow "bonding capital").message) ∧
      ∃ minipool ∈ overflowingPool.listed, minipool.address = Octets.replicate 20 2 ∧
        overflowingPool.Active 3 minipool ∧ minipool.DepositsOverflow := by
  have hfails : ((threeSmoothed.aggregate ⟨100, 1600001200, 100, 3⟩).ask overflowingPool).result =
      .error (.minipool (Octets.replicate 20 2)
        (ReportError.overflow "bonding capital").message) := rfl
  obtain ⟨-, haggregation⟩ := share_fails_iff_deposits_overflow threeSmoothed.curve
  exact ⟨hfails, ((haggregation _ _ _ _).2 _ _ hfails).2⟩

end Aggregator

end StakeOracle
