import StakeOracle.Proofs.Balances.Totals
import StakeOracle.Proofs.Report.Announcement

/-!
# When a snapshot has an exchange ratio

The exchange ratio is the whole backing, scaled by `10 ^ 18`, over the supply, rounded down. It is
missing without supply, and also where the scaled backing does not fit a word. A balances report does
not tell these apart: what it announces of a missing ratio is that there is no supply.
-/

namespace StakeOracle

namespace NetworkBalances

/-- The ratio is there when there is a supply and the scaled total fits a word, and it is their
quotient, rounded down. -/
theorem exchangeRatio_eq_some_iff {b : NetworkBalances} {ratio : Word} :
    b.exchangeRatio = some ratio ↔ b.rethSupply ≠ 0 ∧ b.totalEth.toNat * 10 ^ 18 < 2 ^ 256 ∧
      ratio.toNat = b.totalEth.toNat * 10 ^ 18 / b.rethSupply.toNat := by
  unfold exchangeRatio
  by_cases hsupply : b.rethSupply = 0
  · simp [hsupply]
  · rw [if_neg hsupply, Option.map_eq_some_iff]
    constructor
    · rintro ⟨scaled, hscaled, rfl⟩
      have hvalue : scaled.toNat = b.totalEth.toNat * 10 ^ 18 := Word.fit?_eq_some_iff.mp hscaled
      refine ⟨hsupply, hvalue ▸ scaled.toNat_lt, ?_⟩
      rw [BitVec.toNat_udiv, hvalue]
    · rintro ⟨-, hfits, hratio⟩
      have hvalue : (BitVec.ofNat 256 (b.totalEth.toNat * 10 ^ 18)).toNat =
          b.totalEth.toNat * 10 ^ 18 := by
        rw [BitVec.toNat_ofNat, Nat.mod_eq_of_lt hfits]
      refine ⟨_, Word.fit?_eq_some_iff.mpr hvalue, BitVec.eq_of_toNat_eq ?_⟩
      rw [BitVec.toNat_udiv, hvalue, hratio]

/-- The ratio is missing when there is no supply or the scaled total does not fit. -/
theorem exchangeRatio_eq_none_iff {b : NetworkBalances} :
    b.exchangeRatio = none ↔ b.rethSupply = 0 ∨ 2 ^ 256 ≤ b.totalEth.toNat * 10 ^ 18 := by
  unfold exchangeRatio
  by_cases hsupply : b.rethSupply = 0
  · simp [hsupply]
  · rw [if_neg hsupply, Option.map_eq_none_iff]
    exact Word.fit?_eq_none_iff.trans (or_iff_right hsupply).symm

/-- The backing that is folded into a snapshot, summed up exactly. -/
def exactBacking (depositPool : Word) (minipools : List MinipoolBalance) (shares : List Word)
    (smoothing balance : Word) : Nat :=
  depositPool.toNat + exactBalance minipools + balance.toNat + (shares.map BitVec.toNat).sum +
    smoothing.toNat

section

variable {block : UInt64} {depositPool : Word} {minipools : List MinipoolBalance}
  {shares : List Word} {smoothing balance supply : Word}

/-- Scaled by `10 ^ 18`, the clamped backing fits a word exactly when the exact one does. -/
theorem scaled_totalEth_lt_iff :
    (ofParts block depositPool minipools shares smoothing balance supply).totalEth.toNat * 10 ^ 18 <
        2 ^ 256 ↔
      exactBacking depositPool minipools shares smoothing balance * 10 ^ 18 < 2 ^ 256 := by
  have hbound : Word.bound = 2 ^ 256 := rfl
  rw [totalEth_ofParts, Word.toNat_clamp, ← exactBacking, hbound]
  omega

/-- Where it does, nothing was clamped. -/
theorem toNat_totalEth_of_scaled_lt
    (h : exactBacking depositPool minipools shares smoothing balance * 10 ^ 18 < 2 ^ 256) :
    (ofParts block depositPool minipools shares smoothing balance supply).totalEth.toNat =
      exactBacking depositPool minipools shares smoothing balance := by
  have hbound : Word.bound = 2 ^ 256 := rfl
  rw [totalEth_ofParts, Word.toNat_clamp, ← exactBacking, hbound]
  omega

end

end NetworkBalances

open NetworkBalances ReportSource

/-- What is announced of a snapshot says that there is no supply exactly when it has no ratio. -/
theorem ReportSource.unavailable_mem_announcement_iff (b : NetworkBalances) :
    .exchangeRatioUnavailable ∈ announcement b ↔ b.exchangeRatio = none := by
  unfold announcement
  cases b.exchangeRatio with
  | none => simp
  | some ratio => simp

/-- A snapshot has no exchange ratio exactly without supply or where the exact backing, scaled by
`10 ^ 18`, does not fit a word. The ratio that it has is its whole backing, which is then exact, scaled
and divided by the supply, rounded down. A balances report that computes its call warns that there is
no supply exactly when the call submits none, or submits a backing that does not fit when scaled. -/
theorem exchangeRatio_missing_iff (block : UInt64) (depositPool : Word)
    (minipools : List MinipoolBalance) (shares : List Word) (smoothing balance supply : Word) :
    let snapshot := ofParts block depositPool minipools shares smoothing balance supply
    let backing := exactBacking depositPool minipools shares smoothing balance
    (snapshot.exchangeRatio = none ↔ supply = 0 ∨ 2 ^ 256 ≤ backing * 10 ^ 18) ∧
    (∀ ratio, snapshot.exchangeRatio = some ratio ↔
      supply ≠ 0 ∧ backing * 10 ^ 18 < 2 ^ 256 ∧ snapshot.totalEth.toNat = backing ∧
        ratio.toNat = snapshot.totalEth.toNat * 10 ^ 18 / supply.toNat) ∧
    ∀ aggregator checkpoint chain call,
      let computed := (computeBalances aggregator checkpoint).ask chain
      computed.result = .ok call → ∃ reported totalEth stakingEth submitted,
        call = .balances reported totalEth stakingEth submitted ∧
          (.exchangeRatioUnavailable ∈ computed.entries ↔
            submitted = 0 ∨ 2 ^ 256 ≤ totalEth.toNat * 10 ^ 18) := by
  intro snapshot backing
  have hfits : snapshot.totalEth.toNat * 10 ^ 18 < 2 ^ 256 ↔ backing * 10 ^ 18 < 2 ^ 256 :=
    scaled_totalEth_lt_iff
  refine ⟨?_, fun ratio => ?_, ?_⟩
  · rw [exchangeRatio_eq_none_iff, ← Nat.not_lt, hfits, Nat.not_lt]
    rfl
  · rw [exchangeRatio_eq_some_iff, hfits]
    exact and_congr_right fun _ => and_congr_right fun hlt =>
      (and_iff_right (toNat_totalEth_of_scaled_lt hlt)).symm
  · intro aggregator checkpoint chain call computed hcall
    obtain ⟨computedSnapshot, minipools, distributors, rfl, hentries⟩ := computeBalances_eq_ok hcall
    refine ⟨_, _, _, _, rfl, ?_⟩
    have hwarns : .exchangeRatioUnavailable ∈ computed.entries ↔
        .exchangeRatioUnavailable ∈ announcement computedSnapshot := by
      rw [hentries, List.mem_cons, or_iff_right (by simp)]
    rw [hwarns, unavailable_mem_announcement_iff, exchangeRatio_eq_none_iff]

/-- An aggregator without a smoothing pool. -/
def plainAggregator : Aggregator := ⟨none, ⟨0, 0⟩, 1⟩

/-- A checkpoint of balances at block 100. -/
def balancesCheckpoint : Checkpoint := ⟨.balances, 100, 0, 0, 0, 0⟩

/-- A fresh chain with ether in the deposit pool and a supply of the receipt token. -/
def suppliedChain (depositPool supply : Word) : Chain :=
  { Chain.fresh with depositPool, rethSupply := supply }

/-- Three wei behind a supply of two have a ratio, and nothing is said of a missing supply. -/
theorem three_behind_two_have_ratio :
    let computed := (computeBalances plainAggregator balancesCheckpoint).ask (suppliedChain 3 2)
    computed.result = .ok (.balances 100 3 0 2) ∧
      .exchangeRatioUnavailable ∉ computed.entries ∧
      (ofParts 100 3 [] [] 0 0 2).exchangeRatio = some 1500000000000000000 := by
  intro computed
  have hcomputed : computed.result = .ok (.balances 100 3 0 2) := rfl
  obtain ⟨-, hratio, hwarning⟩ := exchangeRatio_missing_iff 100 3 [] [] 0 0 2
  obtain ⟨block, totalEth, stakingEth, supply, hcall, hwarns⟩ := hwarning _ _ _ _ hcomputed
  cases hcall
  exact ⟨hcomputed, mt hwarns.mp (by decide), (hratio _).mpr (by decide)⟩

/-- A backing of `2 ^ 200` wei behind as large a supply has no ratio, although the ratio is one, and the
report warns that there is no supply. -/
theorem parity_has_no_ratio :
    let wei : Word := 1 <<< 200
    let snapshot := ofParts 100 wei [] [] 0 0 wei
    let computed := (computeBalances plainAggregator balancesCheckpoint).ask (suppliedChain wei wei)
    snapshot.rethSupply ≠ 0 ∧
      snapshot.totalEth.toNat * 10 ^ 18 / snapshot.rethSupply.toNat = 10 ^ 18 ∧
      snapshot.exchangeRatio = none ∧ computed.result = .ok (.balances 100 wei 0 wei) ∧
      .exchangeRatioUnavailable ∈ computed.entries ∧
      LogEntry.exchangeRatioUnavailable.message =
        "[Balances Report]   exchange ratio unavailable: rETH supply is zero" := by
  intro wei snapshot computed
  have hcomputed : computed.result = .ok snapshot.call := rfl
  have hcall : snapshot.call = .balances 100 wei 0 wei := by decide
  exact ⟨by decide, by decide, by decide, hcall ▸ hcomputed, by decide, rfl⟩

end StakeOracle
