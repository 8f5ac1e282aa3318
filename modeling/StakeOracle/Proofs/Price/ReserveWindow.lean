import StakeOracle.Config.Settings
import StakeOracle.Proofs.Chain.Locality
import StakeOracle.Proofs.Report.Gates

/-!
# The window of a price from reserves

A block is due above the recorded one, so a window that starts there is not empty. While no price is
recorded the window goes as many blocks back as the settings say, and the check of a configuration does
not look at that number. With zero blocks it leaves nothing of the window, and every price that is due
fails before the pool is read.
-/

namespace StakeOracle

/-- A due block was compared with a recorded one, so that was read. -/
theorem Checkpoint.recordedBlock_notMem_of_due {category : Category} {source : BlockSource}
    {chain : Chain} {block recorded : UInt64}
    (h : ((decision category source).ask chain).result = .ok (.due block recorded)) :
    .recordedBlock ∉ chain.failing := by
  unfold decision at h
  obtain ⟨reportable, -, h⟩ := Query.ask_bind_eq_ok.mp h
  obtain ⟨read, hread, -⟩ := Query.ask_bind_eq_ok.mp h
  exact (Query.ask_read_eq_ok.mp hread).1

namespace PriceSource

variable {token0 : Bool} {lookback block recorded : UInt64} {chain : Chain}

/-- Nothing is left of a window without a recorded block to start at and without blocks to look back. -/
theorem windowStart_of_zero (block : UInt64) : windowStart 0 block 0 = block := by
  rw [windowStart, if_pos rfl]
  apply UInt64.toNat_inj.mp
  rw [toNat_subSat]
  rfl

/-- With either, the window of a due block is not empty. -/
theorem windowStart_lt_iff (h : recorded < block) :
    windowStart lookback block recorded < block ↔ recorded ≠ 0 ∨ lookback ≠ 0 := by
  by_cases hrecorded : recorded = 0
  · subst hrecorded
    by_cases hlookback : lookback = 0
    · subst hlookback
      rw [windowStart_of_zero]
      simp
    · have hpos := toNat_pos_of_ne_zero hlookback
      refine iff_of_true ?_ (.inr hlookback)
      rw [windowStart, if_pos rfl]
      rw [UInt64.lt_iff_toNat_lt] at h ⊢
      rw [toNat_subSat]
      omega
  · rw [windowStart, if_neg hrecorded]
    exact iff_of_true h (.inl hrecorded)

/-- The recorded block is read first. -/
theorem ask_readRecorded (h : .recordedBlock ∉ chain.failing) :
    ((Chain.readRecorded .prices).within "recorded prices block").ask chain =
      ⟨[.called .recordedBlock], .ok (chain.recorded .prices)⟩ := by
  refine Noted.eq_of rfl ?_
  rw [Query.result_ask_within, Chain.readRecorded, Query.result_ask_call, if_neg h]
  rfl

/-- An observation reads the reserves of the pool, whatever comes of it. -/
theorem reserves_mem_calls_observe (token0 : Bool) (block : UInt64) (chain : Chain) :
    .reserves ∈ ((observe token0 block).ask chain).calls := by
  unfold observe
  rw [Noted.calls, Query.filterMap_notes_ask_bind]
  exact List.mem_append_left _ (List.mem_singleton_self _)

/-- A window that is not empty has the pool read. -/
theorem reserves_mem_calls_reservePrice (hread : .recordedBlock ∉ chain.failing)
    (hstart : windowStart lookback block (chain.recorded .prices) < block) :
    .reserves ∈ ((reservePrice token0 lookback block).ask chain).calls := by
  unfold reservePrice
  rw [Noted.calls, Query.filterMap_notes_ask_bind, ask_readRecorded hread]
  dsimp only
  rw [if_neg (UInt64.not_le.mpr hstart), Query.filterMap_notes_ask_bind]
  exact List.mem_append_right _ (List.mem_append_left _ (reserves_mem_calls_observe _ _ chain))

/-- A window that is empty ends a price before the pool is read. -/
theorem ask_reservePrice_of_empty (hread : .recordedBlock ∉ chain.failing)
    (hstart : ¬ windowStart lookback block (chain.recorded .prices) < block) :
    (reservePrice token0 lookback block).ask chain = ⟨[.called .recordedBlock],
      .error (.zeroElapsedTime (windowStart lookback block (chain.recorded .prices)) block)⟩ := by
  unfold reservePrice
  rw [Query.ask_bind_of_ok (ask_readRecorded hread)]
  dsimp only
  rw [if_pos (UInt64.not_lt.mp hstart)]
  rfl

end PriceSource

namespace Config

variable {config : Config} {source : PriceSource} {chain : Chain} {block recorded : UInt64}

/-- The source of settings that name a reserve pool. -/
theorem source_of_reserve (hkind : config.price.kind = .reserve)
    (hsource : config.price.source = .ok source) :
    ∃ pool, source = .reserve pool config.price.token0 config.price.lookbackBlocks := by
  unfold PriceSettings.source at hsource
  split at hsource
  · rename_i pool _
    cases hsource
    rw [PriceSettings.sourceOf, hkind]
    exact ⟨pool, rfl⟩
  · cases hsource

/-- With a reserve pool, the window of a due block is not empty exactly when a price is recorded or there
are blocks to look back, and exactly then its price has the pool read. Without either every due price
fails at once. The check of a configuration accepts any number of blocks to look back, and so zero. -/
theorem due_price_reads_pool_iff (hkind : config.price.kind = .reserve)
    (hsource : config.price.source = .ok source)
    (hdue : ((Checkpoint.decision .prices config.prices.blockSource).ask chain).result =
      .ok (.due block recorded)) :
    let lookback := config.price.lookbackBlocks
    let priced := (source.priceAt block).ask chain
    (PriceSource.windowStart lookback block recorded < block ↔ recorded ≠ 0 ∨ lookback ≠ 0) ∧
    (.reserves ∈ priced.calls ↔ recorded ≠ 0 ∨ lookback ≠ 0) ∧
    (¬ (recorded ≠ 0 ∨ lookback ≠ 0) →
      priced = ⟨[.called .recordedBlock], .error (.zeroElapsedTime block block)⟩) ∧
    ∀ blocks, ({ config with price := { config.price with lookbackBlocks := blocks } }).validate =
      config.validate := by
  intro lookback priced
  obtain ⟨rfl, habove⟩ := Checkpoint.decision_eq_due hdue
  have hread := Checkpoint.recordedBlock_notMem_of_due hdue
  obtain ⟨pool, rfl⟩ := source_of_reserve hkind hsource
  have hwindow : PriceSource.windowStart lookback block (chain.recorded .prices) < block ↔ _ :=
    PriceSource.windowStart_lt_iff habove
  have hempty (hzero : ¬ (chain.recorded .prices ≠ 0 ∨ lookback ≠ 0)) :
      priced = ⟨[.called .recordedBlock], .error (.zeroElapsedTime block block)⟩ := by
    obtain ⟨hrecorded, hlookback⟩ : chain.recorded .prices = 0 ∧ lookback = 0 := by simpa using hzero
    have hstart : PriceSource.windowStart lookback block (chain.recorded .prices) = block := by
      rw [hrecorded, hlookback, PriceSource.windowStart_of_zero]
    have hpriced : priced = _ := PriceSource.ask_reservePrice_of_empty hread (mt hwindow.mp hzero)
    rw [hpriced, hstart]
  refine ⟨hwindow, ⟨fun hreserves => ?_, fun hnonzero => ?_⟩, hempty, fun blocks => rfl⟩
  · by_cases hzero : chain.recorded .prices ≠ 0 ∨ lookback ≠ 0
    · exact hzero
    · rw [hempty hzero] at hreserves
      exact absurd (List.mem_singleton.mp hreserves) (by decide)
  · exact PriceSource.reserves_mem_calls_reservePrice hread (hwindow.mpr hnonzero)

/-- The default settings with a reserve pool and blocks to look back in it. -/
def reserveSettings (blocks : UInt64) : Config :=
  { standard with
    price := { PriceSettings.standard with
      kind := .reserve, pool := some (Octets.replicate 20 0x77), lookbackBlocks := blocks } }

/-- A chain on which prices are due at block 100 and were never recorded. -/
def unpricedChain : Chain := { Chain.fresh with reportable := fun _ => 100 }

/-- The default number of blocks has the pool read for the first price. -/
theorem reserveSettings_standard_reads_pool :
    let config := reserveSettings PriceSettings.standard.lookbackBlocks
    let source : PriceSource := .reserve (Octets.replicate 20 0x77) true 3600
    config.price.kind = .reserve ∧ config.price.source = .ok source ∧
    ((Checkpoint.decision .prices config.prices.blockSource).ask unpricedChain).result =
      .ok (.due 100 0) ∧
    PriceSource.windowStart 3600 100 0 < 100 ∧
    .reserves ∈ ((source.priceAt 100).ask unpricedChain).calls := by
  intro config source
  have hkind : config.price.kind = .reserve := rfl
  have hsource : config.price.source = .ok source := rfl
  have hdue : ((Checkpoint.decision .prices config.prices.blockSource).ask unpricedChain).result =
      .ok (.due 100 0) := rfl
  obtain ⟨hwindow, hreserves, -⟩ := due_price_reads_pool_iff hkind hsource hdue
  exact ⟨hkind, hsource, hdue, hwindow.mpr (by decide), hreserves.mpr (by decide)⟩

/-- No blocks to look back are accepted, and fail the first price before the pool is read. -/
theorem reserveSettings_zero_fails_due_price :
    let config := reserveSettings 0
    let source : PriceSource := .reserve (Octets.replicate 20 0x77) true 0
    config.validate = .ok ⟨200000000000, 2000000000⟩ ∧ config.price.kind = .reserve ∧
    config.price.source = .ok source ∧
    ((Checkpoint.decision .prices config.prices.blockSource).ask unpricedChain).result =
      .ok (.due 100 0) ∧
    ¬ PriceSource.windowStart 0 100 0 < 100 ∧
    (source.priceAt 100).ask unpricedChain =
      ⟨[.called .recordedBlock], .error (.zeroElapsedTime 100 100)⟩ := by
  refine ⟨rfl, rfl, rfl, rfl, by decide, rfl⟩

end Config

end StakeOracle
