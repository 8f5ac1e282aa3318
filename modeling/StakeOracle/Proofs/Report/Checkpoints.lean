import Mathlib.Data.Set.Operations
import Mathlib.Order.Bounds.Defs
import StakeOracle.Proofs.Chain.Operation
import StakeOracle.Proofs.Report.Passage

/-!
# Which checkpoint is due

A head rounded down by a frequency is the greatest multiple of the frequency up to the head. It is due
when it lies above the recorded block, and that is when any multiple does. While the head does not fall
and the frequency stays, the rounded head does not fall either, so neither do the blocks that are found
due one after another, however the recorded block moves.
-/

namespace StakeOracle

/-- The blocks up to the head that are multiples of the submission frequency. -/
def Chain.checkpoints (chain : Chain) (category : Category) : Set Nat :=
  {block | (chain.frequency category).toNat ∣ block ∧ block ≤ chain.latestBlock.toNat}

namespace BlockSource

variable {chain next : Chain} {category : Category}

/-- With a frequency the block is the greatest multiple of it up to the head. -/
theorem toNat_block_frequency (chain : Chain) (category : Category) :
    (frequency.block chain category).toNat =
      chain.latestBlock.toNat / (chain.frequency category).toNat *
        (chain.frequency category).toNat := by
  unfold block block? Checkpoint.roundToFrequency
  by_cases hzero : chain.frequency category = 0
  · simp [hzero]
  · have hhead := chain.latestBlock.toNat_lt
    have hround := Nat.div_mul_le_self chain.latestBlock.toNat (chain.frequency category).toNat
    simp only [if_neg hzero, Option.getD_some, UInt64.toNat_mul, UInt64.toNat_div]
    exact Nat.mod_eq_of_lt (by omega)

/-- A head rounded down is the greatest checkpoint. -/
theorem isGreatest_block_frequency (h : chain.frequency category ≠ 0) :
    IsGreatest (chain.checkpoints category) (frequency.block chain category).toNat := by
  have hpos := toNat_pos_of_ne_zero h
  rw [toNat_block_frequency]
  constructor
  · exact ⟨Nat.dvd_mul_left _ _, Nat.div_mul_le_self _ _⟩
  · rintro block ⟨⟨count, rfl⟩, hreached⟩
    rw [Nat.mul_comm]
    exact Nat.mul_le_mul_right _ ((Nat.le_div_iff_mul_le hpos).mpr (by rwa [Nat.mul_comm]))

/-- The rounded head follows the head. -/
theorem block_frequency_mono (hhead : chain.latestBlock ≤ next.latestBlock)
    (hfrequency : next.frequency category = chain.frequency category) :
    frequency.block chain category ≤ frequency.block next category := by
  rw [UInt64.le_iff_toNat_le] at hhead ⊢
  rw [toNat_block_frequency, toNat_block_frequency, hfrequency]
  exact Nat.mul_le_mul_right _ (Nat.div_le_div_right hhead)

end BlockSource

namespace Checkpoint

variable {chain : Chain} {category : Category} {source : BlockSource}

/-- Where its reads are answered and there is a reportable block, a decision compares that block with
the recorded one. -/
theorem result_decision {block : UInt64}
    (hreads : ∀ method ∈ source.calls ++ [.recordedBlock], method ∉ chain.failing)
    (hblock : source.block? chain category = some block) :
    ((decision category source).ask chain).result =
      .ok (if chain.recorded category < block then .due block (chain.recorded category)
        else .notDue block (chain.recorded category)) := by
  have hvalue : source.block chain category = block := by rw [BlockSource.block, hblock]; rfl
  rw [List.forall_mem_append, List.forall_mem_singleton] at hreads
  obtain ⟨hcalls, hrecorded⟩ := hreads
  have hclear := BlockSource.clear_iff.mpr ⟨hcalls, hblock.trans (congrArg some hvalue.symm)⟩
  rw [(follows_decision category source chain).result_eq_ok_iff, hvalue]
  refine ⟨Hurdle.firstFailure?_eq_none_iff.mpr ?_, rfl⟩
  rw [List.forall_mem_append, List.forall_mem_singleton]
  exact ⟨hclear, Hurdle.failure?_read_eq_none_iff.mpr hrecorded⟩

/-- A block that is due is the reportable one. -/
theorem block_of_decision_eq_due {block recorded : UInt64}
    (h : ((decision category source).ask chain).result = .ok (.due block recorded)) :
    block = source.block chain category := by
  obtain ⟨-, hvalue⟩ := (follows_decision category source chain).result_eq_ok_iff.mp h
  split at hvalue
  · cases hvalue
    rfl
  · cases hvalue

/-! ## Decisions one after another -/

/-- What happens on a chain that a scheduler watches: something is done to the chain, or the scheduler
is asked. -/
inductive Event where
  | operation (op : Chain.Operation)
  | decide

/-- The decisions of a scheduler along a run. -/
def decisions (category : Category) (source : BlockSource) (chain : Chain) :
    List Event → List (Except ReportError CheckpointDecision)
  | [] => []
  | .operation op :: events => decisions category source (op.perform chain) events
  | .decide :: events =>
    ((decision category source).ask chain).result :: decisions category source chain events

/-- The head never falls along a run, and the frequency of a category stays as it is. -/
def Advancing (category : Category) (chain : Chain) : List Event → Prop
  | [] => True
  | .operation op :: events =>
    chain.latestBlock ≤ (op.perform chain).latestBlock ∧
      (op.perform chain).frequency category = chain.frequency category ∧
      Advancing category (op.perform chain) events
  | .decide :: events => Advancing category chain events

/-- The block that a decision finds due. -/
def dueBlock? : Except ReportError CheckpointDecision → Option UInt64
  | .ok (.due block _) => some block
  | _ => none

/-- The block that is found due is that of its source. -/
theorem eq_block_of_dueBlock? {block : UInt64}
    (h : dueBlock? ((decision category source).ask chain).result = some block) :
    block = source.block chain category := by
  cases hdecided : ((decision category source).ask chain).result with
  | error failure => rw [hdecided] at h; cases h
  | ok decided =>
    cases decided with
    | notDue reportable recorded => rw [hdecided] at h; cases h
    | due found recorded =>
      rw [hdecided] at h
      cases h
      exact block_of_decision_eq_due hdecided

/-- No block that is found due along a run lies below the rounded head at its start. -/
theorem block_le_of_mem_dueBlocks {events : List Event} (h : Advancing category chain events)
    {block : UInt64}
    (hdue : block ∈ (decisions category .frequency chain events).filterMap dueBlock?) :
    BlockSource.frequency.block chain category ≤ block := by
  induction events generalizing chain with
  | nil => cases hdue
  | cons event events ih =>
    cases event with
    | operation op =>
      obtain ⟨hhead, hfrequency, hrest⟩ := h
      exact UInt64.le_trans (BlockSource.block_frequency_mono hhead hfrequency) (ih hrest hdue)
    | decide =>
      rw [decisions, List.mem_filterMap] at hdue
      obtain ⟨decided, hdecided, hblock⟩ := hdue
      rcases List.mem_cons.mp hdecided with rfl | hlater
      · rw [eq_block_of_dueBlock? hblock]
        exact UInt64.le_refl _
      · exact ih h (List.mem_filterMap.mpr ⟨decided, hlater, hblock⟩)

/-- Blocks that are found due along a run never fall. -/
theorem pairwise_dueBlocks {events : List Event} (h : Advancing category chain events) :
    ((decisions category .frequency chain events).filterMap dueBlock?).Pairwise (· ≤ ·) := by
  induction events generalizing chain with
  | nil => exact List.Pairwise.nil
  | cons event events ih =>
    cases event with
    | operation op => exact ih h.2.2
    | decide =>
      have hrest : Advancing category chain events := h
      rw [decisions, List.filterMap_cons]
      cases hfound : dueBlock? ((decision category .frequency).ask chain).result with
      | none => exact ih hrest
      | some block =>
        refine List.Pairwise.cons (fun later hlater => ?_) (ih hrest)
        rw [eq_block_of_dueBlock? hfound]
        exact block_le_of_mem_dueBlocks hrest hlater

/-! ## The selection -/

/-- With its reads answered, a scheduler with a frequency finds the greatest checkpoint above the
recorded block due, exactly when there is one, and otherwise reports the greatest checkpoint of all. A
scheduler that asks the protocol finds the reportable block due exactly when it lies above the recorded
one. Whatever happens to the recorded block while the head does not fall and the frequency stays, the
blocks that a scheduler with a frequency finds due never fall. -/
theorem decision_selects_greatest_checkpoint (category : Category) (chain : Chain) :
    ((∀ method ∈ BlockSource.frequency.calls ++ [.recordedBlock], method ∉ chain.failing) →
      chain.frequency category ≠ 0 →
      let recorded := chain.recorded category
      let decided := ((decision category .frequency).ask chain).result
      let due := {block ∈ chain.checkpoints category | recorded.toNat < block}
      ((∃ block, decided = .ok (.due block recorded)) ↔ due.Nonempty) ∧
      (due.Nonempty → ∃ block, decided = .ok (.due block recorded) ∧ IsGreatest due block.toNat) ∧
      (¬ due.Nonempty → ∃ reportable, decided = .ok (.notDue reportable recorded) ∧
        IsGreatest (chain.checkpoints category) reportable.toNat)) ∧
    ((∀ method ∈ BlockSource.onChain.calls ++ [.recordedBlock], method ∉ chain.failing) →
      let recorded := chain.recorded category
      let reportable := chain.reportable category
      let decided := ((decision category .onChain).ask chain).result
      ((∃ block, decided = .ok (.due block recorded)) ↔ recorded < reportable) ∧
      (recorded < reportable → decided = .ok (.due reportable recorded)) ∧
      (¬ recorded < reportable → decided = .ok (.notDue reportable recorded))) ∧
    ∀ events, Advancing category chain events →
      ((decisions category .frequency chain events).filterMap dueBlock?).Pairwise (· ≤ ·) := by
  refine ⟨fun hreads hfrequency => ?_, fun hreads => ?_, fun events => pairwise_dueBlocks⟩
  · intro recorded decided due
    have hgreatest := BlockSource.isGreatest_block_frequency hfrequency
    have hblock : BlockSource.frequency.block? chain category =
        some (BlockSource.frequency.block chain category) := by
      simp [BlockSource.block, BlockSource.block?, roundToFrequency, hfrequency]
    have hdecided := result_decision hreads hblock
    generalize BlockSource.frequency.block chain category = block at hgreatest hdecided
    have hdue : due.Nonempty ↔ recorded < block := by
      rw [UInt64.lt_iff_toNat_lt]
      constructor
      · rintro ⟨other, hother, habove⟩
        exact Nat.lt_of_lt_of_le habove (hgreatest.2 hother)
      · exact fun habove => ⟨_, hgreatest.1, habove⟩
    rw [hdue]
    by_cases habove : recorded < block
    · have hanswer : decided = .ok (.due block recorded) := hdecided.trans (by rw [if_pos habove])
      refine ⟨iff_of_true ⟨block, hanswer⟩ habove, fun _ => ⟨block, hanswer, ?_⟩,
        fun hnot => absurd habove hnot⟩
      exact ⟨⟨hgreatest.1, UInt64.lt_iff_toNat_lt.mp habove⟩, fun other hother => hgreatest.2 hother.1⟩
    · have hanswer : decided = .ok (.notDue block recorded) :=
        hdecided.trans (by rw [if_neg habove])
      refine ⟨iff_of_false ?_ habove, fun h => absurd h habove, fun _ => ⟨block, hanswer, hgreatest⟩⟩
      rintro ⟨other, hother⟩
      cases hanswer.symm.trans hother
  · intro recorded reportable decided
    have hblock : BlockSource.onChain.block? chain category = some reportable := rfl
    have hdecided := result_decision hreads hblock
    by_cases habove : recorded < reportable
    · have hanswer : decided = .ok (.due reportable recorded) := hdecided.trans (by rw [if_pos habove])
      exact ⟨iff_of_true ⟨reportable, hanswer⟩ habove, fun _ => hanswer, fun h => absurd habove h⟩
    · have hanswer : decided = .ok (.notDue reportable recorded) :=
        hdecided.trans (by rw [if_neg habove])
      refine ⟨iff_of_false ?_ habove, fun h => absurd h habove, fun _ => hanswer⟩
      rintro ⟨other, hother⟩
      cases hanswer.symm.trans hother

/-- A chain at block 5432 that is reported on every thousand blocks, last at block 4000. -/
def reportedThousands : Chain :=
  { Chain.fresh with latestBlock := 5432, frequency := fun _ => 1000, recorded := fun _ => 4000 }

/-- Its head passes block 6000 while the recorded block runs ahead of the head and falls back. -/
def passingSixthThousand : List Event :=
  [.decide, .operation (.change (.latestBlock 6100)),
    .operation (.change (.recorded .balances 9000)), .decide,
    .operation (.change (.recorded .balances 0)), .decide]

/-- First block 5000 is due and later block 6000. The protocol itself has no block to report on. -/
theorem thousands_due_in_turn :
    (∀ method ∈ BlockSource.frequency.calls ++ [.recordedBlock],
      method ∉ reportedThousands.failing) ∧
    reportedThousands.frequency .balances ≠ 0 ∧
    IsGreatest {block ∈ reportedThousands.checkpoints .balances | 4000 < block} 5000 ∧
    (∀ method ∈ BlockSource.onChain.calls ++ [.recordedBlock],
      method ∉ reportedThousands.failing) ∧
    ((decision .balances .onChain).ask reportedThousands).result = .ok (.notDue 0 4000) ∧
    Advancing .balances reportedThousands passingSixthThousand ∧
    [(5000 : UInt64), 6000].Pairwise (· ≤ ·) := by
  have hfrequencyReads : ∀ method ∈ BlockSource.frequency.calls ++ [.recordedBlock],
      method ∉ reportedThousands.failing := fun _ _ => List.not_mem_nil
  have honChainReads : ∀ method ∈ BlockSource.onChain.calls ++ [.recordedBlock],
      method ∉ reportedThousands.failing := fun _ _ => List.not_mem_nil
  have hfrequency : reportedThousands.frequency .balances ≠ 0 := by decide
  have hadvancing : Advancing .balances reportedThousands passingSixthThousand := by
    simp only [passingSixthThousand, Advancing]
    decide
  obtain ⟨hselected, hasked, hrun⟩ :=
    decision_selects_greatest_checkpoint .balances reportedThousands
  obtain ⟨hdue, hblock, -⟩ := hselected hfrequencyReads hfrequency
  obtain ⟨block, hdecided, hgreatest⟩ := hblock (hdue.mp ⟨5000, rfl⟩)
  cases hdecided
  exact ⟨hfrequencyReads, hfrequency, hgreatest, honChainReads,
    (hasked honChainReads).2.2 (by decide), hadvancing, hrun _ hadvancing⟩

end Checkpoint

end StakeOracle
