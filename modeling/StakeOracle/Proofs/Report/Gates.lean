import StakeOracle.Proofs.Chain.Answer
import StakeOracle.Report.Task

/-!
# What a started report has passed

A tick starts a report only behind all of its gates. The checkpoint of a started report tells what
the gates saw of the chain: a block above the recorded one, up to the head, whose epoch is final.
-/

namespace StakeOracle

/-- A chain on which a task may report on a checkpoint. -/
structure Authorised (chain : Chain) (task : ReportTask) (checkpoint : Checkpoint) : Prop where
  executionSynced : chain.executionSynced = true
  consensusSynced : chain.consensusSynced = true
  trusted : chain.trusted chain.node = true
  enabled : chain.enabled task.category = true
  category : checkpoint.category = task.category
  recordedBlock : checkpoint.recordedBlock = chain.recorded task.category
  /-- The block is above the last one on which the category reached consensus. -/
  above : checkpoint.recordedBlock < checkpoint.block
  /-- The block is not above the head. -/
  reached : checkpoint.block ≤ chain.latestBlock
  blockTime : checkpoint.blockTime = chain.blockTime checkpoint.block
  epoch : checkpoint.epoch = (chain.timing.positionOf checkpoint.blockTime).epoch
  final : checkpoint.epoch ≤ chain.head.finalizedEpoch

namespace Checkpoint

variable {category : Category} {source : BlockSource} {chain : Chain} {block recorded : UInt64}

/-- A block is due only above the one that the chain has recorded. -/
theorem decision_eq_due (h : ((decision category source).ask chain).result =
    .ok (.due block recorded)) : recorded = chain.recorded category ∧ recorded < block := by
  unfold decision at h
  obtain ⟨reportable, -, h⟩ := Query.ask_bind_eq_ok.mp h
  obtain ⟨read, hread, h⟩ := Query.ask_bind_eq_ok.mp h
  obtain ⟨-, -, h⟩ := Query.ask_bind_eq_ok.mp h
  split at h
  · rename_i habove
    cases Query.ask_pure_eq_ok.mp h
    exact ⟨(Query.ask_read_eq_ok.mp hread).2.symm, habove⟩
  · cases Query.ask_pure_eq_ok.mp h

end Checkpoint

namespace ReportTask

variable {chain : Chain} {checkpoint : Checkpoint}

/-- A block time is read only up to the head. -/
theorem ask_readBlockTime_eq_ok {block time : UInt64} {context : String} :
    (((Chain.readBlockTime block).within context).ask chain).result = .ok time ↔
      Method.header ∉ chain.failing ∧ block ≤ chain.latestBlock ∧ chain.blockTime block = time := by
  rw [Query.ask_within_eq_ok, Chain.readBlockTime, Query.ask_call_eq_ok]
  by_cases hahead : chain.latestBlock < block
  · simp [hahead, UInt64.not_le.mpr hahead]
  · simp [hahead, UInt64.not_lt.mp hahead]

/-- The last gates let through a block up to the head, at its own position, once that is final. -/
theorem checkFinality_eq_started {category : Category} {busy : Bool} {block recorded : UInt64}
    (h : ((checkFinality category busy block recorded).ask chain).result =
      .ok (.started checkpoint)) :
    busy = false ∧ block ≤ chain.latestBlock ∧
      (chain.timing.positionOf (chain.blockTime block)).epoch ≤ chain.head.finalizedEpoch ∧
      checkpoint = ⟨category, block, recorded, chain.blockTime block,
        (chain.timing.positionOf (chain.blockTime block)).slot,
        (chain.timing.positionOf (chain.blockTime block)).epoch⟩ := by
  unfold checkFinality at h
  obtain ⟨time, htime, h⟩ := Query.ask_bind_eq_ok.mp h
  obtain ⟨-, hreached, rfl⟩ := ask_readBlockTime_eq_ok.mp htime
  obtain ⟨timing, htiming, h⟩ := Query.ask_bind_eq_ok.mp h
  obtain ⟨-, rfl⟩ := Query.ask_read_eq_ok.mp htiming
  obtain ⟨head, hhead, h⟩ := Query.ask_bind_eq_ok.mp h
  obtain ⟨-, rfl⟩ := Query.ask_read_eq_ok.mp hhead
  unfold BeaconTiming.finality at h
  dsimp only at h
  split at h
  · rename_i hfinality
    obtain ⟨-, -, h⟩ := Query.ask_bind_eq_ok.mp h
    cases Query.ask_pure_eq_ok.mp h
  · rename_i position hfinality
    split at hfinality
    · cases hfinality
    · rename_i hfinal
      cases hfinality
      cases busy with
      | true =>
        obtain ⟨-, -, h⟩ := Query.ask_bind_eq_ok.mp h
        cases Query.ask_pure_eq_ok.mp h
      | false =>
        obtain ⟨-, -, h⟩ := Query.ask_bind_eq_ok.mp h
        cases Query.ask_pure_eq_ok.mp h
        exact ⟨rfl, hreached, UInt64.not_lt.mp hfinal, rfl⟩

/-- A tick that starts a report has passed every gate on the chain that it read. -/
theorem authorised_of_tick {task : ReportTask} {busy : Bool}
    (h : ((task.tick busy).ask chain).result = .ok (.started checkpoint)) :
    Authorised chain task checkpoint ∧ busy = false := by
  unfold tick at h
  obtain ⟨execution, hexecution, h⟩ := Query.ask_bind_eq_ok.mp h
  obtain ⟨-, rfl⟩ := Query.ask_read_eq_ok.mp hexecution
  obtain ⟨consensus, hconsensus, h⟩ := Query.ask_bind_eq_ok.mp h
  obtain ⟨-, rfl⟩ := Query.ask_read_eq_ok.mp hconsensus
  obtain ⟨hsynced, h⟩ := Query.ask_gate_eq_ok (by simp) h
  obtain ⟨node, hnode, h⟩ := Query.ask_bind_eq_ok.mp h
  obtain rfl : chain.node = node := Except.ok.inj hnode
  obtain ⟨trusted, htrusted, h⟩ := Query.ask_bind_eq_ok.mp h
  obtain ⟨-, rfl⟩ := Query.ask_read_eq_ok.mp htrusted
  obtain ⟨htrusted, h⟩ := Query.ask_gate_eq_ok (by simp) h
  obtain ⟨enabled, henabled, h⟩ := Query.ask_bind_eq_ok.mp h
  obtain ⟨-, rfl⟩ := Query.ask_read_eq_ok.mp henabled
  obtain ⟨henabled, h⟩ := Query.ask_gate_eq_ok (by simp) h
  obtain ⟨decision, hdecision, h⟩ := Query.ask_bind_eq_ok.mp h
  cases decision with
  | notDue reportable recorded =>
    obtain ⟨-, -, h⟩ := Query.ask_bind_eq_ok.mp h
    cases Query.ask_pure_eq_ok.mp h
  | due block recorded =>
    obtain ⟨rfl, habove⟩ := Checkpoint.decision_eq_due hdecision
    obtain ⟨hfree, hreached, hfinal, rfl⟩ := checkFinality_eq_started h
    simp only [Bool.not_eq_false', Bool.and_eq_true] at hsynced htrusted henabled
    exact ⟨⟨hsynced.1, hsynced.2, htrusted, henabled, rfl, rfl, habove, hreached, rfl, rfl, hfinal⟩,
      hfree⟩

end ReportTask

end StakeOracle
