import StakeOracle.Proofs.Ledger.Reading
import StakeOracle.Report.Task

/-!
# Computed calls and the decision to send them

A computed call belongs to the category of its source and names the block of its checkpoint, so the
record that the ledger is asked about is the record of the call itself. A report decides to send
only a call that it computed, and only when the exact flag of that record is unset.
-/

namespace StakeOracle

/-- A snapshot that was taken names the block of its target. -/
theorem block_of_aggregate {aggregator : Aggregator} {target : AggregationTarget} {chain : Chain}
    {snapshot : NetworkBalances}
    (h : ((aggregator.aggregate target).ask chain).result = .ok snapshot) :
    snapshot.block = target.block := by
  unfold Aggregator.aggregate at h
  obtain ⟨depositPool, -, h⟩ := Query.ask_bind_eq_ok.mp h
  obtain ⟨minipools, -, h⟩ := Query.ask_bind_eq_ok.mp h
  obtain ⟨balances, -, h⟩ := Query.ask_bind_eq_ok.mp h
  obtain ⟨shares, -, h⟩ := Query.ask_bind_eq_ok.mp h
  obtain ⟨smoothing, -, h⟩ := Query.ask_bind_eq_ok.mp h
  obtain ⟨⟨rethBalance, rethSupply⟩, -, h⟩ := Query.ask_bind_eq_ok.mp h
  obtain ⟨-, -, h⟩ := Query.ask_bind_eq_ok.mp h
  rw [← Query.ask_pure_eq_ok.mp h]
  rfl

namespace ReportSource

/-- A computed call has the category of its source and the block of its checkpoint. -/
theorem call_of_compute {source : ReportSource}
    {compute : Checkpoint → Query ReportError SubmissionCall} {checkpoint : Checkpoint}
    {chain : Chain} {call : SubmissionCall} (hsource : source.compute? = some compute)
    (h : ((compute checkpoint).ask chain).result = .ok call) :
    call.category = source.category ∧ call.block = checkpoint.block := by
  cases source with
  | balances aggregator =>
    obtain rfl := Option.some.inj hsource
    obtain ⟨snapshot, hsnapshot, h⟩ := Query.ask_bind_eq_ok.mp h
    obtain ⟨-, -, h⟩ := Query.ask_bind_eq_ok.mp h
    rw [← Query.ask_pure_eq_ok.mp h]
    exact ⟨rfl, block_of_aggregate hsnapshot⟩
  | price source =>
    obtain rfl := Option.some.inj hsource
    obtain ⟨price, -, h⟩ := Query.ask_bind_eq_ok.mp h
    obtain ⟨-, -, h⟩ := Query.ask_bind_eq_ok.mp h
    rw [← Query.ask_pure_eq_ok.mp h]
    exact ⟨rfl, rfl⟩
  | broken category => cases hsource

end ReportSource

namespace ReportTask

/-- A plan to send is made for the call at hand. -/
theorem checkFees_eq_send {task : ReportTask} {chain : Chain} {computed call : SubmissionCall}
    {options : SendOptions}
    (h : ((task.checkFees computed).ask chain).result = .ok (.send call options)) :
    call = computed := by
  unfold checkFees at h
  obtain ⟨plan, -, h⟩ := Query.ask_bind_eq_ok.mp h
  cases plan with
  | tooExpensive baseFee => cases Query.ask_pure_eq_ok.mp h
  | send planned =>
    cases Query.ask_pure_eq_ok.mp h
    rfl

/-- Judging never exchanges a call, and sends it only when its exact flag is unset. -/
theorem judge_eq_send {task : ReportTask} {checkpoint : Checkpoint} {chain : Chain}
    {computed call : SubmissionCall} {options : SendOptions}
    (h : ((task.judge checkpoint computed).ask chain).result = .ok (.send call options)) :
    call = computed ∧
      (⟨task.category, chain.node, checkpoint.block, computed.values⟩ :
        SubmissionRecord).exactKey ∉ chain.flags := by
  unfold judge at h
  obtain ⟨node, hnode, h⟩ := Query.ask_bind_eq_ok.mp h
  obtain rfl : chain.node = node := Except.ok.inj hnode
  obtain ⟨status, hstatus, h⟩ := Query.ask_bind_eq_ok.mp h
  cases status with
  | alreadySubmitted =>
    obtain ⟨-, -, h⟩ := Query.ask_bind_eq_ok.mp h
    cases Query.ask_pure_eq_ok.mp h
  | stale =>
    obtain ⟨-, -, h⟩ := Query.ask_bind_eq_ok.mp h
    exact ⟨checkFees_eq_send h, Ledger.exactKey_notMem_of_status hstatus (by decide)⟩
  | fresh =>
    exact ⟨checkFees_eq_send h, Ledger.exactKey_notMem_of_status hstatus (by decide)⟩

/-- A report that decides to send has computed its call, and the exact flag of the call's own record
is unset. -/
theorem prepare_eq_send {task : ReportTask} {checkpoint : Checkpoint} {chain : Chain}
    {compute : Checkpoint → Query ReportError SubmissionCall} {call : SubmissionCall}
    {options : SendOptions} (hsource : task.source.compute? = some compute)
    (h : ((task.prepare checkpoint compute).ask chain).result = .ok (.send call options)) :
    ((compute checkpoint).ask chain).result = .ok call ∧
      (SubmissionRecord.ofCall chain.node call).exactKey ∉ chain.flags := by
  obtain ⟨computed, hcompute, hjudge⟩ := Query.ask_bind_eq_ok.mp h
  obtain ⟨rfl, hunset⟩ := judge_eq_send hjudge
  obtain ⟨hcategory, hblock⟩ := ReportSource.call_of_compute hsource hcompute
  refine ⟨hcompute, ?_⟩
  rw [SubmissionRecord.ofCall, hcategory, hblock]
  exact hunset

end ReportTask

end StakeOracle
