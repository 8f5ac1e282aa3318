import StakeOracle.Proofs.Chain.Locality
import StakeOracle.Proofs.Chain.Operation
import StakeOracle.Proofs.Report.Computation

/-!
# Where ticks and reports look

Ticks and computations look at the world only. A report looks at flags once it is judged, and then at
the two keys of its own record.
-/

namespace StakeOracle

open Query (Shares)

variable {chain other : Chain}

/-! ## Ticks -/

/-- The reportable block is part of the world. -/
theorem shares_reportableBlock (hworld : other.world = chain.world) (category : Category)
    (source : BlockSource) : Shares chain other (Checkpoint.reportableBlock category source) := by
  cases source with
  | onChain => exact .within (.read rfl hworld fun _ => rfl)
  | frequency =>
    refine .bind (.within (.read rfl hworld fun _ => rfl)) fun head _ => ?_
    refine .bind (.within (.read rfl hworld fun _ => rfl)) fun frequency _ => ?_
    cases Checkpoint.roundToFrequency head frequency with
    | none => exact .throw
    | some block => exact .pure

/-- So is everything that a due checkpoint depends on. -/
theorem shares_decision (hworld : other.world = chain.world) (category : Category)
    (source : BlockSource) : Shares chain other (Checkpoint.decision category source) := by
  refine .bind (shares_reportableBlock hworld category source) fun reportable _ => ?_
  refine .bind (.within (.read rfl hworld fun _ => rfl)) fun recorded _ => ?_
  refine .bind .log fun _ _ => ?_
  split
  · exact .pure
  · exact .pure

/-- The time of a block belongs to the world. -/
theorem shares_readBlockTime (hworld : other.world = chain.world) (block : UInt64) :
    Shares chain other (Chain.readBlockTime block) := .read rfl hworld fun _ => rfl

/-- Finality depends on the time of a block and on the beacon chain. -/
theorem shares_checkFinality (hworld : other.world = chain.world) (category : Category) (busy : Bool)
    (block recorded : UInt64) :
    Shares chain other (ReportTask.checkFinality category busy block recorded) := by
  refine .bind (.within (shares_readBlockTime hworld block)) fun time _ => ?_
  refine .bind (.within (.read rfl hworld fun _ => rfl)) fun timing _ => ?_
  refine .bind (.within (.read rfl hworld fun _ => rfl)) fun head _ => ?_
  cases timing.finality time head with
  | pending position finalizedEpoch => exact .bind .log fun _ _ => .pure
  | finalized position =>
    cases busy with
    | true => exact .bind .log fun _ _ => .pure
    | false => exact .bind .log fun _ _ => .pure

/-- A tick looks at the world only. -/
theorem shares_tick (hworld : other.world = chain.world) (task : ReportTask) (busy : Bool) :
    Shares chain other (task.tick busy) := by
  refine .bind (.within (.read rfl hworld fun _ => rfl)) fun execution _ => ?_
  refine .bind (.within (.read rfl hworld fun _ => rfl)) fun consensus _ => .gate ?_
  refine .bind (.readNode hworld) fun node _ => ?_
  refine .bind (.within (.read rfl hworld fun _ => rfl)) fun trusted _ => .gate ?_
  refine .bind (.within (.read rfl hworld fun _ => rfl)) fun enabled _ => .gate ?_
  refine .bind (shares_decision hworld task.category task.blockSource) fun decision _ => ?_
  cases decision with
  | notDue reportable recorded => exact .bind .log fun _ _ => .pure
  | due block recorded => exact shares_checkFinality hworld task.category busy block recorded

/-! ## Computations -/

/-- A minipool is read from the list of minipools. -/
theorem shares_readMinipools (hworld : other.world = chain.world) (batchSize : Nat) :
    Shares chain other (Aggregator.readMinipools batchSize) := by
  refine .bind (.within (.read rfl hworld fun _ => rfl)) fun addresses _ => ?_
  rw [batched_eq_mapM]
  exact .mapM fun address _ => .within (.read rfl hworld fun _ => rfl)

/-- The balances of minipools come from the beacon chain. -/
theorem shares_minipoolBalances (hworld : other.world = chain.world) (curve : BondingCurve)
    (minipools : List Minipool) (epoch : UInt64) :
    Shares chain other (Aggregator.minipoolBalances curve minipools epoch) := by
  have hstatuses : ∀ keys, Shares chain other (Aggregator.statusesOf Chain.readValidators keys) := by
    intro keys
    unfold Aggregator.statusesOf
    split
    · exact .pure
    · exact .within (.read rfl hworld fun _ => rfl)
  refine .bind (.within (.read rfl hworld fun _ => rfl)) fun head _ => ?_
  split
  · exact .bind .throw fun _ _ => .bind (hstatuses _) fun _ _ => .ofExcept
  · exact .bind (hstatuses _) fun _ _ => .ofExcept

/-- So do the fee distributors of nodes and what they hold. -/
theorem shares_nodeShares (hworld : other.world = chain.world) (batchSize : Nat)
    (minipools : List Minipool) :
    Shares chain other (Aggregator.nodeShares batchSize minipools) := by
  refine .bind (.within (.read rfl hworld fun _ => rfl)) fun nodes _ => ?_
  rw [batched_eq_mapM]
  refine .mapM fun node _ => ?_
  refine .bind (.within (.read rfl hworld fun _ => rfl)) fun distributor _ => ?_
  exact .bind (.within (.read rfl hworld fun _ => rfl)) fun balance _ => .pure

/-- The estimator is told of the rewards interval and answers on its own. -/
theorem shares_smoothingShare (hworld : other.world = chain.world) (smoothing : Option Estimator)
    (target : AggregationTarget) :
    Shares chain other (Aggregator.smoothingShare smoothing target) := by
  refine .bind (.within (.read rfl hworld fun _ => rfl)) fun interval _ => ?_
  cases smoothing with
  | none => exact .pure
  | some estimate =>
    refine .bind .asked fun _ _ => ?_
    split
    · exact .pure
    · exact .throw

/-- What backs the token and how much of it there is belong to the world. -/
theorem shares_reth (hworld : other.world = chain.world) : Shares chain other Aggregator.reth := by
  refine .bind (.within (.read rfl hworld fun _ => rfl)) fun address _ => ?_
  refine .bind (.within (.read rfl hworld fun _ => rfl)) fun balance _ => ?_
  exact .bind (.within (.read rfl hworld fun _ => rfl)) fun supply _ => .pure

/-- A snapshot looks at the world only. -/
theorem shares_aggregate (hworld : other.world = chain.world) (aggregator : Aggregator)
    (target : AggregationTarget) : Shares chain other (aggregator.aggregate target) := by
  refine .bind (.within (.read rfl hworld fun _ => rfl)) fun depositPool _ => ?_
  refine .bind (shares_readMinipools hworld aggregator.batchSize) fun minipools _ => ?_
  refine .bind (shares_minipoolBalances hworld aggregator.curve minipools target.epoch)
    fun balances _ => ?_
  refine .bind (shares_nodeShares hworld aggregator.batchSize minipools) fun shares _ => ?_
  refine .bind (shares_smoothingShare hworld aggregator.smoothing target) fun smoothing _ => ?_
  exact .bind (shares_reth hworld) fun reth _ => .bind .log fun _ _ => .pure

/-- An observation of a pool looks at its state at a block and at the time of the block. -/
theorem shares_observe (hworld : other.world = chain.world) (token0 : Bool) (block : UInt64) :
    Shares chain other (PriceSource.observe token0 block) := by
  refine .bind (.within (.read rfl hworld fun _ => rfl)) fun reserves _ => ?_
  refine .bind (.within (.read rfl hworld fun _ => rfl)) fun cumulative _ => ?_
  refine .bind (.within (shares_readBlockTime hworld block)) fun time _ => ?_
  exact .bind .ofExcept fun forward _ => .pure

/-- A price looks at the world only, whatever its source is. -/
theorem shares_priceAt (hworld : other.world = chain.world) (source : PriceSource)
    (block : UInt64) : Shares chain other (source.priceAt block) := by
  cases source with
  | fixed price => exact .pure
  | tick pool window =>
    refine .bind (.within (.read rfl hworld fun _ => rfl)) fun cumulatives _ => ?_
    refine .bind .ofExcept fun tick _ => ?_
    exact .bind .log fun _ _ => .ofExcept
  | reserve pool token0 lookback =>
    refine .bind (.within (.read rfl hworld fun _ => rfl)) fun recorded _ => ?_
    have hwindow : Shares chain other (do
        let previous ← PriceSource.observe token0 (PriceSource.windowStart lookback block recorded)
        let current ← PriceSource.observe token0 block
        let average ← Query.ofExcept (timeWeighted previous current)
        Query.log (.reserveAverage (PriceSource.windowStart lookback block recorded) block average
          (current.timestamp.subSat previous.timestamp))
        return weiOfUq112 average) := by
      refine .bind (shares_observe hworld token0 _) fun previous _ => ?_
      refine .bind (shares_observe hworld token0 block) fun current _ => ?_
      refine .bind .ofExcept fun average _ => ?_
      exact .bind .log fun _ _ => .pure
    dsimp only
    split
    · exact .bind .throw fun _ _ => hwindow
    · exact hwindow

/-- The call of a report is computed from the world. -/
theorem shares_compute (hworld : other.world = chain.world) {source : ReportSource}
    {compute : Checkpoint → Query ReportError SubmissionCall}
    (hsource : source.compute? = some compute) (checkpoint : Checkpoint) :
    Shares chain other (compute checkpoint) := by
  cases source with
  | balances aggregator =>
    obtain rfl := Option.some.inj hsource
    refine .bind (shares_aggregate hworld aggregator checkpoint.target) fun snapshot _ => ?_
    exact .bind (.forM_log _) fun _ _ => .pure
  | price source =>
    obtain rfl := Option.some.inj hsource
    refine .bind (shares_priceAt hworld source checkpoint.block) fun price _ => ?_
    exact .bind .log fun _ _ => .pure
  | broken category => cases hsource

/-! ## Judgements -/

/-- The chains agree on whether the flags of a record are set. -/
def FlaggedAlike (chain other : Chain) (record : SubmissionRecord) : Prop :=
  ∀ key ∈ Chain.Operation.keysOf record, key ∈ other.flags ↔ key ∈ chain.flags

/-- The ledger looks at the two keys of a record. -/
theorem shares_status {record : SubmissionRecord} (hflags : FlaggedAlike chain other record) :
    Shares chain other (Ledger.status record) := by
  have hread : ∀ key ∈ Chain.Operation.keysOf record, Shares chain other (Chain.readFlag key) := by
    intro key hkey
    exact .call rfl (by rw [decide_eq_decide.mpr (hflags key hkey)])
  refine .bind (.within (hread _ (by simp [Chain.Operation.keysOf]))) fun exact _ => ?_
  cases exact with
  | true => exact .pure
  | false =>
    refine .bind (.within (hread _ (by simp [Chain.Operation.keysOf]))) fun coarse _ => ?_
    cases coarse with
    | true => exact .pure
    | false => exact .pure

/-- A plan looks at the gas estimate. -/
theorem shares_checkFees (hworld : other.world = chain.world) (task : ReportTask)
    (call : SubmissionCall) : Shares chain other (task.checkFees call) := by
  have hplan : Shares chain other (Submission.plan task.limits call) := by
    refine .bind (.plain (.read rfl hworld fun _ => rfl)) fun gas _ => ?_
    split
    · exact .bind .log fun _ _ => .pure
    · exact .bind .log fun _ _ => .pure
  refine .bind hplan fun plan _ => ?_
  cases plan with
  | tooExpensive baseFee => exact .pure
  | send options => exact .pure

/-- The record that the ledger is asked about when a call is judged. -/
def ReportTask.recordOf (task : ReportTask) (checkpoint : Checkpoint) (chain : Chain)
    (call : SubmissionCall) : SubmissionRecord :=
  ⟨task.category, chain.node, checkpoint.block, call.values⟩

/-- A judgement looks at the world and at the two keys of the record. -/
theorem shares_judge (hworld : other.world = chain.world) {task : ReportTask}
    {checkpoint : Checkpoint} {call : SubmissionCall}
    (hflags : FlaggedAlike chain other (task.recordOf checkpoint chain call)) :
    Shares chain other (task.judge checkpoint call) := by
  refine .bind (.readNode hworld) fun node hnode => ?_
  obtain rfl : chain.node = node := Except.ok.inj hnode
  refine .bind (shares_status hflags) fun status _ => ?_
  cases status with
  | alreadySubmitted => exact .bind .log fun _ _ => .pure
  | stale => exact .bind .log fun _ _ => shares_checkFees hworld task call
  | fresh => exact shares_checkFees hworld task call

/-- The record that the ledger is asked about for a checkpoint: that of the call which is computed. -/
def ReportTask.asksAbout? (task : ReportTask) (checkpoint : Checkpoint) (chain : Chain) :
    Option SubmissionRecord :=
  match task.source.compute? with
  | none => none
  | some compute =>
    match ((compute checkpoint).ask chain).result with
    | .ok call => some (task.recordOf checkpoint chain call)
    | .error _ => none

/-- A report looks at the world, and at the keys of the record that the ledger is asked about. -/
theorem shares_prepare (hworld : other.world = chain.world) {task : ReportTask}
    {checkpoint : Checkpoint} {compute : Checkpoint → Query ReportError SubmissionCall}
    (hsource : task.source.compute? = some compute)
    (hflags : ∀ record, task.asksAbout? checkpoint chain = some record →
      FlaggedAlike chain other record) :
    Shares chain other (task.prepare checkpoint compute) := by
  refine .bind (shares_compute hworld hsource checkpoint) fun call hcall => ?_
  refine shares_judge hworld (hflags _ ?_)
  rw [ReportTask.asksAbout?, hsource]
  simp only [hcall]

/-- A report that decides to send has asked about the record of its call. -/
theorem ReportTask.asksAbout?_of_send {task : ReportTask} {checkpoint : Checkpoint}
    {compute : Checkpoint → Query ReportError SubmissionCall} {call : SubmissionCall}
    {options : SendOptions} (hsource : task.source.compute? = some compute)
    (h : ((task.prepare checkpoint compute).ask chain).result = .ok (.send call options)) :
    task.asksAbout? checkpoint chain = some (.ofCall chain.node call) ∧
      call.category = task.category := by
  obtain ⟨hcompute, -⟩ := ReportTask.prepare_eq_send hsource h
  obtain ⟨hcategory, hblock⟩ := ReportSource.call_of_compute hsource hcompute
  refine ⟨?_, hcategory⟩
  rw [ReportTask.asksAbout?, hsource]
  simp only [hcompute, ReportTask.recordOf, SubmissionRecord.ofCall, hcategory, hblock]
  rfl

end StakeOracle
