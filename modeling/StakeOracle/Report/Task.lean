import StakeOracle.Ledger
import StakeOracle.Report.Source
import StakeOracle.Report.Submit

/-!
# Report tasks

A tick passes the gates in a fixed order: clients synced, node trusted, submissions enabled,
checkpoint due, checkpoint final, and no other report of the task in flight. Only then is a report
started. A started report computes its call, asks the ledger whether these values were submitted
before, and plans the submission.

Everything here only reads the chain.
-/

namespace StakeOracle

/-- What one tick decided. -/
inductive TickOutcome where
  | notSynced
  | notTrusted
  | disabled
  | notDue (reportable recorded : UInt64)
  | awaitingFinality (block epoch finalizedEpoch : UInt64)
  | alreadyRunning
  | started (checkpoint : Checkpoint)
  deriving DecidableEq, Repr

/-- What the ledger and the fees allow a report to do. -/
inductive Verdict where
  | alreadySubmitted
  | feeCeilingExceeded
  | send (call : SubmissionCall) (options : SendOptions)
  deriving DecidableEq, Repr

/-- How the reports of one category are scheduled, computed and paid for. -/
structure ReportTask where
  source : ReportSource
  blockSource : BlockSource
  limits : FeeLimits

namespace ReportTask

/-- The category of a task. -/
def category (task : ReportTask) : Category := task.source.category

/-- Waits for finality, then for the flight to be free. -/
def checkFinality (category : Category) (busy : Bool) (block recorded : UInt64) :
    Query ReportError TickOutcome := do
  let time ← (Chain.readBlockTime block).within "checkpoint header"
  let timing ← Chain.readTiming.within "beacon config"
  let head ← Chain.readHead.within "beacon head"
  match timing.finality time head with
  | .pending position finalizedEpoch =>
    Query.log (.awaitingFinality category block position.epoch finalizedEpoch)
    return .awaitingFinality block position.epoch finalizedEpoch
  | .finalized position =>
    if busy then
      Query.log (.alreadyRunning category)
      return .alreadyRunning
    else
      Query.log (.reportStarted category block position.slot position.epoch)
      return .started ⟨category, block, recorded, time, position.slot, position.epoch⟩

/-- Runs the gates once. `busy` tells whether a report of the task is in flight. -/
def tick (task : ReportTask) (busy : Bool) : Query ReportError TickOutcome := do
  let category := task.category
  let execution ← Chain.readExecutionSynced.within "execution sync status"
  let consensus ← Chain.readConsensusSynced.within "consensus sync status"
  if !(execution && consensus) then
    Query.log (.notSynced category execution consensus)
    return .notSynced
  let node ← Chain.readNode
  let trusted ← (Chain.readTrusted node).within "trusted member check"
  if !trusted then
    Query.log (.notTrusted category node)
    return .notTrusted
  let enabled ← (Chain.readEnabled category).within "submissions enabled flag"
  if !enabled then
    Query.log (.submissionsDisabled category)
    return .disabled
  match ← Checkpoint.decision category task.blockSource with
  | .notDue reportable recorded =>
    Query.log (.notDue category reportable recorded)
    return .notDue reportable recorded
  | .due block recorded => checkFinality category busy block recorded

/-- Plans the submission of a computed call within the fee limits. -/
def checkFees (task : ReportTask) (call : SubmissionCall) : Query ReportError Verdict := do
  match ← Submission.plan task.limits call with
  | .tooExpensive _ => return .feeCeilingExceeded
  | .send options => return .send call options

/-- Judges a computed call: the ledger first, then the fees. -/
def judge (task : ReportTask) (checkpoint : Checkpoint) (call : SubmissionCall) :
    Query ReportError Verdict := do
  let node ← Chain.readNode
  match ← Ledger.status ⟨task.category, node, checkpoint.block, call.values⟩ with
  | .alreadySubmitted =>
    Query.log (.alreadySubmitted task.category checkpoint.block)
    return .alreadySubmitted
  | .stale =>
    Query.log (.resubmitting task.category checkpoint.block)
    task.checkFees call
  | .fresh => task.checkFees call

/-- What a started report decides to do, from its computation to the point of sending. -/
def prepare (task : ReportTask) (checkpoint : Checkpoint)
    (compute : Checkpoint → Query ReportError SubmissionCall) : Query ReportError Verdict := do
  let call ← compute checkpoint
  task.judge checkpoint call

end ReportTask

end StakeOracle
