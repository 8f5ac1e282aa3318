import StakeOracle.Engine.State

/-!
# Submissions outside of reports

A call can be submitted, or a transaction waited for, on its own. Such a wait does not stay in the
line of the inclusion gate: when it cannot pass at once it is given up, and takes no permit.
-/

namespace StakeOracle.Engine

/-- A number that no report in the line has. -/
def freshWait (engine : Engine) : Nat := engine.reports.length

/-- Runs an action under a fresh wait number, and gives the wait up if there is no answer yet. -/
def attempt (action : Nat → Action (Option α)) : Act (Option α) := do
  let wait := (← get).freshWait
  let answer ← onChain (action wait)
  if answer.isNone then
    modify fun engine => { engine with chain := engine.chain.leave wait }
  return answer

/-- Submits a call. -/
def submitOnce (limits : FeeLimits) (call : SubmissionCall) :
    Act (Option (Except ReportError SubmissionOutcome)) :=
  attempt fun wait => Submission.submit wait limits call

/-- Waits for the inclusion of a transaction. -/
def awaitOnce (hash : Digest) : Act (Option (Except ChainError Receipt)) :=
  attempt fun wait => Chain.awaitInclusion wait hash

/-- Sends a call without waiting for it. -/
def sendOnce (call : SubmissionCall) (options : SendOptions) : Act (Except ChainError Digest) :=
  onChain (Chain.send call options)

end StakeOracle.Engine
