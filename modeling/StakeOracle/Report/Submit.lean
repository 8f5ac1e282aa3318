import StakeOracle.Chain.Sending

/-!
# Submitting a call

A submission is planned from a gas estimate: above the fee ceiling nothing is sent, otherwise the
call goes out with the configured fees and the safe gas limit. The submission then waits for
inclusion, and a reverted receipt is a failure.
-/

namespace StakeOracle

/-- What a gas estimate leads to. -/
inductive SubmissionPlan where
  | tooExpensive (baseFee : Word)
  | send (options : SendOptions)
  deriving DecidableEq, Repr

/-- How a submission stands. -/
inductive SubmissionOutcome where
  | included (receipt : Receipt)
  /-- Network fees are above the ceiling; nothing was sent. -/
  | feeCeilingExceeded (baseFee priorityFee maxFee : Word)
  deriving DecidableEq, Repr

namespace Submission

/-- Plans a submission and says what is about to happen. -/
def plan (limits : FeeLimits) (call : SubmissionCall) : Query ReportError SubmissionPlan := do
  let gas ← Chain.readGas.plain
  if limits.maxFee < gas.baseFee.addSat limits.priorityFee then
    Query.log (.feeCeilingExceeded call gas.baseFee limits.priorityFee limits.maxFee)
    return .tooExpensive gas.baseFee
  else
    let maxCost := limits.maxFee.mulSat (Word.ofUInt64 gas.safeLimit)
    Query.log (.sending call gas.estimatedLimit gas.safeLimit maxCost)
    return .send ⟨limits.maxFee, limits.priorityFee, gas.safeLimit⟩

/-- Judges the answer to a wait for inclusion. -/
def conclude (call : SubmissionCall) (hash : Digest) (answer : Except ChainError Receipt) :
    Noted (Except ReportError Receipt) :=
  match answer with
  | .error e => pure (.error (.chain e))
  | .ok receipt =>
    if receipt.success then
      ⟨[.logged (.included call receipt.block receipt.gasUsed)], .ok receipt⟩
    else pure (.error (.reverted call hash))

/-- How far a transmission came. -/
inductive Transmission where
  /-- The call was not accepted. -/
  | refused (cause : ChainError)
  /-- The call was accepted, and the wait for its transaction is over. -/
  | settled (hash : Digest) (result : Except ReportError Receipt)
  /-- The call was accepted, and its transaction is waited for. -/
  | waiting (hash : Digest)

/-- Sends a call and waits for inclusion under the number of a wait. -/
def transmit (wait : Nat) (call : SubmissionCall) (options : SendOptions) :
    Action Transmission := do
  match ← Chain.send call options with
  | .error e => return .refused e
  | .ok hash =>
    StateT.lift (Noted.note (.logged (.sent call hash)))
    match ← Chain.awaitInclusion wait hash with
    | none => return .waiting hash
    | some answer => return .settled hash (← StateT.lift (conclude call hash answer))

/-- Submits a call on its own. There is no outcome while inclusion is held back. -/
def submit (wait : Nat) (limits : FeeLimits) (call : SubmissionCall) :
    Action (Option (Except ReportError SubmissionOutcome)) := do
  let planned : Noted (Except ReportError SubmissionPlan) := (plan limits call).ask (← get)
  match ← StateT.lift planned with
  | .error e => return some (.error e)
  | .ok (.tooExpensive baseFee) =>
    return some (.ok (.feeCeilingExceeded baseFee limits.priorityFee limits.maxFee))
  | .ok (.send options) =>
    match ← transmit wait call options with
    | .refused e => return some (.error (.chain e))
    | .settled _ result => return some (result.map .included)
    | .waiting _ => return none

end Submission

end StakeOracle
