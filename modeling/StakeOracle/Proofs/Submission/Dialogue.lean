import StakeOracle.Config.Settings
import StakeOracle.Proofs.Engine.Conduct

/-!
# Submissions as dialogues

A submission asks its chain for an estimate, names fees and gas as it sends, and names a transaction as
it waits. What is named is on record only where the request is answered. Here a submission is a dialogue:
each request goes with what follows its reply, whatever that is. Held with a chain, the dialogue does
exactly what the submission does, so its requests are those that the submission makes. While inclusion is
not held back there are six ways in which it goes.
-/

namespace StakeOracle

namespace Chain

/-- An estimate is the chain's, unless it is set to fail. -/
theorem ask_readGas (chain : Chain) : readGas.ask chain = ⟨[.called .estimateGas],
    if .estimateGas ∈ chain.failing then .error (Method.fault .estimateGas) else .ok chain.gas⟩ := rfl

/-- A wait that is not held back is answered with the receipt, unless it is set to fail. -/
theorem answer_awaitInclusion {chain : Chain} (h : chain.Unheld) (wait : Nat) (hash : Digest) :
    answer (awaitInclusion wait hash) chain =
      some (if .awaitInclusion ∈ chain.failing then .error (Method.fault .awaitInclusion)
        else chain.receipt hash) := by
  unfold answer awaitInclusion
  by_cases hawait : .awaitInclusion ∈ chain.failing
  · simp [guarded, hawait, Method.fault]
  · cases hgate : chain.gate with
    | none => simp [guarded, hawait]
    | some gate => simp [guarded, hawait, h gate hgate]

/-- The call that was accepted last has a receipt; it is a success unless submissions revert. -/
theorem exists_receipt_accept (chain : Chain) (call : SubmissionCall) (options : SendOptions) :
    ∃ receipt, (chain.accept call options).receipt chain.nextHash = .ok receipt ∧
      receipt.hash = chain.nextHash ∧ receipt.success = !chain.reverting := by
  unfold receipt
  cases hfound : (chain.accept call options).sent.find? fun transaction =>
      transaction.hash = chain.nextHash with
  | none =>
    have hhash : (chain.transaction call options).hash = chain.nextHash := rfl
    rw [sent_accept, List.find?_append, Option.or_eq_none_iff] at hfound
    simp [hhash] at hfound
  | some transaction => exact ⟨_, rfl, rfl, rfl⟩

end Chain

namespace Submission

/-! ## Requests and dialogues -/

/-- What a submission asks of its chain. -/
inductive Request where
  | estimateGas
  | send (call : SubmissionCall) (options : SendOptions)
  | awaitInclusion (hash : Digest)
  deriving DecidableEq, Repr

namespace Request

/-- What a request is answered with where it does not fail. -/
abbrev Reply : Request → Type
  | estimateGas => GasInfo
  | send .. => Digest
  | awaitInclusion _ => Receipt

/-- The call that is made for a request. -/
def method : Request → Method
  | estimateGas => .estimateGas
  | send .. => .send
  | awaitInclusion _ => .awaitInclusion

/-- Makes a request. There is no reply while inclusion is held back. -/
def perform (wait : Nat) : (request : Request) → Action (Option (Except ChainError request.Reply))
  | estimateGas => fun chain => do
    let gas ← Chain.readGas.ask chain
    return (some gas, chain)
  | send call options => some <$> Chain.send call options
  | awaitInclusion hash => Chain.awaitInclusion wait hash

/-- A request makes its one call, even if there is no reply yet. -/
theorem calls_perform (wait : Nat) (request : Request) (chain : Chain) :
    (request.perform wait chain).calls = [request.method] := by
  cases request with
  | estimateGas => rfl
  | send call options => rfl
  | awaitInclusion hash => rfl

/-- Asking for gas has its reply at once, and leaves the chain as it is. -/
theorem run_estimateGas (wait : Nat) (chain : Chain) : estimateGas.perform wait chain =
    ⟨[.called .estimateGas], (some (if .estimateGas ∈ chain.failing then
      .error (Method.fault .estimateGas) else .ok chain.gas), chain)⟩ := rfl

/-- A send has its reply at once. -/
theorem answer_perform_send (wait : Nat) (call : SubmissionCall) (options : SendOptions)
    (chain : Chain) : answer ((send call options).perform wait) chain =
      some (answer (Chain.send call options) chain) := rfl

/-- A send does to the chain what sending there does. -/
theorem after_perform_send (wait : Nat) (call : SubmissionCall) (options : SendOptions)
    (chain : Chain) : after ((send call options).perform wait) chain =
      after (Chain.send call options) chain := rfl

end Request

/-- Requests one after another, with what follows each reply, and log entries between them. -/
inductive Dialogue (α : Type) where
  | ended (a : α)
  | log (entry : LogEntry) (rest : Dialogue α)
  | ask (request : Request) (rest : Except ChainError request.Reply → Dialogue α)

namespace Dialogue

/-- Holds a dialogue with a chain. It does not come to its end while a reply is held back. -/
def hold (wait : Nat) : Dialogue α → Action (Option α)
  | ended a => return some a
  | log entry rest => do
    StateT.lift (Noted.note (.logged entry))
    rest.hold wait
  | ask request rest => do
    match ← request.perform wait with
    | none => return none
    | some reply => (rest reply).hold wait

/-- The requests of a dialogue that is held with a chain. -/
def requests (wait : Nat) : Dialogue α → Chain → List Request
  | ended _, _ => []
  | log _ rest, chain => rest.requests wait chain
  | ask request rest, chain =>
    request ::
      match answer (request.perform wait) chain with
      | none => []
      | some reply => (rest reply).requests wait (after (request.perform wait) chain)

/-- A dialogue makes the calls of its requests. -/
theorem calls_hold (wait : Nat) (dialogue : Dialogue α) (chain : Chain) :
    (dialogue.hold wait chain).calls = (dialogue.requests wait chain).map Request.method := by
  induction dialogue generalizing chain with
  | ended a => rfl
  | log entry rest ih => exact ih chain
  | ask request rest ih =>
    rw [hold, calls_bind, Request.calls_perform, requests, List.map_cons]
    cases answer (request.perform wait) chain with
    | none => rfl
    | some reply => exact congrArg (request.method :: ·) (ih reply _)

/-- Writing a log entry asks nothing and answers nothing. -/
theorem requests_log (wait : Nat) (entry : LogEntry) (rest : Dialogue α) (chain : Chain) :
    (log entry rest).requests wait chain = rest.requests wait chain := rfl

/-- A log entry does not change how a dialogue ends. -/
theorem answer_log_hold (wait : Nat) (entry : LogEntry) (rest : Dialogue α) (chain : Chain) :
    answer ((log entry rest).hold wait) chain = answer (rest.hold wait) chain := rfl

variable {request : Request} {wait : Nat} {chain : Chain} {reply : Except ChainError request.Reply}

/-- Behind a request that is answered the dialogue goes on with what follows the reply. -/
theorem requests_ask (h : answer (request.perform wait) chain = some reply)
    (rest : Except ChainError request.Reply → Dialogue α) :
    (ask request rest).requests wait chain =
      request :: (rest reply).requests wait (after (request.perform wait) chain) := by
  rw [requests, h]

/-- Behind a request that is answered the dialogue ends as what follows the reply does. -/
theorem answer_ask_hold (h : answer (request.perform wait) chain = some reply)
    (rest : Except ChainError request.Reply → Dialogue α) :
    answer ((ask request rest).hold wait) chain =
      answer ((rest reply).hold wait) (after (request.perform wait) chain) := by
  rw [hold, answer_bind, h]

end Dialogue

/-- The end of a submission, in which it waits for its transaction. -/
def waitDialogue (call : SubmissionCall) (hash : Digest) :
    Dialogue (Except ReportError SubmissionOutcome) :=
  .ask (.awaitInclusion hash) fun
    | .error e => .ended (.error (.chain e))
    | .ok (receipt : Receipt) =>
      if receipt.success then
        .log (.included call receipt.block receipt.gasUsed) <| .ended (.ok (.included receipt))
      else .ended (.error (.reverted call hash))

/-- The part of a submission that sends its call. -/
def sendDialogue (call : SubmissionCall) (options : SendOptions) :
    Dialogue (Except ReportError SubmissionOutcome) :=
  .ask (.send call options) fun
    | .error e => .ended (.error (.chain e))
    | .ok (hash : Digest) => .log (.sent call hash) (waitDialogue call hash)

/-- A submission as a dialogue. -/
def dialogue (limits : FeeLimits) (call : SubmissionCall) :
    Dialogue (Except ReportError SubmissionOutcome) :=
  .ask .estimateGas fun
    | .error e => .ended (.error (.chain e))
    | .ok (gas : GasInfo) =>
      if limits.maxFee < gas.baseFee.addSat limits.priorityFee then
        .log (.feeCeilingExceeded call gas.baseFee limits.priorityFee limits.maxFee) <|
          .ended (.ok (.feeCeilingExceeded gas.baseFee limits.priorityFee limits.maxFee))
      else
        .log (.sending call gas.estimatedLimit gas.safeLimit
            (limits.maxFee.mulSat (Word.ofUInt64 gas.safeLimit))) <|
          sendDialogue call ⟨limits.maxFee, limits.priorityFee, gas.safeLimit⟩

/-- A transmission is the second part of the dialogue. -/
theorem transmit_eq_hold (wait : Nat) (call : SubmissionCall) (options : SendOptions) :
    (do
      match ← transmit wait call options with
      | .refused e => return some (.error (.chain e))
      | .settled _ result => return some (result.map .included)
      | .waiting _ => return none) = (sendDialogue call options).hold wait := by
  unfold transmit sendDialogue
  simp only [Dialogue.hold, Request.perform, bind_assoc, bind_map_left]
  congr 1
  funext sent
  cases sent with
  | error e => simp [Dialogue.hold]
  | ok hash =>
    simp only [bind_assoc, waitDialogue, Dialogue.hold, Request.perform]
    congr 1
    funext _
    congr 1
    funext reply
    cases reply with
    | none => simp
    | some given =>
      cases given with
      | error e => rfl
      | ok receipt =>
        dsimp only
        by_cases hsuccess : receipt.success = true
        · have hjudged : conclude call hash (.ok receipt) =
              ⟨[.logged (.included call receipt.block receipt.gasUsed)], .ok receipt⟩ :=
            if_pos hsuccess
          rw [hjudged, if_pos hsuccess]
          rfl
        · have hjudged : conclude call hash (.ok receipt) =
              pure (.error (.reverted call hash)) := if_neg hsuccess
          rw [hjudged, if_neg hsuccess]
          rfl

/-- A submission is its dialogue, on every chain. -/
theorem submit_eq_hold (wait : Nat) (limits : FeeLimits) (call : SubmissionCall) :
    submit wait limits call = (dialogue limits call).hold wait := by
  funext chain
  have hget : (get : Action Chain) chain = ⟨[], (chain, chain)⟩ := rfl
  have hread := (Query.ask_plain Chain.readGas chain).trans (by rw [Chain.ask_readGas])
  have hreply := Request.run_estimateGas wait chain
  unfold submit dialogue
  -- Both sides read the estimate first, and depend on nothing else of the chain until they send.
  rw [run_bind_of_eq hget, run_bind_of_eq (run_lift _ _), Dialogue.hold]
  by_cases hestimate : .estimateGas ∈ chain.failing
  · rw [if_pos hestimate] at hread hreply
    rw [run_bind_of_eq hreply, plan, Query.ask_bind_of_error hread]
    rfl
  · rw [if_neg hestimate] at hread hreply
    rw [run_bind_of_eq hreply, plan, Query.ask_bind_of_ok hread]
    dsimp only
    split
    · rfl
    · rw [Dialogue.hold, ← transmit_eq_hold]
      rfl

end Submission

end StakeOracle
