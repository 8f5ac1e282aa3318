import StakeOracle.Proofs.Engine.Delivery
import StakeOracle.Proofs.Report.Locality

/-!
# How a report goes while inclusion is not held back

Without a gate, or with a permit left at it, a wait for inclusion is over at once. A report that begins
then goes one of five ways: it fails before it has decided, finds its values submitted, finds fees too
high, has its call refused, or has it accepted and waits for the inclusion. Which way it goes, the notes
that it leaves and what becomes of the chain do not depend on the engine around the chain.
-/

namespace StakeOracle

/-- A computation in two parts, once it is known how the first one runs. -/
theorem run_bind_of_eq {act : StateT σ Noted α} {s next : σ} {a : α} {notes : List Note}
    (h : act s = ⟨notes, (a, next)⟩) (f : α → StateT σ Noted β) :
    (act >>= f) s = ⟨notes ++ (f a next).notes, (f a next).result⟩ := by
  change (act s >>= fun pair => f pair.1 pair.2) = _
  rw [h]
  rfl

/-- Work that only leaves notes leaves the state as it is. -/
theorem run_lift (noted : Noted α) (s : σ) : (StateT.lift noted : StateT σ Noted α) s =
    ⟨noted.notes, (noted.result, s)⟩ := Noted.eq_of (List.append_nil _) rfl

namespace Chain

/-- Inclusion is not held back: there is no gate, or a wait passes it at once. -/
def Unheld (chain : Chain) : Prop := ∀ gate ∈ chain.gate, gate.passes = true

/-- Nothing but a new gate holds inclusion back. -/
theorem Unheld.apply {chain : Chain} (h : chain.Unheld) {change : Change}
    (hchange : change ≠ .closeGate) : (chain.apply change).Unheld := by
  cases change with
  | closeGate => exact absurd rfl hchange
  | _ => exact h

/-- A receipt names the transaction that was asked for. -/
theorem hash_of_receipt {chain : Chain} {hash : Digest} {receipt : Receipt}
    (h : chain.receipt hash = .ok receipt) : receipt.hash = hash := by
  unfold Chain.receipt at h
  split at h
  · cases h
  · cases h
    rfl

/-- A wait that is not held back has an answer, whatever its number is. -/
theorem awaitInclusion_of_unheld {chain : Chain} (h : chain.Unheld) (hash : Digest) :
    ∃ gate answer, (∀ receipt, answer = .ok receipt → receipt.hash = hash) ∧
      ∀ wait, awaitInclusion wait hash chain =
        ⟨[.called .awaitInclusion], (some answer, { chain with gate })⟩ := by
  unfold awaitInclusion
  cases chain.guarded .awaitInclusion with
  | error e => exact ⟨chain.gate, .error e, nofun, fun _ => rfl⟩
  | ok _ =>
    cases hgate : chain.gate with
    | none =>
      have hsame : { chain with gate := none } = chain := by rw [← hgate]
      exact ⟨none, chain.receipt hash, fun _ => hash_of_receipt, fun _ => by rw [hsame]⟩
    | some gate =>
      have hpasses : gate.passes = true := h gate hgate
      refine ⟨some { gate with permits := gate.permits - 1 }, chain.receipt hash,
        fun _ => hash_of_receipt, fun wait => ?_⟩
      simp only [Gate.arrive, hpasses, if_true]

end Chain

namespace Submission

/-- Only a successful receipt is accepted as the result of a submission. -/
theorem conclude_eq_ok {call : SubmissionCall} {hash : Digest} {answer : Except ChainError Receipt}
    {receipt : Receipt} (h : (conclude call hash answer).result = .ok receipt) :
    answer = .ok receipt ∧ receipt.success = true := by
  cases answer with
  | error e => cases h
  | ok found =>
    unfold conclude at h
    dsimp only at h
    split at h
    · rename_i hsuccess
      cases h
      exact ⟨rfl, hsuccess⟩
    · cases h

/-- Judging an answer makes no calls. -/
theorem calls_conclude (call : SubmissionCall) (hash : Digest)
    (answer : Except ChainError Receipt) : (conclude call hash answer).calls = [] := by
  cases answer with
  | error e => rfl
  | ok receipt =>
    unfold conclude
    dsimp only
    split
    · rfl
    · rfl

/-- An accepted transmission that is not held back is over at once, whatever its number is. Where it
ends well, its receipt is a success and names the transaction. -/
theorem transmit_of_unheld {chain : Chain} (h : chain.Unheld) (call : SubmissionCall)
    (options : SendOptions) (hsend : .send ∉ chain.failing) : ∃ gate result notes,
    (∀ receipt, result = .ok receipt → receipt.success = true ∧ receipt.hash = chain.nextHash) ∧
      notes.filterMap Note.call? = [.send, .awaitInclusion] ∧
      ∀ wait, transmit wait call options chain =
        ⟨notes, (.settled chain.nextHash result, { chain.accept call options with gate })⟩ := by
  have hunheld : (chain.accept call options).Unheld := h
  obtain ⟨gate, given, hhash, hawait⟩ := Chain.awaitInclusion_of_unheld hunheld chain.nextHash
  have hsent : Chain.send call options chain =
      ⟨[.called .send], (.ok chain.nextHash, chain.accept call options)⟩ := by
    simp [Chain.send, Chain.guarded, hsend]
  refine ⟨gate, (conclude call chain.nextHash given).result,
    [.called .send, .logged (.sent call chain.nextHash), .called .awaitInclusion] ++
      (conclude call chain.nextHash given).notes, fun receipt hreceipt => ?_, ?_, fun wait => ?_⟩
  · obtain ⟨hgiven, hsuccess⟩ := conclude_eq_ok hreceipt
    exact ⟨hsuccess, hhash receipt hgiven⟩
  · rw [List.filterMap_append]
    exact congrArg (_ ++ ·) (calls_conclude call chain.nextHash given)
  · unfold transmit
    rw [run_bind_of_eq hsent]
    dsimp only
    rw [run_bind_of_eq (run_lift _ _), run_bind_of_eq (hawait wait)]
    dsimp only
    rw [run_bind_of_eq (run_lift _ _)]
    refine Noted.eq_of ?_ rfl
    exact congrArg (fun notes => Note.called .send :: .logged (.sent call chain.nextHash) ::
      .called .awaitInclusion :: notes) (List.append_nil (conclude call chain.nextHash given).notes)

/-- A transmission whose call is not accepted leaves the chain as it is. -/
theorem run_transmit_of_refused {chain : Chain} (call : SubmissionCall) (options : SendOptions)
    (hsend : .send ∈ chain.failing) (wait : Nat) : transmit wait call options chain =
      ⟨[.called .send], (.refused (Method.fault .send), chain)⟩ := by
  have hsent : Chain.send call options chain =
      ⟨[.called .send], (.error (Method.fault .send), chain)⟩ := by
    simp [Chain.send, Chain.guarded, hsend, Method.fault]
  unfold transmit
  rw [run_bind_of_eq hsent]
  rfl

end Submission

namespace ReportTask

/-- A plan to send takes its fees from the limits and its gas from the estimate. -/
theorem options_of_checkFees {task : ReportTask} {chain : Chain} {computed call : SubmissionCall}
    {options : SendOptions}
    (h : ((task.checkFees computed).ask chain).result = .ok (.send call options)) :
    options = ⟨task.limits.maxFee, task.limits.priorityFee, chain.gas.safeLimit⟩ := by
  unfold checkFees Submission.plan at h
  obtain ⟨plan, hplan, h⟩ := Query.ask_bind_eq_ok.mp h
  obtain ⟨gas, hgas, hplan⟩ := Query.ask_bind_eq_ok.mp hplan
  have hread : (Chain.readGas.ask chain).result = .ok gas := mapError_eq_ok.mp hgas
  obtain ⟨-, rfl⟩ : Method.estimateGas ∉ chain.failing ∧ chain.gas = gas := by
    simpa using Query.ask_call_eq_ok.mp hread
  split at hplan
  · obtain ⟨-, -, hplan⟩ := Query.ask_bind_eq_ok.mp hplan
    cases Query.ask_pure_eq_ok.mp hplan
    cases Query.ask_pure_eq_ok.mp h
  · obtain ⟨-, -, hplan⟩ := Query.ask_bind_eq_ok.mp hplan
    cases Query.ask_pure_eq_ok.mp hplan
    cases Query.ask_pure_eq_ok.mp h
    rfl

/-- So does every report that decides to send. -/
theorem options_of_prepare {task : ReportTask} {checkpoint : Checkpoint} {chain : Chain}
    {compute : Checkpoint → Query ReportError SubmissionCall} {call : SubmissionCall}
    {options : SendOptions}
    (h : ((task.prepare checkpoint compute).ask chain).result = .ok (.send call options)) :
    options = ⟨task.limits.maxFee, task.limits.priorityFee, chain.gas.safeLimit⟩ := by
  obtain ⟨computed, -, hjudge⟩ := Query.ask_bind_eq_ok.mp h
  obtain ⟨node, -, hjudge⟩ := Query.ask_bind_eq_ok.mp hjudge
  obtain ⟨status, -, hjudge⟩ := Query.ask_bind_eq_ok.mp hjudge
  cases status with
  | alreadySubmitted =>
    obtain ⟨-, -, hjudge⟩ := Query.ask_bind_eq_ok.mp hjudge
    cases Query.ask_pure_eq_ok.mp hjudge
  | stale =>
    obtain ⟨-, -, hjudge⟩ := Query.ask_bind_eq_ok.mp hjudge
    exact options_of_checkFees hjudge
  | fresh => exact options_of_checkFees hjudge

end ReportTask

namespace Engine

open Chain (Delivery)

/-- The ways in which a report of a task goes, once its call is computed or failed to be. -/
inductive Conduct (chain : Chain) (decision : Noted (Except ReportError Verdict)) : Delivery → Prop
  /-- It fails before it has decided. -/
  | undecided {failure : ReportError} (decided : decision.result = .error failure) :
      Conduct chain decision ⟨chain, none, .finished (.error failure), decision.calls⟩
  /-- Its values were submitted before. -/
  | alreadySubmitted (decided : decision.result = .ok .alreadySubmitted) :
      Conduct chain decision ⟨chain, none, .finished (.ok .alreadySubmitted), decision.calls⟩
  /-- Fees are above the ceiling. -/
  | feeCeilingExceeded (decided : decision.result = .ok .feeCeilingExceeded) :
      Conduct chain decision ⟨chain, none, .finished (.ok .feeCeilingExceeded), decision.calls⟩
  /-- Its call is not accepted. -/
  | refused {call : SubmissionCall} {options : SendOptions}
      (decided : decision.result = .ok (.send call options)) (refused : .send ∈ chain.failing) :
      Conduct chain decision
        ⟨chain, none, .finished (.error (.chain (Method.fault .send))), decision.calls ++ [.send]⟩
  /-- Its call is accepted, and the wait for the inclusion ends. -/
  | accepted {call : SubmissionCall} {options : SendOptions} (gate : Option Gate)
      {result : Except ReportError Receipt} (decided : decision.result = .ok (.send call options))
      (accepted : .send ∉ chain.failing)
      (included : ∀ receipt, result = .ok receipt →
        receipt.success = true ∧ receipt.hash = chain.nextHash) :
      Conduct chain decision
        ⟨{ chain.accept call options with gate }, chain.nextHash,
          .finished (result.map .submitted), decision.calls ++ [.send, .awaitInclusion]⟩

variable {engine : Engine}

/-- The notes of a report that finishes: a failure is logged. -/
def finishNotes (category : Category) (block : UInt64) :
    Except ReportError ReportOutcome → List Note
  | .error e => [.logged (.reportFailed category block e)]
  | .ok _ => []

/-- What a report notes at its end is its failure, or nothing. -/
theorem notes_finishReport (report : Nat) (r : Report) (category : Category)
    (transaction : Option Digest) (result : Except ReportError ReportOutcome) (engine : Engine) :
    (finishReport report r category transaction result engine).notes =
      finishNotes category r.checkpoint.block result := by
  unfold finishReport
  cases result with
  | error e => rfl
  | ok outcome => rfl

/-- No call is made at the end of a report. -/
theorem calls_finishNotes (category : Category) (block : UInt64)
    (result : Except ReportError ReportOutcome) :
    (finishNotes category block result).filterMap Note.call? = [] := by
  cases result <;> rfl

/-- An action on the chain of an engine runs as it does on the chain alone. -/
theorem run_onChain_of_eq {action : Action α} {engine : Engine} {a : α} {next : Chain}
    {notes : List Note} (h : action engine.chain = ⟨notes, (a, next)⟩) :
    onChain action engine = ⟨notes, (a, { engine with chain := next })⟩ := by
  change (action engine.chain >>= fun pair => pure (pair.1, { engine with chain := pair.2 })) = _
  rw [h]
  exact Noted.eq_of (List.append_nil _) rfl

/-- In every engine over a chain, carrying a decision about a block out comes to a delivery and leaves
these notes. -/
def ComesTo (chain : Chain) (category : Category) (block : UInt64)
    (decision : Except ReportError Verdict) (delivery : Delivery) (notes : List Note) : Prop :=
  ∀ (engine : Engine) (report : Nat) (r : Report), engine.chain = chain →
    r.checkpoint.block = block →
    after (carryOut report r category decision) engine = engine.retire report r.task delivery ∧
      (carryOut report r category decision engine).notes = notes

variable {chain : Chain} {category : Category} {block : UInt64} {call : SubmissionCall}
  {options : SendOptions}

/-- Finishing a report before anything was sent leaves the chain as it is. -/
theorem finishReport_unsent (category : Category) {engine : Engine} (report : Nat) {r : Report}
    (hchain : engine.chain = chain) (hblock : r.checkpoint.block = block)
    (result : Except ReportError ReportOutcome) (calls : List Method) :
    after (finishReport report r category none result) engine =
        engine.retire report r.task ⟨chain, none, .finished result, calls⟩ ∧
      (finishReport report r category none result engine).notes =
        finishNotes category block result := by
  subst hchain hblock
  exact ⟨after_finishReport .., notes_finishReport ..⟩

/-- A call that is not accepted is not sent. -/
theorem comesTo_of_refused (hsend : .send ∈ chain.failing) (calls : List Method) :
    ComesTo chain category block (.ok (.send call options))
      ⟨chain, none, .finished (.error (.chain (Method.fault .send))), calls⟩
      ([.called .send] ++ finishNotes category block (.error (.chain (Method.fault .send)))) := by
  intro engine report r hchain hblock
  change after (transmitReport report r call options category) engine = _ ∧
    (transmitReport report r call options category engine).notes = _
  obtain ⟨hafter, hnotes⟩ := finishReport_unsent category report hchain hblock
    (.error (.chain (Method.fault .send))) calls
  subst hchain
  unfold transmitReport
  rw [after, run_bind_of_eq
    (run_onChain_of_eq (Submission.run_transmit_of_refused call options hsend report))]
  exact ⟨hafter, congrArg ([.called .send] ++ ·) hnotes⟩

/-- A call that is accepted is on the chain, and the wait for it comes to an end. -/
theorem exists_comesTo_of_accepted (h : chain.Unheld) (hsend : .send ∉ chain.failing)
    (category : Category) (block : UInt64) (call : SubmissionCall) (options : SendOptions)
    (calls : List Method) : ∃ (gate : Option Gate) (result : Except ReportError Receipt)
      (notes : List Note),
      (∀ receipt, result = .ok receipt → receipt.success = true ∧ receipt.hash = chain.nextHash) ∧
        notes.filterMap Note.call? = [.send, .awaitInclusion] ∧
        ComesTo chain category block (.ok (.send call options))
          ⟨{ chain.accept call options with gate }, chain.nextHash,
            .finished (result.map .submitted), calls⟩
          (notes ++ finishNotes category block (result.map .submitted)) := by
  obtain ⟨gate, result, notes, hincluded, hcalls, htransmit⟩ :=
    Submission.transmit_of_unheld h call options hsend
  refine ⟨gate, result, notes, hincluded, hcalls, fun engine report r hchain hblock => ?_⟩
  subst hchain hblock
  change after (transmitReport report r call options category) engine = _ ∧
    (transmitReport report r call options category engine).notes = _
  unfold transmitReport
  rw [after, run_bind_of_eq (run_onChain_of_eq (htransmit report))]
  exact ⟨after_finishReport .., congrArg (notes ++ ·) (notes_finishReport ..)⟩

/-- A decision is carried out in one of the ways listed, and in the same way in every engine. -/
theorem exists_conduct (h : chain.Unheld) (category : Category) (block : UInt64)
    (decision : Noted (Except ReportError Verdict)) : ∃ delivery notes,
    Conduct chain decision delivery ∧
      delivery.calls = decision.calls ++ notes.filterMap Note.call? ∧
      ComesTo chain category block decision.result delivery notes := by
  have hnone (result : Except ReportError ReportOutcome) : decision.calls =
      decision.calls ++ (finishNotes category block result).filterMap Note.call? := by
    rw [calls_finishNotes, List.append_nil]
  cases hdecided : decision.result with
  | error failure =>
    exact ⟨_, _, .undecided hdecided, hnone _, fun _ report _ hchain hblock =>
      finishReport_unsent category report hchain hblock (.error failure) _⟩
  | ok verdict =>
    cases verdict with
    | alreadySubmitted =>
      exact ⟨_, _, .alreadySubmitted hdecided, hnone _, fun _ report _ hchain hblock =>
        finishReport_unsent category report hchain hblock (.ok .alreadySubmitted) _⟩
    | feeCeilingExceeded =>
      exact ⟨_, _, .feeCeilingExceeded hdecided, hnone _, fun _ report _ hchain hblock =>
        finishReport_unsent category report hchain hblock (.ok .feeCeilingExceeded) _⟩
    | send call options =>
      by_cases hsend : .send ∈ chain.failing
      · exact ⟨_, _, .refused hdecided hsend, rfl, comesTo_of_refused hsend _⟩
      · obtain ⟨gate, result, notes, hincluded, hcalls, hcomes⟩ :=
          exists_comesTo_of_accepted h hsend category block call options
            (decision.calls ++ [.send, .awaitInclusion])
        refine ⟨_, _, .accepted gate hdecided hsend hincluded, ?_, hcomes⟩
        rw [List.filterMap_append, calls_finishNotes, List.append_nil, hcalls]

end Engine

end StakeOracle
