import StakeOracle.Proofs.Chain.Course
import StakeOracle.Proofs.Engine.Steps
import StakeOracle.Proofs.Chain.Transmission

/-!
# Ticks and reports while inclusion is not held back

Without a gate a report that begins runs to its end. What becomes of it is written down here as a
function of the chain, and a tick as a function of the chain and the task's slot.
-/

namespace StakeOracle

namespace Chain

/-- A chain whose transactions are included at once, and on which the next hash is new. -/
structure Undelayed (chain : Chain) : Prop where
  gate : chain.gate = none
  fresh : ∀ transaction ∈ chain.sent, transaction.hash ≠ chain.nextHash

/-- What the receipt of a call that was just accepted comes to. -/
def received (chain : Chain) (call : SubmissionCall) (options : SendOptions) (hash : Digest) :
    Except ReportError Receipt :=
  if chain.reverting then .error (.reverted call hash)
  else
    .ok {
      hash
      block := chain.latestBlock.addSat 1
      gasUsed := if options.gasLimit < chain.gas.estimatedLimit then options.gasLimit
        else chain.gas.estimatedLimit
      success := true }

/-- What waiting for its transaction comes to. -/
def inclusion (chain : Chain) (call : SubmissionCall) (options : SendOptions) (hash : Digest) :
    Except ReportError Receipt :=
  if .awaitInclusion ∈ chain.failing then .error (.chain (Method.fault .awaitInclusion))
  else chain.received call options hash

/-- What becomes of a report. -/
structure Delivery where
  /-- The chain behind it. -/
  chain : Chain
  /-- The transaction that was sent on the way. -/
  transaction : Option Digest
  ending : Ending
  /-- The calls that were made. -/
  calls : List Method

/-- Carries out a decision. -/
def deliver (chain : Chain) : Except ReportError Verdict → Delivery
  | .error e => ⟨chain, none, .finished (.error e), []⟩
  | .ok .alreadySubmitted => ⟨chain, none, .finished (.ok .alreadySubmitted), []⟩
  | .ok .feeCeilingExceeded => ⟨chain, none, .finished (.ok .feeCeilingExceeded), []⟩
  | .ok (.send call options) =>
    if .send ∈ chain.failing then
      ⟨chain, none, .finished (.error (.chain (Method.fault .send))), [.send]⟩
    else
      ⟨chain.accept call options, chain.nextHash,
        .finished ((chain.inclusion call options chain.nextHash).map .submitted),
        [.send, .awaitInclusion]⟩

/-- A call that is refused leaves the chain as it is. -/
theorem deliver_of_refused {chain : Chain} {call : SubmissionCall} {options : SendOptions}
    (h : .send ∈ chain.failing) : chain.deliver (.ok (.send call options)) =
      ⟨chain, none, .finished (.error (.chain (Method.fault .send))), [.send]⟩ := if_pos h

/-- A call that is accepted is on the chain, whatever its inclusion comes to. -/
theorem deliver_of_accepted {chain : Chain} {call : SubmissionCall} {options : SendOptions}
    (h : .send ∉ chain.failing) : chain.deliver (.ok (.send call options)) =
      ⟨chain.accept call options, chain.nextHash,
        .finished ((chain.inclusion call options chain.nextHash).map .submitted),
        [.send, .awaitInclusion]⟩ := if_neg h

/-- Carries a report out, from its computation to its end. -/
def fulfil (chain : Chain) (task : ReportTask) (checkpoint : Checkpoint) : Delivery :=
  match task.source.compute? with
  | none => ⟨chain, none, .broken, []⟩
  | some compute =>
    let decision := (task.prepare checkpoint compute).ask chain
    let delivery := chain.deliver decision.result
    { delivery with calls := decision.calls ++ delivery.calls }

/-- A report leaves the chain as it is, or adds the call that it has decided to send. -/
theorem fulfil_cases (chain : Chain) (task : ReportTask) (checkpoint : Checkpoint) :
    (chain.fulfil task checkpoint).chain = chain ∨
      ∃ compute call options, task.source.compute? = some compute ∧
        ((task.prepare checkpoint compute).ask chain).result = .ok (.send call options) ∧
        (chain.fulfil task checkpoint).chain = chain.accept call options := by
  unfold fulfil
  cases hsource : task.source.compute? with
  | none => exact .inl rfl
  | some compute =>
    dsimp only
    cases hdecision : ((task.prepare checkpoint compute).ask chain).result with
    | error e => exact .inl rfl
    | ok verdict =>
      cases verdict with
      | alreadySubmitted => exact .inl rfl
      | feeCeilingExceeded => exact .inl rfl
      | send call options =>
        by_cases hsend : .send ∈ chain.failing
        · rw [deliver_of_refused hsend]
          exact .inl rfl
        · rw [deliver_of_accepted hsend]
          exact .inr ⟨compute, call, options, rfl, hdecision, rfl⟩

/-- The transaction that was just accepted is the one that is found under its hash. -/
theorem receipt_accept {chain : Chain} (h : chain.Undelayed) (call : SubmissionCall)
    (options : SendOptions) : (chain.accept call options).receipt chain.nextHash = .ok {
      hash := chain.nextHash
      block := chain.latestBlock.addSat 1
      gasUsed := if options.gasLimit < chain.gas.estimatedLimit then options.gasLimit
        else chain.gas.estimatedLimit
      success := !chain.reverting } := by
  have hnone : chain.sent.find? (fun transaction => transaction.hash = chain.nextHash) = none := by
    rw [List.find?_eq_none]
    intro transaction hmem
    simpa using h.fresh transaction hmem
  unfold receipt
  rw [sent_accept, List.find?_append, hnone]
  simp only [transaction, Option.none_or, List.find?_cons, decide_true]
  rfl

/-- Without a gate the wait for a transaction that was just accepted is over at once. -/
theorem awaitInclusion_accept {chain : Chain} (h : chain.Undelayed) (wait : Nat)
    (call : SubmissionCall) (options : SendOptions) :
    awaitInclusion wait chain.nextHash (chain.accept call options) =
      ⟨[.called .awaitInclusion],
        (some (if .awaitInclusion ∈ chain.failing then .error (Method.fault .awaitInclusion)
          else (chain.accept call options).receipt chain.nextHash), chain.accept call options)⟩ := by
  have hgate : (chain.accept call options).gate = none := h.gate
  have hfailing : (chain.accept call options).failing = chain.failing := rfl
  unfold awaitInclusion guarded
  by_cases hawait : .awaitInclusion ∈ chain.failing
  · simp only [hfailing, if_pos hawait]
    rfl
  · simp only [hfailing, hgate, if_neg hawait]

/-- A transmission that is refused ends with the failure of its send. -/
theorem transmit_of_refused {chain : Chain} (wait : Nat) (call : SubmissionCall)
    (options : SendOptions) (hsend : .send ∈ chain.failing) :
    after (Submission.transmit wait call options) chain = chain ∧
      answer (Submission.transmit wait call options) chain = .refused (Method.fault .send) ∧
      (Submission.transmit wait call options chain).calls = [.send] := by
  unfold Submission.transmit
  rw [after_bind, answer_bind, calls_bind, answer_send_eq_fault hsend, after_send_of_failing hsend]
  exact ⟨rfl, rfl, rfl⟩

/-- Without a gate a transmission that is accepted is over with what its inclusion comes to. -/
theorem transmit_of_undelayed {chain : Chain} (h : chain.Undelayed) (wait : Nat)
    (call : SubmissionCall) (options : SendOptions) (hsend : .send ∉ chain.failing) :
    after (Submission.transmit wait call options) chain = chain.accept call options ∧
      answer (Submission.transmit wait call options) chain =
        .settled chain.nextHash (chain.inclusion call options chain.nextHash) ∧
      (Submission.transmit wait call options chain).calls = [.send, .awaitInclusion] := by
  have hawait := awaitInclusion_accept h wait call options
  unfold Submission.transmit
  simp only [after_bind, answer_bind, calls_bind, answer_send hsend, after_send hsend, after_lift]
  simp only [answer, after, hawait, inclusion, received, receipt_accept h]
  by_cases hfails : .awaitInclusion ∈ chain.failing
  · simp only [if_pos hfails]
    exact ⟨rfl, rfl, rfl⟩
  · cases hreverting : chain.reverting with
    | true =>
      simp only [if_neg hfails]
      exact ⟨rfl, rfl, rfl⟩
    | false =>
      simp only [if_neg hfails]
      exact ⟨rfl, rfl, rfl⟩

end Chain

namespace Engine

open Chain (Delivery)

variable {engine : Engine}

/-- The engine once a report of a task has ended as delivered. -/
def retire (engine : Engine) (report task : Nat) (delivery : Delivery) : Engine :=
  ({ engine with chain := delivery.chain }.setPhase report
    (.ended delivery.ending delivery.transaction)).freeFlight task

/-- A report that has ended tells how. -/
theorem ending?_retire {report task : Nat} {r : Report} (hr : engine.reports[report]? = some r)
    (delivery : Delivery) :
    (engine.retire report task delivery).ending? report = some delivery.ending := by
  simp [ending?, retire, setPhase, freeFlight, hr]

/-- The flight of its task is free. -/
theorem slot_retire {number : Nat} {task : ReportTask} {flight : Flight}
    (hslot : engine.tasks[number]? = some ⟨task, flight⟩) (report : Nat) (delivery : Delivery) :
    (engine.retire report number delivery).tasks[number]? = some ⟨task, Flight.free⟩ := by
  simp [retire, setPhase, freeFlight, hslot, Flight.release]

/-- The calls of an engine's action on its chain are those of the action. -/
theorem calls_onChain (action : Action α) (engine : Engine) :
    (onChain action engine).calls = (action engine.chain).calls := by
  change ((action engine.chain).notes ++ []).filterMap Note.call? = _
  rw [List.append_nil]
  rfl

/-- So are those of a question. -/
theorem calls_ask (q : Query ε α) (engine : Engine) :
    (ask q engine).calls = (q.ask engine.chain).calls := by
  change ((q.ask engine.chain).notes ++ []).filterMap Note.call? = _
  rw [List.append_nil]
  rfl

/-- Finishing a report makes no calls. -/
theorem calls_finishReport (report : Nat) (r : Report) (category : Category)
    (transaction : Option Digest) (result : Except ReportError ReportOutcome) (engine : Engine) :
    (finishReport report r category transaction result engine).calls = [] := by
  unfold finishReport
  cases result with
  | error e => rfl
  | ok outcome => rfl

/-- Without a gate a decision is carried out to the end of its report. -/
theorem carryOut_of_undelayed (h : engine.chain.Undelayed) (report : Nat) (r : Report)
    (category : Category) (decision : Except ReportError Verdict) :
    after (carryOut report r category decision) engine =
        engine.retire report r.task (engine.chain.deliver decision) ∧
      (carryOut report r category decision engine).calls =
        (engine.chain.deliver decision).calls := by
  cases decision with
  | error e => exact ⟨after_finishReport .., calls_finishReport ..⟩
  | ok verdict =>
    cases verdict with
    | alreadySubmitted => exact ⟨after_finishReport .., calls_finishReport ..⟩
    | feeCeilingExceeded => exact ⟨after_finishReport .., calls_finishReport ..⟩
    | send call options =>
      change after (transmitReport report r call options category) engine = _ ∧
        (transmitReport report r call options category engine).calls = _
      unfold transmitReport
      rw [after_bind, after_onChain, calls_bind, after_onChain, answer_onChain, calls_onChain]
      by_cases hsend : .send ∈ engine.chain.failing
      · obtain ⟨hafter, hanswer, hcalls⟩ := Chain.transmit_of_refused report call options hsend
        rw [Chain.deliver_of_refused hsend, hafter, hanswer, hcalls]
        exact ⟨after_finishReport .., by rw [calls_finishReport]; rfl⟩
      · obtain ⟨hafter, hanswer, hcalls⟩ :=
          Chain.transmit_of_undelayed h report call options hsend
        rw [Chain.deliver_of_accepted hsend, hafter, hanswer, hcalls]
        exact ⟨after_finishReport .., by rw [calls_finishReport]; rfl⟩

/-- Without a gate a queued report runs to its end when it begins. -/
theorem beginReport_of_undelayed (h : engine.chain.Undelayed) {report : Nat} {r : Report}
    {slot : TaskSlot} (hreport : engine.reports[report]? = some r) (hqueued : r.phase = .queued)
    (hslot : engine.tasks[r.task]? = some slot) :
    after (beginReport report) engine =
        engine.retire report r.task (engine.chain.fulfil slot.task r.checkpoint) ∧
      (beginReport report engine).calls =
        (engine.chain.fulfil slot.task r.checkpoint).calls := by
  unfold beginReport Chain.fulfil
  rw [after_bind, after_get, answer_get, calls_bind, after_get, answer_get, hreport]
  simp only [hqueued, hslot]
  cases hsource : slot.task.source.compute? with
  | none => exact ⟨rfl, rfl⟩
  | some compute =>
    obtain ⟨hafter, hcalls⟩ := carryOut_of_undelayed h report r slot.task.category
      ((slot.task.prepare r.checkpoint compute).ask engine.chain).result
    rw [after_bind, calls_bind, after_ask, answer_ask, hafter, hcalls, calls_ask]
    exact ⟨rfl, rfl⟩

/-! ## Ticks -/

/-- What a tick starts, given its result: nothing, unless the gates are passed and the flight is
free. -/
def launch? (flight : Flight) (result : Except ReportError TickOutcome) :
    Option (Checkpoint × Flight) :=
  match result, flight.acquire? with
  | .ok (.started checkpoint), some taken => some (checkpoint, taken)
  | _, _ => none

/-- The engine after the tick of a task with a result. -/
def ticked (engine : Engine) (task : Nat) (flight : Flight)
    (result : Except ReportError TickOutcome) : Engine :=
  match launch? flight result with
  | some (checkpoint, taken) => engine.launch task checkpoint taken
  | none => engine

/-- A tick has the result of the task's gates, leaves their notes, and starts what there is to start. -/
theorem tick_of_slot {task : Nat} {slot : TaskSlot} (hslot : engine.tasks[task]? = some slot) :
    let asked := (slot.task.tick slot.flight.busy).ask engine.chain
    after (tick task) engine = engine.ticked task slot.flight asked.result ∧
      (answer (tick task) engine).map (·.map (·.outcome)) = some asked.result ∧
      (tick task engine).notes = asked.notes := by
  intro asked
  have hnotes : (ask (slot.task.tick slot.flight.busy) engine).notes = asked.notes :=
    List.append_nil _
  unfold tick ticked launch?
  rw [after_bind, answer_bind, notes_run_bind, after_get, answer_get, hslot]
  simp only [after_bind, answer_bind, notes_run_bind, after_ask, answer_ask, hnotes]
  change _ = _ ∧ _ ∧ [] ++ (asked.notes ++ _) = _
  cases asked.result with
  | error e => exact ⟨rfl, rfl, List.append_nil _⟩
  | ok outcome =>
    cases outcome with
    | started checkpoint =>
      cases slot.flight.acquire? with
      | none => exact ⟨rfl, rfl, List.append_nil _⟩
      | some taken => exact ⟨rfl, rfl, List.append_nil _⟩
    | _ => exact ⟨rfl, rfl, List.append_nil _⟩

end Engine

end StakeOracle
