import StakeOracle.Proofs.Engine.Checks
import StakeOracle.Proofs.Engine.Conduct

/-!
# What the outcome of a report tells

While inclusion is not held back, a report that begins runs to its end, and its outcome tells what it
did: it was submitted with one transaction, or it sent nothing and left the chain as it was, or it
failed with one transaction sent. After an attempt that sent nothing, a round of the task, which is a
tick and the report that it starts, goes as if the attempt had never been made.
-/

namespace StakeOracle

namespace Engine

open Chain (Delivery)

variable {chain : Chain} {task : ReportTask}
  {compute : Checkpoint → Query ReportError SubmissionCall}

/-- A report that begins goes one of the ways listed, and in the same way in every engine. -/
theorem exists_conduct_beginReport (h : chain.Unheld) (hsource : task.source.compute? = some compute)
    (checkpoint : Checkpoint) : ∃ delivery notes,
    Conduct chain ((task.prepare checkpoint compute).ask chain) delivery ∧
      delivery.calls = notes.filterMap Note.call? ∧
      ∀ (engine : Engine) (report number : Nat) (flight : Flight), engine.chain = chain →
        engine.reports[report]? = some ⟨number, checkpoint, .queued⟩ →
        engine.tasks[number]? = some ⟨task, flight⟩ →
        after (beginReport report) engine = engine.retire report number delivery ∧
          (beginReport report engine).notes = notes := by
  obtain ⟨delivery, notes, hconduct, hcalls, hcomes⟩ := exists_conduct h task.category
    checkpoint.block ((task.prepare checkpoint compute).ask chain)
  refine ⟨delivery, ((task.prepare checkpoint compute).ask chain).notes ++ notes, hconduct, ?_, ?_⟩
  · rw [hcalls, List.filterMap_append]
    rfl
  · intro engine report number flight hchain hreport hslot
    obtain ⟨hafter, hnotes⟩ := hcomes engine report ⟨number, checkpoint, .queued⟩ hchain rfl
    have hasked : (ask (task.prepare checkpoint compute) engine).notes =
        ((task.prepare checkpoint compute).ask chain).notes := by
      rw [← hchain]
      exact List.append_nil _
    unfold beginReport
    rw [after_bind, after_get, answer_get, notes_run_bind, after_get, answer_get, hreport]
    simp only [hslot, hsource]
    rw [after_bind, notes_run_bind, after_ask, answer_ask, hchain, hafter, hnotes, hasked]
    exact ⟨rfl, rfl⟩

/-! ## Rounds -/

/-- Ticks a task and carries the report out that this starts. The answer is the outcome of the tick and
how the report ended. -/
def round (number : Nat) : Act (Option (Except ReportError TickOutcome) × Option Ending) := do
  let answer ← tick number
  match answer with
  | some (.ok ⟨outcome, some report⟩) =>
    beginReport report
    return (some (.ok outcome), (← get).ending? report)
  | _ => return (answer.map (·.map (·.outcome)), none)

/-- A round that starts no report only ticks. -/
theorem round_of_not_started {engine : Engine} {number : Nat} {slot : TaskSlot}
    (hslot : engine.tasks[number]? = some slot) {stop : Except ReportError TickOutcome}
    (hresult : ((slot.task.tick slot.flight.busy).ask engine.chain).result = stop)
    (hstop : ∀ checkpoint, stop ≠ .ok (.started checkpoint)) :
    answer (round number) engine = (some stop, none) ∧ after (round number) engine = engine ∧
      (round number engine).notes = ((slot.task.tick slot.flight.busy).ask engine.chain).notes := by
  obtain ⟨hanswer, hafter⟩ := answer_tick_of_not_started hslot hresult hstop
  unfold round
  rw [after_bind, answer_bind, notes_run_bind, hanswer, hafter, (tick_of_slot hslot).2.2]
  cases stop with
  | error e => exact ⟨rfl, rfl, List.append_nil _⟩
  | ok outcome => exact ⟨rfl, rfl, List.append_nil _⟩

/-- A round that starts a report carries it out. -/
theorem round_of_started {engine : Engine} {number : Nat} {slot : TaskSlot}
    (hslot : engine.tasks[number]? = some slot) {checkpoint : Checkpoint}
    (hresult : ((slot.task.tick slot.flight.busy).ask engine.chain).result =
      .ok (.started checkpoint)) :
    let launched := engine.launch number checkpoint ⟨true⟩
    let report := engine.reports.length
    answer (round number) engine = (some (.ok (.started checkpoint)),
        (after (beginReport report) launched).ending? report) ∧
      after (round number) engine = after (beginReport report) launched ∧
      (round number engine).notes =
        ((slot.task.tick slot.flight.busy).ask engine.chain).notes ++
          (beginReport report launched).notes := by
  obtain ⟨hanswer, hafter⟩ := answer_tick_of_started hslot hresult
  unfold round
  rw [after_bind, answer_bind, notes_run_bind, hanswer, hafter, (tick_of_slot hslot).2.2]
  exact ⟨rfl, rfl, congrArg _ (List.append_nil _)⟩

/-- A round of a task is the same in two engines. -/
structure SameRound (number : Nat) (engine other : Engine) : Prop where
  notes : (round number other).notes = (round number engine).notes
  answer : answer (round number) other = answer (round number) engine
  chain : (after (round number) other).chain = (after (round number) engine).chain
  slot : (after (round number) other).tasks[number]? = (after (round number) engine).tasks[number]?

/-- Rounds are the same over the same chain, whatever else was reported before. -/
theorem sameRound_of_eq {engine other : Engine} {number : Nat} {flight : Flight}
    (h : engine.chain.Unheld) (hsource : task.source.compute? = some compute)
    (hslot : engine.tasks[number]? = some ⟨task, flight⟩) (hchain : other.chain = engine.chain)
    (hother : other.tasks[number]? = some ⟨task, flight⟩) : SameRound number engine other := by
  by_cases hstarted : ∃ checkpoint,
      ((task.tick flight.busy).ask engine.chain).result = .ok (.started checkpoint)
  · obtain ⟨checkpoint, hresult⟩ := hstarted
    obtain ⟨delivery, notes, -, -, hbegin⟩ := exists_conduct_beginReport h hsource checkpoint
    have hround {e : Engine} (he : e.chain = engine.chain)
        (hslot : e.tasks[number]? = some ⟨task, flight⟩) :
        answer (round number) e = (some (.ok (.started checkpoint)), some delivery.ending) ∧
          (after (round number) e).chain = delivery.chain ∧
          (after (round number) e).tasks[number]? = some ⟨task, Flight.free⟩ ∧
          (round number e).notes =
            ((task.tick flight.busy).ask engine.chain).notes ++ notes := by
      obtain ⟨hanswer, hafter, hnotes⟩ := round_of_started hslot (he ▸ hresult)
      have hreport : (e.launch number checkpoint ⟨true⟩).reports[e.reports.length]? =
          some ⟨number, checkpoint, .queued⟩ := List.getElem?_concat_length
      have hlaunched : (e.launch number checkpoint ⟨true⟩).tasks[number]? =
          some ⟨task, ⟨true⟩⟩ := by simp [launch, hslot]
      obtain ⟨hbegun, hmade⟩ := hbegin (e.launch number checkpoint ⟨true⟩) e.reports.length number
        ⟨true⟩ he hreport hlaunched
      rw [hanswer, hafter, hnotes, hbegun, hmade, ending?_retire hreport, he,
        slot_retire hlaunched]
      exact ⟨rfl, rfl, rfl, rfl⟩
    obtain ⟨hanswer, hafter, htasks, hnotes⟩ := hround rfl hslot
    obtain ⟨hanswer', hafter', htasks', hnotes'⟩ := hround hchain hother
    exact ⟨hnotes'.trans hnotes.symm, hanswer'.trans hanswer.symm, hafter'.trans hafter.symm,
      htasks'.trans htasks.symm⟩
  · obtain ⟨stop, hstop⟩ : ∃ stop, ((task.tick flight.busy).ask engine.chain).result = stop :=
      ⟨_, rfl⟩
    have hnever (checkpoint : Checkpoint) : stop ≠ .ok (.started checkpoint) :=
      fun h => hstarted ⟨checkpoint, hstop.trans h⟩
    obtain ⟨hanswer, hafter, hnotes⟩ := round_of_not_started hslot hstop hnever
    obtain ⟨hanswer', hafter', hnotes'⟩ := round_of_not_started hother (hchain ▸ hstop) hnever
    refine ⟨?_, hanswer'.trans hanswer.symm, ?_, ?_⟩
    · rw [hnotes, hnotes', hchain]
    · rw [hafter, hafter', hchain]
    · rw [hafter, hafter', hslot, hother]

/-- Changes to the chain of an engine leave the rest of it as it is. -/
theorem after_run_change (changes : List Change) (engine : Engine) :
    after (run (changes.map .change)) engine =
      { engine with chain := changes.foldl Chain.apply engine.chain } := by
  induction changes generalizing engine with
  | nil => rfl
  | cons change changes ih => exact ih { engine with chain := engine.chain.apply change }

/-- Inclusion is not held back after changes without a new gate. -/
theorem unheld_foldl {changes : List Change} (h : chain.Unheld)
    (hchanges : ∀ change ∈ changes, change ≠ .closeGate) :
    (changes.foldl Chain.apply chain).Unheld := by
  induction changes generalizing chain with
  | nil => exact h
  | cons change changes ih =>
    rw [List.forall_mem_cons] at hchanges
    exact ih (h.apply hchanges.1) hchanges.2

/-- Rounds that are the same stay the same behind any changes. -/
theorem sameRound_of_changes {engine other : Engine} {number : Nat} {flight : Flight}
    {changes : List Change} (h : engine.chain.Unheld) (hsource : task.source.compute? = some compute)
    (hslot : engine.tasks[number]? = some ⟨task, flight⟩) (hchain : other.chain = engine.chain)
    (hother : other.tasks[number]? = some ⟨task, flight⟩)
    (hchanges : ∀ change ∈ changes, change ≠ .closeGate) :
    SameRound number (after (run (changes.map .change)) engine)
      (after (run (changes.map .change)) other) := by
  rw [after_run_change, after_run_change]
  exact sameRound_of_eq (unheld_foldl h hchanges) hsource hslot
    (congrArg (changes.foldl Chain.apply) hchain) hother

/-! ## Outcomes -/

/-- Preparing a report only reads. -/
theorem isRead_of_prepare (hsource : task.source.compute? = some compute) (checkpoint : Checkpoint)
    (chain : Chain) : ∀ method ∈ ((task.prepare checkpoint compute).ask chain).calls,
      method.isRead = true :=
  (shares_prepare rfl hsource fun _ _ _ _ => Iff.rfl).reads

/-- The wait for an inclusion ends well with a report that was submitted. -/
theorem eq_submitted_of_map {result : Except ReportError Receipt} {outcome : ReportOutcome}
    (h : result.map .submitted = .ok outcome) :
    ∃ receipt, result = .ok receipt ∧ outcome = .submitted receipt := by
  cases result with
  | error e => cases h
  | ok receipt => exact ⟨receipt, rfl, (Except.ok.inj h).symm⟩

namespace Conduct

variable {decision : Noted (Except ReportError Verdict)} {delivery : Delivery}
  {checkpoint : Checkpoint} {receipt : Receipt}

/-- A report has a result. -/
theorem exists_result (h : Conduct chain decision delivery) :
    ∃ result, delivery.ending = .finished result := by
  cases h <;> exact ⟨_, rfl⟩

/-- It waits for its inclusion exactly when its call was accepted. -/
theorem awaited_iff (h : Conduct chain decision delivery)
    (hreads : ∀ method ∈ decision.calls, method.isRead = true) :
    .awaitInclusion ∈ delivery.calls ↔ .send ∈ delivery.calls ∧ .send ∉ chain.failing := by
  have hsend : .send ∉ decision.calls := fun hmem => nomatch hreads _ hmem
  have hawait : .awaitInclusion ∉ decision.calls := fun hmem => nomatch hreads _ hmem
  cases h with
  | undecided decided => simp [hsend, hawait]
  | alreadySubmitted decided => simp [hsend, hawait]
  | feeCeilingExceeded decided => simp [hsend, hawait]
  | refused decided refused => simp [hawait, refused]
  | accepted gate decided accepted included => simp [accepted]

/-- A report whose values were submitted before, that finds fees too high, or that does not wait for
its inclusion leaves the chain as it is. -/
theorem chain_eq (h : Conduct chain decision delivery)
    (hunsent : delivery.ending = .finished (.ok .alreadySubmitted) ∨
      delivery.ending = .finished (.ok .feeCeilingExceeded) ∨ .awaitInclusion ∉ delivery.calls) :
    delivery.chain = chain := by
  cases h with
  | @accepted call options gate result decided accepted included =>
    rcases hunsent with hending | hending | hawait
    · nomatch eq_submitted_of_map (Ending.finished.inj hending)
    · nomatch eq_submitted_of_map (Ending.finished.inj hending)
    · exact absurd (by simp) hawait
  | _ => rfl

/-- A report that waits for its inclusion has sent one transaction. -/
theorem exists_sent (h : Conduct chain decision delivery)
    (hreads : ∀ method ∈ decision.calls, method.isRead = true)
    (hawaited : .awaitInclusion ∈ delivery.calls) :
    ∃ transaction, delivery.chain.sent = chain.sent ++ [transaction] := by
  have hawait : .awaitInclusion ∉ decision.calls := fun hmem => nomatch hreads _ hmem
  cases h with
  | undecided decided => exact absurd hawaited hawait
  | alreadySubmitted decided => exact absurd hawaited hawait
  | feeCeilingExceeded decided => exact absurd hawaited hawait
  | refused decided refused => exact absurd hawaited (by simp [hawait])
  | accepted gate decided accepted included => exact ⟨_, rfl⟩

/-- A report that was submitted has sent the computed call with the fees of its limits and the safe
gas limit, and its receipt is that of a success of this transaction. -/
theorem of_submitted (h : Conduct chain ((task.prepare checkpoint compute).ask chain) delivery)
    (hsource : task.source.compute? = some compute)
    (hending : delivery.ending = .finished (.ok (.submitted receipt))) : ∃ call transaction,
      ((compute checkpoint).ask chain).result = .ok call ∧
      call.category = task.category ∧ call.block = checkpoint.block ∧
      delivery.chain.sent = chain.sent ++ [transaction] ∧ transaction.call = call ∧
      transaction.options =
        ⟨task.limits.maxFee, task.limits.priorityFee, chain.gas.safeLimit⟩ ∧
      receipt.success = true ∧ receipt.hash = transaction.hash := by
  cases h with
  | @accepted call options gate result decided accepted included =>
    obtain ⟨_, hfound, hsame⟩ := eq_submitted_of_map (Ending.finished.inj hending)
    cases hsame
    obtain ⟨hcompute, -⟩ := ReportTask.prepare_eq_send hsource decided
    obtain ⟨hcategory, hblock⟩ := ReportSource.call_of_compute hsource hcompute
    obtain ⟨hsuccess, hhash⟩ := included receipt hfound
    exact ⟨call, _, hcompute, hcategory, hblock, rfl, rfl, ReportTask.options_of_prepare decided,
      hsuccess, hhash⟩
  | _ => cases hending

end Conduct

/-- A report that begins goes one of the ways listed, after which its flight is free. -/
theorem exists_conduct_of_begin {engine : Engine} {report number : Nat} {checkpoint : Checkpoint}
    {flight : Flight} (hunheld : engine.chain.Unheld)
    (hsource : task.source.compute? = some compute)
    (hreport : engine.reports[report]? = some ⟨number, checkpoint, .queued⟩)
    (hslot : engine.tasks[number]? = some ⟨task, flight⟩) :
    let next := after (step (.begin report)) engine
    ∃ delivery, Conduct engine.chain ((task.prepare checkpoint compute).ask engine.chain) delivery ∧
      (step (.begin report) engine).calls = delivery.calls ∧
      next.ending? report = some delivery.ending ∧ next.chain = delivery.chain ∧
      next.tasks[number]? = some ⟨task, Flight.free⟩ := by
  intro next
  obtain ⟨delivery, notes, hconduct, hdelivered, hbegin⟩ :=
    exists_conduct_beginReport hunheld hsource checkpoint
  obtain ⟨hafter, hnotes⟩ := hbegin engine report number flight rfl hreport hslot
  have hnext : next = engine.retire report number delivery := hafter
  refine ⟨delivery, hconduct, ?_, ?_, ?_, ?_⟩
  · rw [hdelivered, ← hnotes]
    rfl
  · rw [hnext, ending?_retire hreport]
  · rw [hnext]
    rfl
  · rw [hnext, slot_retire hslot]

/-- The end of a report tells what it did. Let inclusion not be held back, and a report begin. It ends,
and its flight is free. If it was submitted, then one transaction was sent: the computed call for the
block of the checkpoint, with the fees of the limits and the safe gas limit; the receipt is a success
and names it. If the values were submitted before, fees are too high, or the report fails before its
call is accepted, then the chain is as it was, and after any changes, such as clearing its failures, a
round of the task goes as in an engine that never made the attempt. If the report fails behind that
point, in the wait or with a reverted receipt, then one transaction was sent. -/
theorem outcome_tells_what_was_done {engine : Engine} {report number : Nat} {checkpoint : Checkpoint}
    {flight : Flight} (hunheld : engine.chain.Unheld)
    (hsource : task.source.compute? = some compute)
    (hreport : engine.reports[report]? = some ⟨number, checkpoint, .queued⟩)
    (hslot : engine.tasks[number]? = some ⟨task, flight⟩) :
    let next := after (step (.begin report)) engine
    let calls := (step (.begin report) engine).calls
    ∃ result, next.ending? report = some (.finished result) ∧ next.isRunning number = false ∧
      (.awaitInclusion ∈ calls ↔ .send ∈ calls ∧ .send ∉ engine.chain.failing) ∧
      (∀ receipt, result = .ok (.submitted receipt) → ∃ call transaction,
        ((compute checkpoint).ask engine.chain).result = .ok call ∧
        call.category = task.category ∧ call.block = checkpoint.block ∧
        next.chain.sent = engine.chain.sent ++ [transaction] ∧ transaction.call = call ∧
        transaction.options =
          ⟨task.limits.maxFee, task.limits.priorityFee, engine.chain.gas.safeLimit⟩ ∧
        receipt.success = true ∧ receipt.hash = transaction.hash) ∧
      (result = .ok .alreadySubmitted ∨ result = .ok .feeCeilingExceeded ∨
          (∃ e, result = .error e) ∧ .awaitInclusion ∉ calls →
        next.chain = engine.chain ∧
        ∀ (changes : List Change) (untried : Engine), (∀ change ∈ changes, change ≠ .closeGate) →
          untried.chain = engine.chain → untried.tasks[number]? = some ⟨task, Flight.free⟩ →
          SameRound number (after (run (changes.map .change)) untried)
            (after (run (changes.map .change)) next)) ∧
      ((∃ e, result = .error e) ∧ .awaitInclusion ∈ calls →
        ∃ transaction, next.chain.sent = engine.chain.sent ++ [transaction]) := by
  intro next calls
  obtain ⟨delivery, hconduct, hcalls, hending, hchain, hfree⟩ :=
    exists_conduct_of_begin hunheld hsource hreport hslot
  obtain ⟨result, hresult⟩ := hconduct.exists_result
  have hcalled : calls = delivery.calls := hcalls
  have hreads := isRead_of_prepare hsource checkpoint engine.chain
  have hidle : next.isRunning number = false := by
    rw [isRunning, hfree]
    rfl
  rw [hchain, hcalled]
  refine ⟨result, hending.trans (congrArg some hresult), hidle, hconduct.awaited_iff hreads,
    fun receipt hreceipt => hconduct.of_submitted hsource (hreceipt ▸ hresult), fun hunsent => ?_,
    fun hfailed => hconduct.exists_sent hreads hfailed.2⟩
  have hsame : delivery.chain = engine.chain := by
    refine hconduct.chain_eq ?_
    rcases hunsent with rfl | rfl | ⟨-, hawait⟩
    · exact .inl hresult
    · exact .inr (.inl hresult)
    · exact .inr (.inr hawait)
  refine ⟨hsame, fun changes untried hchanges huntried hfresh => ?_⟩
  exact sameRound_of_changes (huntried ▸ hunheld) hsource hfresh
    ((hchain.trans hsame).trans huntried.symm) hfree hchanges

/-- A task for the price of a fixed figure. -/
def fixedPrice : ReportTask := ⟨.price (.fixed 42), .onChain, ⟨100000000000, 1000000000⟩⟩

/-- An engine in which a price is due, and gas cannot be estimated. -/
def unestimated : Engine :=
  after (run [.change (.latestBlock 120), .change (.reportable .prices 100),
    .change (.fail .estimateGas), .addTask fixedPrice]) fresh

/-- The engine once its report was started. -/
def unestimatedStarted : Engine := after (step (.tick 0)) unestimated

/-- The engine once that report has failed. -/
def unestimatedFailed : Engine := after (step (.begin 0)) unestimatedStarted

/-- The failed report leaves no trace. With the failures cleared, the next round starts a report again
and submits it, just as in the engine without the first attempt. -/
theorem retry_of_unestimated_price :
    unestimatedFailed.ending? 0 =
        some (.finished (.error (.chain (.transport "injected failure: estimate_gas")))) ∧
      unestimatedFailed.chain = unestimatedStarted.chain ∧
      SameRound 0 (after (run [.change .clearFailures]) unestimated)
        (after (run [.change .clearFailures]) unestimatedFailed) ∧
      answer (round 0) (after (run [.change .clearFailures]) unestimatedFailed) =
        (some (.ok (.started ⟨.prices, 100, 0, 1600001200, 100, 3⟩)),
          some (.finished (.ok (.submitted ⟨Octets.ofNat 32 1, 121, 100000, true⟩)))) := by
  have hunheld : unestimatedStarted.chain.Unheld := nofun
  have hreport : unestimatedStarted.reports[0]? =
    some ⟨0, ⟨.prices, 100, 0, 1600001200, 100, 3⟩, .queued⟩ := rfl
  have hslot : unestimatedStarted.tasks[0]? = some ⟨fixedPrice, ⟨true⟩⟩ := rfl
  have hending : unestimatedFailed.ending? 0 =
    some (.finished (.error (.chain (.transport "injected failure: estimate_gas")))) := rfl
  have hawaited : .awaitInclusion ∉ (step (.begin 0) unestimatedStarted).calls := by decide
  obtain ⟨result, hresult, -, -, -, hunchanged, -⟩ :=
    outcome_tells_what_was_done hunheld rfl hreport hslot
  obtain rfl := Ending.finished.inj (Option.some.inj (hresult.symm.trans hending))
  obtain ⟨hchain, hretry⟩ := hunchanged (.inr (.inr ⟨⟨_, rfl⟩, hawaited⟩))
  exact ⟨hending, hchain, hretry [.clearFailures] unestimated (by simp) rfl rfl, rfl⟩

end Engine

end StakeOracle
