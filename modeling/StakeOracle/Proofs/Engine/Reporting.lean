import StakeOracle.Proofs.Engine.Steps
import StakeOracle.Proofs.Report.Computation

/-!
# How a report is carried out

A report computes its call, is judged, and is then carried out: it ends without having sent anything,
or it sends its call and waits. `CarriedOut` lists these ways once, for whatever decision was made.

A computation may also have taken its reads in between earlier steps. Nothing is assumed about what
such a computation answers, but that its call has the category and block of its report; from there on
the report is judged and carried out in one go. A `Turn` is a step or such a judgement.
-/

namespace StakeOracle.Engine

/-- The engine once a call was accepted, with its gate after the wait that followed. -/
def transmitted (engine : Engine) (call : SubmissionCall) (options : SendOptions)
    (gate : Option Gate) : Engine :=
  { engine with chain := { engine.chain.accept call options with gate } }

/-- The ways in which a decision about a report is carried out. -/
inductive CarriedOut (engine : Engine) (report : Nat) (r : Report)
    (decision : Except ReportError Verdict) : Engine → Prop where
  /-- The report ends before anything was sent. -/
  | unsent (result : Except ReportError ReportOutcome) : CarriedOut engine report r decision
      ((engine.setPhase report (.ended (.finished result) none)).freeFlight r.task)
  /-- The call is sent, and the report stands in line for its inclusion. -/
  | waiting {call : SubmissionCall} {options : SendOptions} (gate : Option Gate)
      (decided : decision = .ok (.send call options)) (accepted : .send ∉ engine.chain.failing) :
      CarriedOut engine report r decision
        ((engine.transmitted call options gate).setPhase report (.inLine call engine.chain.nextHash))
  /-- The call is sent, and the wait for its inclusion is over at once. -/
  | settled {call : SubmissionCall} {options : SendOptions} (gate : Option Gate)
      (result : Except ReportError ReportOutcome) (decided : decision = .ok (.send call options))
      (accepted : .send ∉ engine.chain.failing) :
      CarriedOut engine report r decision
        (((engine.transmitted call options gate).setPhase report
          (.ended (.finished result) engine.chain.nextHash)).freeFlight r.task)

/-- Sending the call of a report goes one of the ways listed. -/
theorem carriedOut_transmitReport (engine : Engine) (report : Nat) (r : Report)
    (category : Category) (call : SubmissionCall) (options : SendOptions) :
    CarriedOut engine report r (.ok (.send call options))
      (after (transmitReport report r call options category) engine) := by
  unfold transmitReport
  rw [after_bind, after_onChain, answer_onChain]
  by_cases hsend : .send ∈ engine.chain.failing
  · obtain ⟨hchain, e, hanswer⟩ := Submission.transmit_of_failing report hsend
    rw [hchain, hanswer]
    simpa using CarriedOut.unsent _
  · obtain ⟨⟨gate, hgate⟩, hanswer⟩ := Submission.transmit_of_accepted report hsend
    rw [hgate]
    rcases hanswer with hanswer | ⟨result, hanswer⟩
    · rw [hanswer]
      exact CarriedOut.waiting gate rfl hsend
    · rw [hanswer]
      change CarriedOut engine report r _ (after (finishReport report r category
        engine.chain.nextHash (result.map .submitted)) (engine.transmitted call options gate))
      rw [after_finishReport]
      exact CarriedOut.settled gate (result.map .submitted) rfl hsend

/-- Carrying out a decision goes one of the ways listed. -/
theorem carriedOut_carryOut (engine : Engine) (report : Nat) (r : Report) (category : Category)
    (decision : Except ReportError Verdict) :
    CarriedOut engine report r decision (after (carryOut report r category decision) engine) := by
  cases decision with
  | error e => simpa [carryOut] using CarriedOut.unsent _
  | ok verdict =>
    cases verdict with
    | alreadySubmitted => simpa [carryOut] using CarriedOut.unsent _
    | feeCeilingExceeded => simpa [carryOut] using CarriedOut.unsent _
    | send call options => exact engine.carriedOut_transmitReport report r category call options

/-- Carrying out a decision leaves the chain as it is, or adds the call that was decided on. -/
theorem CarriedOut.chain_cases {engine next : Engine} {report : Nat} {r : Report}
    {decision : Except ReportError Verdict} (h : CarriedOut engine report r decision next) :
    next.chain = engine.chain ∨
      ∃ call options gate, decision = .ok (.send call options) ∧ .send ∉ engine.chain.failing ∧
        next.chain = { engine.chain.accept call options with gate } := by
  cases h with
  | unsent result => exact .inl rfl
  | waiting gate decided accepted => exact .inr ⟨_, _, gate, decided, accepted, rfl⟩
  | settled gate result decided accepted => exact .inr ⟨_, _, gate, decided, accepted, rfl⟩

/-- Beginning a report does nothing unless it is queued; then its computation breaks down, or its
decision is carried out. -/
theorem beginReport_cases (engine : Engine) (report : Nat) :
    after (beginReport report) engine = engine ∨
      ∃ r slot, engine.reports[report]? = some r ∧ r.phase = .queued ∧
        engine.tasks[r.task]? = some slot ∧
        (slot.task.source.compute? = none ∧ after (beginReport report) engine =
            (engine.setPhase report (.ended .broken none)).freeFlight r.task ∨
          ∃ compute, slot.task.source.compute? = some compute ∧
            CarriedOut engine report r
              ((slot.task.prepare r.checkpoint compute).ask engine.chain).result
              (after (beginReport report) engine)) := by
  unfold beginReport
  rw [after_bind, after_get, answer_get]
  cases hreport : engine.reports[report]? with
  | none => exact .inl rfl
  | some r =>
    cases hphase : r.phase with
    | queued =>
      cases hslot : engine.tasks[r.task]? with
      | none => simp [hphase, hslot]
      | some slot =>
        right
        refine ⟨r, slot, rfl, hphase, hslot, ?_⟩
        simp only [hphase, hslot]
        cases hsource : slot.task.source.compute? with
        | none => exact .inl ⟨rfl, rfl⟩
        | some compute => exact .inr ⟨compute, rfl, engine.carriedOut_carryOut report r _ _⟩
    | inLine call hash => simp [hphase]
    | admitted call hash => simp [hphase]
    | ended ending transaction => simp [hphase]

/-! ## Computations spread over other steps -/

/-- Judges a queued report whose call was computed before, and carries the verdict out. A call that
could not come from the report's computation is passed over. -/
def judgeReport (report : Nat) (computed : SubmissionCall) : Act Unit := do
  let engine ← get
  match engine.reports[report]? with
  | some r =>
    match r.phase, engine.tasks[r.task]? with
    | .queued, some slot =>
      if computed.category = slot.task.category ∧ computed.block = r.checkpoint.block then
        carryOut report r slot.task.category (← ask (slot.task.judge r.checkpoint computed))
    | _, _ => return
  | none => return

/-- A step, or the judgement of a report whose computation took its reads between earlier turns. -/
inductive Turn where
  | step (step : Step)
  | judge (report : Nat) (computed : SubmissionCall)

/-- Takes a turn. -/
def turn : Turn → Act Unit
  | .step s => step s
  | .judge report computed => judgeReport report computed

/-- Takes turns one after another. -/
def play (turns : List Turn) : Act Unit := turns.forM turn

/-- A run of steps is a run of turns. -/
theorem after_play_map_step (steps : List Step) (engine : Engine) :
    after (play (steps.map .step)) engine = after (run steps) engine := by
  induction steps generalizing engine with
  | nil => rfl
  | cons s steps ih => exact ih (after (step s) engine)

/-- Judging a report does nothing unless it is queued and the call could be its own; then its
decision is carried out. -/
theorem judgeReport_cases (engine : Engine) (report : Nat) (computed : SubmissionCall) :
    after (judgeReport report computed) engine = engine ∨
      ∃ r slot, engine.reports[report]? = some r ∧ r.phase = .queued ∧
        engine.tasks[r.task]? = some slot ∧ computed.category = slot.task.category ∧
        computed.block = r.checkpoint.block ∧
        CarriedOut engine report r ((slot.task.judge r.checkpoint computed).ask engine.chain).result
          (after (judgeReport report computed) engine) := by
  unfold judgeReport
  rw [after_bind, after_get, answer_get]
  cases hreport : engine.reports[report]? with
  | none => exact .inl rfl
  | some r =>
    cases hphase : r.phase with
    | queued =>
      cases hslot : engine.tasks[r.task]? with
      | none => simp [hphase, hslot]
      | some slot =>
        by_cases hown : computed.category = slot.task.category ∧ computed.block = r.checkpoint.block
        · right
          refine ⟨r, slot, rfl, hphase, hslot, hown.1, hown.2, ?_⟩
          simp only [hphase, hslot, if_pos hown]
          exact engine.carriedOut_carryOut report r _ _
        · left
          simp [hphase, hslot, hown]
    | inLine call hash => simp [hphase]
    | admitted call hash => simp [hphase]
    | ended ending transaction => simp [hphase]

end StakeOracle.Engine
