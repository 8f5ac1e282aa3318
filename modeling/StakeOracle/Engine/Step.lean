import StakeOracle.Chain.Change
import StakeOracle.Engine.State

/-!
# The steps of the engine

Everything that happens to a running engine is a sequence of these steps: the world changes the
chain, a task ticks, a started report begins and runs to its end or into the line of the inclusion
gate, new permits let reports through, a report that was let through is concluded or a report is
cancelled, and the loops of the supervisor start, tick, are told to stop, and stop.
-/

namespace StakeOracle

/-- One step. -/
inductive Step where
  | change (change : Change)
  | addTask (task : ReportTask)
  | tick (task : Nat)
  | begin (report : Nat)
  | release (count : Nat)
  | conclude (report : Nat)
  | cancel (report : Nat)
  | startLoop (task period : Nat)
  | tickLoop (loop : Nat)
  | stopLoop (loop : Nat)
  | drainLoop (loop : Nat)

/-- The outcome of a tick, and the number of the report that it started. -/
structure Ticked where
  outcome : TickOutcome
  report : Option Nat
  deriving DecidableEq, Repr

namespace Engine

/-- The engine after a report was started for a task. -/
def launch (engine : Engine) (task : Nat) (checkpoint : Checkpoint) (flight : Flight) : Engine :=
  { engine with
    tasks := engine.tasks.modify task fun slot => { slot with flight }
    reports := engine.reports ++ [⟨task, checkpoint, .queued⟩] }

/-- Runs the gates of a task and starts a report if they are passed. There is no answer when there
is no such task. -/
def tick (task : Nat) : Act (Option (Except ReportError Ticked)) := do
  let engine ← get
  match engine.tasks[task]? with
  | none => return none
  | some slot =>
    match ← ask (slot.task.tick slot.flight.busy) with
    | .error e => return some (.error e)
    | .ok outcome =>
      match outcome, slot.flight.acquire? with
      | .started checkpoint, some flight =>
        modify fun e => e.launch task checkpoint flight
        return some (.ok ⟨outcome, some engine.reports.length⟩)
      | _, _ => return some (.ok ⟨outcome, none⟩)

/-- Ends a report, which has sent a transaction or not, and frees the flight of its task. -/
def endReport (report : Nat) (r : Report) (ending : Ending) (transaction : Option Digest) :
    Act Unit :=
  modify fun engine => (engine.setPhase report (.ended ending transaction)).freeFlight r.task

/-- Ends a report with a result, and logs a failure. -/
def finishReport (report : Nat) (r : Report) (category : Category) (transaction : Option Digest)
    (result : Except ReportError ReportOutcome) : Act Unit := do
  if let .error e := result then log (.reportFailed category r.checkpoint.block e)
  endReport report r (.finished result) transaction

/-- Sends the call of a report and waits for its inclusion. -/
def transmitReport (report : Nat) (r : Report) (call : SubmissionCall) (options : SendOptions)
    (category : Category) : Act Unit := do
  match ← onChain (Submission.transmit report call options) with
  | .refused e => finishReport report r category none (.error (.chain e))
  | .settled hash result => finishReport report r category hash (result.map .submitted)
  | .waiting hash => modify fun engine => engine.setPhase report (.inLine call hash)

/-- Carries out what a report has decided: it sends its call, or ends. -/
def carryOut (report : Nat) (r : Report) (category : Category) :
    Except ReportError Verdict → Act Unit
  | .error e => finishReport report r category none (.error e)
  | .ok .alreadySubmitted => finishReport report r category none (.ok .alreadySubmitted)
  | .ok .feeCeilingExceeded => finishReport report r category none (.ok .feeCeilingExceeded)
  | .ok (.send call options) => transmitReport report r call options category

/-- Runs a started report to its end, or into the line of the inclusion gate. -/
def beginReport (report : Nat) : Act Unit := do
  let engine ← get
  match engine.reports[report]? with
  | some r =>
    match r.phase, engine.tasks[r.task]? with
    | .queued, some slot =>
      match slot.task.source.compute? with
      | none => endReport report r .broken none
      | some compute =>
        carryOut report r slot.task.category (← ask (slot.task.prepare r.checkpoint compute))
    | _, _ => return
  | none => return

/-- Gives permits to the gate: the first waits in line are let through. -/
def releaseGate (count : Nat) : Act Unit :=
  modify fun engine =>
    let passed := (engine.chain.admitted count).foldl (fun e report =>
      match e.reports[report]? with
      | some ⟨_, _, .inLine call hash⟩ => e.setPhase report (.admitted call hash)
      | _ => e) engine
    { passed with chain := engine.chain.release count }

/-- Resumes a report that was let through: its receipt is made up now. -/
def concludeReport (report : Nat) : Act Unit := do
  let engine ← get
  match engine.reports[report]? with
  | some r =>
    match r.phase with
    | .admitted call hash =>
      let answer ← StateT.lift (Submission.conclude call hash (engine.chain.receipt hash))
      finishReport report r (engine.categoryOf r.task) hash (answer.map .submitted)
    | _ => return
  | none => return

/-- Cancels a report that has not ended; it leaves the line of the gate. -/
def cancelReport (report : Nat) : Act Unit := do
  let engine ← get
  match engine.reports[report]? with
  | some r =>
    if !r.phase.isEnded then
      set { engine with chain := engine.chain.leave report }
      endReport report r .cancelled r.phase.transaction?
  | none => return

/-- The stage in which a loop starts: without a period it breaks down before its first tick. -/
def firstStage (period : Nat) : LoopStage := if period = 0 then .stopped else .running

/-- Adds a loop that is due at once. -/
def startLoop (task period : Nat) : Act Unit := do
  log (.loopStarted ((← get).categoryOf task) period)
  modify fun engine =>
    { engine with loops := engine.loops ++ [⟨task, period, engine.clock, [], firstStage period⟩] }

/-- Ticks the task of a loop. Reports that have ended are forgotten first; a failed tick is
logged. -/
def tickLoop (loop : Nat) : Act Unit := do
  let engine ← get
  match engine.loops[loop]? with
  | none => return
  | some l =>
    if l.stage = .running then
      let unfinished := l.inFlight.filter fun report => !engine.hasEnded report
      let started ← do
        match ← tick l.task with
        | some (.ok ticked) => pure ticked.report.toList
        | some (.error e) => log (.tickFailed (engine.categoryOf l.task) e); pure []
        | none => pure []
      modify fun e =>
        { e with
          loops := e.loops.set loop
            { l with inFlight := unfinished ++ started, due := l.nextTick } }

/-- Tells a loop to stop. -/
def stopLoop (loop : Nat) : Act Unit := do
  let engine ← get
  match engine.loops[loop]? with
  | none => return
  | some l =>
    if l.stage = .running then
      log (.loopStopping (engine.categoryOf l.task))
      if l.inFlight ≠ [] then log (.loopWaiting (engine.categoryOf l.task))
      modify fun e => { e with loops := e.loops.set loop { l with stage := .draining } }

/-- Stops a loop that was told to, once all its reports have ended. -/
def drainLoop (loop : Nat) : Act Unit := do
  let engine ← get
  match engine.loops[loop]? with
  | none => return
  | some l =>
    if l.stage = .draining ∧ l.inFlight.all engine.hasEnded then
      log (.loopStopped (engine.categoryOf l.task))
      modify fun e => { e with loops := e.loops.set loop { l with stage := .stopped } }

/-- Takes a step. -/
def step : Step → Act Unit
  | .change change => modify fun engine => { engine with chain := engine.chain.apply change }
  | .addTask task => modify fun engine =>
    { engine with tasks := engine.tasks ++ [⟨task, Flight.free⟩] }
  | .tick task => do let _ ← tick task
  | .begin report => beginReport report
  | .release count => releaseGate count
  | .conclude report => concludeReport report
  | .cancel report => cancelReport report
  | .startLoop task period => startLoop task period
  | .tickLoop loop => tickLoop loop
  | .stopLoop loop => stopLoop loop
  | .drainLoop loop => drainLoop loop

/-- Takes steps one after another. -/
def run (steps : List Step) : Act Unit := steps.forM step

end Engine

end StakeOracle
