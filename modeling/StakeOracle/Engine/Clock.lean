import StakeOracle.Engine.Step

/-!
# Settling and the passing of time

An engine settles by running every started report as far as it goes, resuming what was let through
the gate, and stopping loops that have nothing left to wait for. Reports that were started before go
ahead of whatever is done to a supervisor or the clock.

The loops of a supervisor tick when they are started and then at every period, or after the longest
pause where that is shorter; all ticks of one instant come before the reports they start. One
supervisor runs at a time, and the loops of those before it may still be waiting for their reports.
-/

namespace StakeOracle.Engine

/-- Takes a step for each number below a bound. -/
def forEach (count : Nat) (step : Nat → Act Unit) : Act Unit := (List.range count).forM step

/-- Runs every report as far as it goes. -/
def settle : Act Unit := do
  (← get).unfinished.forM beginReport
  (← get).unfinished.forM concludeReport
  forEach (← get).loops.length drainLoop

/-- Ticks a task, and settles when that started a report. -/
def tickThrough (task : Nat) : Act (Option (Except ReportError Ticked)) := do
  let answer ← tick task
  if let some (.ok ⟨_, some _⟩) := answer then settle
  return answer

/-- Lets waits through the gate and settles. -/
def release (count : Nat) : Act Unit := do
  releaseGate count
  settle

/-- Cancels a report and settles. -/
def abort (report : Nat) : Act Unit := do
  cancelReport report
  settle

/-- Tells loops to stop; a loop without unfinished reports stops at once. -/
def stopLoops (loops : List Nat) : Act Unit :=
  loops.forM fun loop => do
    stopLoop loop
    drainLoop loop

/-- Starts a supervisor for tasks with their periods; its loops tick at once. A supervisor that was
running is replaced, and its loops are told to stop. -/
def spawn (schedule : List (Nat × Nat)) : Act Unit := do
  settle
  let engine ← get
  schedule.forM fun (task, period) => do
    let loop := (← get).loops.length
    startLoop task period
    tickLoop loop
  modify fun e => { e with supervised := List.range' engine.loops.length schedule.length }
  stopLoops engine.supervised
  settle

/-- Ticks every running loop that is due. -/
def tickDue : Act Unit := do
  let engine ← get
  forEach engine.loops.length fun loop =>
    match engine.loops[loop]? with
    | some l => if l.due ≤ engine.clock then tickLoop loop else pure ()
    | none => pure ()

/-- The next instant at which a running loop is due. -/
def nextDue (engine : Engine) : Option Nat :=
  ((engine.loops.filter (·.stage = .running)).map (·.due)).min?

/-- Lets time pass on a settled engine, with every tick in it. -/
def pass (ms : Nat) : Act Unit := do
  let engine ← get
  match engine.nextDue with
  | some due =>
    let gap := max 1 (due - engine.clock)
    if h : gap ≤ ms then
      set { engine with clock := engine.clock + gap }
      tickDue
      settle
      pass (ms - gap)
    else
      set { engine with clock := engine.clock + ms }
  | none => set { engine with clock := engine.clock + ms }
termination_by ms
decreasing_by omega

/-- Settles, then lets time pass. -/
def advance (ms : Nat) : Act Unit := do
  settle
  pass ms

/-- Ends the supervisor that is running: its loops are told to stop. -/
def dismiss : Act Unit := do
  settle
  let engine ← get
  set { engine with supervised := [] }
  stopLoops engine.supervised
  settle

/-- Shuts the supervisor down: it is ended, and what it waits for is remembered. -/
def shutdown : Act Unit := do
  modify fun engine => { engine with stopping := some engine.supervised }
  dismiss

/-- Whether the loops that the latest shutdown waits for have all stopped, if there was one. -/
def stopped? (engine : Engine) : Option Bool :=
  engine.stopping.map fun loops => loops.all engine.hasStopped

end StakeOracle.Engine
