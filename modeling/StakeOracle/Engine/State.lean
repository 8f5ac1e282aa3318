import StakeOracle.Flight
import StakeOracle.Report.Task

/-!
# The state of the engine

An engine holds its chain, its tasks, every report that was ever started, and the loops of its
supervisor. Tasks, reports and loops are known by their numbers, counted from zero in the order in
which they came. A report stands in the line of the inclusion gate under its own number.
-/

namespace StakeOracle

/-- How a report that ran to its end came out. -/
inductive ReportOutcome where
  | submitted (receipt : Receipt)
  | alreadySubmitted
  | feeCeilingExceeded
  deriving DecidableEq, Repr

/-- How a report ended. -/
inductive Ending where
  | finished (result : Except ReportError ReportOutcome)
  /-- Its computation broke down. -/
  | broken
  | cancelled

/-- How far a report has come. -/
inductive Phase where
  /-- Started, and not yet begun. -/
  | queued
  /-- Waiting for the inclusion of its transaction. -/
  | inLine (call : SubmissionCall) (hash : Digest)
  /-- Let through the gate, and not yet resumed. -/
  | admitted (call : SubmissionCall) (hash : Digest)
  /-- Over, with the transaction that was sent on the way. -/
  | ended (ending : Ending) (transaction : Option Digest)

namespace Phase

/-- Whether a phase is the last one. -/
def isEnded : Phase → Bool
  | ended .. => true
  | _ => false

/-- The transaction that a report has sent. -/
def transaction? : Phase → Option Digest
  | queued => none
  | inLine _ hash => some hash
  | admitted _ hash => some hash
  | ended _ transaction => transaction

end Phase

/-- A started report. -/
structure Report where
  task : Nat
  checkpoint : Checkpoint
  phase : Phase

/-- A task with the flight that its report holds while it is under way. -/
structure TaskSlot where
  task : ReportTask
  flight : Flight

/-- The stages of a loop. -/
inductive LoopStage where
  | running
  /-- Told to stop, and waiting for its reports. -/
  | draining
  | stopped
  deriving DecidableEq, Repr

/-- A loop that ticks one task at a fixed period, in milliseconds. -/
structure Loop where
  task : Nat
  period : Nat
  /-- When the loop ticks next. -/
  due : Nat
  /-- The reports that the loop started and has not seen ended. -/
  inFlight : List Nat
  stage : LoopStage
  deriving DecidableEq, Repr

namespace Loop

/-- The longest pause between two ticks, in milliseconds: thirty years of 365 days. -/
def longestPause : Nat := 30 * 365 * 24 * 60 * 60 * 1000

/-- The tick after the one that is due. A period beyond the longest pause is cut to it. -/
def nextTick (l : Loop) : Nat := l.due + min l.period longestPause

/-- A loop with a period moves on with every tick. -/
theorem due_lt_nextTick {l : Loop} (h : 0 < l.period) : l.due < l.nextTick := by
  simp only [nextTick, longestPause]
  omega

end Loop

/-- The state of the engine. -/
structure Engine where
  chain : Chain
  tasks : List TaskSlot
  reports : List Report
  loops : List Loop
  /-- The loops of the supervisor that runs now. -/
  supervised : List Nat
  /-- The loops that the latest shutdown waits for, if there was one. -/
  stopping : Option (List Nat)
  /-- The time in milliseconds. -/
  clock : Nat

/-- A computation of the engine that leaves notes. -/
abbrev Act := StateT Engine Noted

namespace Engine

/-- An engine over a fresh chain, with no tasks. -/
def fresh : Engine := ⟨Chain.fresh, [], [], [], [], none, 0⟩

/-- Writes a log entry. -/
def log (entry : LogEntry) : Act Unit := StateT.lift (Noted.note (.logged entry))

/-- Asks a query of the engine's chain. -/
def ask (q : Query ε α) : Act (Except ε α) := fun engine => do
  let answer ← q.ask engine.chain
  return (answer, engine)

/-- Lets an action change the engine's chain. -/
def onChain (action : Action α) : Act α := fun engine => do
  let (answer, chain) ← action engine.chain
  return (answer, { engine with chain })

/-- Whether a report of a task is in flight. -/
def isRunning (engine : Engine) (task : Nat) : Bool :=
  (engine.tasks[task]?.map (·.flight.busy)).getD false

/-- Whether a report has ended. -/
def hasEnded (engine : Engine) (report : Nat) : Bool :=
  (engine.reports[report]?.map (·.phase.isEnded)).getD true

/-- Whether a loop has stopped. -/
def hasStopped (engine : Engine) (loop : Nat) : Bool :=
  (engine.loops[loop]?.map fun l => decide (l.stage = .stopped)).getD true

/-- The reports that have not ended, in the order in which they were started. -/
def unfinished (engine : Engine) : List Nat :=
  engine.reports.zipIdx.filterMap fun (r, report) => if r.phase.isEnded then none else some report

/-- How a report ended, if it has. -/
def ending? (engine : Engine) (report : Nat) : Option Ending :=
  match engine.reports[report]? with
  | some ⟨_, _, .ended ending _⟩ => some ending
  | _ => none

/-- The engine with a report moved to another phase. -/
def setPhase (engine : Engine) (report : Nat) (phase : Phase) : Engine :=
  { engine with reports := engine.reports.modify report fun r => { r with phase } }

/-- The engine with the flight of a task free. -/
def freeFlight (engine : Engine) (task : Nat) : Engine :=
  { engine with
    tasks := engine.tasks.modify task fun slot => { slot with flight := slot.flight.release } }

/-- The category of a task. -/
def categoryOf (engine : Engine) (task : Nat) : Category :=
  (engine.tasks[task]?.map (·.task.category)).getD .balances

/-- The unfinished reports are those that have not ended. -/
theorem mem_unfinished {engine : Engine} {report : Nat} :
    report ∈ engine.unfinished ↔ engine.hasEnded report = false := by
  simp only [unfinished, hasEnded, List.mem_filterMap, Prod.exists, List.mem_zipIdx_iff_getElem?]
  constructor
  · rintro ⟨r, i, hr, h⟩
    split at h
    · cases h
    · cases h
      simp_all
  · intro h
    cases hr : engine.reports[report]? with
    | none => simp [hr] at h
    | some r => exact ⟨r, report, hr, by simp_all⟩

end Engine

end StakeOracle
