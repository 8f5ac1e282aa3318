import StakeOracle.Config.Settings
import StakeOracle.Engine.Step

/-!
# The tasks of a configuration

A valid configuration yields a task for balances and, when a price pool is named, one for prices.
Each is ticked at the interval of its own category.
-/

namespace StakeOracle

/-- A task and how often it is ticked, in milliseconds. -/
structure ScheduledTask where
  task : ReportTask
  period : Nat

/-- Milliseconds in a second. -/
def millisPerSecond : Nat := 1000

/-- A task that is scheduled as told. -/
def ScheduleSettings.scheduled (schedule : ScheduleSettings) (limits : FeeLimits)
    (source : ReportSource) : ScheduledTask :=
  ⟨⟨source, schedule.blockSource, limits⟩, schedule.intervalSecs.toNat * millisPerSecond⟩

namespace Config

/-- How balances are aggregated, given the estimator of the smoothing pool. Batches are never
empty. -/
def aggregator (config : Config) (smoothing : Option Estimator) : Aggregator :=
  ⟨smoothing, config.aggregation.curve, max 1 config.aggregation.batchSize.toNat⟩

/-- The tasks of a configuration. Without a price pool there is no price task, which is logged. -/
def tasks (config : Config) (smoothing : Option Estimator) :
    Noted (Except ReportError (List ScheduledTask)) :=
  match config.validate with
  | .error fault => pure (.error (.config fault.error))
  | .ok _ =>
    match config.fees.limits with
    | .error fault => pure (.error (.config fault.error))
    | .ok limits =>
      let balances := config.balances.scheduled limits (.balances (config.aggregator smoothing))
      match config.price.source with
      | .ok source => pure (.ok [balances, config.prices.scheduled limits (.price source)])
      | .error .missingPool => do
        Noted.note (.logged .pricesDisabled)
        return .ok [balances]
      | .error failure => pure (.error failure)

end Config

/-- Adds scheduled tasks and answers with their numbers and periods. -/
def Engine.enrol (tasks : List ScheduledTask) : Act (List (Nat × Nat)) := do
  let first := (← get).tasks.length
  tasks.forM fun scheduled => step (.addTask scheduled.task)
  return (List.range' first tasks.length).zip (tasks.map (·.period))

end StakeOracle
