import StakeOracle.Error
import StakeOracle.Units

/-!
# Log entries

An entry states what happened; its line has a level, a wording, and named values behind the
wording where the entry is a bare fact for machines.
-/

namespace StakeOracle

/-- How long an interval of whole milliseconds is, in the largest unit that keeps it whole or
fractional without trailing zeros. -/
def durationText (ms : Nat) : String :=
  if ms = 0 then "0ns"
  else if ms < 1000 then toString ms ++ "ms"
  else
    let fraction := (Decimal.padded 3 (ms % 1000)).reverse.dropWhile (· = '0') |>.reverse
    let point := if fraction = [] then "" else "."
    toString (ms / 1000) ++ point ++ String.ofList fraction ++ "s"

/-- What happened. -/
inductive LogEntry where
  | checkpointDecision (category : Category) (reportable recorded : UInt64)
  | notSynced (category : Category) (execution consensus : Bool)
  | notTrusted (category : Category) (node : Address)
  | submissionsDisabled (category : Category)
  | notDue (category : Category) (reportable recorded : UInt64)
  | awaitingFinality (category : Category) (block epoch finalizedEpoch : UInt64)
  | alreadyRunning (category : Category)
  | reportStarted (category : Category) (block slot epoch : UInt64)
  | reportFailed (category : Category) (block : UInt64) (cause : ReportError)
  | aggregated (block : UInt64) (minipools distributors : Nat)
  | snapshotBlock (block : UInt64)
  | snapshotAmount (label : String) (wei : Word)
  | snapshotTotal (wei : Word)
  | exchangeRatio (ratio : Word)
  | exchangeRatioUnavailable
  | priceFound (source : String) (block : UInt64) (price : Word)
  | meanTick (block : UInt64) (tick : Int) (window : UInt32)
  | reserveAverage (start block : UInt64) (average : Word) (seconds : UInt64)
  | alreadySubmitted (category : Category) (block : UInt64)
  | resubmitting (category : Category) (block : UInt64)
  | feeCeilingExceeded (call : SubmissionCall) (baseFee priorityFee maxFee : Word)
  | sending (call : SubmissionCall) (estimate limit : UInt64) (maxCost : Word)
  | sent (call : SubmissionCall) (hash : Digest)
  | included (call : SubmissionCall) (block gasUsed : UInt64)
  | loopStarted (category : Category) (period : Nat)
  | tickFailed (category : Category) (cause : ReportError)
  | loopStopping (category : Category)
  | loopWaiting (category : Category)
  | loopStopped (category : Category)
  | pricesDisabled
  | validatorChunk (requested returned : Nat) (slot : UInt64)
  deriving DecidableEq, Repr

namespace LogEntry

/-- The level of an entry. -/
def level : LogEntry → String
  | checkpointDecision .. => "DEBUG"
  | notTrusted .. => "DEBUG"
  | submissionsDisabled .. => "DEBUG"
  | notDue .. => "DEBUG"
  | aggregated .. => "DEBUG"
  | meanTick .. => "DEBUG"
  | reserveAverage .. => "DEBUG"
  | validatorChunk .. => "DEBUG"
  | exchangeRatioUnavailable => "WARN"
  | feeCeilingExceeded .. => "WARN"
  | tickFailed .. => "WARN"
  | pricesDisabled => "WARN"
  | reportFailed .. => "ERROR"
  | _ => "INFO"

/-- A counter in decimal. -/
def counter (n : UInt64) : String := toString n.toNat

/-- The wording of an entry. -/
def message : LogEntry → String
  | checkpointDecision category reportable recorded =>
    "checkpoint decision category=" ++ category.name ++ " reportable=" ++ counter reportable ++
      " recorded=" ++ counter recorded
  | notSynced category execution consensus =>
    category.mark ++ " clients not synced (execution: " ++ toString execution ++ ", consensus: " ++
      toString consensus ++ "), waiting"
  | notTrusted category node =>
    category.mark ++ " node " ++ node.checksummed ++ " is not a trusted member"
  | submissionsDisabled category => category.mark ++ " submissions are disabled"
  | notDue category reportable recorded =>
    category.mark ++ " latest reportable block " ++ counter reportable ++
      " is not above recorded block " ++ counter recorded
  | awaitingFinality category block epoch finalizedEpoch =>
    category.mark ++ " block " ++ counter block ++ " is in epoch " ++ counter epoch ++
      " which is not finalized yet (finalized: " ++ counter finalizedEpoch ++ "), waiting"
  | alreadyRunning category => category.mark ++ " report already in progress"
  | reportStarted category block slot epoch =>
    category.mark ++ " starting report for block " ++ counter block ++ " (slot " ++ counter slot ++
      ", epoch " ++ counter epoch ++ ")"
  | reportFailed category block cause =>
    category.mark ++ " report for block " ++ counter block ++ " failed: " ++ cause.message
  | aggregated block minipools distributors =>
    "aggregated block " ++ counter block ++ ": " ++ toString minipools ++ " minipools, " ++
      toString distributors ++ " distributors"
  | snapshotBlock block =>
    Category.balances.mark ++ " Balances at block " ++ counter block ++ ":"
  | snapshotAmount label wei =>
    Category.balances.mark ++ "   " ++ label ++ ": " ++ wei.text ++ " wei"
  | snapshotTotal wei =>
    Category.balances.mark ++ "   total: " ++ wei.text ++ " wei (" ++ formatEth wei ++ " ETH)"
  | exchangeRatio ratio =>
    Category.balances.mark ++ "   exchange ratio: " ++ formatEth ratio ++ " ETH/rETH"
  | exchangeRatioUnavailable =>
    Category.balances.mark ++ "   exchange ratio unavailable: rETH supply is zero"
  | priceFound source block price =>
    Category.prices.mark ++ " " ++ source ++ " price at block " ++ counter block ++ ": " ++
      price.text ++ " wei (" ++ formatEth price ++ " ETH)"
  | meanTick block tick window =>
    "block " ++ counter block ++ ": mean tick " ++ toString tick ++ " over " ++
      toString window.toNat ++ "s"
  | reserveAverage start block average seconds =>
    "blocks " ++ counter start ++ ".." ++ counter block ++ ": uq112 twap " ++ average.text ++
      " over " ++ counter seconds ++ "s"
  | alreadySubmitted category block =>
    category.mark ++ " already submitted these values for block " ++ counter block
  | resubmitting category block =>
    category.mark ++ " already submitted for block " ++ counter block ++
      " but values changed, resubmitting stale values"
  | feeCeilingExceeded call baseFee priorityFee maxFee =>
    call.category.mark ++ " base fee " ++ baseFee.text ++ " wei + priority fee " ++
      priorityFee.text ++ " wei exceeds max fee " ++ maxFee.text ++ " wei, not submitting " ++
      call.text
  | sending call estimate limit maxCost =>
    call.category.mark ++ " sending " ++ call.text ++ " (gas estimate " ++ counter estimate ++
      ", limit " ++ counter limit ++ ", max cost " ++ formatEth maxCost ++ " ETH)"
  | sent call hash =>
    call.category.mark ++ " " ++ call.text ++ " sent in tx " ++ hash.toHex ++
      ", waiting for inclusion"
  | included call block gasUsed =>
    call.category.mark ++ " " ++ call.text ++ " included in block " ++ counter block ++
      " (gas used " ++ counter gasUsed ++ ")"
  | loopStarted category period =>
    category.mark ++ " loop started (interval: " ++ durationText period ++ ")"
  | tickFailed category cause => category.mark ++ " tick failed: " ++ cause.message
  | loopStopping category => category.mark ++ " loop shutting down"
  | loopWaiting category => category.mark ++ " waiting for in-flight report"
  | loopStopped category => category.mark ++ " loop stopped"
  | pricesDisabled =>
    Category.prices.mark ++ " no price pool configured, price reports disabled"
  | validatorChunk requested returned slot =>
    "validator status chunk requested=" ++ toString requested ++ " returned=" ++
      toString returned ++ " slot=" ++ counter slot

/-- The line of an entry. -/
def line (entry : LogEntry) : String := entry.level ++ " " ++ entry.message

end LogEntry

end StakeOracle
