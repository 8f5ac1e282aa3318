import StakeOracle.Aggregation
import StakeOracle.Batch
import StakeOracle.Beacon.Api
import StakeOracle.Beacon.Client
import StakeOracle.Beacon.Exchange
import StakeOracle.Beacon.Script
import StakeOracle.Beacon.Timing
import StakeOracle.Beacon.Validator
import StakeOracle.Bonding
import StakeOracle.Bytes.Address
import StakeOracle.Bytes.Hex
import StakeOracle.Bytes.Keccak
import StakeOracle.Bytes.Octets
import StakeOracle.Category
import StakeOracle.Chain.Change
import StakeOracle.Chain.Method
import StakeOracle.Chain.Query
import StakeOracle.Chain.Reads
import StakeOracle.Chain.Sending
import StakeOracle.Chain.State
import StakeOracle.Checkpoint
import StakeOracle.Commission
import StakeOracle.Config.Document
import StakeOracle.Config.Settings
import StakeOracle.Engine.Attempt
import StakeOracle.Engine.Clock
import StakeOracle.Engine.State
import StakeOracle.Engine.Step
import StakeOracle.Engine.Supervisor
import StakeOracle.Error
import StakeOracle.Flight
import StakeOracle.Journal.LogEntry
import StakeOracle.Journal.Noted
import StakeOracle.Json.Category
import StakeOracle.Json.Document
import StakeOracle.Json.Record
import StakeOracle.Json.Value
import StakeOracle.Ledger
import StakeOracle.Minipool
import StakeOracle.NetworkBalances
import StakeOracle.Numeric.Binary64
import StakeOracle.Numeric.Counter
import StakeOracle.Numeric.Decimal
import StakeOracle.Numeric.Nearest
import StakeOracle.Numeric.Power
import StakeOracle.Numeric.Shortest
import StakeOracle.Numeric.Word
import StakeOracle.Price.Reserve
import StakeOracle.Price.Source
import StakeOracle.Price.Tick
import StakeOracle.Report.Source
import StakeOracle.Report.Submit
import StakeOracle.Report.Task
import StakeOracle.Submission
import StakeOracle.SubmissionKey
import StakeOracle.Text.Reader
import StakeOracle.Toml.Document
import StakeOracle.Toml.Moment
import StakeOracle.Toml.Number
import StakeOracle.Toml.Quoted
import StakeOracle.Toml.Tree
import StakeOracle.Toml.Value
import StakeOracle.Units
import StakeOracle.Proofs.Chain.Answer
import StakeOracle.Proofs.Chain.Course
import StakeOracle.Proofs.Balances.Snapshot
import StakeOracle.Proofs.Balances.Completeness
import StakeOracle.Proofs.Bonding.Shares
import StakeOracle.Proofs.Balances.Backing
import StakeOracle.Proofs.Ledger.Reading
import StakeOracle.Proofs.Report.Computation
import StakeOracle.Proofs.Chain.Transmission
import StakeOracle.Proofs.Engine.Steps
import StakeOracle.Proofs.Engine.Submissions
import StakeOracle.Proofs.Engine.Reporting
import StakeOracle.Proofs.Report.Gates
import StakeOracle.Proofs.Engine.Reports
import StakeOracle.Proofs.Engine.Provenance
import StakeOracle.Proofs.Chain.Locality
import StakeOracle.Proofs.Report.Locality
import StakeOracle.Proofs.Engine.Delivery
import StakeOracle.Proofs.Engine.Agreement
import StakeOracle.Proofs.Engine.Moves
import StakeOracle.Proofs.Engine.Independence
import StakeOracle.Proofs.Chain.Operation
import StakeOracle.Proofs.Submission.RecordKeys
import StakeOracle.Proofs.Ledger.History
import StakeOracle.Proofs.Price.PoolHistory
import StakeOracle.Proofs.Price.ReserveAverage
import StakeOracle.Proofs.Numeric.Closeness
import StakeOracle.Proofs.Price.RootFactors
import StakeOracle.Proofs.Price.TickAccuracy
import StakeOracle.Proofs.Balances.Listing
import StakeOracle.Proofs.Report.Passage
import StakeOracle.Proofs.Engine.Advance
import StakeOracle.Proofs.Engine.Flights
import StakeOracle.Proofs.Engine.Supervision
import StakeOracle.Proofs.Engine.Shutdown
import StakeOracle.Proofs.Batch.Batches
import StakeOracle.Proofs.Bytes.HexText
import StakeOracle.Proofs.Beacon.Statuses
import StakeOracle.Proofs.Bonding.Regularity
import StakeOracle.Proofs.Engine.Checks
import StakeOracle.Proofs.Engine.Conduct
import StakeOracle.Proofs.Engine.Outcomes
import StakeOracle.Proofs.Beacon.TimingCache
import StakeOracle.Proofs.Bonding.Overflow
import StakeOracle.Proofs.Price.TickFailures
import StakeOracle.Proofs.Price.TickOrder
import StakeOracle.Proofs.Batch.Moments
import StakeOracle.Proofs.Balances.Totals
import StakeOracle.Proofs.Beacon.Finality
import StakeOracle.Proofs.Balances.Classification
import StakeOracle.Proofs.Report.Checkpoints
import StakeOracle.Proofs.Balances.Commissions
import StakeOracle.Proofs.Submission.Dialogue
import StakeOracle.Proofs.Submission.FeeCeiling
import StakeOracle.Proofs.Price.ReserveWindow
import StakeOracle.Proofs.Balances.ExchangeRatio
import StakeOracle.Proofs.Bytes.KeyText
import StakeOracle.Proofs.Config.Construction
import StakeOracle.Proofs.Flight.Groups
import StakeOracle.Proofs.Numeric.EtherText
import StakeOracle.Proofs.Price.FixedPoint
import StakeOracle.Proofs.Chain.Traffic
import StakeOracle.Proofs.Chain.Inclusion
import StakeOracle.Proofs.Chain.Bookkeeping
import StakeOracle.Proofs.Text.Reading
