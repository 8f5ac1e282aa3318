import StakeOracle.Bytes.Address
import StakeOracle.Submission

/-!
# Failures

A chain may fail to answer, a configuration may be refused, and a report may fail for reasons of
its own. None is fatal: the next tick starts afresh. Every failure has one wording.
-/

namespace StakeOracle

/-- Why a chain did not answer. -/
inductive ChainError where
  | transport (reason : String)
  | http (status : Nat) (body : String)
  | decode (reason : String)
  | notFound (what : String)
  | timeout
  | reverted (hash : Digest)
  deriving DecidableEq, Repr

/-- The wording of a chain failure. -/
def ChainError.message : ChainError → String
  | transport reason => "transport error: " ++ reason
  | http status body => "http " ++ toString status ++ ": " ++ body
  | decode reason => "decode error: " ++ reason
  | notFound what => "not found: " ++ what
  | timeout => "request timed out"
  | reverted hash => "transaction " ++ hash.toHex ++ " reverted"

/-- Why a configuration is not used. -/
inductive ConfigError where
  | unreadable
  | malformed
  | invalid (reason : String)
  deriving DecidableEq, Repr

/-- The wording of a configuration failure. -/
def ConfigError.message : ConfigError → String
  | unreadable => "failed to read config file"
  | malformed => "failed to parse config"
  | invalid reason => "invalid config: " ++ reason

/-- Why a report, or a step towards one, failed. -/
inductive ReportError where
  | chain (cause : ChainError)
  /-- A read failed inside a named part of the work. -/
  | read (context : String) (cause : ChainError)
  | minipool (address : Address) (reason : String)
  | epochAhead (target head : UInt64)
  | zeroFrequency (category : String)
  | zeroElapsedTime (previous current : UInt64)
  | tickOutOfRange (tick : Int)
  | insufficientObservations (count : Nat)
  | overflow (quantity : String)
  | emptyReserve
  | estimator (reason : String)
  | missingPool
  | reverted (call : SubmissionCall) (hash : Digest)
  | config (cause : ConfigError)
  | taskAborted (reason : String)
  deriving DecidableEq, Repr

/-- The wording of a report failure. -/
def ReportError.message : ReportError → String
  | chain cause => cause.message
  | read context cause => context ++ ": " ++ cause.message
  | minipool address reason => "minipool " ++ address.checksummed ++ ": " ++ reason
  | epochAhead target head =>
    "target epoch " ++ toString target.toNat ++ " is ahead of head epoch " ++ toString head.toNat
  | zeroFrequency category => "submission frequency for " ++ category ++ " is zero"
  | zeroElapsedTime previous current =>
    "no time elapsed between price observations at blocks " ++ toString previous.toNat ++ " and " ++
      toString current.toNat
  | tickOutOfRange tick => "tick " ++ toString tick ++ " out of range"
  | insufficientObservations count =>
    "expected at least 2 pool observations, got " ++ toString count
  | overflow quantity => "arithmetic overflow in " ++ quantity
  | emptyReserve => "pool reserve of the reward token is zero"
  | estimator reason => "smoothing pool estimator: " ++ reason
  | missingPool => "no price pool address configured"
  | reverted call hash => "submission " ++ call.text ++ " reverted in tx " ++ hash.toHex
  | config cause => cause.message
  | taskAborted reason => "report task aborted: " ++ reason

end StakeOracle
