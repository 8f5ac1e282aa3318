import StakeOracle.Beacon.Timing
import StakeOracle.Beacon.Validator
import StakeOracle.Chain.Method
import StakeOracle.Minipool
import StakeOracle.Price.Reserve
import StakeOracle.Submission

/-!
# A chain in memory

The state behind every call of the engine: both clients, the protocol's contracts, a price pool,
the beacon chain and the wallet. A fresh chain is synced, trusts its own node, holds nothing and
has nothing to report.

Inclusion of transactions can be held back by a gate. Waits stand in line at the gate and pass it
in the order in which they came, one for each permit.
-/

namespace StakeOracle

/-- The function that answers `value` at `key` and what `f` answers elsewhere. -/
def amended [DecidableEq κ] (f : κ → α) (key : κ) (value : α) : κ → α :=
  fun k => if k = key then value else f k

/-- At its own key an amended function has the new value. -/
@[simp] theorem amended_same [DecidableEq κ] (f : κ → α) (key : κ) (value : α) :
    amended f key value key = value := by simp [amended]

/-- At any other key it has the value that it had. -/
@[simp] theorem amended_of_ne [DecidableEq κ] (f : κ → α) {key k : κ} (value : α) (h : k ≠ key) :
    amended f key value k = f k := by simp [amended, h]

/-- The rewards interval that is accruing. -/
structure RewardsInterval where
  index : UInt64
  startTime : UInt64
  duration : UInt64
  deriving DecidableEq, Repr

/-- A gate that waits pass in the order of their arrival. -/
structure Gate where
  /-- Permits that no wait has taken. -/
  permits : Nat
  /-- The waits in line, the first to pass in front. -/
  line : List Nat
  deriving DecidableEq, Repr

namespace Gate

/-- A closed gate with nobody in line. -/
def closed : Gate := ⟨0, []⟩

/-- Whether a wait that arrives now passes at once. -/
def passes (gate : Gate) : Bool := 0 < gate.permits

/-- The gate after a wait arrived: it takes a permit, or stands at the end of the line. -/
def arrive (gate : Gate) (wait : Nat) : Gate :=
  if gate.passes then { gate with permits := gate.permits - 1 }
  else { gate with line := gate.line ++ [wait] }

/-- The waits that new permits let through. -/
def admitted (gate : Gate) (count : Nat) : List Nat := gate.line.take count

/-- The gate after new permits: the first waits have passed, and what is left over is kept. -/
def release (gate : Gate) (count : Nat) : Gate :=
  ⟨gate.permits + (count - gate.line.length), gate.line.drop count⟩

/-- The gate after a wait was given up. -/
def leave (gate : Gate) (wait : Nat) : Gate := { gate with line := gate.line.filter (· ≠ wait) }

/-- New permits let through the front of the line, and the rest of the line stays. -/
theorem admitted_append_line_release (gate : Gate) (count : Nat) :
    gate.admitted count ++ (gate.release count).line = gate.line := List.take_append_drop _ _

/-- As many waits pass as there are new permits, or as there are in line. -/
@[simp] theorem length_admitted (gate : Gate) (count : Nat) :
    (gate.admitted count).length = min count gate.line.length := List.length_take

/-- Every new permit lets a wait through or is kept. -/
theorem permits_release (gate : Gate) (count : Nat) :
    (gate.release count).permits + (gate.admitted count).length = gate.permits + count := by
  rw [length_admitted]
  simp only [release]
  omega

end Gate

/-- The state of a chain. -/
structure Chain where
  executionSynced : Bool
  consensusSynced : Bool
  latestBlock : UInt64
  /-- Block times that differ from the regular spacing. -/
  timestamps : UInt64 → Option UInt64
  balances : Address → Word
  trusted : Address → Bool
  enabled : Category → Bool
  recorded : Category → UInt64
  reportable : Category → UInt64
  frequency : Category → UInt64
  /-- The keys of the flags that are set in the protocol's storage. -/
  flags : List Digest
  depositPool : Word
  minipools : List Minipool
  nodes : List Address
  distributors : Address → Option Address
  rethAddress : Address
  rethSupply : Word
  rewards : RewardsInterval
  tickCumulatives : Option (List Int64)
  pools : UInt64 → Option PoolState
  timing : BeaconTiming
  head : BeaconHead
  validators : Pubkey → ValidatorStatus
  /-- The node whose wallet signs submissions. -/
  node : Address
  gas : GasInfo
  /-- Whether submissions revert, and so record nothing. -/
  reverting : Bool
  /-- Whether submissions set their flags. -/
  recording : Bool
  /-- Accepted transactions, the oldest first. -/
  sent : List SentTransaction
  /-- The gate before inclusion, once there is one. -/
  gate : Option Gate
  /-- The calls that fail. -/
  failing : List Method

namespace Chain

/-- The node of a fresh chain. -/
def firstNode : Address := Octets.replicate 20 0xaa

/-- The time of block zero, and of beacon genesis on a fresh chain. -/
def genesisTime : UInt64 := 1600000000

/-- Seconds between blocks at the regular spacing. -/
def blockInterval : UInt64 := 12

/-- A fresh chain. -/
def fresh : Chain where
  executionSynced := true
  consensusSynced := true
  latestBlock := 0
  timestamps _ := none
  balances _ := 0
  trusted node := node = firstNode
  enabled _ := true
  recorded _ := 0
  reportable _ := 0
  frequency _ := 0
  flags := []
  depositPool := 0
  minipools := []
  nodes := []
  distributors _ := none
  rethAddress := Octets.replicate 20 0xee
  rethSupply := 0
  rewards := ⟨0, genesisTime, 28 * 24 * 3600⟩
  tickCumulatives := none
  pools _ := none
  timing := ⟨genesisTime, 12, 32⟩
  head := ⟨UInt64.greatest / 2, UInt64.greatest / 2⟩
  validators _ := ValidatorStatus.missing
  node := firstNode
  gas := ⟨100000, 150000, 10000000000⟩
  reverting := false
  recording := true
  sent := []
  gate := none
  failing := []

/-- The time of a block: its own, or the regular spacing from block zero. -/
def blockTime (chain : Chain) (block : UInt64) : UInt64 :=
  (chain.timestamps block).getD (genesisTime.addSat (block.mulSat blockInterval))

end Chain

end StakeOracle
