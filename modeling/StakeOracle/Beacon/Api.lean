import StakeOracle.Beacon.Timing
import StakeOracle.Beacon.Validator
import StakeOracle.Json.Record

/-!
# Answers of a beacon node

The bodies that a beacon node answers with. Every body wraps its content in an envelope.
-/

namespace StakeOracle.Beacon

open Json

/-- Whether the node follows the head, and the slot of that head. -/
structure SyncState where
  headSlot : UInt64
  syncing : Bool
  deriving DecidableEq, Repr

/-- A validator as the node lists it; its key is not read yet. -/
structure ValidatorEntry where
  key : String
  activationEpoch : UInt64
  exitEpoch : UInt64
  balanceGwei : UInt64
  deriving DecidableEq, Repr

/-- Reads one field of a record. -/
def field (record : Record) (position : Nat) (name : String) (read : Value → Option α) : Option α :=
  (record.field? position name).bind read

/-- The content of an envelope. -/
def content? (read : Value → Option α) (body : String) : Option α := do
  let record ← Record.ofValue? 1 (← Json.read? body)
  field record 0 "data" read

/-- The time of beacon genesis. -/
def genesisTime? (v : Value) : Option UInt64 := do
  let record ← Record.ofValue? 1 v
  field record 0 "genesis_time" Value.counter?

/-- The seconds of a slot and the slots of an epoch. -/
def slotTiming? (v : Value) : Option (UInt64 × UInt64) := do
  let record ← Record.ofValue? 2 v
  return (← field record 0 "SECONDS_PER_SLOT" Value.counter?,
    ← field record 1 "SLOTS_PER_EPOCH" Value.counter?)

/-- The sync state of the node. -/
def SyncState.ofValue? (v : Value) : Option SyncState := do
  let record ← Record.ofValue? 2 v
  return ⟨← field record 0 "head_slot" Value.counter?, ← field record 1 "is_syncing" Value.boolean?⟩

/-- The epoch of a checkpoint. -/
def checkpointEpoch? (v : Value) : Option UInt64 := do
  let record ← Record.ofValue? 1 v
  field record 0 "epoch" Value.counter?

/-- The latest finalized epoch. -/
def finalizedEpoch? (v : Value) : Option UInt64 := do
  let record ← Record.ofValue? 1 v
  field record 0 "finalized" checkpointEpoch?

/-- A listed validator. -/
def ValidatorEntry.ofValue? (v : Value) : Option ValidatorEntry := do
  let record ← Record.ofValue? 2 v
  let balanceGwei ← field record 0 "balance" Value.counter?
  let validator ← record.field? 1 "validator"
  let inner ← Record.ofValue? 3 validator
  return {
    key := ← field inner 0 "pubkey" Value.text?
    activationEpoch := ← field inner 1 "activation_epoch" Value.counter?
    exitEpoch := ← field inner 2 "exit_epoch" Value.counter?
    balanceGwei }

/-- The listed validators. -/
def validatorEntries? (v : Value) : Option (List ValidatorEntry) := do
  (← v.items?).mapM ValidatorEntry.ofValue?

/-- The status that an entry reports. -/
def ValidatorEntry.status (entry : ValidatorEntry) : ValidatorStatus :=
  ⟨true, entry.activationEpoch, entry.exitEpoch, entry.balanceGwei⟩

end StakeOracle.Beacon
