import StakeOracle.Bytes.Hex
import StakeOracle.Config.Settings
import StakeOracle.Numeric.Nearest
import StakeOracle.Toml.Document

/-!
# Settings from a document

A group of settings is a table with one entry for each setting, or an array of the settings in
their order. What is not given keeps its default, and what is not known is ignored. Whole numbers
are taken where fractions are expected, but not the reverse.
-/

namespace StakeOracle

namespace Toml.Value

/-- A whole number below a bound. -/
def below? (bound : Nat) : Value → Option Nat
  | integer n => if 0 ≤ n ∧ n < bound then some n.toNat else none
  | _ => none

/-- A 64-bit counter. -/
def counter? (v : Value) : Option UInt64 := (v.below? (2 ^ 64)).map UInt64.ofNat

/-- A 32-bit counter. -/
def counter32? (v : Value) : Option UInt32 := (v.below? (2 ^ 32)).map UInt32.ofNat

/-- An octet. -/
def octet? (v : Value) : Option UInt8 := (v.below? (2 ^ 8)).map UInt8.ofNat

/-- A fraction. -/
def fraction? : Value → Option Float
  | float x => some x
  | integer n => some (Nearest.ofInt n)
  | _ => none

/-- A truth value. -/
def boolean? : Value → Option Bool
  | boolean b => some b
  | _ => none

/-- A text. -/
def text? : Value → Option String
  | text t => some t
  | _ => none

/-- Whether a value is an empty table or an empty array. -/
def isEmpty : Value → Bool
  | table [] => true
  | array [] => true
  | _ => false

/-- A choice: its name, or a table whose only key is the name and whose value is empty. -/
def choice? (named : String → Option α) : Value → Option α
  | text name => named name
  | table [(name, v)] => if v.isEmpty then named name else none
  | _ => none

/-- An address: 40 digits of either case, with or without `0x` or `0X` in front, or twenty octets
that no further octet follows. -/
def address? : Value → Option Address
  | text t =>
    let digits :=
      match t.toUTF8.toList with
      | 48 :: 120 :: rest => rest
      | 48 :: 88 :: rest => rest
      | whole => whole
    match Hex.decode digits with
    | .ok bytes => Octets.ofList? 20 bytes
    | .error _ => none
  | array items =>
    if (items[20]?.bind octet?).isSome then none
    else ((items.take 20).mapM octet?).bind (Octets.ofList? 20)
  | _ => none

end Toml.Value

/-- A group of settings, by name or by position. -/
inductive SettingGroup where
  | named (entries : List (String × Toml.Value))
  | ordered (items : List Toml.Value)

namespace SettingGroup

/-- The group that a value holds. A date holds nothing that is known. -/
def ofValue? : Toml.Value → Option SettingGroup
  | .table entries => some (named entries)
  | .array items => some (ordered items)
  | .moment => some (named [])
  | _ => none

/-- The value of a setting, if it is given. -/
def value? (group : SettingGroup) (position : Nat) (name : String) : Option Toml.Value :=
  match group with
  | named entries => entries.lookup name
  | ordered items => items[position]?

/-- Reads a setting that has a default. -/
def get (group : SettingGroup) (position : Nat) (name : String) (read : Toml.Value → Option α)
    (standard : α) : Option α :=
  match group.value? position name with
  | none => some standard
  | some v => read v

end SettingGroup

/-- The block source of a name. -/
def BlockSource.ofName? : String → Option BlockSource
  | "on_chain" => some onChain
  | "frequency" => some frequency
  | _ => none

/-- The kind of pool of a name. -/
def PoolKind.ofName? : String → Option PoolKind
  | "tick" => some tick
  | "reserve" => some reserve
  | _ => none

/-- Reads a schedule. -/
def ScheduleSettings.ofValue? (v : Toml.Value) : Option ScheduleSettings := do
  let group ← SettingGroup.ofValue? v
  return {
    intervalSecs := ← group.get 0 "interval_secs" Toml.Value.counter? standard.intervalSecs
    blockSource := ← group.get 1 "reportable_block_source"
      (Toml.Value.choice? BlockSource.ofName?) standard.blockSource }

/-- Reads fees. -/
def FeeSettings.ofValue? (v : Toml.Value) : Option FeeSettings := do
  let group ← SettingGroup.ofValue? v
  return {
    maxFeeGwei := ← group.get 0 "max_fee_gwei" Toml.Value.fraction? standard.maxFeeGwei
    maxPriorityFeeGwei := ← group.get 1 "max_priority_fee_gwei" Toml.Value.fraction?
      standard.maxPriorityFeeGwei }

/-- Reads how balances are aggregated. -/
def AggregationSettings.ofValue? (v : Toml.Value) : Option AggregationSettings := do
  let group ← SettingGroup.ofValue? v
  return {
    batchSize := ← group.get 0 "batch_size" Toml.Value.counter? standard.batchSize
    launchBalanceEth := ← group.get 1 "launch_balance_eth" Toml.Value.counter?
      standard.launchBalanceEth
    fullRefundEth := ← group.get 2 "full_refund_eth" Toml.Value.counter? standard.fullRefundEth }

/-- Reads where the price comes from. -/
def PriceSettings.ofValue? (v : Toml.Value) : Option PriceSettings := do
  let group ← SettingGroup.ofValue? v
  return {
    kind := ← group.get 0 "source" (Toml.Value.choice? PoolKind.ofName?) standard.kind
    pool := ← group.get 1 "pool_address" (fun v => v.address?.map some) standard.pool
    windowSecs := ← group.get 2 "twap_window_secs" Toml.Value.counter32? standard.windowSecs
    token0 := ← group.get 3 "reward_token_is_token0" Toml.Value.boolean? standard.token0
    lookbackBlocks := ← group.get 4 "bootstrap_lookback_blocks" Toml.Value.counter?
      standard.lookbackBlocks }

/-- Reads where the beacon node is. -/
def BeaconSettings.ofValue? (v : Toml.Value) : Option BeaconSettings := do
  let group ← SettingGroup.ofValue? v
  return {
    url := ← group.get 0 "url" Toml.Value.text? standard.url
    timeoutSecs := ← group.get 1 "timeout_secs" Toml.Value.counter? standard.timeoutSecs }

namespace Config

/-- Reads the settings of a document's entries. -/
def ofEntries? (entries : List (String × Toml.Value)) : Option Config := do
  let group := SettingGroup.named entries
  return {
    balances := ← group.get 0 "balances" ScheduleSettings.ofValue? standard.balances
    prices := ← group.get 1 "prices" ScheduleSettings.ofValue? standard.prices
    fees := ← group.get 2 "fees" FeeSettings.ofValue? standard.fees
    aggregation := ← group.get 3 "aggregation" AggregationSettings.ofValue? standard.aggregation
    price := ← group.get 4 "price" PriceSettings.ofValue? standard.price
    beacon := ← group.get 5 "beacon" BeaconSettings.ofValue? standard.beacon }

/-- Reads and checks the settings of a document. -/
def ofText (text : String) : Except ConfigError Config :=
  match (Toml.read? text).bind ofEntries? with
  | none => .error .malformed
  | some config =>
    match config.validate with
    | .error fault => .error fault.error
    | .ok _ => .ok config

/-- Reads and checks the settings of a file, given its octets if it can be read at all. -/
def ofFile (octets : Option ByteArray) : Except ConfigError Config :=
  match octets.bind String.fromUTF8? with
  | none => .error .unreadable
  | some text => ofText text

end Config

end StakeOracle
