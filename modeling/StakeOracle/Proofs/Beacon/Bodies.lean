import Mathlib.Data.List.Forall2
import StakeOracle.Beacon.Api
import StakeOracle.Proofs.Json.Records

/-!
# What the bodies of a beacon node say

A body is a JSON document that wraps its content as its data. What a body is read as is told here by the
fields of that content, as they are written in the document: the time of genesis, the timing of slots,
the sync state, the finalized epoch, and for each listed validator its balance, its key and its epochs.
-/

namespace StakeOracle.Beacon

open Json

variable {α β : Type} {v : Value}

/-! ## Reading records -/

/-- Reading a record is reading its fields, and something that has a field is a record. -/
theorem record_bind_eq_some_iff (fields : List String) {rest : Record → Option β} {b : β} {P : Prop}
    (hrest : ∀ {record}, Record.ofValue? fields.length v = some record →
      (rest record = some b ↔ P))
    (hfield : P → ∃ name w, HasField fields v name w) :
    (Record.ofValue? fields.length v).bind rest = some b ↔ P := by
  rw [Option.bind_eq_some_iff]
  constructor
  · rintro ⟨record, hrecord, h⟩
    exact (hrest hrecord).mp h
  · intro h
    obtain ⟨name, w, hw⟩ := hfield h
    obtain ⟨record, hrecord⟩ := hw.exists_record
    exact ⟨record, hrecord, (hrest hrecord).mpr h⟩

/-- A field of a record is read as what it means. -/
theorem field_eq_some_iff {fields : List String} {record : Record} {position : Nat} {name : String}
    {read : Value → Option α} {Means : Value → α → Prop} {a : α}
    (hrecord : Record.ofValue? fields.length v = some record) (hnodup : fields.Nodup)
    (hname : fields[position]? = some name) (hread : ∀ {w a}, read w = some a ↔ Means w a) :
    field record position name read = some a ↔ FieldMeans fields v name Means a := by
  simp only [field, Option.bind_eq_some_iff, Record.field?_eq_some_iff hrecord hnodup hname, hread,
    FieldMeans]

/-! ## Contents -/

/-- A body wraps content: it is a document with the content as its data. -/
def Wraps (Means : Value → α → Prop) (body : String) (content : α) : Prop :=
  ∃ document, DocumentText body.toList document ∧ FieldMeans ["data"] document "data" Means content

/-- The content of a body is read as what it means. -/
theorem content?_eq_some_iff {read : Value → Option α} {Means : Value → α → Prop} {body : String}
    {content : α} (hread : ∀ {w a}, read w = some a ↔ Means w a) :
    content? read body = some content ↔ Wraps Means body content := by
  have hdata (document : Value) : (Record.ofValue? 1 document).bind (field · 0 "data" read) =
      some content ↔ FieldMeans ["data"] document "data" Means content :=
    record_bind_eq_some_iff ["data"]
      (fun hrecord => field_eq_some_iff hrecord (by simp) rfl hread) fun ⟨w, hw, _⟩ => ⟨_, w, hw⟩
  simp only [content?, Option.bind_eq_bind, Option.bind_eq_some_iff, read?_eq_some_iff, hdata, Wraps]

/-- The time of genesis. -/
def IsGenesis (v : Value) (time : UInt64) : Prop :=
  FieldMeans ["genesis_time"] v "genesis_time" IsCounter time

/-- The time of genesis is read as the field says. -/
theorem genesisTime?_eq_some_iff {time : UInt64} : genesisTime? v = some time ↔ IsGenesis v time :=
  record_bind_eq_some_iff ["genesis_time"] (fun hrecord => field_eq_some_iff hrecord (by simp) rfl
    Value.counter?_eq_some_iff) fun ⟨w, hw, _⟩ => ⟨_, w, hw⟩

/-- The fields of the slot timing. -/
def timingFields : List String := ["SECONDS_PER_SLOT", "SLOTS_PER_EPOCH"]

/-- The seconds of a slot and the slots of an epoch. -/
def IsSlotTiming (v : Value) (timing : UInt64 × UInt64) : Prop :=
  FieldMeans timingFields v "SECONDS_PER_SLOT" IsCounter timing.1 ∧
    FieldMeans timingFields v "SLOTS_PER_EPOCH" IsCounter timing.2

/-- The slot timing is read as its two fields say. -/
theorem slotTiming?_eq_some_iff {timing : UInt64 × UInt64} :
    slotTiming? v = some timing ↔ IsSlotTiming v timing := by
  refine record_bind_eq_some_iff timingFields (fun {record} hrecord => ?_)
    fun ⟨⟨w, hw, _⟩, _⟩ => ⟨_, w, hw⟩
  have hseconds {n : UInt64} : field record 0 "SECONDS_PER_SLOT" Value.counter? = some n ↔
      FieldMeans timingFields v "SECONDS_PER_SLOT" IsCounter n :=
    field_eq_some_iff hrecord (by decide) rfl Value.counter?_eq_some_iff
  have hslots {n : UInt64} : field record 1 "SLOTS_PER_EPOCH" Value.counter? = some n ↔
      FieldMeans timingFields v "SLOTS_PER_EPOCH" IsCounter n :=
    field_eq_some_iff hrecord (by decide) rfl Value.counter?_eq_some_iff
  obtain ⟨secondsPerSlot, slotsPerEpoch⟩ := timing
  simp only [Option.bind_eq_bind, Option.bind_eq_some_iff, hseconds, hslots, Option.pure_def,
    Option.some.injEq, Prod.mk.injEq, IsSlotTiming]
  constructor
  · rintro ⟨_, hseconds, _, hslots, rfl, rfl⟩
    exact ⟨hseconds, hslots⟩
  · rintro ⟨hseconds, hslots⟩
    exact ⟨_, hseconds, _, hslots, rfl, rfl⟩

/-- The fields of the sync state. -/
def syncFields : List String := ["head_slot", "is_syncing"]

/-- The slot of the head, and whether the node follows it. -/
def IsSyncState (v : Value) (sync : SyncState) : Prop :=
  FieldMeans syncFields v "head_slot" IsCounter sync.headSlot ∧
    FieldMeans syncFields v "is_syncing" (fun w b => w = .boolean b) sync.syncing

/-- The sync state is read as its two fields say. -/
theorem syncState_eq_some_iff {sync : SyncState} :
    SyncState.ofValue? v = some sync ↔ IsSyncState v sync := by
  refine record_bind_eq_some_iff syncFields (fun {record} hrecord => ?_)
    fun ⟨⟨w, hw, _⟩, _⟩ => ⟨_, w, hw⟩
  have hhead {n : UInt64} : field record 0 "head_slot" Value.counter? = some n ↔
      FieldMeans syncFields v "head_slot" IsCounter n :=
    field_eq_some_iff hrecord (by decide) rfl Value.counter?_eq_some_iff
  have hsyncing {b : Bool} : field record 1 "is_syncing" Value.boolean? = some b ↔
      FieldMeans syncFields v "is_syncing" (fun w b => w = .boolean b) b :=
    field_eq_some_iff hrecord (by decide) rfl Value.boolean?_eq_some_iff
  obtain ⟨headSlot, syncing⟩ := sync
  simp only [Option.bind_eq_bind, Option.bind_eq_some_iff, hhead, hsyncing, Option.pure_def,
    Option.some.injEq, SyncState.mk.injEq, IsSyncState]
  constructor
  · rintro ⟨_, hhead, _, hsyncing, rfl, rfl⟩
    exact ⟨hhead, hsyncing⟩
  · rintro ⟨hhead, hsyncing⟩
    exact ⟨_, hhead, _, hsyncing, rfl, rfl⟩

/-- The epoch of a checkpoint. -/
def IsCheckpointEpoch (v : Value) (epoch : UInt64) : Prop :=
  FieldMeans ["epoch"] v "epoch" IsCounter epoch

/-- The epoch of a checkpoint is read as the field says. -/
theorem checkpointEpoch?_eq_some_iff {epoch : UInt64} :
    checkpointEpoch? v = some epoch ↔ IsCheckpointEpoch v epoch :=
  record_bind_eq_some_iff ["epoch"] (fun hrecord => field_eq_some_iff hrecord (by decide) rfl
    Value.counter?_eq_some_iff) fun ⟨w, hw, _⟩ => ⟨_, w, hw⟩

/-- The epoch of the finalized checkpoint. -/
def IsFinalizedEpoch (v : Value) (epoch : UInt64) : Prop :=
  FieldMeans ["finalized"] v "finalized" IsCheckpointEpoch epoch

/-- The finalized epoch is read as that of the finalized checkpoint. -/
theorem finalizedEpoch?_eq_some_iff {epoch : UInt64} :
    finalizedEpoch? v = some epoch ↔ IsFinalizedEpoch v epoch :=
  record_bind_eq_some_iff ["finalized"] (fun hrecord => field_eq_some_iff hrecord (by decide) rfl
    checkpointEpoch?_eq_some_iff) fun ⟨w, hw, _⟩ => ⟨_, w, hw⟩

/-! ## Listed validators -/

/-- The fields of an entry of which something is read. -/
def entryFields : List String := ["balance", "validator"]

/-- The fields of its validator of which something is read. -/
def validatorFields : List String := ["pubkey", "activation_epoch", "exit_epoch"]

/-- The key of a validator and its epochs. -/
def IsValidator (v : Value) (entry : ValidatorEntry) : Prop :=
  FieldMeans validatorFields v "pubkey" (fun w t => w = .text (some t)) entry.key ∧
    FieldMeans validatorFields v "activation_epoch" IsCounter entry.activationEpoch ∧
    FieldMeans validatorFields v "exit_epoch" IsCounter entry.exitEpoch

/-- A listed validator: its balance beside its key and its epochs. -/
def IsEntry (v : Value) (entry : ValidatorEntry) : Prop :=
  FieldMeans entryFields v "balance" IsCounter entry.balanceGwei ∧
    FieldMeans entryFields v "validator" IsValidator entry

/-- The key and the epochs of a validator are read as its fields say, beside the balance. -/
theorem validator_eq_some_iff {balanceGwei : UInt64} {entry : ValidatorEntry} :
    (do
      let inner ← Record.ofValue? 3 v
      return {
        key := ← field inner 0 "pubkey" Value.text?
        activationEpoch := ← field inner 1 "activation_epoch" Value.counter?
        exitEpoch := ← field inner 2 "exit_epoch" Value.counter?
        balanceGwei }) = some entry ↔ balanceGwei = entry.balanceGwei ∧ IsValidator v entry := by
  refine record_bind_eq_some_iff validatorFields (fun {record} hrecord => ?_)
    fun ⟨_, ⟨w, hw, _⟩, _⟩ => ⟨_, w, hw⟩
  have hkey {t : String} : field record 0 "pubkey" Value.text? = some t ↔
      FieldMeans validatorFields v "pubkey" (fun w t => w = .text (some t)) t :=
    field_eq_some_iff hrecord (by decide) rfl Value.text?_eq_some_iff
  have hactivation {n : UInt64} : field record 1 "activation_epoch" Value.counter? = some n ↔
      FieldMeans validatorFields v "activation_epoch" IsCounter n :=
    field_eq_some_iff hrecord (by decide) rfl Value.counter?_eq_some_iff
  have hexit {n : UInt64} : field record 2 "exit_epoch" Value.counter? = some n ↔
      FieldMeans validatorFields v "exit_epoch" IsCounter n :=
    field_eq_some_iff hrecord (by decide) rfl Value.counter?_eq_some_iff
  obtain ⟨key, activationEpoch, exitEpoch, balance⟩ := entry
  simp only [Option.bind_eq_bind, Option.bind_eq_some_iff, hkey, hactivation, hexit, Option.pure_def,
    Option.some.injEq, ValidatorEntry.mk.injEq, IsValidator]
  constructor
  · rintro ⟨_, hkey, _, hactivation, _, hexit, rfl, rfl, rfl, rfl⟩
    exact ⟨rfl, hkey, hactivation, hexit⟩
  · rintro ⟨rfl, hkey, hactivation, hexit⟩
    exact ⟨_, hkey, _, hactivation, _, hexit, rfl, rfl, rfl, rfl⟩

/-- A listed validator is read as the fields of its entry say. -/
theorem validatorEntry_eq_some_iff {entry : ValidatorEntry} :
    ValidatorEntry.ofValue? v = some entry ↔ IsEntry v entry := by
  refine record_bind_eq_some_iff entryFields (fun {record} hrecord => ?_)
    fun ⟨⟨w, hw, _⟩, _⟩ => ⟨_, w, hw⟩
  have hbalance {n : UInt64} : field record 0 "balance" Value.counter? = some n ↔
      FieldMeans entryFields v "balance" IsCounter n :=
    field_eq_some_iff hrecord (by decide) rfl Value.counter?_eq_some_iff
  have hvalidator {w : Value} : record.field? 1 "validator" = some w ↔
      HasField entryFields v "validator" w :=
    Record.field?_eq_some_iff hrecord (by decide) rfl
  rw [Option.bind_eq_bind, Option.bind_eq_some_iff]
  constructor
  · rintro ⟨balanceGwei, h, hrest⟩
    obtain ⟨w, hw, hinner⟩ := Option.bind_eq_some_iff.mp hrest
    obtain ⟨rfl, hentry⟩ := validator_eq_some_iff.mp hinner
    exact ⟨hbalance.mp h, w, hvalidator.mp hw, hentry⟩
  · rintro ⟨h, w, hw, hentry⟩
    exact ⟨_, hbalance.mpr h, Option.bind_eq_some_iff.mpr
      ⟨w, hvalidator.mpr hw, validator_eq_some_iff.mpr ⟨rfl, hentry⟩⟩⟩

/-- The listed validators, in their order. -/
def IsListing (v : Value) (entries : List ValidatorEntry) : Prop :=
  ∃ items, v = .array items ∧ List.Forall₂ IsEntry items entries

/-- The items of an array are read one by one. -/
theorem mapM_eq_some_iff {read : α → Option β} {items : List α} {results : List β} :
    items.mapM read = some results ↔ List.Forall₂ (fun item b => read item = some b) items results := by
  induction items generalizing results with
  | nil => simp [eq_comm]
  | cons item items ih =>
    simp only [List.mapM_cons, Option.bind_eq_bind, Option.bind_eq_some_iff, ih, Option.pure_def,
      Option.some.injEq, List.forall₂_cons_left_iff]
    constructor
    · rintro ⟨b, hb, later, hlater, rfl⟩
      exact ⟨b, later, hb, hlater, rfl⟩
    · rintro ⟨b, later, hb, hlater, rfl⟩
      exact ⟨b, hb, later, hlater, rfl⟩

/-- The listed validators are read as their entries say. -/
theorem validatorEntries?_eq_some_iff {entries : List ValidatorEntry} :
    validatorEntries? v = some entries ↔ IsListing v entries := by
  simp only [validatorEntries?, Option.bind_eq_bind, Option.bind_eq_some_iff,
    Value.items?_eq_some_iff, mapM_eq_some_iff, validatorEntry_eq_some_iff, IsListing]

end StakeOracle.Beacon
