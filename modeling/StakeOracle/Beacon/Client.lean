import StakeOracle.Batch
import StakeOracle.Beacon.Api
import StakeOracle.Journal.Noted

/-!
# A client of a beacon node

The client asks one request at a time. The timing of the beacon chain never changes, so it is
fetched once: genesis first, then the slot timing, and kept only when both are good and no
parameter is zero. Validators are asked for in groups of at most 64 keys; what no answer mentions
is missing, and of several mentions the last one counts.
-/

namespace StakeOracle.Beacon

/-- What a server does with a request. -/
inductive Reply where
  | answered (status : Nat) (body : String)
  /-- The connection ends without an answer. -/
  | closed
  /-- No answer comes in time. -/
  | silent
  /-- There is no connection, so the request never reaches the server. -/
  | refused
  deriving DecidableEq, Repr

/-- A server: what it does with a request, given all requests that reached it before. -/
abbrev Server := List String → String → Reply

/-- Why a request was of no use. -/
inductive Fault where
  | noConnection
  | noAnswer
  | badStatus (status : Nat) (body : String)
  | malformed
  | zeroTiming
  | badKey (fault : PubkeyFault)
  deriving DecidableEq, Repr

/-- A fault as a failure of the chain. -/
def Fault.error : Fault → ChainError
  | noConnection => .transport "no connection to the beacon node"
  | noAnswer => .timeout
  | badStatus status body => .http status body
  | malformed => .decode "unexpected answer of the beacon node"
  | zeroTiming => .decode "beacon spec reports zero slot timing"
  | badKey fault => .decode fault.message

/-- A client. -/
structure Client where
  /-- What stands in front of every path. -/
  base : String
  /-- The requests that reached the server, the oldest first. -/
  requests : List String
  /-- The timing, once it is known. -/
  timing : Option BeaconTiming
  deriving DecidableEq, Repr

/-- A client that has not asked anything. Slashes at the end of its base are dropped. -/
def Client.new (base : String) : Client :=
  ⟨String.ofList (base.toList.reverse.dropWhile (· = '/')).reverse, [], none⟩

/-- A computation of a client that talks to a server, leaves notes, and may fail. -/
abbrev Session := ExceptT Fault (ReaderT Server (StateT Client Noted))

namespace Session

/-- Runs a computation of a client against a server. -/
def runWith (session : Session α) (server : Server) (client : Client) :
    Noted (Except Fault α × Client) := ((ExceptT.run session).run server).run client

/-- A value that is given takes no request. -/
@[simp] theorem runWith_pure (a : α) (server : Server) (client : Client) :
    (pure a : Session α).runWith server client = ⟨[], .ok a, client⟩ := rfl

/-- A session that gives up takes no request. -/
@[simp] theorem runWith_throw (fault : Fault) (server : Server) (client : Client) :
    (throw fault : Session α).runWith server client = ⟨[], .error fault, client⟩ := rfl

/-- A session in two parts: the second part goes on with the client that the first one left, and is
not begun when the first one failed. -/
theorem runWith_bind (s : Session α) (f : α → Session β) (server : Server) (client : Client) :
    (s >>= f).runWith server client =
      (s.runWith server client) >>= fun
        | (.ok a, after) => (f a).runWith server after
        | (.error fault, after) => pure (.error fault, after) := by
  have key : (s >>= f).runWith server client = (s.runWith server client) >>= fun x =>
      ((ExceptT.bindCont f x.1).run server).run x.2 := rfl
  rw [key]
  congr 1
  funext x
  obtain ⟨result, after⟩ := x
  cases result <;> rfl

/-- Sends a request and takes what the server does. -/
def send (path : String) : Session Reply := do
  let client ← get
  let target := client.base ++ path
  let reply := (← read) client.requests target
  if reply ≠ .refused then set { client with requests := client.requests ++ [target] }
  return reply

/-- The content of an answer, if it is of use. -/
def contentOf (decode : Json.Value → Option α) : Reply → Except Fault α
  | .refused => .error .noConnection
  | .closed => .error .noConnection
  | .silent => .error .noAnswer
  | .answered status body =>
    if 200 ≤ status ∧ status < 300 then
      match content? decode body with
      | some content => .ok content
      | none => .error .malformed
    else .error (.badStatus status body)

/-- A result that is known without asking. -/
def ofExcept (result : Except Fault α) : Session α := ExceptT.mk (pure result)

/-- Asks for content at a path. -/
def fetch (path : String) (decode : Json.Value → Option α) : Session α := do
  ofExcept (contentOf decode (← send path))

/-- Asks for the sync state. -/
def fetchSyncState : Session SyncState := fetch "/eth/v1/node/syncing" SyncState.ofValue?

/-- Asks for the timing: genesis, then slots. -/
def fetchTiming : Session BeaconTiming := do
  let genesis ← fetch "/eth/v1/beacon/genesis" genesisTime?
  let (secondsPerSlot, slotsPerEpoch) ← fetch "/eth/v1/config/spec" slotTiming?
  if slotsPerEpoch = 0 ∨ secondsPerSlot = 0 then throw .zeroTiming
  return ⟨genesis, secondsPerSlot, slotsPerEpoch⟩

/-- Whether the node is synced. -/
def isSynced : Session Bool := return !(← fetchSyncState).syncing

/-- The timing, asked for only while it is not known. -/
def timing : Session BeaconTiming := do
  match (← get).timing with
  | some known => return known
  | none =>
    let found ← fetchTiming
    modify fun client => { client with timing := some found }
    return found

/-- The head of the beacon chain. -/
def head : Session BeaconHead := do
  let timing ← timing
  let sync ← fetchSyncState
  let finalized ← fetch "/eth/v1/beacon/states/head/finality_checkpoints" finalizedEpoch?
  return ⟨sync.headSlot / timing.slotsPerEpoch, finalized⟩

/-- The most keys that one request names. -/
def chunkSize : Nat := 64

/-- The path that asks for the status of keys at a slot. -/
def validatorsPath (slot : UInt64) (keys : List Pubkey) : String :=
  "/eth/v1/beacon/states/" ++ toString slot.toNat ++ "/validators?id=" ++
    ",".intercalate (keys.map Octets.toHex)

/-- An entry with its key read. -/
def keyed (entry : ValidatorEntry) : Except Fault (Pubkey × ValidatorStatus) :=
  match parsePubkey entry.key with
  | .ok key => .ok (key, entry.status)
  | .error fault => .error (.badKey fault)

/-- Asks for one group of keys. -/
def fetchChunk (slot : UInt64) (keys : List Pubkey) :
    Session (List (Pubkey × ValidatorStatus)) := do
  let entries ← fetch (validatorsPath slot keys) validatorEntries?
  let written : Noted Unit := Noted.note (.logged (.validatorChunk keys.length entries.length slot))
  written
  ofExcept (entries.mapM keyed)

/-- What a list of mentions says of a key: the last mention counts. -/
def lastMention (found : List (Pubkey × ValidatorStatus)) (key : Pubkey) : ValidatorStatus :=
  (found.reverse.lookup key).getD ValidatorStatus.missing

/-- The status of every key that was asked for or mentioned, each key once. -/
def tally (asked : List Pubkey) (found : List (Pubkey × ValidatorStatus)) :
    List (Pubkey × ValidatorStatus) :=
  (asked ++ found.map (·.1)).eraseDups.map fun key => (key, lastMention found key)

/-- The keys of a tally are those that were asked for or found, each once. -/
theorem keys_tally (asked : List Pubkey) (found : List (Pubkey × ValidatorStatus)) :
    (tally asked found).map (·.1) = (asked ++ found.map (·.1)).eraseDups := by
  simp [tally, Function.comp_def]

/-- Exactly the keys that were asked for or mentioned have a status. -/
theorem mem_keys_tally {asked : List Pubkey} {found : List (Pubkey × ValidatorStatus)}
    {key : Pubkey} :
    key ∈ (tally asked found).map (·.1) ↔ key ∈ asked ∨ key ∈ found.map (·.1) := by
  rw [keys_tally, List.mem_eraseDups, List.mem_append]

/-- The status of validators at the first slot of an epoch. -/
def validatorStatuses (keys : List Pubkey) (epoch : UInt64) :
    Session (List (Pubkey × ValidatorStatus)) := do
  let timing ← timing
  let slot := epoch.mulSat timing.slotsPerEpoch
  let found ← (chunksOf chunkSize keys).mapM (fetchChunk slot)
  return tally keys found.flatten

end Session

end StakeOracle.Beacon
