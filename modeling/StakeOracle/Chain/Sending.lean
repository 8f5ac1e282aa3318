import StakeOracle.Chain.Reads
import StakeOracle.SubmissionKey

/-!
# Sending and inclusion

An accepted transaction gets the next hash and, unless submissions revert or are not recorded,
sets the flags of its call. Its receipt is made up at the moment the wait for inclusion ends. Only
sending and waiting change a chain from within the engine.
-/

namespace StakeOracle

/-- A computation that may change a chain and leaves notes. -/
abbrev Action := StateT Chain Noted

namespace Chain

/-- Refuses a call that is set to fail. -/
def guarded (chain : Chain) (method : Method) : Except ChainError Unit :=
  if method ∈ chain.failing then .error (.transport ("injected failure: " ++ method.name))
  else .ok ()

/-- The hash of the next transaction: its number, counted from one. -/
def nextHash (chain : Chain) : Digest := Octets.ofNat 32 (chain.sent.length + 1)

/-- Whether the protocol records a call that is accepted now. -/
def records (chain : Chain) : Bool := chain.recording && !chain.reverting

/-- The keys of the flags that an accepted call sets. -/
def flagsOf (chain : Chain) (call : SubmissionCall) : List Digest :=
  if chain.records then
    let record := SubmissionRecord.ofCall chain.node call
    [record.coarseKey, record.exactKey]
  else []

/-- The transaction of a call that is accepted now. -/
def transaction (chain : Chain) (call : SubmissionCall) (options : SendOptions) : SentTransaction :=
  ⟨call, options, chain.nextHash, chain.node, chain.records⟩

/-- The chain after a call was accepted. -/
def accept (chain : Chain) (call : SubmissionCall) (options : SendOptions) : Chain :=
  { chain with
    flags := chain.flagsOf call ++ chain.flags
    sent := chain.sent ++ [chain.transaction call options] }

/-- Sends a call and answers with the hash of its transaction. -/
def send (call : SubmissionCall) (options : SendOptions) : Action (Except ChainError Digest) :=
  fun chain =>
    ⟨[.called .send],
      match chain.guarded .send with
      | .error e => (.error e, chain)
      | .ok () => (.ok chain.nextHash, chain.accept call options)⟩

/-- The receipt of a transaction if its inclusion completes now. -/
def receipt (chain : Chain) (hash : Digest) : Except ChainError Receipt :=
  match chain.sent.find? fun transaction => transaction.hash = hash with
  | none => .error (.notFound ("transaction " ++ hash.toHex))
  | some transaction =>
    let limit := transaction.options.gasLimit
    .ok {
      hash
      block := chain.latestBlock.addSat 1
      gasUsed := if limit < chain.gas.estimatedLimit then limit else chain.gas.estimatedLimit
      success := !chain.reverting }

/-- Waits for inclusion under the number of a wait. There is no answer yet when the wait has to
stand in line. -/
def awaitInclusion (wait : Nat) (hash : Digest) : Action (Option (Except ChainError Receipt)) :=
  fun chain =>
    ⟨[.called .awaitInclusion],
      match chain.guarded .awaitInclusion with
      | .error e => (some (.error e), chain)
      | .ok () =>
        match chain.gate with
        | none => (some (chain.receipt hash), chain)
        | some gate =>
          (if gate.passes then some (chain.receipt hash) else none,
            { chain with gate := some (gate.arrive wait) })⟩

/-- The waits that new permits let through. -/
def admitted (chain : Chain) (count : Nat) : List Nat :=
  match chain.gate with
  | none => []
  | some gate => gate.admitted count

/-- The chain after new permits were given to its gate. -/
def release (chain : Chain) (count : Nat) : Chain :=
  { chain with gate := chain.gate.map (·.release count) }

/-- The chain after a wait was given up. -/
def leave (chain : Chain) (wait : Nat) : Chain :=
  { chain with gate := chain.gate.map (·.leave wait) }

/-- Sending adds one transaction at the end. -/
theorem sent_accept (chain : Chain) (call : SubmissionCall) (options : SendOptions) :
    (chain.accept call options).sent = chain.sent ++ [chain.transaction call options] := rfl

end Chain

end StakeOracle
