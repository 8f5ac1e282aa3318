import StakeOracle.Chain.Change
import StakeOracle.Proofs.Chain.Transmission

/-!
# The traffic of a chain

A chain is changed from outside and called by its clients, and its gate is given permits. A wait for
inclusion that has to stand in line is pending until permits let it through. Some time behind that it is
resumed, and answered with the receipt of that moment.
-/

namespace StakeOracle

/-! ## Reads -/

/-- The calls that only read a chain, with what they ask for. -/
inductive ChainRead where
  | executionSynced
  | latestBlock
  | header (block : UInt64)
  | balance (account : Address)
  | trustedMember (node : Address)
  | submissionsEnabled (category : Category)
  | recordedBlock (category : Category)
  | reportableBlock (category : Category)
  | submissionFrequency (category : Category)
  | storageFlag (key : Digest)
  | depositPool
  | minipoolAddresses
  | minipoolInfo (address : Address)
  | nodeAddresses
  | feeDistributor (node : Address)
  | rethAddress
  | rethSupply
  | rewardsInterval
  | observe
  | reserves (block : UInt64)
  | cumulativePrice (token0 : Bool) (block : UInt64)
  | consensusSynced
  | beaconConfig
  | beaconHead
  | validatorStatuses (keys : List Pubkey)
  | estimateGas

namespace ChainRead

/-- The call that a read makes. -/
def method : ChainRead → Method
  | executionSynced => .executionSynced
  | latestBlock => .latestBlock
  | header _ => .header
  | balance _ => .balance
  | trustedMember _ => .trustedMember
  | submissionsEnabled _ => .submissionsEnabled
  | recordedBlock _ => .recordedBlock
  | reportableBlock _ => .reportableBlock
  | submissionFrequency _ => .submissionFrequency
  | storageFlag _ => .storageFlag
  | depositPool => .depositPool
  | minipoolAddresses => .minipoolAddresses
  | minipoolInfo _ => .minipoolInfo
  | nodeAddresses => .nodeAddresses
  | feeDistributor _ => .feeDistributor
  | rethAddress => .rethAddress
  | rethSupply => .rethSupply
  | rewardsInterval => .rewardsInterval
  | observe => .observe
  | reserves _ => .reserves
  | cumulativePrice .. => .cumulativePrice
  | consensusSynced => .consensusSynced
  | beaconConfig => .beaconConfig
  | beaconHead => .beaconHead
  | validatorStatuses _ => .validatorStatuses
  | estimateGas => .estimateGas

/-- What a read answers with where it does not fail. -/
abbrev Answer : ChainRead → Type
  | executionSynced => Bool
  | latestBlock => UInt64
  | header _ => UInt64
  | balance _ => Word
  | trustedMember _ => Bool
  | submissionsEnabled _ => Bool
  | recordedBlock _ => UInt64
  | reportableBlock _ => UInt64
  | submissionFrequency _ => UInt64
  | storageFlag _ => Bool
  | depositPool => Word
  | minipoolAddresses => List Address
  | minipoolInfo _ => Minipool
  | nodeAddresses => List Address
  | feeDistributor _ => Address
  | rethAddress => Address
  | rethSupply => Word
  | rewardsInterval => RewardsInterval
  | observe => List Int64
  | reserves _ => PoolReserves
  | cumulativePrice .. => Word
  | consensusSynced => Bool
  | beaconConfig => BeaconTiming
  | beaconHead => BeaconHead
  | validatorStatuses _ => List (Pubkey × ValidatorStatus)
  | estimateGas => GasInfo

/-- The query of a read. -/
def query : (read : ChainRead) → Query ChainError read.Answer
  | executionSynced => Chain.readExecutionSynced
  | latestBlock => Chain.readLatestBlock
  | header block => Chain.readBlockTime block
  | balance account => Chain.readBalance account
  | trustedMember node => Chain.readTrusted node
  | submissionsEnabled category => Chain.readEnabled category
  | recordedBlock category => Chain.readRecorded category
  | reportableBlock category => Chain.readReportable category
  | submissionFrequency category => Chain.readFrequency category
  | storageFlag key => Chain.readFlag key
  | depositPool => Chain.readDepositPool
  | minipoolAddresses => Chain.readMinipoolAddresses
  | minipoolInfo address => Chain.readMinipool address
  | nodeAddresses => Chain.readNodes
  | feeDistributor node => Chain.readDistributor node
  | rethAddress => Chain.readRethAddress
  | rethSupply => Chain.readRethSupply
  | rewardsInterval => Chain.readRewards
  | observe => Chain.readTickCumulatives
  | reserves block => Chain.readReserves block
  | cumulativePrice token0 block => Chain.readCumulative token0 block
  | consensusSynced => Chain.readConsensusSynced
  | beaconConfig => Chain.readTiming
  | beaconHead => Chain.readHead
  | validatorStatuses keys => Chain.readValidators keys
  | estimateGas => Chain.readGas

/-- A read makes its own call and no other. -/
theorem notes_query (read : ChainRead) (chain : Chain) :
    (read.query.ask chain).notes = [.called read.method] := by
  cases read <;> rfl

/-- A read that is set to fail has no other answer than its fault. -/
theorem result_query_of_failing {read : ChainRead} {chain : Chain} (h : read.method ∈ chain.failing) :
    (read.query.ask chain).result = .error read.method.fault := by
  cases read <;> exact if_pos h

end ChainRead

/-! ## Waits and what is done -/

/-- A wait for inclusion that has to stand in line. -/
structure Wait where
  /-- Its number among those that had to, in the order in which they began. -/
  number : Nat
  hash : Digest
  /-- How often inclusion had been held when it began. -/
  hold : Nat
  deriving DecidableEq, Repr

/-- A chain with the waits at it. -/
structure Traffic where
  chain : Chain
  /-- How many waits had to stand in line so far. -/
  queued : Nat
  /-- How often inclusion was held. -/
  holds : Nat
  /-- The waits that stand in line, the earliest first. -/
  pending : List Wait
  /-- The waits that permits have let through, and that are not resumed yet. -/
  passed : List Wait

/-- A computation that handles traffic and leaves notes. -/
abbrev Handling := StateT Traffic Noted

/-- One thing that is done with a chain. -/
inductive Deed where
  | change (change : Change)
  | read (read : ChainRead)
  /-- Asks for the node whose wallet signs; no call is made for it. -/
  | node
  | send (call : SubmissionCall) (options : SendOptions)
  | await (hash : Digest)
  | release (count : Nat)
  | resume (wait : Nat)

/-- The call that is made, if one is. -/
def Deed.method? : Deed → Option Method
  | read request => some request.method
  | send .. => some .send
  | await _ => some .awaitInclusion
  | _ => none

namespace Traffic

/-- A fresh chain, at which nobody waits. -/
def fresh : Traffic := ⟨Chain.fresh, 0, 0, [], []⟩

/-- Changes the chain from outside. -/
def change (change : Change) : Handling Unit :=
  modify fun t =>
    { t with
      chain := t.chain.apply change
      holds := if change = .closeGate then t.holds + 1 else t.holds }

/-- Asks a query of the chain. -/
def ask (q : Query ChainError α) : Handling (Except ChainError α) := fun t => do
  let answer ← q.ask t.chain
  return (answer, t)

/-- Sends a call. -/
def send (call : SubmissionCall) (options : SendOptions) : Handling (Except ChainError Digest) :=
  fun t => do
    let (answer, chain) ← Chain.send call options t.chain
    return (answer, { t with chain })

/-- Whether a wait that begins now is over at once. -/
def passes (t : Traffic) : Bool := t.chain.gate.all Gate.passes

/-- The traffic after a wait arrived at the gate. -/
def arrive (t : Traffic) : Traffic :=
  { t with chain := { t.chain with gate := t.chain.gate.map (·.arrive t.queued) } }

/-- The traffic with one more wait in line. -/
def queue (t : Traffic) (hash : Digest) : Traffic :=
  { t with queued := t.queued + 1, pending := t.pending ++ [⟨t.queued, hash, t.holds⟩] }

/-- Waits for inclusion. There is no answer yet when the wait has to stand in line. -/
def await (hash : Digest) : Handling (Option (Except ChainError Receipt)) := fun t => do
  let (answer, chain) ← Chain.awaitInclusion t.queued hash t.chain
  let next := { t with chain }
  return (answer, if answer.isSome then next else next.queue hash)

/-- The waits that new permits let through. -/
def admitted (t : Traffic) (count : Nat) : List Wait :=
  (t.chain.admitted count).filterMap fun number => t.pending.find? fun wait => wait.number = number

/-- Gives permits to the gate. -/
def release (count : Nat) : Handling Unit :=
  modify fun t =>
    { t with
      chain := t.chain.release count
      pending := t.pending.filter (· ∉ t.admitted count)
      passed := t.passed ++ t.admitted count }

/-- Resumes a wait that was let through. There is no answer when there is no such wait. -/
def resume (number : Nat) : Handling (Option (Except ChainError Receipt)) := fun t =>
  match t.passed.find? fun wait => wait.number = number with
  | none => pure (none, t)
  | some wait =>
    pure (some (t.chain.receipt wait.hash), { t with passed := t.passed.erase wait })

/-- Does one thing. -/
def handle : Deed → Handling Unit
  | .change c => change c
  | .read request => do let _ ← ask request.query
  | .node => do let _ ← ask Chain.readNode
  | .send call options => do let _ ← send call options
  | .await hash => do let _ ← await hash
  | .release count => release count
  | .resume wait => do let _ ← resume wait

/-- Does one thing after another. -/
def handleAll (deeds : List Deed) : Handling Unit := deeds.forM handle

/-- A chain that was fresh, and what was done with it since. -/
def behind (deeds : List Deed) : Traffic := after (handleAll deeds) fresh

/-- How often a call was made, under the name of the call. -/
def counter (deeds : List Deed) (name : String) : Nat :=
  (((handleAll deeds) fresh).calls.map Method.name).count name

/-! ## What each thing does -/

variable (t : Traffic)

/-- A change that does not hold inclusion is a change of the chain alone. -/
theorem after_change {c : Change} (h : c ≠ .closeGate) :
    after (change c) t = { t with chain := t.chain.apply c } := by
  simp [change, h]

/-- A query that is asked in traffic leaves its own notes. -/
theorem notes_ask (q : Query ChainError α) : (ask q t).notes = (q.ask t.chain).notes :=
  List.append_nil _

/-- Before inclusion was ever held, there is no gate to arrive at. -/
theorem arrive_of_no_gate (h : t.chain.gate = none) : t.arrive = t := by
  rw [arrive, h, Option.map_none, ← h]

/-- A wait that is set to fail changes nothing. -/
theorem after_await_of_failing {hash : Digest} (h : .awaitInclusion ∈ t.chain.failing) :
    after (await hash) t = t := by
  simp [after, await, Chain.awaitInclusion, Chain.guarded, h, bind, pure]

/-- A wait that is set to fail is answered with its fault. -/
theorem answer_await_of_failing {hash : Digest} (h : .awaitInclusion ∈ t.chain.failing) :
    answer (await hash) t = some (.error (Method.fault .awaitInclusion)) := by
  simp [answer, await, Chain.awaitInclusion, Chain.guarded, Method.fault, h, bind, pure]

/-- Any other wait arrives at the gate, and stands in line there unless it passes. -/
theorem after_await {hash : Digest} (h : .awaitInclusion ∉ t.chain.failing) :
    after (await hash) t = if t.passes then t.arrive else t.arrive.queue hash := by
  cases hgate : t.chain.gate with
  | none =>
    rw [arrive_of_no_gate t hgate]
    simp [after, await, Chain.awaitInclusion, Chain.guarded, passes, h, hgate, bind, pure]
  | some gate =>
    cases hpasses : gate.passes <;>
      simp [after, await, Chain.awaitInclusion, Chain.guarded, passes, arrive, h, hgate, hpasses,
        bind, pure]

/-- A wait that passes is answered at once. -/
theorem answer_await {hash : Digest} (h : .awaitInclusion ∉ t.chain.failing) :
    answer (await hash) t = if t.passes then some (t.chain.receipt hash) else none := by
  unfold answer await Chain.awaitInclusion Chain.guarded passes
  cases hgate : t.chain.gate with
  | none => simp [h, bind, pure]
  | some gate => cases hpasses : gate.passes <;> simp [h, hpasses, bind, pure]

/-- The calls of what is done: the one that it makes, or none. -/
theorem calls_handle (deed : Deed) : (handle deed t).calls = deed.method?.toList := by
  cases deed with
  | change c => rfl
  | read request =>
    rw [handle, Noted.calls, notes_run_bind, notes_ask, ChainRead.notes_query]
    rfl
  | node => rfl
  | send call options => rfl
  | await hash => rfl
  | release count => rfl
  | resume number =>
    rw [handle, calls_bind]
    unfold resume
    cases t.passed.find? fun wait => wait.number = number <;> rfl

/-- What is done later is done behind what was done before. -/
theorem behind_append (deeds later : List Deed) :
    behind (deeds ++ later) = after (handleAll later) (behind deeds) :=
  after_forM_append handle deeds later fresh

/-- One more thing is done behind what was done before. -/
theorem behind_concat (deeds : List Deed) (deed : Deed) :
    behind (deeds ++ [deed]) = after (handle deed) (behind deeds) :=
  behind_append deeds [deed]

/-- What one thing after another keeps, holds behind all of them. -/
theorem behind_induction {P : Traffic → Prop} (deeds : List Deed) (hstart : P fresh)
    (hstep : ∀ deed t, P t → P (after (handle deed) t)) : P (behind deeds) :=
  after_forM_induction deeds hstart hstep

end Traffic

end StakeOracle
