import StakeOracle.Chain.Change
import StakeOracle.Proofs.Chain.Transmission

/-!
# Operations on a chain and the submissions they record

Whatever touches a chain is a change from outside, a read, a send, or a step of some wait for
inclusion. The history of a run holds the records of the sends that succeeded while the protocol
recorded them. Unless a flag is set by hand, the flags of a chain are the keys of its history.
-/

namespace StakeOracle.Chain

/-- What the protocol records of a call that is accepted now. -/
def recordsOf (chain : Chain) (call : SubmissionCall) : List SubmissionRecord :=
  if chain.recording = true ∧ chain.reverting = false then [.ofCall chain.node call] else []

/-- One operation on a chain. -/
inductive Operation where
  | change (change : Change)
  | read (query : Query ChainError Unit)
  | send (call : SubmissionCall) (options : SendOptions)
  | await (wait : Nat) (hash : Digest)
  | release (count : Nat)
  | leave (wait : Nat)

namespace Operation

/-- Whether an operation sets a flag by hand. -/
def SetsFlag (op : Operation) : Prop := ∃ key, op = .change (.flag key)

/-- The chain after an operation. -/
def perform (chain : Chain) : Operation → Chain
  | .change c => chain.apply c
  | .read _ => chain
  | .send call options => after (Chain.send call options) chain
  | .await wait hash => after (awaitInclusion wait hash) chain
  | .release count => chain.release count
  | .leave wait => chain.leave wait

/-- The chain after a run of operations. -/
def run (chain : Chain) : List Operation → Chain
  | [] => chain
  | op :: ops => run (op.perform chain) ops

/-- What an operation submits: the call of a send that succeeds, if the protocol records it. -/
def submitted (chain : Chain) : Operation → List SubmissionRecord
  | .send call options =>
    match answer (Chain.send call options) chain with
    | .ok _ => chain.recordsOf call
    | .error _ => []
  | _ => []

/-- What a run of operations submits, the earliest first. -/
def history (chain : Chain) : List Operation → List SubmissionRecord
  | [] => []
  | op :: ops => op.submitted chain ++ history (op.perform chain) ops

/-- The keys that the protocol keeps of a submission. -/
def keysOf (record : SubmissionRecord) : List Digest := [record.coarseKey, record.exactKey]

/-- Accepting a call flags the keys of what the protocol records of it. -/
theorem flagsOf_eq_flatMap (chain : Chain) (call : SubmissionCall) :
    chain.flagsOf call = (chain.recordsOf call).flatMap keysOf := by
  unfold flagsOf records recordsOf
  cases chain.recording with
  | false => rfl
  | true =>
    cases chain.reverting with
    | false => rfl
    | true => rfl

/-- A refused send submits nothing. -/
theorem submitted_send_of_failing {chain : Chain} {call : SubmissionCall} {options : SendOptions}
    (h : .send ∈ chain.failing) : (send call options).submitted chain = [] := by
  change (match answer (Chain.send call options) chain with
    | .ok _ => chain.recordsOf call
    | .error _ => []) = []
  rw [answer_send_eq_fault h]

/-- An accepted send submits what the protocol records of its call. -/
theorem submitted_send {chain : Chain} {call : SubmissionCall} {options : SendOptions}
    (h : .send ∉ chain.failing) :
    (send call options).submitted chain = chain.recordsOf call := by
  change (match answer (Chain.send call options) chain with
    | .ok _ => chain.recordsOf call
    | .error _ => []) = _
  rw [answer_send h]

/-- An operation that sets no flag by hand adds the keys of what it submits. -/
theorem flags_perform {op : Operation} (h : ¬ op.SetsFlag) (chain : Chain) :
    (op.perform chain).flags = (op.submitted chain).flatMap keysOf ++ chain.flags := by
  cases op with
  | change c =>
    cases c with
    | flag key => exact absurd ⟨key, rfl⟩ h
    | _ => rfl
  | read query => rfl
  | send call options =>
    change (after (Chain.send call options) chain).flags = _
    by_cases hsend : .send ∈ chain.failing
    · rw [after_send_of_failing hsend, submitted_send_of_failing hsend]
      rfl
    · rw [after_send hsend, submitted_send hsend, ← flagsOf_eq_flatMap]
      rfl
  | await wait hash =>
    obtain ⟨gate, hgate⟩ := chain.after_awaitInclusion wait hash
    change (after (awaitInclusion wait hash) chain).flags = chain.flags
    rw [hgate]
  | release count => rfl
  | leave wait => rfl

/-- After a run that sets no flag by hand, a flag was set before or is a key of the history. -/
theorem mem_flags_run {ops : List Operation} (h : ∀ op ∈ ops, ¬ op.SetsFlag) (chain : Chain)
    (key : Digest) :
    key ∈ (run chain ops).flags ↔
      key ∈ chain.flags ∨ ∃ record ∈ history chain ops, key ∈ keysOf record := by
  induction ops generalizing chain with
  | nil => simp [run, history]
  | cons op ops ih =>
    rw [run, ih (fun next hnext => h next (List.mem_cons_of_mem _ hnext)),
      flags_perform (h op List.mem_cons_self), history, List.mem_append, List.mem_flatMap]
    constructor
    · rintro ((⟨record, hrecord, hkey⟩ | hflag) | ⟨record, hrecord, hkey⟩)
      · exact .inr ⟨record, List.mem_append_left _ hrecord, hkey⟩
      · exact .inl hflag
      · exact .inr ⟨record, List.mem_append_right _ hrecord, hkey⟩
    · rintro (hflag | ⟨record, hrecord, hkey⟩)
      · exact .inl (.inr hflag)
      · rcases List.mem_append.mp hrecord with hnow | hlater
        · exact .inl (.inl ⟨record, hnow, hkey⟩)
        · exact .inr ⟨record, hlater, hkey⟩

/-- What is submitted has values. -/
theorem values_ne_nil_of_mem_submitted {op : Operation} {chain : Chain} {record : SubmissionRecord}
    (h : record ∈ op.submitted chain) : record.values ≠ [] := by
  cases op with
  | send call options =>
    by_cases hsend : .send ∈ chain.failing
    · rw [submitted_send_of_failing hsend] at h
      cases h
    · rw [submitted_send hsend, recordsOf] at h
      split at h
      · rw [List.mem_singleton.mp h]
        exact call.values_ne_nil
      · cases h
  | _ => cases h

/-- Every record of a history has values. -/
theorem values_ne_nil_of_mem_history {ops : List Operation} {chain : Chain}
    {record : SubmissionRecord} (h : record ∈ history chain ops) : record.values ≠ [] := by
  induction ops generalizing chain with
  | nil => cases h
  | cons op ops ih =>
    rcases List.mem_append.mp h with hnow | hlater
    · exact values_ne_nil_of_mem_submitted hnow
    · exact ih hlater

end Operation

end StakeOracle.Chain
