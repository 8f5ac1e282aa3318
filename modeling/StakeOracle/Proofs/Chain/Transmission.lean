import StakeOracle.Chain.Change
import StakeOracle.Proofs.Chain.Course
import StakeOracle.Proofs.Journal.Stateful
import StakeOracle.Proofs.Submission.RecordKeys
import StakeOracle.Report.Submit

/-!
# What sending and waiting do to a chain

A wait for inclusion touches the gate alone. A transmission leaves the chain as it is when its call
is refused, and otherwise adds the call's transaction and flags; what is left of the wait shows in
the gate. Transactions are numbered by their hashes, so that no two of them have the same hash.
-/

namespace StakeOracle

namespace Chain

/-- A send that is set to fail leaves the chain as it is. -/
theorem after_send_of_failing {chain : Chain} {call : SubmissionCall} {options : SendOptions}
    (h : .send ∈ chain.failing) : after (send call options) chain = chain := by
  simp [after, send, guarded, h]

/-- A send that is set to fail names its fault. -/
theorem answer_send_eq_fault {chain : Chain} (h : .send ∈ chain.failing) (call : SubmissionCall)
    (options : SendOptions) :
    answer (send call options) chain = .error (Method.fault .send) := by
  simp [answer, send, guarded, h, Method.fault]

/-- A send that is not set to fail has its call accepted. -/
theorem after_send {chain : Chain} {call : SubmissionCall} {options : SendOptions}
    (h : .send ∉ chain.failing) :
    after (send call options) chain = chain.accept call options := by
  simp [after, send, guarded, h]

/-- A send that is not set to fail answers with the next hash. -/
theorem answer_send {chain : Chain} {call : SubmissionCall} {options : SendOptions}
    (h : .send ∉ chain.failing) : answer (send call options) chain = .ok chain.nextHash := by
  simp [answer, send, guarded, h]

/-- A wait for inclusion changes nothing but the gate. -/
theorem after_awaitInclusion (chain : Chain) (wait : Nat) (hash : Digest) :
    ∃ gate, after (awaitInclusion wait hash) chain = { chain with gate } := by
  unfold after awaitInclusion
  cases hguard : chain.guarded .awaitInclusion with
  | error e => exact ⟨chain.gate, rfl⟩
  | ok _ =>
    cases hgate : chain.gate with
    | none => exact ⟨none, by simp [← hgate]⟩
    | some gate => exact ⟨some (gate.arrive wait), rfl⟩

/-- A send leaves the gate as it is. -/
theorem gate_send (call : SubmissionCall) (options : SendOptions) (chain : Chain) :
    (after (send call options) chain).gate = chain.gate := by
  unfold after send
  cases chain.guarded .send <;> rfl

/-- Only holding inclusion replaces the gate. -/
theorem gate_apply {change : Change} (h : change ≠ .closeGate) (chain : Chain) :
    (chain.apply change).gate = chain.gate := by
  cases change with
  | closeGate => exact absurd rfl h
  | _ => rfl

/-- Nothing is sent from outside. -/
theorem sent_apply (change : Change) (chain : Chain) : (chain.apply change).sent = chain.sent := by
  cases change <;> rfl

/-- A chain whose transactions are numbered by their hashes, from one. -/
def Numbered (chain : Chain) : Prop :=
  ∀ (i : Nat) (transaction : SentTransaction), chain.sent[i]? = some transaction →
    transaction.hash = Octets.ofNat 32 (i + 1)

namespace Numbered

variable {chain : Chain}

/-- An accepted transaction has the next number. -/
theorem accept (h : Numbered chain) (call : SubmissionCall) (options : SendOptions) :
    Numbered (chain.accept call options) := by
  intro i transaction hi
  rw [Chain.sent_accept] at hi
  by_cases hold : i < chain.sent.length
  · exact h i transaction ((List.getElem?_append_left hold).symm.trans hi)
  · have hlength := (List.getElem?_eq_some_iff.mp hi).1
    rw [List.length_append, List.length_singleton] at hlength
    obtain rfl : i = chain.sent.length := by omega
    rw [List.getElem?_concat_length] at hi
    cases hi
    rfl

/-- As long as no transaction is accepted, the numbers stay. -/
theorem of_sent_eq (h : Numbered chain) {next : Chain} (hsent : next.sent = chain.sent) :
    Numbered next :=
  fun i transaction hi => h i transaction (hsent ▸ hi)

/-- Hashes tell numbers apart. -/
theorem ofNat_inj {n m : Nat} (hn : n ≤ 2 ^ 64) (hm : m ≤ 2 ^ 64)
    (h : (Octets.ofNat 32 n : Digest) = Octets.ofNat 32 m) : n = m :=
  bigEndian_inj (by omega) (by omega) (congrArg Octets.bytes h)

/-- While transactions can be numbered, the next hash is new. -/
theorem hash_ne_nextHash (h : Numbered chain) (hcount : chain.sent.length < 2 ^ 64)
    {transaction : SentTransaction} (hmem : transaction ∈ chain.sent) :
    transaction.hash ≠ chain.nextHash := by
  intro hsame
  obtain ⟨i, hi⟩ := List.getElem?_of_mem hmem
  have hlength := (List.getElem?_eq_some_iff.mp hi).1
  have hnumber := ofNat_inj (by omega) (by omega) ((h i _ hi).symm.trans hsame)
  omega

/-- While transactions can be numbered, no two of them have the same hash. -/
theorem nodup_hashes (h : Numbered chain) (hcount : chain.sent.length < 2 ^ 64) :
    (chain.sent.map fun transaction => transaction.hash).Nodup := by
  rw [List.Nodup, List.pairwise_map, List.pairwise_iff_getElem]
  intro i j hi hj hlt hsame
  rw [h i _ (List.getElem?_eq_getElem hi), h j _ (List.getElem?_eq_getElem hj)] at hsame
  have hnumber := ofNat_inj (by omega) (by omega) hsame
  omega

end Numbered

end Chain

namespace Submission

/-- A transmission whose send is set to fail is refused and leaves the chain as it is. -/
theorem transmit_of_failing {chain : Chain} {call : SubmissionCall} {options : SendOptions}
    (wait : Nat) (h : .send ∈ chain.failing) :
    after (transmit wait call options) chain = chain ∧
      ∃ e, answer (transmit wait call options) chain = .refused e := by
  unfold transmit
  rw [after_bind, answer_bind, Chain.answer_send_eq_fault h, Chain.after_send_of_failing h]
  exact ⟨rfl, _, rfl⟩

/-- Any other transmission adds its call to the chain, and its answer carries the transaction's
hash whether or not the wait is over. -/
theorem transmit_of_accepted {chain : Chain} {call : SubmissionCall} {options : SendOptions}
    (wait : Nat) (h : .send ∉ chain.failing) :
    (∃ gate, after (transmit wait call options) chain =
        { chain.accept call options with gate }) ∧
      (answer (transmit wait call options) chain = .waiting chain.nextHash ∨
        ∃ result, answer (transmit wait call options) chain =
          .settled chain.nextHash result) := by
  obtain ⟨gate, hgate⟩ := Chain.after_awaitInclusion (chain.accept call options) wait chain.nextHash
  unfold transmit
  rw [after_bind, answer_bind, Chain.answer_send h, Chain.after_send h]
  simp only [after_bind, answer_bind, after_lift]
  cases answer (Chain.awaitInclusion wait chain.nextHash) (chain.accept call options) with
  | none => exact ⟨⟨gate, hgate⟩, .inl rfl⟩
  | some answer => exact ⟨⟨gate, hgate⟩, .inr ⟨_, rfl⟩⟩

end Submission

end StakeOracle
