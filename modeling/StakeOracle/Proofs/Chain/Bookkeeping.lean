import StakeOracle.Proofs.Chain.Inclusion
import StakeOracle.Proofs.Chain.Operation

/-!
# The books of a chain

A chain keeps books of what is done with it: the transactions that it accepted, the flags that are set,
and how often each call was made. Nothing is ever taken out of them. Transactions are told apart by their
hashes, so that whoever waits for one is given the receipt of that one. A call that is set to fail is
counted and changes nothing.
-/

namespace StakeOracle

namespace Method

/-- A call is found under its name. -/
theorem ofName?_name (method : Method) : ofName? method.name = some method := by
  cases method <;> rfl

/-- No two calls are counted under one name. -/
theorem name_injective : Function.Injective name := by
  intro method other hsame
  have hname : ofName? method.name = ofName? other.name := congrArg ofName? hsame
  rw [ofName?_name, ofName?_name] at hname
  exact Option.some.inj hname

end Method

namespace Chain

/-- The receipt of a transaction that is included now. -/
def receiptOf (chain : Chain) (transaction : SentTransaction) : Receipt where
  hash := transaction.hash
  block := chain.latestBlock.addSat 1
  gasUsed := min transaction.options.gasLimit chain.gas.estimatedLimit
  success := !chain.reverting

/-- Under distinct hashes every transaction is found, and no other is taken for it. -/
theorem receipt_of_mem {chain : Chain}
    (hnodup : (chain.sent.map fun transaction => transaction.hash).Nodup)
    {transaction : SentTransaction} (hmem : transaction ∈ chain.sent) :
    chain.receipt transaction.hash = .ok (chain.receiptOf transaction) := by
  have hfind : chain.sent.find? (fun other => other.hash = transaction.hash) = some transaction :=
    find?_key hnodup hmem
  have hgas (limit estimate : UInt64) :
      (if limit < estimate then limit else estimate) = min limit estimate := by
    refine UInt64.toNat_inj.mp ?_
    rw [UInt64.toNat_min, apply_ite UInt64.toNat]
    simp only [UInt64.lt_iff_toNat_lt]
    split <;> omega
  simp only [receipt, hfind, hgas]
  rfl

/-- Flags are set from outside one by one. -/
theorem mem_flags_apply (chain : Chain) (change : Change) (key : Digest) :
    key ∈ (chain.apply change).flags ↔ key ∈ chain.flags ∨ change = .flag key := by
  cases change with
  | flag other =>
    rw [apply, List.mem_cons, or_comm, Change.flag.injEq, eq_comm]
  | _ => simp [apply]

end Chain

namespace Traffic

/-- The transaction that is accepted when something is done, if one is. -/
def accepted (t : Traffic) : Deed → List SentTransaction
  | .send call options =>
    match answer (send call options) t with
    | .ok hash => [⟨call, options, hash, t.chain.node, t.chain.records⟩]
    | .error _ => []
  | _ => []

/-- The keys of the flags that are set when something is done. -/
def flagged (t : Traffic) : Deed → List Digest
  | .change (.flag key) => [key]
  | .send call options =>
    match answer (send call options) t with
    | .ok _ => (t.chain.recordsOf call).flatMap Chain.Operation.keysOf
    | .error _ => []
  | _ => []

/-- The books tell transactions apart. -/
structure Told (t : Traffic) : Prop where
  hashes : ∀ (i : Nat) (transaction : SentTransaction), t.chain.sent[i]? = some transaction →
    transaction.hash = Octets.ofNat 32 (i + 1)
  distinct : (t.chain.sent.map fun transaction => transaction.hash).Nodup
  /-- A call that is sent is accepted under the next number. -/
  sends : ∀ call options, answer (send call options) t =
    if .send ∈ t.chain.failing then .error (Method.fault .send)
    else .ok (Octets.ofNat 32 (t.chain.sent.length + 1))
  /-- A wait for a transaction is given its receipt, at once or not yet. -/
  awaited : ∀ transaction ∈ t.chain.sent, answer (await transaction.hash) t =
    if .awaitInclusion ∈ t.chain.failing then some (.error (Method.fault .awaitInclusion))
    else if t.passes then some (.ok (t.chain.receiptOf transaction)) else none
  /-- A wait for a transaction that was let through is given its receipt when it is resumed. -/
  resumed : ∀ transaction ∈ t.chain.sent, ∀ wait ∈ t.passed, wait.hash = transaction.hash →
    answer (resume wait.number) t = some (.ok (t.chain.receiptOf transaction))
  /-- A read that is set to fail is answered with its fault. -/
  refused : ∀ request : ChainRead, request.method ∈ t.chain.failing →
    answer (ask request.query) t = .error request.method.fault

/-- What is done is put down in the books, and changes nothing that it need not. -/
structure Booked (t : Traffic) (deed : Deed) (next : Traffic) : Prop where
  sent : next.chain.sent = t.chain.sent ++ t.accepted deed
  flags : ∀ key, key ∈ next.chain.flags ↔ key ∈ t.chain.flags ∨ key ∈ t.flagged deed
  failing : ∀ method, deed.method? = some method → method ∈ t.chain.failing → next = t
  read : ∀ request, deed = .read request → next = t
  node : deed = .node → next = t
  send : ∀ call options, deed = .send call options → next =
    { t with chain := { t.chain with sent := next.chain.sent, flags := next.chain.flags } }
  await : ∀ hash, deed = .await hash → .awaitInclusion ∉ t.chain.failing →
    next.chain = { t.chain with gate := t.chain.gate.map fun gate => gate.arrive t.queued }
  resume : ∀ number, deed = .resume number → next.chain = t.chain

variable (t : Traffic)

/-- A wait does to the chain what waiting for inclusion there does. -/
theorem chain_await (hash : Digest) : (after (await hash) t).chain =
    after (Chain.awaitInclusion t.queued hash) t.chain := by
  unfold after await
  simp only [bind, pure]
  split <;> rfl

/-- A wait that is resumed leaves the chain as it is. -/
theorem chain_resume (number : Nat) : (after (resume number) t).chain = t.chain := by
  unfold after resume
  cases t.passed.find? fun wait => wait.number = number <;> rfl

/-- A refused send is not put down. -/
theorem entries_of_refused {call : SubmissionCall} {options : SendOptions}
    (h : .send ∈ t.chain.failing) :
    t.accepted (.send call options) = [] ∧ t.flagged (.send call options) = [] := by
  have hanswer : answer (send call options) t = .error (Method.fault .send) :=
    Chain.answer_send_eq_fault h call options
  simp only [accepted, flagged, hanswer, and_self]

/-- An accepted send is put down with its transaction and the keys of its call. -/
theorem entries_of_accepted {call : SubmissionCall} {options : SendOptions}
    (h : .send ∉ t.chain.failing) :
    t.accepted (.send call options) = [t.chain.transaction call options] ∧
      t.flagged (.send call options) = t.chain.flagsOf call := by
  have hanswer : answer (send call options) t = .ok t.chain.nextHash := Chain.answer_send h
  simp only [accepted, flagged, hanswer, Chain.Operation.flagsOf_eq_flatMap]
  exact ⟨rfl, trivial⟩

/-- What is accepted is put down behind the transactions of before. -/
theorem sent_handle (deed : Deed) :
    (after (handle deed) t).chain.sent = t.chain.sent ++ t.accepted deed := by
  cases deed with
  | change c =>
    change (t.chain.apply c).sent = t.chain.sent ++ []
    rw [Chain.sent_apply, List.append_nil]
  | send call options =>
    change (after (Chain.send call options) t.chain).sent = _
    by_cases hfailing : .send ∈ t.chain.failing
    · rw [Chain.after_send_of_failing hfailing, (t.entries_of_refused hfailing).1, List.append_nil]
    · rw [Chain.after_send hfailing, (t.entries_of_accepted hfailing).1, Chain.sent_accept]
  | await hash =>
    obtain ⟨gate, hgate⟩ := Chain.after_awaitInclusion t.chain t.queued hash
    change (after (await hash) t).chain.sent = t.chain.sent ++ []
    rw [chain_await, hgate, List.append_nil]
  | resume number =>
    change (after (resume number) t).chain.sent = t.chain.sent ++ []
    rw [chain_resume, List.append_nil]
  | read request => exact (List.append_nil _).symm
  | node => exact (List.append_nil _).symm
  | release count => exact (List.append_nil _).symm

/-- The only flag that a change sets is the one that it is made to set. -/
theorem mem_flagged_change_iff {c : Change} {key : Digest} :
    key ∈ t.flagged (.change c) ↔ c = .flag key := by
  cases c with
  | flag other => rw [flagged, List.mem_singleton, Change.flag.injEq, eq_comm]
  | _ => simp [flagged]

/-- The flags that are set are put down beside those of before. -/
theorem mem_flags_handle (deed : Deed) (key : Digest) :
    key ∈ (after (handle deed) t).chain.flags ↔ key ∈ t.chain.flags ∨ key ∈ t.flagged deed := by
  have hquiet : key ∈ t.chain.flags ↔ key ∈ t.chain.flags ∨ key ∈ [] :=
    (or_iff_left List.not_mem_nil).symm
  cases deed with
  | change c =>
    change key ∈ (t.chain.apply c).flags ↔ _
    rw [Chain.mem_flags_apply, mem_flagged_change_iff]
  | send call options =>
    change key ∈ (after (Chain.send call options) t.chain).flags ↔ _
    by_cases hfailing : .send ∈ t.chain.failing
    · rw [Chain.after_send_of_failing hfailing, (t.entries_of_refused hfailing).2]
      exact hquiet
    · rw [Chain.after_send hfailing, (t.entries_of_accepted hfailing).2, Chain.accept,
        List.mem_append, or_comm]
  | await hash =>
    obtain ⟨gate, hgate⟩ := Chain.after_awaitInclusion t.chain t.queued hash
    change key ∈ (after (await hash) t).chain.flags ↔ _
    rw [chain_await, hgate]
    exact hquiet
  | resume number =>
    change key ∈ (after (resume number) t).chain.flags ↔ _
    rw [chain_resume]
    exact hquiet
  | read request => exact hquiet
  | node => exact hquiet
  | release count => exact hquiet

/-- Sending touches the transactions and the flags alone. -/
theorem send_eq (call : SubmissionCall) (options : SendOptions) :
    let next := after (handle (.send call options)) t
    next = { t with chain := { t.chain with sent := next.chain.sent, flags := next.chain.flags } } := by
  change { t with chain := after (Chain.send call options) t.chain } =
    { t with chain := { t.chain with
      sent := (after (Chain.send call options) t.chain).sent
      flags := (after (Chain.send call options) t.chain).flags } }
  by_cases hfailing : .send ∈ t.chain.failing
  · rw [Chain.after_send_of_failing hfailing]
  · rw [Chain.after_send hfailing]
    rfl

/-- A call that is set to fail changes nothing. -/
theorem handle_of_failing {deed : Deed} {method : Method} (hmethod : deed.method? = some method)
    (hfailing : method ∈ t.chain.failing) : after (handle deed) t = t := by
  cases deed with
  | read request => rfl
  | send call options =>
    obtain rfl : .send = method := Option.some.inj hmethod
    change { t with chain := after (Chain.send call options) t.chain } = t
    rw [Chain.after_send_of_failing hfailing]
  | await hash =>
    obtain rfl : .awaitInclusion = method := Option.some.inj hmethod
    exact after_await_of_failing t hfailing
  | change c => cases hmethod
  | node => cases hmethod
  | release count => cases hmethod
  | resume number => cases hmethod

/-- Any other wait arrives at the gate. -/
theorem chain_await_of_not_failing {hash : Digest} (h : .awaitInclusion ∉ t.chain.failing) :
    (after (await hash) t).chain = t.arrive.chain := by
  rw [after_await t h]
  cases t.passes <;> rfl

/-- Whatever is done is put down in the books. -/
theorem booked_handle (deed : Deed) : Booked t deed (after (handle deed) t) where
  sent := t.sent_handle deed
  flags := t.mem_flags_handle deed
  failing _ hmethod hfailing := t.handle_of_failing hmethod hfailing
  read _ hdeed := hdeed ▸ rfl
  node hdeed := hdeed ▸ rfl
  send call options hdeed := hdeed ▸ t.send_eq call options
  await _ hdeed hfailing := hdeed ▸ t.chain_await_of_not_failing hfailing
  resume number hdeed := hdeed ▸ t.chain_resume number

/-- Whatever is done, the hashes of transactions are their numbers. -/
theorem numbered_handle {t : Traffic} (h : t.chain.Numbered) (deed : Deed) :
    (after (handle deed) t).chain.Numbered := by
  cases deed with
  | send call options =>
    change (after (Chain.send call options) t.chain).Numbered
    by_cases hfailing : .send ∈ t.chain.failing
    · rw [Chain.after_send_of_failing hfailing]
      exact h
    · rw [Chain.after_send hfailing]
      exact h.accept call options
  | _ => exact h.of_sent_eq ((t.sent_handle _).trans (List.append_nil _))

/-- Behind everything that was done with a fresh chain, the hashes of transactions are their
numbers. -/
theorem numbered_behind (deeds : List Deed) : (behind deeds).chain.Numbered :=
  behind_induction (P := fun t => t.chain.Numbered) deeds (fun _ _ hi => by cases hi)
    fun deed _ h => numbered_handle h deed

/-- A send is refused where it is set to fail, and otherwise accepted. -/
theorem answer_send (call : SubmissionCall) (options : SendOptions) : answer (send call options) t =
    if .send ∈ t.chain.failing then .error (Method.fault .send)
    else .ok (Octets.ofNat 32 (t.chain.sent.length + 1)) := by
  change answer (Chain.send call options) t.chain = _
  by_cases hfailing : .send ∈ t.chain.failing
  · rw [if_pos hfailing, Chain.answer_send_eq_fault hfailing]
  · rw [if_neg hfailing, Chain.answer_send hfailing]
    rfl

/-- While transactions can be numbered, they are told apart. -/
theorem told_behind (deeds : List Deed) (hcount : (behind deeds).chain.sent.length < 2 ^ 64) :
    Told (behind deeds) := by
  have hnodup := (numbered_behind deeds).nodup_hashes hcount
  exact {
    hashes := numbered_behind deeds
    distinct := hnodup
    sends := answer_send (behind deeds)
    awaited := by
      intro transaction hmem
      by_cases hfailing : .awaitInclusion ∈ (behind deeds).chain.failing
      · rw [if_pos hfailing, answer_await_of_failing _ hfailing]
      · rw [if_neg hfailing, answer_await _ hfailing, Chain.receipt_of_mem hnodup hmem]
    resumed := by
      intro transaction hmem wait hwait hhash
      rw [(inLine_behind deeds).answer_resume hwait, hhash, Chain.receipt_of_mem hnodup hmem]
    refused := fun _ hfailing => ChainRead.result_query_of_failing hfailing }

/-- Nothing is taken out of the books. -/
theorem books_grow (t : Traffic) (later : List Deed) :
    t.chain.sent <+: (after (handleAll later) t).chain.sent ∧
      t.chain.flags ⊆ (after (handleAll later) t).chain.flags := by
  refine after_forM_induction
    (P := fun next : Traffic => t.chain.sent <+: next.chain.sent ∧ t.chain.flags ⊆ next.chain.flags) later
    ⟨List.prefix_refl _, List.Subset.refl _⟩ ?_
  rintro deed next ⟨hsent, hflags⟩
  constructor
  · rw [sent_handle]
    exact hsent.trans (List.prefix_append _ _)
  · exact fun key hkey => (next.mem_flags_handle deed key).mpr (.inl (hflags hkey))

/-- The calls of one thing after another are those that each of them makes. -/
theorem calls_handleAll (deeds : List Deed) (t : Traffic) :
    (handleAll deeds t).calls = deeds.filterMap Deed.method? := by
  induction deeds generalizing t with
  | nil => rfl
  | cons deed deeds ih =>
    have hcalls : (handleAll (deed :: deeds) t).calls =
        (handle deed t).calls ++ (handleAll deeds (after (handle deed) t)).calls :=
      calls_bind (handle deed) (fun _ => handleAll deeds) t
    rw [hcalls, calls_handle, ih, List.filterMap_cons]
    cases deed.method? <;> rfl

/-- Each call is counted under its own name. -/
theorem counter_concat (deeds : List Deed) (deed : Deed) (name : String) :
    counter (deeds ++ [deed]) name =
      counter deeds name + if deed.method?.map Method.name = some name then 1 else 0 := by
  rw [counter, counter, calls_handleAll, calls_handleAll, List.filterMap_append, List.map_append,
    List.count_append]
  cases hmethod : deed.method? with
  | none => simp [hmethod]
  | some method => simp [hmethod, List.count_singleton]

/-- Whatever was done with a fresh chain, while its transactions can be numbered: their hashes are their
numbers, and whoever waits for one is given its own receipt, at once or when the wait is resumed. What is
done next is put down in the books and changes nothing that it need not. Nothing is ever taken out of the
books. Each call is counted once, under the name that only this call has. -/
theorem books_are_kept (deeds : List Deed) (hcount : (behind deeds).chain.sent.length < 2 ^ 64) :
    Told (behind deeds) ∧
    (∀ deed, Booked (behind deeds) deed (behind (deeds ++ [deed]))) ∧
    (∀ later, (behind deeds).chain.sent <+: (behind (deeds ++ later)).chain.sent ∧
      (behind deeds).chain.flags ⊆ (behind (deeds ++ later)).chain.flags) ∧
    (∀ deed name, counter (deeds ++ [deed]) name =
      counter deeds name + if deed.method?.map Method.name = some name then 1 else 0) ∧
    Function.Injective Method.name := by
  refine ⟨told_behind deeds hcount, fun deed => ?_, fun later => ?_, counter_concat deeds,
    Method.name_injective⟩
  · rw [behind_concat]
    exact booked_handle (behind deeds) deed
  · rw [behind_append]
    exact books_grow (behind deeds) later

/-- A transaction that is waited for while inclusion is held, and a permit. -/
def heldSend : List Deed :=
  [.send (.prices 100 1) ⟨2, 1, 21000⟩, .change .closeGate, .await (Octets.ofNat 32 1), .release 1]

/-- The transaction that was waited for is included with its own receipt, and with no more gas than
it was given. -/
theorem heldSend_has_receipt :
    (behind heldSend).chain.sent.length < 2 ^ 64 ∧
      answer (resume 0) (behind heldSend) = some (.ok ⟨Octets.ofNat 32 1, 1, 21000, true⟩) := by
  have hcount : (behind heldSend).chain.sent.length < 2 ^ 64 := by decide
  obtain ⟨htold, -⟩ := books_are_kept heldSend hcount
  refine ⟨hcount, ?_⟩
  exact htold.resumed
    ⟨.prices 100 1, ⟨2, 1, 21000⟩, Octets.ofNat 32 1, Chain.firstNode, true⟩ (by decide)
    ⟨0, Octets.ofNat 32 1, 1⟩ (by decide) rfl

end Traffic

end StakeOracle
