import StakeOracle.Proofs.Engine.Reporting

/-!
# No report is submitted twice

A recorded transaction has set the exact flag of its record, no turn ever clears a flag, and a
report sends only while the exact flag of its record is unset. So over a whole run two transactions
of one node with the same category, block and values are sent only when the earlier one went
unrecorded, whatever failed in between.
-/

namespace StakeOracle

/-- The record that a transaction stands for. -/
def SentTransaction.record (transaction : SentTransaction) : SubmissionRecord :=
  .ofCall transaction.sender transaction.call

namespace Chain

/-- The transactions of a chain are there still, no others are, and no flag was cleared. -/
structure Keeps (chain next : Chain) : Prop where
  sent : next.sent = chain.sent
  flags : chain.flags ⊆ next.flags

/-- A chain keeps what it holds itself. -/
theorem Keeps.of_eq {chain next : Chain} (h : next = chain) : Keeps chain next := by
  rw [h]
  exact ⟨rfl, List.Subset.refl _⟩

/-- The world adds no transactions and clears no flags. -/
theorem keeps_apply (chain : Chain) (change : Change) : Keeps chain (chain.apply change) := by
  cases change with
  | flag key => exact ⟨rfl, List.subset_cons_self key chain.flags⟩
  | _ => exact ⟨rfl, List.Subset.refl _⟩

/-- Recorded transactions are flagged, and no later transaction repeats the record of one. -/
structure NeverRepeats (chain : Chain) : Prop where
  flagged : ∀ transaction ∈ chain.sent, transaction.recorded = true →
    transaction.record.exactKey ∈ chain.flags
  distinct : chain.sent.Pairwise fun earlier later =>
    earlier.recorded = true → earlier.record ≠ later.record

/-- A fresh chain has sent nothing. -/
theorem neverRepeats_fresh : fresh.NeverRepeats := ⟨by simp [fresh], by simp [fresh]⟩

/-- More flags and the same transactions keep the invariant. -/
theorem NeverRepeats.mono {chain next : Chain} (h : chain.NeverRepeats)
    (hkeeps : Keeps chain next) : next.NeverRepeats := by
  constructor
  · intro transaction hmem hrecorded
    rw [hkeeps.sent] at hmem
    exact hkeeps.flags (h.flagged transaction hmem hrecorded)
  · rw [hkeeps.sent]
    exact h.distinct

/-- A recorded call sets its exact flag. -/
theorem exactKey_mem_flagsOf {chain : Chain} {call : SubmissionCall} (h : chain.records = true) :
    (SubmissionRecord.ofCall chain.node call).exactKey ∈ chain.flagsOf call := by
  simp [flagsOf, h]

/-- Accepting a call whose exact flag is unset repeats no record: a recorded transaction with the
same record would have set that very flag. -/
theorem NeverRepeats.accept {chain : Chain} (h : chain.NeverRepeats) {call : SubmissionCall}
    {options : SendOptions}
    (hunset : (SubmissionRecord.ofCall chain.node call).exactKey ∉ chain.flags) :
    (chain.accept call options).NeverRepeats := by
  constructor
  · intro transaction hmem hrecorded
    rw [sent_accept, List.mem_append, List.mem_singleton] at hmem
    rcases hmem with hmem | rfl
    · exact List.mem_append_right _ (h.flagged transaction hmem hrecorded)
    · exact List.mem_append_left _ (exactKey_mem_flagsOf hrecorded)
  · rw [sent_accept, List.pairwise_append]
    refine ⟨h.distinct, List.pairwise_singleton _ _, ?_⟩
    intro earlier hearlier later hlater hrecorded hsame
    rw [List.mem_singleton.mp hlater] at hsame
    apply hunset
    change (chain.transaction call options).record.exactKey ∈ chain.flags
    rw [← hsame]
    exact h.flagged earlier hearlier hrecorded

end Chain

namespace Engine

/-- Every step but the beginning of a report keeps the transactions and the flags. -/
theorem keeps_step {s : Step} (h : ∀ report, s ≠ .begin report) (engine : Engine) :
    Chain.Keeps engine.chain (after (step s) engine).chain := by
  cases s with
  | change change => exact engine.chain.keeps_apply change
  | addTask task => exact .of_eq rfl
  | tick task => exact .of_eq (engine.chain_tick task)
  | begin report => exact absurd rfl (h report)
  | release count => exact ⟨rfl, List.Subset.refl _⟩
  | conclude report => exact .of_eq (engine.chain_concludeReport report)
  | cancel report =>
    change Chain.Keeps engine.chain (after (cancelReport report) engine).chain
    rcases engine.chain_cancelReport report with hchain | hchain
    · exact .of_eq hchain
    · rw [hchain]
      exact ⟨rfl, List.Subset.refl _⟩
  | startLoop task period => exact .of_eq (engine.chain_startLoop task period)
  | tickLoop loop => exact .of_eq (engine.chain_tickLoop loop)
  | stopLoop loop => exact .of_eq (engine.chain_stopLoop loop)
  | drainLoop loop => exact .of_eq (engine.chain_drainLoop loop)

/-- A call is accepted while the exact flag of its record is unset. -/
structure SendsUnflagged (chain next : Chain) (call : SubmissionCall) : Prop where
  unset : (SubmissionRecord.ofCall chain.node call).exactKey ∉ chain.flags
  accepted : ∃ options gate, next = { chain.accept call options with gate }

/-- A report that begins keeps the chain, or sends the call that it computes on it. -/
theorem chain_beginReport (engine : Engine) (report : Nat) :
    (after (beginReport report) engine).chain = engine.chain ∨
      ∃ r slot compute call, engine.reports[report]? = some r ∧
        engine.tasks[r.task]? = some slot ∧ slot.task.source.compute? = some compute ∧
        ((compute r.checkpoint).ask engine.chain).result = .ok call ∧
        SendsUnflagged engine.chain (after (beginReport report) engine).chain call := by
  rcases engine.beginReport_cases report with
    h | ⟨r, slot, hreport, -, hslot, ⟨-, h⟩ | ⟨compute, hsource, hcarried⟩⟩
  · exact .inl (congrArg Engine.chain h)
  · left
    rw [h, chain_freeFlight, chain_setPhase]
  · rcases hcarried.chain_cases with h | ⟨call, options, gate, hdecided, -, h⟩
    · exact .inl h
    · obtain ⟨hcompute, hunset⟩ := ReportTask.prepare_eq_send hsource hdecided
      exact .inr ⟨r, slot, compute, call, hreport, hslot, hsource, hcompute, hunset,
        options, gate, h⟩

/-- A report that is judged keeps the chain, or sends the call that it was judged with. -/
theorem chain_judgeReport (engine : Engine) (report : Nat) (computed : SubmissionCall) :
    (after (judgeReport report computed) engine).chain = engine.chain ∨
      SendsUnflagged engine.chain (after (judgeReport report computed) engine).chain computed := by
  rcases engine.judgeReport_cases report computed with
    h | ⟨r, slot, -, -, -, hcategory, hblock, hcarried⟩
  · exact .inl (congrArg Engine.chain h)
  · rcases hcarried.chain_cases with h | ⟨call, options, gate, hdecided, -, h⟩
    · exact .inl h
    · obtain ⟨rfl, hunset⟩ := ReportTask.judge_eq_send hdecided
      rw [← hcategory, ← hblock] at hunset
      exact .inr ⟨hunset, options, gate, h⟩

/-- Sending an unflagged call repeats no record. -/
theorem SendsUnflagged.neverRepeats {chain next : Chain} {call : SubmissionCall}
    (h : SendsUnflagged chain next call) (hinv : chain.NeverRepeats) : next.NeverRepeats := by
  obtain ⟨options, gate, rfl⟩ := h.accepted
  exact (hinv.accept h.unset).mono ⟨rfl, List.Subset.refl _⟩

/-- No turn makes the chain repeat a record. -/
theorem neverRepeats_turn (t : Turn) (engine : Engine) (hinv : engine.chain.NeverRepeats) :
    (after (turn t) engine).chain.NeverRepeats := by
  cases t with
  | judge report computed =>
    rcases engine.chain_judgeReport report computed with h | h
    · exact hinv.mono (.of_eq h)
    · exact h.neverRepeats hinv
  | step s =>
    by_cases hbegin : ∃ report, s = .begin report
    · obtain ⟨report, rfl⟩ := hbegin
      rcases engine.chain_beginReport report with h | ⟨r, slot, compute, call, -, -, -, -, h⟩
      · exact hinv.mono (.of_eq h)
      · exact h.neverRepeats hinv
    · exact hinv.mono (keeps_step (fun report h => hbegin ⟨report, h⟩) engine)

/-- No run of turns makes a fresh chain repeat a record. -/
theorem neverRepeats_play (turns : List Turn) : (after (play turns) fresh).chain.NeverRepeats := by
  apply after_forM_induction (P := fun engine : Engine => engine.chain.NeverRepeats) turns
  · exact Chain.neverRepeats_fresh
  · exact neverRepeats_turn

/-- Of two transactions in which the same node sends the same values for the same category and
block, the earlier one went unrecorded. In particular a report whose computed call is that of a recorded
transaction of the node sends nothing, however the wait of that transaction ended. -/
theorem no_duplicate_submission (turns : List Turn) :
    let engine := after (play turns) fresh
    (engine.chain.sent.Pairwise fun earlier later =>
      earlier.sender = later.sender → earlier.call.category = later.call.category →
      earlier.call.block = later.call.block → earlier.call.values = later.call.values →
        earlier.recorded = false) ∧
    ∀ report r slot compute call, engine.reports[report]? = some r →
      engine.tasks[r.task]? = some slot → slot.task.source.compute? = some compute →
      ((compute r.checkpoint).ask engine.chain).result = .ok call →
      (∃ transaction ∈ engine.chain.sent, transaction.recorded = true ∧
        transaction.sender = engine.chain.node ∧ transaction.call = call) →
      (after (step (.begin report)) engine).chain.sent = engine.chain.sent := by
  intro engine
  have hinv : engine.chain.NeverRepeats := neverRepeats_play turns
  constructor
  · refine hinv.distinct.imp ?_
    intro earlier later hdistinct hsender hcategory hblock hvalues
    cases hrecorded : earlier.recorded with
    | false => rfl
    | true =>
      refine absurd ?_ (hdistinct hrecorded)
      simp only [SentTransaction.record, SubmissionRecord.ofCall, hsender, hcategory, hblock,
        hvalues]
  · rintro report r slot compute call hreport hslot hsource hcompute
      ⟨transaction, hmem, hrecorded, hsender, hcall⟩
    rcases engine.chain_beginReport report with
      h | ⟨r', slot', compute', call', hreport', hslot', hsource', hcompute', hsends⟩
    · exact congrArg Chain.sent h
    · obtain rfl : r = r' := Option.some.inj (hreport.symm.trans hreport')
      obtain rfl : slot = slot' := Option.some.inj (hslot.symm.trans hslot')
      obtain rfl : compute = compute' := Option.some.inj (hsource.symm.trans hsource')
      obtain rfl : call = call' := Except.ok.inj (hcompute.symm.trans hcompute')
      have hunset := hsends.unset
      rw [← hsender, ← hcall] at hunset
      exact absurd (hinv.flagged transaction hmem hrecorded) hunset

end Engine

end StakeOracle
