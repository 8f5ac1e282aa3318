import StakeOracle.Proofs.Submission.Dialogue

/-!
# The fee ceiling, and the one send below it

A submission compares a clamped sum of fees with its ceiling. A ceiling below the greatest word is above
the clamped sum exactly when it is above the exact one, and every ceiling that the configuration yields
is that low. A dialogue with a chain that does not hold inclusion back then goes one of six ways, and
each of them sends at most once, under the limits as they are and with the safe gas limit.
-/

namespace StakeOracle

/-- A ceiling from the configuration is below `2 ^ 128`. -/
theorem FeeSettings.maxFee_lt_of_limits {fees : FeeSettings} {limits : FeeLimits}
    (h : fees.limits = .ok limits) : limits.maxFee.toNat < 2 ^ 128 := by
  unfold FeeSettings.limits at h
  split at h
  · cases h
  · rename_i maxFee hmaxFee
    split at h
    · cases h
    · cases h
      exact toNat_lt_of_gweiToWei? hmaxFee

namespace FeeLimits

/-- The fee that inclusion takes on a chain: the exact sum of its base fee and the priority fee. -/
def required (limits : FeeLimits) (chain : Chain) : Nat :=
  chain.gas.baseFee.toNat + limits.priorityFee.toNat

/-- What a call is sent under on a chain. -/
def options (limits : FeeLimits) (chain : Chain) : SendOptions :=
  ⟨limits.maxFee, limits.priorityFee, chain.gas.safeLimit⟩

/-- Below the greatest word, clamping the sum of fees does not hide that it exceeds the ceiling. -/
theorem lt_addSat_iff {limits : FeeLimits} (h : limits.maxFee.toNat < 2 ^ 256 - 1) (chain : Chain) :
    limits.maxFee < chain.gas.baseFee.addSat limits.priorityFee ↔
      limits.maxFee.toNat < limits.required chain := by
  rw [BitVec.lt_def, Word.toNat_addSat, required]
  change _ < min _ (2 ^ 256 - 1) ↔ _
  omega

end FeeLimits

namespace Submission

/-- The ways in which a submission goes, with its requests and its outcome. -/
inductive Exchange (limits : FeeLimits) (call : SubmissionCall) (chain : Chain) :
    List Request → Except ReportError SubmissionOutcome → Prop
  /-- There is no estimate. -/
  | unestimated (unestimated : .estimateGas ∈ chain.failing) :
      Exchange limits call chain [.estimateGas] (.error (.chain (Method.fault .estimateGas)))
  /-- Fees are above the ceiling. -/
  | tooExpensive (estimated : .estimateGas ∉ chain.failing)
      (exceeds : limits.maxFee.toNat < limits.required chain) :
      Exchange limits call chain [.estimateGas]
        (.ok (.feeCeilingExceeded chain.gas.baseFee limits.priorityFee limits.maxFee))
  /-- The call is not accepted. -/
  | refused (estimated : .estimateGas ∉ chain.failing)
      (affordable : limits.required chain ≤ limits.maxFee.toNat) (refused : .send ∈ chain.failing) :
      Exchange limits call chain [.estimateGas, .send call (limits.options chain)]
        (.error (.chain (Method.fault .send)))
  /-- The call is accepted, and the wait for its transaction fails. -/
  | unanswered (estimated : .estimateGas ∉ chain.failing)
      (affordable : limits.required chain ≤ limits.maxFee.toNat) (accepted : .send ∉ chain.failing)
      (unanswered : .awaitInclusion ∈ chain.failing) :
      Exchange limits call chain
        [.estimateGas, .send call (limits.options chain), .awaitInclusion chain.nextHash]
        (.error (.chain (Method.fault .awaitInclusion)))
  /-- The transaction is included, and reverted. -/
  | reverted (estimated : .estimateGas ∉ chain.failing)
      (affordable : limits.required chain ≤ limits.maxFee.toNat) (accepted : .send ∉ chain.failing)
      (answered : .awaitInclusion ∉ chain.failing) (reverted : chain.reverting = true) :
      Exchange limits call chain
        [.estimateGas, .send call (limits.options chain), .awaitInclusion chain.nextHash]
        (.error (.reverted call chain.nextHash))
  /-- The transaction is included with success. -/
  | included {receipt : Receipt} (estimated : .estimateGas ∉ chain.failing)
      (affordable : limits.required chain ≤ limits.maxFee.toNat) (accepted : .send ∉ chain.failing)
      (answered : .awaitInclusion ∉ chain.failing) (kept : chain.reverting = false)
      (hash : receipt.hash = chain.nextHash) (success : receipt.success = true) :
      Exchange limits call chain
        [.estimateGas, .send call (limits.options chain), .awaitInclusion chain.nextHash]
        (.ok (.included receipt))

variable {limits : FeeLimits} {chain : Chain}

/-- Once its call is accepted, a submission goes one of three ways. -/
theorem exists_exchange_of_accepted (wait : Nat) (call : SubmissionCall) (hunheld : chain.Unheld)
    (hestimated : .estimateGas ∉ chain.failing)
    (haffordable : limits.required chain ≤ limits.maxFee.toNat) (haccepted : .send ∉ chain.failing) :
    let next := chain.accept call (limits.options chain)
    let rest := waitDialogue call chain.nextHash
    ∃ outcome, answer (rest.hold wait) next = some outcome ∧
      Exchange limits call chain
        (.estimateGas :: .send call (limits.options chain) :: rest.requests wait next) outcome := by
  intro next rest
  have hnext : next.Unheld := hunheld
  have hreply : answer ((Request.awaitInclusion chain.nextHash).perform wait) next =
      some (if .awaitInclusion ∈ chain.failing then .error (Method.fault .awaitInclusion)
        else next.receipt chain.nextHash) := Chain.answer_awaitInclusion hnext wait chain.nextHash
  unfold rest waitDialogue
  rw [Dialogue.answer_ask_hold hreply, Dialogue.requests_ask hreply]
  by_cases hawait : .awaitInclusion ∈ chain.failing
  · rw [if_pos hawait]
    exact ⟨_, rfl, .unanswered hestimated haffordable haccepted hawait⟩
  · obtain ⟨receipt, hreceipt, hhash, hsuccess⟩ :=
      chain.exists_receipt_accept call (limits.options chain)
    rw [if_neg hawait, hreceipt]
    cases hreverting : chain.reverting with
    | true =>
      rw [hreverting, Bool.not_true] at hsuccess
      dsimp only
      rw [if_neg (Bool.eq_false_iff.mp hsuccess)]
      exact ⟨_, rfl, .reverted hestimated haffordable haccepted hawait hreverting⟩
    | false =>
      rw [hreverting, Bool.not_false] at hsuccess
      dsimp only
      rw [if_pos hsuccess]
      exact ⟨_, rfl, .included hestimated haffordable haccepted hawait hreverting hhash hsuccess⟩

/-- With an estimate below the ceiling, it sends its call first. -/
theorem exists_exchange_of_affordable (wait : Nat) (call : SubmissionCall) (hunheld : chain.Unheld)
    (hestimated : .estimateGas ∉ chain.failing)
    (haffordable : limits.required chain ≤ limits.maxFee.toNat) :
    let rest := sendDialogue call (limits.options chain)
    ∃ outcome, answer (rest.hold wait) chain = some outcome ∧
      Exchange limits call chain (.estimateGas :: rest.requests wait chain) outcome := by
  intro rest
  unfold rest sendDialogue
  by_cases hsend : .send ∈ chain.failing
  · have hreply : answer ((Request.send call (limits.options chain)).perform wait) chain =
        some (.error (Method.fault .send)) := by
      rw [Request.answer_perform_send, Chain.answer_send_eq_fault hsend]
    rw [Dialogue.answer_ask_hold hreply, Dialogue.requests_ask hreply]
    exact ⟨_, rfl, .refused hestimated haffordable hsend⟩
  · have hreply : answer ((Request.send call (limits.options chain)).perform wait) chain =
        some (.ok chain.nextHash) := by
      rw [Request.answer_perform_send, Chain.answer_send hsend]
    rw [Dialogue.answer_ask_hold hreply, Dialogue.requests_ask hreply, Request.after_perform_send,
      Chain.after_send hsend]
    dsimp only
    rw [Dialogue.answer_log_hold, Dialogue.requests_log]
    exact exists_exchange_of_accepted wait call hunheld hestimated haffordable hsend

/-- A submission on a chain that does not hold inclusion back has an outcome. -/
theorem exists_exchange (wait : Nat) (call : SubmissionCall)
    (hlimit : limits.maxFee.toNat < 2 ^ 256 - 1) (hunheld : chain.Unheld) :
    ∃ outcome, answer (submit wait limits call) chain = some outcome ∧
      Exchange limits call chain ((dialogue limits call).requests wait chain) outcome := by
  rw [submit_eq_hold, dialogue]
  by_cases hestimate : .estimateGas ∈ chain.failing
  · have hreply : answer (Request.estimateGas.perform wait) chain =
        some (.error (Method.fault .estimateGas)) := by
      rw [answer, Request.run_estimateGas, if_pos hestimate]
    rw [Dialogue.answer_ask_hold hreply, Dialogue.requests_ask hreply]
    exact ⟨_, rfl, .unestimated hestimate⟩
  · have hreply : answer (Request.estimateGas.perform wait) chain = some (.ok chain.gas) := by
      rw [answer, Request.run_estimateGas, if_neg hestimate]
    have hsame : after (Request.estimateGas.perform wait) chain = chain := rfl
    rw [Dialogue.answer_ask_hold hreply, Dialogue.requests_ask hreply, hsame]
    dsimp only
    by_cases hexceeds : limits.maxFee.toNat < limits.required chain
    · rw [if_pos ((FeeLimits.lt_addSat_iff hlimit chain).mpr hexceeds)]
      exact ⟨_, rfl, .tooExpensive hestimate hexceeds⟩
    · rw [if_neg (mt (FeeLimits.lt_addSat_iff hlimit chain).mp hexceeds), Dialogue.answer_log_hold,
        Dialogue.requests_log]
      exact exists_exchange_of_affordable wait call hunheld hestimate (Nat.not_lt.mp hexceeds)

namespace Exchange

variable {call : SubmissionCall} {asked : List Request} {outcome : Except ReportError SubmissionOutcome}

/-- A send is asked for exactly under an estimate that the ceiling leaves room for. -/
theorem send_mem_iff (h : Exchange limits call chain asked outcome) :
    .send ∈ asked.map Request.method ↔
      .estimateGas ∉ chain.failing ∧ limits.required chain ≤ limits.maxFee.toNat := by
  cases h with
  | unestimated unestimated => simp [Request.method, unestimated]
  | tooExpensive _ exceeds => simp [Request.method, Nat.not_le.mpr exceeds]
  | refused estimated affordable _ => simp [Request.method, estimated, affordable]
  | unanswered estimated affordable _ _ => simp [Request.method, estimated, affordable]
  | reverted estimated affordable _ _ _ => simp [Request.method, estimated, affordable]
  | included estimated affordable _ _ _ _ _ => simp [Request.method, estimated, affordable]

/-- No other send is. -/
theorem eq_of_send_mem (h : Exchange limits call chain asked outcome) {other : SubmissionCall}
    {options : SendOptions} (hmem : .send other options ∈ asked) :
    other = call ∧ options = limits.options chain := by
  cases h with
  | unestimated _ => simp at hmem
  | tooExpensive _ _ => simp at hmem
  | refused _ _ _ => simpa using hmem
  | unanswered _ _ _ _ => simpa using hmem
  | reverted _ _ _ _ _ => simpa using hmem
  | included _ _ _ _ _ _ _ => simpa using hmem

/-- No submission sends twice. -/
theorem count_send_le (h : Exchange limits call chain asked outcome) :
    (asked.map Request.method).count .send ≤ 1 := by
  cases h <;> simp [Request.method]

/-- A wait is for the transaction of a send that was accepted. -/
theorem awaitInclusion_mem_iff (h : Exchange limits call chain asked outcome) {hash : Digest} :
    .awaitInclusion hash ∈ asked ↔ .send call (limits.options chain) ∈ asked ∧
      answer (Chain.send call (limits.options chain)) chain = .ok hash := by
  cases h with
  | unestimated _ => simp
  | tooExpensive _ _ => simp
  | refused _ _ refused => simp [Chain.answer_send_eq_fault refused]
  | unanswered _ _ accepted _ => simp [Chain.answer_send accepted, eq_comm]
  | reverted _ _ accepted _ _ => simp [Chain.answer_send accepted, eq_comm]
  | included _ _ accepted _ _ _ _ => simp [Chain.answer_send accepted, eq_comm]

/-- What is included succeeded, and is the transaction that was waited for. -/
theorem of_included {receipt : Receipt}
    (h : Exchange limits call chain asked (.ok (.included receipt))) :
    receipt.success = true ∧ .awaitInclusion receipt.hash ∈ asked := by
  cases h with
  | included _ _ _ _ _ hash success => simp [hash, success]

/-- A submission stops at the ceiling exactly when there is an estimate and the fees that it
requires exceed it. -/
theorem feeCeilingExceeded_iff (h : Exchange limits call chain asked outcome) :
    outcome = .ok (.feeCeilingExceeded chain.gas.baseFee limits.priorityFee limits.maxFee) ↔
      .estimateGas ∉ chain.failing ∧ limits.maxFee.toNat < limits.required chain := by
  cases h with
  | unestimated unestimated => simp [unestimated]
  | tooExpensive estimated exceeds => simp [estimated, exceeds]
  | refused _ affordable _ => simp [Nat.not_lt.mpr affordable]
  | unanswered _ affordable _ _ => simp [Nat.not_lt.mpr affordable]
  | reverted _ affordable _ _ _ => simp [Nat.not_lt.mpr affordable]
  | included _ affordable _ _ _ _ _ => simp [Nat.not_lt.mpr affordable]

/-- A submission is included exactly when it keeps to the ceiling, no request fails, and submissions
do not revert. -/
theorem included_iff (h : Exchange limits call chain asked outcome) :
    (∃ receipt, outcome = .ok (.included receipt)) ↔
      (.estimateGas ∉ chain.failing ∧ limits.required chain ≤ limits.maxFee.toNat) ∧
        .send ∉ chain.failing ∧ .awaitInclusion ∉ chain.failing ∧ chain.reverting = false := by
  cases h with
  | unestimated unestimated => simp [unestimated]
  | tooExpensive _ exceeds => simp [Nat.not_le.mpr exceeds]
  | refused _ _ refused => simp [refused]
  | unanswered _ _ _ unanswered => simp [unanswered]
  | reverted _ _ _ _ reverted => simp [reverted]
  | included estimated affordable accepted answered kept _ _ =>
    simp [estimated, affordable, accepted, answered, kept]

/-- A submission fails without an estimate, and otherwise under the ceiling where its send or its wait
fails or its transaction reverts. -/
theorem error_iff (h : Exchange limits call chain asked outcome) :
    (∃ failure, outcome = .error failure) ↔ .estimateGas ∈ chain.failing ∨
      limits.required chain ≤ limits.maxFee.toNat ∧
        (.send ∈ chain.failing ∨ .awaitInclusion ∈ chain.failing ∨ chain.reverting = true) := by
  cases h with
  | unestimated unestimated => simp [unestimated]
  | tooExpensive estimated exceeds => simp [estimated, Nat.not_le.mpr exceeds]
  | refused _ affordable refused => simp [affordable, refused]
  | unanswered _ affordable _ unanswered => simp [affordable, unanswered]
  | reverted _ affordable _ _ reverted => simp [affordable, reverted]
  | included estimated _ accepted answered kept _ _ => simp [estimated, accepted, answered, kept]

end Exchange

/-- With a ceiling below the greatest word, as every configuration yields it, and on a chain that does not
hold inclusion back, whatever its gas prices and failures are, a submission is a dialogue with the chain,
and has an outcome. It asks for a send exactly when it has an estimate and the exact sum of fees is within
the ceiling, at most once, and under its limits and the safe gas limit. It waits exactly for the hash that
the send was answered with, if it was. What it reports as included succeeded, and is the transaction that
it waited for; it reports the ceiling exactly when the exact sum exceeds it; and it fails exactly when
there is no estimate, or, within the ceiling, the send or the wait fails or the transaction reverts. -/
theorem submission_sends_once_within_ceiling :
    (∀ fees limits, FeeSettings.limits fees = .ok limits → limits.maxFee.toNat < 2 ^ 256 - 1) ∧
    ∀ wait limits call chain, limits.maxFee.toNat < 2 ^ 256 - 1 → chain.Unheld →
      let options : SendOptions := ⟨limits.maxFee, limits.priorityFee, chain.gas.safeLimit⟩
      let fee := chain.gas.baseFee.toNat + limits.priorityFee.toNat
      let estimated := .estimateGas ∉ chain.failing
      let asked := (dialogue limits call).requests wait chain
      let made := (submit wait limits call chain).calls
      submit wait limits call = (dialogue limits call).hold wait ∧ made = asked.map Request.method ∧
      (.send ∈ made ↔ estimated ∧ fee ≤ limits.maxFee.toNat) ∧ made.count .send ≤ 1 ∧
      (∀ sent under, .send sent under ∈ asked → sent = call ∧ under = options) ∧
      (∀ hash, .awaitInclusion hash ∈ asked ↔
        .send call options ∈ asked ∧ answer (Chain.send call options) chain = .ok hash) ∧
      ∃ outcome, answer (submit wait limits call) chain = some outcome ∧
        (∀ receipt, outcome = .ok (.included receipt) →
          receipt.success = true ∧ .awaitInclusion receipt.hash ∈ asked) ∧
        ((∃ receipt, outcome = .ok (.included receipt)) ↔ (estimated ∧ fee ≤ limits.maxFee.toNat) ∧
          .send ∉ chain.failing ∧ .awaitInclusion ∉ chain.failing ∧ chain.reverting = false) ∧
        (outcome = .ok (.feeCeilingExceeded chain.gas.baseFee limits.priorityFee limits.maxFee) ↔
          estimated ∧ limits.maxFee.toNat < fee) ∧
        ((∃ failure, outcome = .error failure) ↔ .estimateGas ∈ chain.failing ∨
          fee ≤ limits.maxFee.toNat ∧
            (.send ∈ chain.failing ∨ .awaitInclusion ∈ chain.failing ∨ chain.reverting = true)) := by
  refine ⟨fun fees limits h => Nat.lt_trans (FeeSettings.maxFee_lt_of_limits h) (by decide),
    fun wait limits call chain hlimit hunheld => ?_⟩
  intro options fee estimated asked made
  have hmade : made = asked.map Request.method := by
    unfold made
    rw [submit_eq_hold]
    exact Dialogue.calls_hold wait (dialogue limits call) chain
  obtain ⟨outcome, houtcome, hexchange⟩ := exists_exchange wait call hlimit hunheld
  rw [hmade]
  refine ⟨submit_eq_hold wait limits call, rfl, hexchange.send_mem_iff, hexchange.count_send_le,
    fun sent under => hexchange.eq_of_send_mem, fun hash => hexchange.awaitInclusion_mem_iff,
    outcome, houtcome, ?_, hexchange.included_iff, hexchange.feeCeilingExceeded_iff,
    hexchange.error_iff⟩
  rintro receipt rfl
  exact hexchange.of_included

/-- A chain whose base fee and the default priority fee come to the default ceiling exactly. -/
def chainAtCeiling : Chain :=
  { Chain.fresh with gas := { Chain.fresh.gas with baseFee := 198000000000 } }

/-- There a report is sent once and included; one wei more, and nothing is sent. -/
theorem chainAtCeiling_sends :
    let limits : FeeLimits := ⟨200000000000, 2000000000⟩
    let call : SubmissionCall := .prices 100 1000000000000000000
    let dearer : Chain :=
      { chainAtCeiling with gas := { chainAtCeiling.gas with baseFee := 198000000001 } }
    FeeSettings.standard.limits = .ok limits ∧ limits.maxFee.toNat < 2 ^ 256 - 1 ∧
    chainAtCeiling.Unheld ∧ dearer.Unheld ∧
    .send ∈ (submit 0 limits call chainAtCeiling).calls ∧
    (∃ receipt, answer (submit 0 limits call) chainAtCeiling = some (.ok (.included receipt)) ∧
      receipt.success = true) ∧
    .send ∉ (submit 0 limits call dearer).calls ∧
    answer (submit 0 limits call) dearer =
      some (.ok (.feeCeilingExceeded 198000000001 2000000000 200000000000)) := by
  intro limits call dearer
  have hlimits : FeeSettings.standard.limits = .ok limits := rfl
  have hunheld : chainAtCeiling.Unheld := nofun
  have hdearer : dearer.Unheld := nofun
  obtain ⟨hbound, hsubmission⟩ := submission_sends_once_within_ceiling
  have hlimit := hbound _ _ hlimits
  obtain ⟨-, -, hsend, -, -, -, outcome, houtcome, hsuccess, hincluded, -⟩ :=
    hsubmission 0 limits call chainAtCeiling hlimit hunheld
  obtain ⟨receipt, rfl⟩ := hincluded.mpr (by decide)
  obtain ⟨-, -, hunsent, -, -, -, other, hother, -, -, hexceeded, -⟩ :=
    hsubmission 0 limits call dearer hlimit hdearer
  exact ⟨hlimits, hlimit, hunheld, hdearer, hsend.mpr (by decide),
    ⟨receipt, houtcome, (hsuccess receipt rfl).1⟩, mt hunsent.mp (by decide),
    hother.trans (congrArg some (hexceeded.mpr (by decide)))⟩

end Submission

end StakeOracle
