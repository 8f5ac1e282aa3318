import StakeOracle.Ledger
import StakeOracle.Proofs.Chain.Answer

/-!
# What the ledger reads

With the storage of flags readable, the ledger's answer is a function of two memberships: that of
the exact key and, where it is missing, that of the coarse key.
-/

namespace StakeOracle.Ledger

/-- Reading a flag answers whether it is set, unless reads of flags fail. -/
theorem ask_readFlag_eq_ok {key : Digest} {context : String} {chain : Chain} {flag : Bool} :
    (((Chain.readFlag key).within context).ask chain).result = .ok flag ↔
      Method.storageFlag ∉ chain.failing ∧ decide (key ∈ chain.flags) = flag := by
  rw [Query.ask_within_eq_ok, Chain.readFlag, Query.ask_call_eq_ok]
  simp

/-- With flags readable, the exact flag decides first and the coarse flag second. -/
theorem result_status {record : SubmissionRecord} {chain : Chain}
    (hread : Method.storageFlag ∉ chain.failing) :
    ((status record).ask chain).result =
      .ok (if record.exactKey ∈ chain.flags then .alreadySubmitted
        else if record.coarseKey ∈ chain.flags then .stale
        else .fresh) := by
  rw [status, Query.ask_bind_eq_ok]
  refine ⟨decide (record.exactKey ∈ chain.flags), ask_readFlag_eq_ok.mpr ⟨hread, rfl⟩, ?_⟩
  by_cases hexact : record.exactKey ∈ chain.flags
  · simp [hexact]
  · simp only [hexact, decide_false, Bool.false_eq_true, ↓reduceIte]
    rw [Query.ask_bind_eq_ok]
    refine ⟨decide (record.coarseKey ∈ chain.flags), ask_readFlag_eq_ok.mpr ⟨hread, rfl⟩, ?_⟩
    by_cases hcoarse : record.coarseKey ∈ chain.flags
    · simp [hcoarse]
    · simp [hcoarse]

/-- The ledger answers only while flags are readable. -/
theorem readable_of_status {record : SubmissionRecord} {chain : Chain} {answer : LedgerStatus}
    (h : ((status record).ask chain).result = .ok answer) :
    Method.storageFlag ∉ chain.failing := by
  rw [status, Query.ask_bind_eq_ok] at h
  obtain ⟨exact, hexact, -⟩ := h
  exact (ask_readFlag_eq_ok.mp hexact).1

/-- Any answer but that the values were submitted means that their exact flag is unset. -/
theorem exactKey_notMem_of_status {record : SubmissionRecord} {chain : Chain}
    {answer : LedgerStatus} (h : ((status record).ask chain).result = .ok answer)
    (hnew : answer ≠ .alreadySubmitted) : record.exactKey ∉ chain.flags := by
  intro hmem
  rw [result_status (readable_of_status h), if_pos hmem] at h
  exact hnew (Except.ok.inj h).symm

end StakeOracle.Ledger
