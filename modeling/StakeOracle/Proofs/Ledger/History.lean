import StakeOracle.Proofs.Chain.Operation
import StakeOracle.Proofs.Ledger.Reading
import StakeOracle.Proofs.Submission.RecordKeys

/-!
# The ledger answers from the history of submissions

The flags of a chain are the keys of its history, and without collisions of digests a key belongs
to one record. So the ledger, which only reads flags, answers as if it looked through the history.
-/

namespace StakeOracle.Ledger

open Chain SubmissionRecord

variable {record : SubmissionRecord} {history : List SubmissionRecord}

/-- Without collisions, the exact key of a record with values is a key of the history exactly when
the record is in it: the coarse keys are those of records without values. -/
theorem exactKey_mem_keysOf_iff (hfree : ¬ Keccak.Collides (keyMessages (record :: history)))
    (hvalues : record.values ≠ []) :
    (∃ other ∈ history, record.exactKey ∈ Operation.keysOf other) ↔ record ∈ history := by
  have hrecord : record.octets ∈ keyMessages (record :: history) :=
    octets_mem_keyMessages List.mem_cons_self
  constructor
  · rintro ⟨other, hother, hkey⟩
    have hlisted : other ∈ record :: history := List.mem_cons_of_mem _ hother
    rcases List.mem_pair.mp hkey with hcoarse | hexact
    · have hsame := eq_of_exactKey_eq hfree hrecord (coarse_octets_mem_keyMessages hlisted) hcoarse
      exact absurd (congrArg SubmissionRecord.values hsame) hvalues
    · rw [eq_of_exactKey_eq hfree hrecord (octets_mem_keyMessages hlisted) hexact]
      exact hother
  · intro hmem
    exact ⟨record, hmem, List.mem_pair.mpr (.inr rfl)⟩

/-- Without collisions, the coarse key of a record is a key of the history exactly when a record of
the same category, node and block is in it: all records of the history have values. -/
theorem coarseKey_mem_keysOf_iff (hfree : ¬ Keccak.Collides (keyMessages (record :: history)))
    (hhistory : ∀ other ∈ history, other.values ≠ []) :
    (∃ other ∈ history, record.coarseKey ∈ Operation.keysOf other) ↔
      ∃ other ∈ history, other.category = record.category ∧ other.node = record.node ∧
        other.block = record.block := by
  have hrecord : record.coarse.octets ∈ keyMessages (record :: history) :=
    coarse_octets_mem_keyMessages List.mem_cons_self
  constructor
  · rintro ⟨other, hother, hkey⟩
    have hlisted : other ∈ record :: history := List.mem_cons_of_mem _ hother
    refine ⟨other, hother, coarse_eq_coarse_iff.mp ?_⟩
    rcases List.mem_pair.mp hkey with hcoarse | hexact
    · exact (eq_of_exactKey_eq hfree hrecord (coarse_octets_mem_keyMessages hlisted) hcoarse).symm
    · have hsame := eq_of_exactKey_eq hfree hrecord (octets_mem_keyMessages hlisted) hexact
      exact absurd (congrArg SubmissionRecord.values hsame).symm (hhistory other hother)
  · rintro ⟨other, hother, hsame⟩
    have hkey : record.coarseKey = other.coarseKey :=
      congrArg exactKey (coarse_eq_coarse_iff.mpr hsame).symm
    exact ⟨other, hother, List.mem_pair.mpr (.inl hkey)⟩

end StakeOracle.Ledger
