import Mathlib.Data.List.Basic
import StakeOracle.SubmissionKey

/-!
# The octets and keys of a record determine the record

A record is hashed as the flag space of its category, its node, its block and its values. The parts
behind the flag space have fixed widths, and the two flag spaces differ in length by less than one
value. So the length of the octets tells the category apart, and the octets tell everything else.
Keys tell records apart as far as the digests of their octets do.
-/

namespace StakeOracle

/-- Big-endian octets of a fixed width determine a number that fits in them. -/
theorem bigEndian_inj {width n m : Nat} (hn : n < 256 ^ width) (hm : m < 256 ^ width)
    (h : bigEndian width n = bigEndian width m) : n = m := by
  induction width generalizing n m with
  | zero =>
    rw [Nat.pow_zero] at hn hm
    omega
  | succ width ih =>
    rw [Nat.pow_succ] at hn hm
    obtain ⟨hhigh, hlow⟩ := List.append_inj h (by rw [length_bigEndian, length_bigEndian])
    have hquotient : n / 256 = m / 256 := ih (by omega) (by omega) hhigh
    have hremainder := congrArg UInt8.toNat (List.cons.inj hlow).1
    simp only [UInt8.toNat_ofNat'] at hremainder
    omega

/-- A concatenation of blocks of one positive length determines the blocks. -/
theorem flatMap_injective {f : α → List β} {width : Nat} (hpositive : 0 < width)
    (hlength : ∀ a, (f a).length = width) (hf : Function.Injective f) :
    Function.Injective fun items : List α => items.flatMap f := by
  intro left
  induction left with
  | nil =>
    intro right h
    cases right with
    | nil => rfl
    | cons b right =>
      have hlen := congrArg List.length h
      simp only [List.flatMap_nil, List.length_nil, List.flatMap_cons, List.length_append,
        hlength] at hlen
      omega
  | cons a left ih =>
    intro right h
    cases right with
    | nil =>
      have hlen := congrArg List.length h
      simp only [List.flatMap_nil, List.length_nil, List.flatMap_cons, List.length_append,
        hlength] at hlen
      omega
    | cons b right =>
      obtain ⟨hhead, htail⟩ := List.append_inj h (by rw [hlength, hlength])
      exact congrArg₂ List.cons (hf hhead) (ih htail)

/-- A string of a fixed length is determined by its octets. -/
theorem Octets.bytes_injective : Function.Injective fun o : Octets n => o.bytes := by
  rintro ⟨left, hleft⟩ ⟨right, hright⟩ h
  cases h
  rfl

/-- A word is determined by its 32 octets. -/
theorem wordOctets_injective : Function.Injective fun w : Word => bigEndian 32 w.toNat := by
  intro left right h
  have hbound (w : Word) : w.toNat < 256 ^ 32 := w.isLt
  exact BitVec.eq_of_toNat_eq (bigEndian_inj (hbound left) (hbound right) h)

/-- A block is determined by its 32 octets. -/
theorem blockOctets_injective : Function.Injective fun n : UInt64 => bigEndian 32 n.toNat := by
  intro left right h
  have hbound (n : UInt64) : n.toNat < 256 ^ 32 := Nat.lt_trans n.toNat_lt (by decide)
  exact UInt64.toNat_inj.mp (bigEndian_inj (hbound left) (hbound right) h)

/-- A list of words is determined by their octets in a row. -/
theorem valuesOctets_injective : Function.Injective fun values : List Word =>
    values.flatMap fun value => bigEndian 32 value.toNat :=
  flatMap_injective (by omega : 0 < 32) (fun value => length_bigEndian 32 value.toNat)
    wordOctets_injective

namespace SubmissionRecord

/-- The octets behind the flag space of a category. -/
def payload (record : SubmissionRecord) : List UInt8 :=
  record.node.bytes ++ bigEndian 32 record.block.toNat ++
    record.values.flatMap fun value => bigEndian 32 value.toNat

/-- A record's octets are its flag space and its payload. -/
theorem octets_eq (record : SubmissionRecord) :
    record.octets = record.category.flagSpace.toUTF8.toList ++ record.payload := by
  simp only [octets, payload, List.append_assoc]

/-- A payload has 52 octets and 32 more for every value. -/
theorem length_payload (record : SubmissionRecord) :
    record.payload.length = 52 + 32 * record.values.length := by
  have hvalues (values : List Word) :
      (values.flatMap fun value => bigEndian 32 value.toNat).length = 32 * values.length := by
    induction values with
    | nil => rfl
    | cons value values ih =>
      rw [List.flatMap_cons, List.length_append, length_bigEndian, ih, List.length_cons]
      omega
  rw [payload, List.length_append, List.length_append, record.node.length_bytes, length_bigEndian,
    hvalues]

/-- The payload tells the node, the block and the values. -/
theorem payload_inj {left right : SubmissionRecord} (h : left.payload = right.payload) :
    left.node = right.node ∧ left.block = right.block ∧ left.values = right.values := by
  have hnode : left.node.bytes.length = right.node.bytes.length := by
    rw [left.node.length_bytes, right.node.length_bytes]
  obtain ⟨hfront, hvalues⟩ := List.append_inj h (by
    rw [List.length_append, List.length_append, hnode, length_bigEndian, length_bigEndian])
  obtain ⟨hbytes, hblock⟩ := List.append_inj hfront hnode
  exact ⟨Octets.bytes_injective hbytes, blockOctets_injective hblock,
    valuesOctets_injective hvalues⟩

/-- The flag spaces of the two categories have 31 and 33 octets. -/
theorem length_flagSpace (category : Category) : category.flagSpace.toUTF8.toList.length =
    match category with
    | .balances => 31
    | .prices => 33 := by
  cases category with
  | balances => decide +kernel
  | prices => decide +kernel

/-- Records with the same octets are of one category: the lengths of their flag spaces differ by two
octets, which no number of values makes up for. -/
theorem category_eq_of_octets_eq {left right : SubmissionRecord} (h : left.octets = right.octets) :
    left.category = right.category := by
  have hlength := congrArg List.length h
  rw [octets_eq, octets_eq, List.length_append, List.length_append, length_payload, length_payload,
    length_flagSpace, length_flagSpace] at hlength
  cases hl : left.category with
  | balances =>
    cases hr : right.category with
    | balances => rfl
    | prices =>
      rw [hl, hr] at hlength
      dsimp only at hlength
      omega
  | prices =>
    cases hr : right.category with
    | prices => rfl
    | balances =>
      rw [hl, hr] at hlength
      dsimp only at hlength
      omega

/-- A record is its category, node, block and values. -/
theorem eq_iff_components {left right : SubmissionRecord} : left = right ↔
    left.category = right.category ∧ left.node = right.node ∧ left.block = right.block ∧
      left.values = right.values := by
  cases left
  cases right
  simp

/-- The octets of a record determine it. -/
theorem octets_injective : Function.Injective octets := by
  intro left right h
  have hcategory := category_eq_of_octets_eq h
  rw [octets_eq, octets_eq, hcategory] at h
  exact eq_iff_components.mpr ⟨hcategory, payload_inj (List.append_cancel_left h)⟩

end SubmissionRecord

/-- Two different messages out of these have one digest. -/
def Keccak.Collides (messages : List (List UInt8)) : Prop :=
  ∃ a ∈ messages, ∃ b ∈ messages, a ≠ b ∧ digest a = digest b

/-- Two messages collide when they differ and have one digest. -/
theorem Keccak.collides_pair_iff {first second : List UInt8} :
    Collides [first, second] ↔ first ≠ second ∧ digest first = digest second := by
  constructor
  · rintro ⟨a, ha, b, hb, hne, hdigest⟩
    rcases List.mem_pair.mp ha with rfl | rfl
    · rcases List.mem_pair.mp hb with rfl | rfl
      · exact absurd rfl hne
      · exact ⟨hne, hdigest⟩
    · rcases List.mem_pair.mp hb with rfl | rfl
      · exact ⟨hne.symm, hdigest.symm⟩
      · exact absurd rfl hne
  · rintro ⟨hne, hdigest⟩
    exact ⟨first, List.mem_cons_self, second, List.mem_cons_of_mem _ List.mem_cons_self, hne,
      hdigest⟩

namespace SubmissionRecord

/-- The messages behind the two keys of every record. -/
def keyMessages (records : List SubmissionRecord) : List (List UInt8) :=
  records.flatMap fun record => [record.coarse.octets, record.octets]

/-- The octets of a record are among the messages. -/
theorem octets_mem_keyMessages {record : SubmissionRecord} {records : List SubmissionRecord}
    (h : record ∈ records) : record.octets ∈ keyMessages records :=
  List.mem_flatMap.mpr ⟨record, h, List.mem_cons_of_mem _ List.mem_cons_self⟩

/-- So are the octets of the record without its values. -/
theorem coarse_octets_mem_keyMessages {record : SubmissionRecord} {records : List SubmissionRecord}
    (h : record ∈ records) : record.coarse.octets ∈ keyMessages records :=
  List.mem_flatMap.mpr ⟨record, h, List.mem_cons_self⟩

/-- Where no messages collide, a key belongs to one record. -/
theorem eq_of_exactKey_eq {messages : List (List UInt8)} (hfree : ¬ Keccak.Collides messages)
    {left right : SubmissionRecord} (hleft : left.octets ∈ messages)
    (hright : right.octets ∈ messages) (h : left.exactKey = right.exactKey) : left = right := by
  apply octets_injective
  by_contra hne
  exact hfree ⟨left.octets, hleft, right.octets, hright, hne, h⟩

/-- The record without its values keeps the category, node and block, and nothing else. -/
theorem coarse_eq_coarse_iff {left right : SubmissionRecord} :
    left.coarse = right.coarse ↔
      left.category = right.category ∧ left.node = right.node ∧ left.block = right.block := by
  simp [coarse]

/-- Two records share an exact key when they are one record, or when their octets collide. -/
theorem exactKey_eq_iff {left right : SubmissionRecord} : left.exactKey = right.exactKey ↔
    left = right ∨ Keccak.Collides [left.octets, right.octets] := by
  constructor
  · intro h
    by_cases hfree : Keccak.Collides [left.octets, right.octets]
    · exact .inr hfree
    · exact .inl (eq_of_exactKey_eq hfree List.mem_cons_self
        (List.mem_cons_of_mem _ List.mem_cons_self) h)
  · rintro (rfl | hcollides)
    · rfl
    · exact (Keccak.collides_pair_iff.mp hcollides).2

/-- A record without values is that of no call. -/
theorem coarse_ne_ofCall (record : SubmissionRecord) (node : Address) (call : SubmissionCall) :
    record.coarse ≠ ofCall node call := by
  intro h
  exact call.values_ne_nil (congrArg values h).symm

/-- The octets under the digest of an exact key tell category, node, block and values, however many
values there are, and those under the digest of a coarse key are the same without any values. So two
exact keys belong to one record or to octets that collide, and a coarse key is the exact key of a
call only if their octets collide. -/
theorem keys_tell_records_apart (left right : SubmissionRecord) (node : Address)
    (call : SubmissionCall) :
    let front := left.category.flagSpace.toUTF8.toList ++ left.node.bytes ++
      bigEndian 32 left.block.toNat
    (left.octets = right.octets ↔ left.category = right.category ∧ left.node = right.node ∧
      left.block = right.block ∧ left.values = right.values) ∧
    (left.coarseKey = Keccak.digest front ∧
      SubmissionRecord.octets { left with values := [] } = front) ∧
    (left.exactKey = right.exactKey ↔ (left.category = right.category ∧ left.node = right.node ∧
      left.block = right.block ∧ left.values = right.values) ∨
        Keccak.Collides [left.octets, right.octets]) ∧
    (left.coarseKey = (ofCall node call).exactKey ↔
      Keccak.Collides [left.coarse.octets, (ofCall node call).octets]) := by
  intro front
  have hcoarse : left.coarse.octets = front := List.append_nil _
  refine ⟨?_, ⟨congrArg Keccak.digest hcoarse, hcoarse⟩, ?_, ?_⟩
  · rw [← eq_iff_components]
    exact octets_injective.eq_iff
  · rw [← eq_iff_components]
    exact exactKey_eq_iff
  · rw [coarseKey, exactKey_eq_iff]
    exact or_iff_right (coarse_ne_ofCall left node call)

end SubmissionRecord

end StakeOracle
