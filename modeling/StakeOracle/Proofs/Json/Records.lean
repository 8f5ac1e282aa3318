import StakeOracle.Json.Record
import StakeOracle.Proofs.Json.Documents

/-!
# Fields of JSON records

A record is an object with one member for each of its fields and perhaps others, or an array of the
fields in their order. Reading a field gives the value that the record has there. A counter is a string
of decimal digits, behind a plus sign or not, of a number below `2 ^ 64`.
-/

namespace StakeOracle

namespace Decimal

/-- Only digits have a value. -/
theorem isDigit_of_digit? {c : Char} {d : Nat} (h : digit? c = some d) : c.isDigit = true := by
  unfold digit? at h
  split at h
  · rename_i hc
    exact Char.isDigit_iff_toNat.mpr
      ⟨UInt32.le_iff_toNat_le.mp hc.1, UInt32.le_iff_toNat_le.mp hc.2⟩
  · cases h

/-- Only digits continue a number. -/
theorem isDigit_of_continue? {cs : List Char} {n m : Nat} (h : continue? n cs = some m) :
    ∀ c ∈ cs, c.isDigit = true := by
  induction cs generalizing n with
  | nil => simp
  | cons c cs ih =>
    rw [continue?] at h
    split at h
    · rename_i d hd
      exact List.forall_mem_cons.mpr ⟨isDigit_of_digit? hd, ih h⟩
    · cases h

/-- Digits, at least one, denote their number, and nothing else denotes one. -/
theorem read?_eq_some_iff {cs : List Char} {n : Nat} : read? cs = some n ↔
    cs ≠ [] ∧ (∀ c ∈ cs, c.isDigit = true) ∧ Nat.ofDigitChars 10 cs 0 = n := by
  constructor
  · intro h
    cases cs with
    | nil => cases h
    | cons c cs =>
      have hdigits : ∀ d ∈ c :: cs, d.isDigit = true := isDigit_of_continue? h
      rw [read?_eq_some (List.cons_ne_nil c cs) hdigits] at h
      exact ⟨List.cons_ne_nil c cs, hdigits, Option.some.inj h⟩
  · rintro ⟨hne, hdigits, rfl⟩
    exact read?_eq_some hne hdigits

end Decimal

namespace Json

variable {α : Type} {v w : Value}

/-! ## Plain values -/

/-- A string of decimal digits, behind a plus sign or not, and the number below `2 ^ 64` that it
denotes. -/
def IsCounter (v : Value) (n : UInt64) : Prop :=
  ∃ text digits, v = .text (some text) ∧ (text.toList = digits ∨ text.toList = '+' :: digits) ∧
    digits ≠ [] ∧ (∀ c ∈ digits, c.isDigit = true) ∧ Nat.ofDigitChars 10 digits 0 = n.toNat

/-- A string that denotes a text is read as it. -/
theorem Value.text?_eq_some_iff {t : String} : v.text? = some t ↔ v = .text (some t) := by
  cases v <;> simp [Value.text?]

/-- A counter is read as its number. -/
theorem Value.counter?_eq_some_iff {n : UInt64} : v.counter? = some n ↔ IsCounter v n := by
  have hbounded (m : Nat) :
      (if m < 2 ^ 64 then some (UInt64.ofNat m) else none) = some n ↔ m = n.toNat := by
    constructor
    · intro h
      split at h
      · rename_i hm
        rw [← Option.some.inj h, UInt64.toNat_ofNat_of_lt' hm]
      · cases h
    · rintro rfl
      rw [if_pos n.toNat_lt, UInt64.ofNat_toNat]
  have hread : v.counter? = some n ↔ ∃ text, v = .text (some text) ∧
      Decimal.read? (unsigned text.toList) = some n.toNat := by
    simp only [counter?, Option.bind_eq_bind, Option.bind_eq_some_iff, text?_eq_some_iff, hbounded,
      exists_eq_right]
  rw [hread]
  constructor
  · rintro ⟨text, rfl, h⟩
    refine ⟨text, unsigned text.toList, rfl, ?_, Decimal.read?_eq_some_iff.mp h⟩
    unfold unsigned
    split
    · rename_i hplus
      exact .inr hplus
    · exact .inl rfl
  · rintro ⟨text, digits, rfl, htext, hdigits⟩
    refine ⟨text, rfl, ?_⟩
    have hunsigned : unsigned text.toList = digits := by
      rcases htext with htext | htext
      · rw [htext]
        unfold unsigned
        split
        · exact absurd (hdigits.2.1 '+' List.mem_cons_self) (by decide)
        · rfl
      · rw [htext]
        rfl
    rw [hunsigned]
    exact Decimal.read?_eq_some_iff.mpr hdigits

/-- A truth value is read as it is. -/
theorem Value.boolean?_eq_some_iff {b : Bool} : v.boolean? = some b ↔ v = .boolean b := by
  cases v <;> simp [Value.boolean?]

/-- The items of an array are read as they are. -/
theorem Value.items?_eq_some_iff {items : List Value} : v.items? = some items ↔ v = .array items := by
  cases v <;> simp [Value.items?]

/-! ## Records -/

/-- A record of some fields has a value under the name of one. An object has it in the only member of
that name, and an array at the place of the field. -/
inductive HasField (fields : List String) : Value → String → Value → Prop
  | member {before after : List (Text × Value)} {name : String} {v : Value}
    (hnamed : ∀ m ∈ before ++ after, m.1.isSome = true)
    (honce : ∀ m ∈ before ++ after, m.1 ≠ some name) :
    HasField fields (.object (before ++ (some name, v) :: after)) name v
  | item {items : List Value} {name : String} {v : Value} (hlength : items.length = fields.length)
    (h : (name, v) ∈ fields.zip items) : HasField fields (.array items) name v

/-- What a field of a record means. -/
def FieldMeans (fields : List String) (v : Value) (name : String) (Means : Value → α → Prop) (a : α) :
    Prop := ∃ w, HasField fields v name w ∧ Means w a

/-- A list has one item of a kind exactly when it has that item between others. -/
theorem filter_eq_singleton_iff {p : α → Bool} {items : List α} {a : α} :
    items.filter p = [a] ↔
      ∃ before after, items = before ++ a :: after ∧ p a = true ∧
        ∀ b ∈ before ++ after, p b = false := by
  simp only [List.filter_eq_cons_iff, List.filter_eq_nil_iff, List.forall_mem_append,
    Bool.not_eq_true]
  constructor
  · rintro ⟨before, after, rfl, hbefore, ha, hafter⟩
    exact ⟨before, after, rfl, ha, hbefore, hafter⟩
  · rintro ⟨before, after, rfl, ha, hbefore, hafter⟩
    exact ⟨before, after, rfl, hbefore, ha, hafter⟩

variable {fields : List String} {record : Record} {position : Nat} {name : String}

/-- What has a field is a record. -/
theorem HasField.exists_record (h : HasField fields v name w) :
    ∃ record, Record.ofValue? fields.length v = some record := by
  cases h with
  | @member before after _ _ hnamed _ =>
    refine ⟨.named (before ++ (some name, w) :: after), if_pos (List.all_eq_true.mpr fun m hm => ?_)⟩
    rcases List.mem_append.mp hm with hm | hm
    · exact hnamed m (List.mem_append_left _ hm)
    · rcases List.mem_cons.mp hm with rfl | hm
      · rfl
      · exact hnamed m (List.mem_append_right _ hm)
  | item hlength _ => exact ⟨.ordered _, if_pos hlength⟩

/-- The value under a name is the one that is read there. -/
theorem Record.field?_eq_some_iff (hrecord : Record.ofValue? fields.length v = some record)
    (hnodup : fields.Nodup) (hname : fields[position]? = some name) :
    record.field? position name = some w ↔ HasField fields v name w := by
  cases v with
  | object members =>
    have hnamed : members.all (·.1.isSome) = true ∧ .named members = record := by
      simpa [Record.ofValue?] using hrecord
    obtain ⟨hall, rfl⟩ := hnamed
    have hfound : (named members).field? position name = some w ↔
        ∃ t, members.filter (fun m => m.1 = some name) = [(t, w)] := by
      rw [field?]
      split
      · rename_i t v hfilter
        simp [hfilter]
      · rename_i hnone
        simp only [reduceCtorEq, false_iff, not_exists]
        exact fun t => hnone t w
    rw [hfound]
    constructor
    · rintro ⟨t, h⟩
      obtain ⟨before, after, rfl, ht, hother⟩ := filter_eq_singleton_iff.mp h
      obtain rfl : t = some name := of_decide_eq_true ht
      refine .member (fun m hm => List.all_eq_true.mp hall m ?_) fun m hm =>
        of_decide_eq_false (hother m hm)
      rcases List.mem_append.mp hm with hm | hm
      · exact List.mem_append_left _ hm
      · exact List.mem_append_right _ (List.mem_cons_of_mem _ hm)
    · intro h
      cases h with
      | member _ honce =>
        exact ⟨some name, filter_eq_singleton_iff.mpr ⟨_, _, rfl, decide_eq_true rfl,
          fun m hm => decide_eq_false (honce m hm)⟩⟩
  | array items =>
    have hordered : items.length = fields.length ∧ .ordered items = record := by
      simpa [Record.ofValue?] using hrecord
    obtain ⟨hlength, rfl⟩ := hordered
    have hzip : (name, w) ∈ fields.zip items ↔ items[position]? = some w := by
      simp only [List.mem_iff_getElem?, List.getElem?_zip_eq_some]
      constructor
      · rintro ⟨i, hi, hw⟩
        obtain ⟨hlt, -⟩ := List.getElem?_eq_some_iff.mp hi
        rwa [← (List.getElem?_inj hlt hnodup).mp (hi.trans hname.symm)]
      · exact fun hw => ⟨position, hname, hw⟩
    rw [field?, ← hzip]
    constructor
    · exact .item hlength
    · intro h
      cases h with
      | item _ h => exact h
  | null => cases hrecord
  | boolean b => cases hrecord
  | number => cases hrecord
  | text t => cases hrecord

end Json

end StakeOracle
