import StakeOracle.Beacon.Validator
import StakeOracle.Proofs.Batch.Batches

/-!
# Texts that spell keys

A text spells a key when its digits, in lowercase, are those that the key is written with. A mark
may stand in front. Reading a key works on the octets of a text; for texts of digits these are the
characters one by one, and no other text has the same octets.
-/

namespace StakeOracle

/-! ## Characters and octets -/

/-- The octet of a character that has only one. -/
def octet (c : Char) : UInt8 := UInt8.ofNat c.toNat

/-- The character of an octet that is one by itself. -/
def charOf (b : UInt8) : Char := Char.ofNat b.toNat

/-- An octet and its character have one number. -/
@[simp] theorem toNat_charOf (b : UInt8) : (charOf b).toNat = b.toNat := by
  have hvalid : b.toNat.isValidChar := .inl (by have := b.toNat_lt; omega)
  rw [charOf, Char.ofNat, dif_pos hvalid]
  rfl

/-- The octet of the character of an octet is that octet. -/
@[simp] theorem octet_charOf (b : UInt8) : octet (charOf b) = b := by
  rw [octet, toNat_charOf, UInt8.ofNat_toNat]

/-- The character of the octet of a character is that character, if it has one octet only. -/
theorem charOf_octet {c : Char} (h : c.toNat < 128) : charOf (octet c) = c := by
  rw [octet, charOf, UInt8.toNat_ofNat_of_lt' (by simp only [UInt8.size]; omega), Char.ofNat_toNat]

/-- Only characters below 128 have a lowercase form below 128. -/
theorem toNat_lt_of_toLower {c : Char} (h : c.toLower.toNat < 128) : c.toNat < 128 := by
  unfold Char.toLower at h
  split at h
  · rename_i hupper
    have : c.val.toNat ≤ 'Z'.val.toNat := UInt32.le_iff_toNat_le.mp hupper.2
    have : 'Z'.val.toNat = 90 := rfl
    have : c.val.toNat = c.toNat := rfl
    omega
  · exact h

namespace Hex

/-! ## Digits -/

/-- The lowercase form of the character of an octet. -/
def lowered (b : UInt8) : Char := (charOf b).toLower

/-- A property of all octets, checked one by one. -/
theorem octet_forall {P : UInt8 → Prop} (h : ∀ n : Fin 256, P (UInt8.ofNat n.val)) (b : UInt8) :
    P b := by
  have hb := h ⟨b.toNat, b.toNat_lt⟩
  rwa [UInt8.ofNat_toNat] at hb

/-- A digit has a value below sixteen. -/
theorem value?_lt {b : UInt8} {v : Nat} (h : value? b = some v) : v < 16 :=
  octet_forall (P := fun b => ∀ v ∈ value? b, v < 16) (by decide +kernel) b v h

/-- An octet is a digit exactly when its lowercase form is the digit of its value. -/
theorem value?_eq_some_iff {b : UInt8} {v : Nat} :
    value? b = some v ↔ v < 16 ∧ lowered b = digit v := by
  have hiff (hv : v < 16) : value? b = some v ↔ lowered b = digit v :=
    octet_forall (P := fun b => ∀ v : Fin 16, value? b = some v.val ↔ lowered b = digit v.val)
      (by decide +kernel) b ⟨v, hv⟩
  exact ⟨fun h => ⟨value?_lt h, (hiff (value?_lt h)).mp h⟩, fun ⟨hv, h⟩ => (hiff hv).mpr h⟩

/-- The octet at a position is read when it is a digit, as its value. -/
theorem valueAt_eq_ok_iff {b : UInt8} {position v : Nat} :
    valueAt b position = .ok v ↔ v < 16 ∧ lowered b = digit v := by
  rw [← value?_eq_some_iff, valueAt]
  cases value? b <;> simp

/-- The sixteen digits are different. -/
private theorem digit_inj_fin : ∀ v w : Fin 16, digit v.val = digit w.val → v = w := by
  decide +kernel

/-- Values below sixteen have digits of their own. -/
theorem digit_inj {v w : Nat} (hv : v < 16) (hw : w < 16) (h : digit v = digit w) : v = w :=
  congrArg Fin.val (digit_inj_fin ⟨v, hv⟩ ⟨w, hw⟩ h)

/-- Two digits denote the octet that is written with them. -/
theorem pair_eq_digits_iff {b : UInt8} {h l : Nat} (hh : h < 16) (hl : l < 16) :
    pair b = [digit h, digit l] ↔ UInt8.ofNat (16 * h + l) = b := by
  have hb := b.toNat_lt
  have hvalue : (UInt8.ofNat (16 * h + l)).toNat = 16 * h + l :=
    UInt8.toNat_ofNat_of_lt' (by simp only [UInt8.size]; omega)
  rw [← UInt8.toNat_inj, hvalue, pair]
  constructor
  · intro heq
    obtain ⟨hhigh, hlow⟩ : digit (b.toNat / 16) = digit h ∧ digit (b.toNat % 16) = digit l := by
      simpa using heq
    have := digit_inj (by omega) hh hhigh
    have := digit_inj (by omega) hl hlow
    omega
  · intro heq
    rw [← heq, show (16 * h + l) / 16 = h by omega, show (16 * h + l) % 16 = l by omega]

/-- The digits of an octet are the digits of two values. -/
theorem exists_digits (b : UInt8) : ∃ h l, h < 16 ∧ l < 16 ∧ pair b = [digit h, digit l] :=
  ⟨b.toNat / 16, b.toNat % 16, by have := b.toNat_lt; omega, by omega, rfl⟩

/-- Pairs of digits are read as the octets that are written with them, in lowercase. -/
theorem decodeFrom_eq_ok_iff {position : Nat} {octets bytes : List UInt8} :
    decodeFrom position octets = .ok bytes ↔ octets.map lowered = encode bytes := by
  induction position, octets using decodeFrom.induct generalizing bytes with
  | case1 position =>
    cases bytes with
    | nil => simp [decodeFrom, encode]
    | cons b rest => simp [decodeFrom, encode, pair]
  | case2 position octet =>
    cases bytes with
    | nil => simp [decodeFrom, encode]
    | cons b rest => simp [decodeFrom, encode, pair]
  | case3 position high low rest ih =>
    have hread : decodeFrom position (high :: low :: rest) = .ok bytes ↔
        ∃ h, (h < 16 ∧ lowered high = digit h) ∧ ∃ l, (l < 16 ∧ lowered low = digit l) ∧
          ∃ tail, rest.map lowered = encode tail ∧ UInt8.ofNat (16 * h + l) :: tail = bytes := by
      simp only [decodeFrom, bind_eq_ok, valueAt_eq_ok_iff, ih, pure, Except.pure, Except.ok.injEq]
    rw [hread]
    constructor
    · rintro ⟨h, ⟨hh, hhigh⟩, l, ⟨hl, hlow⟩, tail, htail, rfl⟩
      rw [encode, List.flatMap_cons, (pair_eq_digits_iff hh hl).mpr rfl, ← encode, ← htail]
      simp [hhigh, hlow]
    · intro heq
      cases bytes with
      | nil => simp [encode] at heq
      | cons b tail =>
        obtain ⟨h, l, hh, hl, hpair⟩ := exists_digits b
        obtain ⟨hhigh, hlow, htail⟩ : lowered high = digit h ∧ lowered low = digit l ∧
            rest.map lowered = encode tail := by
          simpa [encode, hpair] using heq
        exact ⟨h, ⟨hh, hhigh⟩, l, ⟨hl, hlow⟩, tail, htail,
          by rw [(pair_eq_digits_iff hh hl).mp hpair]⟩

/-- Each octet is written with two digits. -/
theorem length_encode (bytes : List UInt8) : (encode bytes).length = 2 * bytes.length := by
  induction bytes with
  | nil => rfl
  | cons b rest ih =>
    rw [encode, List.flatMap_cons, List.length_append, List.length_cons]
    have : (pair b).length = 2 := rfl
    have : (rest.flatMap pair).length = 2 * rest.length := ih
    omega

/-- A text of digits is read as the octets that are written with it, in lowercase. -/
theorem decode_eq_ok_iff {octets bytes : List UInt8} :
    decode octets = .ok bytes ↔ octets.map lowered = encode bytes := by
  rw [decode, ← @decodeFrom_eq_ok_iff 0]
  split
  · rename_i hodd
    constructor
    · intro h
      cases h
    · intro h
      have hlength := congrArg List.length (decodeFrom_eq_ok_iff.mp h)
      rw [List.length_map, length_encode] at hlength
      omega
  · rfl

/-- Every character that octets are written with is a digit. -/
theorem exists_digit_of_mem_encode {bytes : List UInt8} {c : Char} (h : c ∈ encode bytes) :
    ∃ v, v < 16 ∧ c = digit v := by
  obtain ⟨b, -, hc⟩ := List.mem_flatMap.mp h
  obtain ⟨v, w, hv, hw, hpair⟩ := exists_digits b
  rw [hpair, List.mem_cons, List.mem_singleton] at hc
  rcases hc with rfl | rfl
  · exact ⟨v, hv, rfl⟩
  · exact ⟨w, hw, rfl⟩

/-- No digit is a mark, and each has one octet only. -/
private theorem digit_fin : ∀ v : Fin 16, (digit v.val).toNat < 128 ∧ digit v.val ≠ 'x' := by
  decide +kernel

/-- The character of a digit is below 128. -/
theorem toNat_digit_lt {v : Nat} (hv : v < 16) : (digit v).toNat < 128 := (digit_fin ⟨v, hv⟩).1

/-- All characters that octets are written with are below 128. -/
theorem toNat_lt_of_mem_encode {bytes : List UInt8} {c : Char} (h : c ∈ encode bytes) :
    c.toNat < 128 := by
  obtain ⟨v, hv, rfl⟩ := exists_digit_of_mem_encode h
  exact toNat_digit_lt hv

/-- The mark of a text is no digit. -/
theorem mark_notMem_encode (bytes : List UInt8) : 'x' ∉ encode bytes := by
  intro h
  obtain ⟨v, hv, hx⟩ := exists_digit_of_mem_encode h
  exact (digit_fin ⟨v, hv⟩).2 hx.symm

/-- The octet of a digit is below 128. -/
theorem toNat_lt_of_lowered {bytes : List UInt8} {b : UInt8} (h : lowered b ∈ encode bytes) :
    b.toNat < 128 := by
  rw [← toNat_charOf]
  exact toNat_lt_of_toLower (toNat_lt_of_mem_encode h)

end Hex

/-! ## Octets of texts -/

/-- The octets that are still to be listed follow those that have been. -/
private theorem toList_loop_eq (bytes : ByteArray) (i : Nat) (listed : List UInt8) :
    ByteArray.toList.loop bytes i listed = listed.reverse ++ bytes.data.toList.drop i := by
  fun_induction ByteArray.toList.loop bytes i listed with
  | case1 i listed hlt ih =>
    have hi : i < bytes.data.toList.length := by simpa using hlt
    have hget : bytes.get! i = bytes.data.toList[i] := by
      simp only [ByteArray.get!, Array.getElem_toList]
      exact getElem!_pos bytes.data i (by simpa using hlt)
    rw [ih, List.drop_eq_getElem_cons hi, hget]
    simp
  | case2 i listed hge =>
    have hi : bytes.data.toList.length ≤ i := by simpa using hge
    simp [List.drop_eq_nil_of_le hi]

/-- The list of an array of octets is the list of its entries. -/
theorem toList_eq_toList_data (bytes : ByteArray) : bytes.toList = bytes.data.toList :=
  toList_loop_eq bytes 0 []

/-- Texts with the same octets are the same. -/
theorem eq_of_octets_eq {text other : String} (h : text.toUTF8.toList = other.toUTF8.toList) :
    text = other := by
  rw [toList_eq_toList_data, toList_eq_toList_data] at h
  exact String.toByteArray_inj.mp (ByteArray.ext (Array.toList_inj.mp h))

/-- A text of characters below 128 has one octet per character. -/
theorem octets_ofList {chars : List Char} (h : ∀ c ∈ chars, c.toNat < 128) :
    (String.ofList chars).toUTF8.toList = chars.map octet := by
  have hone : ∀ c ∈ chars, String.utf8EncodeChar c = [octet c] := by
    intro c hc
    have hc := h c hc
    have hsize : c.utf8Size = 1 := Char.utf8Size_eq_one_iff.mpr (UInt32.le_iff_toNat_le.mpr (by
      have : c.val.toNat = c.toNat := rfl
      have : (127 : UInt32).toNat = 127 := rfl
      omega))
    rw [String.utf8EncodeChar_eq_singleton hsize]
    rfl
  have hflat : chars.flatMap String.utf8EncodeChar = chars.map octet := by
    rw [List.flatMap_congr hone, List.map_eq_flatMap]
  rw [toList_eq_toList_data, String.toUTF8_eq_toByteArray, String.toByteArray_ofList,
    List.utf8Encode, List.toList_data_toByteArray, hflat]

/-! ## Keys -/

/-- A text spells a key when its digits are those of the key up to case, with or without a mark. -/
def Spells (text : String) (key : Pubkey) : Prop :=
  ∃ digits : List Char, digits.map Char.toLower = Hex.encode key.bytes ∧
    (text = String.ofList digits ∨ text = String.ofList ('0' :: 'x' :: digits))

/-- Reading a key looks at the octets of a text in lowercase. -/
theorem parsePubkey_eq_ok_iff_octets {text : String} {key : Pubkey} :
    parsePubkey text = .ok key ↔
      (withoutMark text.toUTF8.toList).map Hex.lowered = Hex.encode key.bytes := by
  rw [← Hex.decode_eq_ok_iff, parsePubkey]
  cases Hex.decode (withoutMark text.toUTF8.toList) with
  | error fault => simp
  | ok bytes =>
    rw [Except.ok.injEq, ← Octets.ofList?_eq_some_iff]
    cases h : Octets.ofList? 48 bytes <;> simp [h]

/-- Digits have no mark in front. -/
theorem withoutMark_of_digits {octets bytes : List UInt8}
    (h : octets.map Hex.lowered = Hex.encode bytes) : withoutMark octets = octets := by
  unfold withoutMark
  split
  · rename_i rest
    exfalso
    refine Hex.mark_notMem_encode bytes ?_
    have hmark : Hex.lowered 120 = 'x' := by decide
    rw [← h, ← hmark]
    simp
  · rfl

/-- A text is without its mark, or its mark stands in front of the rest. -/
theorem withoutMark_cases (octets : List UInt8) :
    octets = withoutMark octets ∨ octets = 48 :: 120 :: withoutMark octets := by
  unfold withoutMark
  split
  · exact .inr rfl
  · exact .inl rfl

/-- Digits and their octets agree up to case. -/
theorem map_lowered_octet {digits : List Char} (h : ∀ c ∈ digits, c.toNat < 128) :
    (digits.map octet).map Hex.lowered = digits.map Char.toLower := by
  rw [List.map_map]
  refine List.map_congr_left fun c hc => ?_
  rw [Function.comp_apply, Hex.lowered, charOf_octet (h c hc)]

/-- A text whose octets are all below 128 has these as its characters. -/
theorem eq_ofList_of_octets {text : String} {octets : List UInt8} (h : text.toUTF8.toList = octets)
    (hsmall : ∀ b ∈ octets, b.toNat < 128) : text = String.ofList (octets.map charOf) := by
  refine eq_of_octets_eq ?_
  have hchars : ∀ c ∈ octets.map charOf, c.toNat < 128 := by
    intro c hc
    obtain ⟨b, hb, rfl⟩ := List.mem_map.mp hc
    rw [toNat_charOf]
    exact hsmall b hb
  rw [octets_ofList hchars, List.map_map, h]
  exact (List.map_id'' octet_charOf octets).symm

/-- A text is read as the key that it spells, and as no other. -/
theorem parsePubkey_eq_ok_iff {text : String} {key : Pubkey} :
    parsePubkey text = .ok key ↔ Spells text key := by
  rw [parsePubkey_eq_ok_iff_octets]
  constructor
  · intro h
    have hsmall : ∀ b ∈ withoutMark text.toUTF8.toList, b.toNat < 128 := fun b hb =>
      Hex.toNat_lt_of_lowered (h ▸ List.mem_map_of_mem hb)
    refine ⟨(withoutMark text.toUTF8.toList).map charOf, ?_, ?_⟩
    · rw [← h, List.map_map]
      rfl
    · refine (withoutMark_cases text.toUTF8.toList).imp (fun hall => ?_) (fun hmarked => ?_)
      · exact eq_ofList_of_octets hall hsmall
      · exact eq_ofList_of_octets hmarked (by simpa using hsmall)
  · rintro ⟨digits, hdigits, htext⟩
    have hsmall : ∀ c ∈ digits, c.toNat < 128 := fun c hc =>
      toNat_lt_of_toLower (Hex.toNat_lt_of_mem_encode (hdigits ▸ List.mem_map_of_mem hc))
    have hoctets := (map_lowered_octet hsmall).trans hdigits
    rcases htext with rfl | rfl
    · rw [octets_ofList hsmall, withoutMark_of_digits hoctets, hoctets]
    · have hmarked : ∀ c ∈ '0' :: 'x' :: digits, c.toNat < 128 := by simpa using hsmall
      rw [octets_ofList hmarked]
      exact hoctets

end StakeOracle
