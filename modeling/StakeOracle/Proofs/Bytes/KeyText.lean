import StakeOracle.Proofs.Bytes.HexText

/-!
# The texts of keys

A text is read as a key exactly when it is 96 hexadecimal digits of either case, behind one mark or
none. A key is written with a mark and in lowercase, and what is written is read back. So a text and
the writing of its key differ by the mark and by case alone, and so do the texts of one key.
-/

namespace StakeOracle

namespace Hex

/-! ## Digits of either case -/

/-- A hexadecimal digit of either case. -/
def IsDigit (c : Char) : Prop :=
  '0' ≤ c ∧ c ≤ '9' ∨ 'a' ≤ c ∧ c ≤ 'f' ∨ 'A' ≤ c ∧ c ≤ 'F'

instance : DecidablePred IsDigit := fun _ => inferInstanceAs (Decidable (_ ∨ _ ∨ _))

/-- A digit of either case is below 128. -/
theorem IsDigit.toNat_lt {c : Char} (h : IsDigit c) : c.toNat < 128 := by
  have hle {last : Char} (hlast : c ≤ last) : c.toNat ≤ last.toNat := UInt32.le_iff_toNat_le.mp hlast
  rcases h with ⟨-, h⟩ | ⟨-, h⟩ | ⟨-, h⟩
  · exact Nat.lt_of_le_of_lt (hle h) (by decide)
  · exact Nat.lt_of_le_of_lt (hle h) (by decide)
  · exact Nat.lt_of_le_of_lt (hle h) (by decide)

/-- A character is a digit when its lowercase form is the digit of a value. -/
theorem isDigit_iff {c : Char} : IsDigit c ↔ ∃ v, v < 16 ∧ c.toLower = digit v := by
  -- Both sides hold of characters with one octet only, so the octets are all there is to check.
  have hoctet : ∀ b, IsDigit (charOf b) ↔ ∃ v : Fin 16, lowered b = digit v.val :=
    octet_forall (by decide +kernel)
  have hchar (hsmall : c.toNat < 128) : IsDigit c ↔ ∃ v : Fin 16, c.toLower = digit v.val := by
    have h := hoctet (octet c)
    rwa [lowered, charOf_octet hsmall] at h
  constructor
  · intro h
    obtain ⟨v, hv⟩ := (hchar h.toNat_lt).mp h
    exact ⟨v.val, v.isLt, hv⟩
  · rintro ⟨v, hv, hlower⟩
    have hsmall : c.toNat < 128 := toNat_lt_of_toLower (hlower ▸ toNat_digit_lt hv)
    exact (hchar hsmall).mpr ⟨⟨v, hv⟩, hlower⟩

/-- Twice as many digits as there are octets, in lowercase, are what some octets are written with. -/
theorem exists_encode_eq {n : Nat} {digits : List Char} (hlength : digits.length = 2 * n)
    (h : ∀ c ∈ digits, IsDigit c) :
    ∃ bytes, bytes.length = n ∧ encode bytes = digits.map Char.toLower := by
  induction n generalizing digits with
  | zero =>
    obtain rfl := List.length_eq_zero_iff.mp hlength
    exact ⟨[], rfl, rfl⟩
  | succ n ih =>
    match digits, hlength, h with
    | high :: low :: rest, hlength, h =>
      obtain ⟨hhigh, hlow, hrest⟩ : IsDigit high ∧ IsDigit low ∧ ∀ c ∈ rest, IsDigit c := by
        simpa using h
      obtain ⟨v, hv, hhigh⟩ := isDigit_iff.mp hhigh
      obtain ⟨w, hw, hlow⟩ := isDigit_iff.mp hlow
      obtain ⟨bytes, rfl, hbytes⟩ := ih (by simp at hlength; omega) hrest
      refine ⟨UInt8.ofNat (16 * v + w) :: bytes, rfl, ?_⟩
      rw [encode, List.flatMap_cons, (pair_eq_digits_iff hv hw).mpr rfl, ← encode, hbytes]
      simp [hhigh, hlow]

/-- Octets are written with digits, which are lowercase already. -/
theorem map_toLower_encode (bytes : List UInt8) :
    (encode bytes).map Char.toLower = encode bytes := by
  have hlower : ∀ v : Fin 16, (digit v.val).toLower = digit v.val := by decide +kernel
  refine (List.map_congr_left fun c hc => ?_).trans (List.map_id _)
  obtain ⟨v, hv, rfl⟩ := exists_digit_of_mem_encode hc
  exact hlower ⟨v, hv⟩

end Hex

/-! ## Texts of digits -/

/-- A text that may be a key: 96 hexadecimal digits of either case, behind one mark or none. -/
structure KeyText (text : String) (digits : List Char) : Prop where
  text_eq : text = String.ofList digits ∨ text = String.ofList ('0' :: 'x' :: digits)
  length_digits : digits.length = 96
  isDigit : ∀ c ∈ digits, Hex.IsDigit c

/-- A text that spells a key is such a text. -/
theorem Spells.exists_keyText {text : String} {key : Pubkey} (h : Spells text key) :
    ∃ digits, KeyText text digits := by
  obtain ⟨digits, hdigits, htext⟩ := h
  have hlength := congrArg List.length hdigits
  rw [List.length_map, Hex.length_encode, key.length_bytes] at hlength
  refine ⟨digits, htext, hlength, fun c hc => Hex.isDigit_iff.mpr ?_⟩
  exact Hex.exists_digit_of_mem_encode (hdigits ▸ List.mem_map_of_mem hc)

/-- Such a text is read as a key, which is written with its digits in lowercase. -/
theorem KeyText.exists_parsePubkey {text : String} {digits : List Char} (h : KeyText text digits) :
    ∃ key : Pubkey, parsePubkey text = .ok key ∧
      key.toHex = String.ofList ('0' :: 'x' :: digits.map Char.toLower) := by
  obtain ⟨bytes, hlength, hbytes⟩ := Hex.exists_encode_eq (n := 48) h.length_digits h.isDigit
  refine ⟨⟨bytes, hlength⟩, parsePubkey_eq_ok_iff.mpr ⟨digits, hbytes.symm, h.text_eq⟩, ?_⟩
  rw [Octets.toHex, hbytes]

/-- A key is read back from what it is written with. -/
theorem parsePubkey_toHex (key : Pubkey) : parsePubkey key.toHex = .ok key :=
  parsePubkey_eq_ok_iff.mpr ⟨_, Hex.map_toLower_encode key.bytes, .inr rfl⟩

/-- It is read back without the mark as well. -/
theorem parsePubkey_encode (key : Pubkey) :
    parsePubkey (String.ofList (Hex.encode key.bytes)) = .ok key :=
  parsePubkey_eq_ok_iff.mpr ⟨_, Hex.map_toLower_encode key.bytes, .inl rfl⟩

/-- Keys that are written alike are the same. -/
theorem toHex_inj {key other : Pubkey} : key.toHex = other.toHex ↔ key = other := by
  refine ⟨fun h => ?_, congrArg _⟩
  have hread := parsePubkey_toHex key
  rw [h, parsePubkey_toHex other] at hread
  exact (Except.ok.inj hread).symm

/-- A text is read as a key exactly when it is 96 hexadecimal digits of either case, behind one mark or
none. A key is read back from what it is written with, and from that without its mark. Of the texts
that are read, each has its key written with its own digits in lowercase behind a mark, and two have
one key exactly when their digits agree up to case. -/
theorem keyText_read_and_written :
    (∀ text, (∃ key, parsePubkey text = .ok key) ↔ ∃ digits, KeyText text digits) ∧
    (∀ key : Pubkey, parsePubkey key.toHex = .ok key ∧
      ∀ digits, key.toHex = String.ofList ('0' :: 'x' :: digits) →
        parsePubkey (String.ofList digits) = .ok key) ∧
    (∀ text digits, KeyText text digits → ∃ key : Pubkey, parsePubkey text = .ok key ∧
      key.toHex = String.ofList ('0' :: 'x' :: digits.map Char.toLower)) ∧
    ∀ text digits other otherDigits, KeyText text digits → KeyText other otherDigits →
      (parsePubkey text = parsePubkey other ↔
        digits.map Char.toLower = otherDigits.map Char.toLower) := by
  refine ⟨fun text => ⟨?_, ?_⟩, fun key => ⟨parsePubkey_toHex key, fun digits hdigits => ?_⟩,
    fun text digits h => h.exists_parsePubkey, fun text digits other otherDigits h hother => ?_⟩
  · rintro ⟨key, hkey⟩
    exact (parsePubkey_eq_ok_iff.mp hkey).exists_keyText
  · rintro ⟨digits, h⟩
    obtain ⟨key, hkey, -⟩ := h.exists_parsePubkey
    exact ⟨key, hkey⟩
  · have hencode : Hex.encode key.bytes = digits := by
      simpa [Octets.toHex, String.ofList_inj] using hdigits
    rw [← hencode]
    exact parsePubkey_encode key
  · obtain ⟨key, hkey, hwritten⟩ := h.exists_parsePubkey
    obtain ⟨otherKey, hotherKey, hotherWritten⟩ := hother.exists_parsePubkey
    calc parsePubkey text = parsePubkey other
        ↔ key = otherKey := by rw [hkey, hotherKey, Except.ok.injEq]
      _ ↔ key.toHex = otherKey.toHex := toHex_inj.symm
      _ ↔ digits.map Char.toLower = otherDigits.map Char.toLower := by
        rw [hwritten, hotherWritten]
        simp [String.ofList_inj]

/-- Ninety-six digits in which an uppercase one follows a lowercase one. -/
def mixedDigits : List Char := (List.replicate 48 ['a', 'B']).flatten

/-- The mixed digits are digits, and stay so in uppercase. -/
theorem isDigit_mixedDigits {c : Char} (h : c ∈ mixedDigits) :
    Hex.IsDigit c ∧ Hex.IsDigit c.toUpper := by
  obtain ⟨pair, hpair, hc⟩ := List.mem_flatten.mp h
  rw [List.eq_of_mem_replicate hpair, List.mem_pair] at hc
  obtain rfl | rfl := hc
  · decide
  · decide

/-- Digits of mixed case without a mark, and the same in uppercase behind one, are read as one key. -/
theorem mixedDigits_read_alike :
    let marked := String.ofList ('0' :: 'x' :: mixedDigits.map Char.toUpper)
    KeyText (String.ofList mixedDigits) mixedDigits ∧ KeyText marked (mixedDigits.map Char.toUpper) ∧
      (∃ key : Pubkey, parsePubkey marked = .ok key) ∧
      parsePubkey (String.ofList mixedDigits) = parsePubkey marked := by
  intro marked
  have htext : KeyText (String.ofList mixedDigits) mixedDigits :=
    ⟨.inl rfl, rfl, fun _ hc => (isDigit_mixedDigits hc).1⟩
  have hmarked : KeyText marked (mixedDigits.map Char.toUpper) :=
    ⟨.inr rfl, rfl, List.forall_mem_map.mpr fun _ hc => (isDigit_mixedDigits hc).2⟩
  obtain ⟨hread, -, -, hsame⟩ := keyText_read_and_written
  exact ⟨htext, hmarked, (hread marked).mpr ⟨_, hmarked⟩,
    (hsame _ _ _ _ htext hmarked).mpr (by decide)⟩

end StakeOracle
