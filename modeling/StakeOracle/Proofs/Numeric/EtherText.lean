import Mathlib.Data.List.Basic
import Mathlib.Tactic.Linarith
import Mathlib.Tactic.Ring
import StakeOracle.Units

/-!
# Amounts in ether are read back to the micro-ether

An amount is written as whole ether, a point and six digits. Read as a decimal, the text is the amount
cut after six decimals, so it never overstates an amount, and it tells two amounts apart exactly when
they differ in whole micro-ether.
-/

namespace StakeOracle

namespace Decimal

/-! ## Numerals -/

/-- A digit is read as its distance from zero. -/
theorem digit?_eq_some {c : Char} (h : c.isDigit) : digit? c = some (c.toNat - '0'.toNat) := by
  obtain ⟨hlow, hhigh⟩ := Char.isDigit_iff_toNat.mp h
  have hle : '0' ≤ c ∧ c ≤ '9' := ⟨UInt32.le_iff_toNat_le.mpr hlow, UInt32.le_iff_toNat_le.mpr hhigh⟩
  rw [digit?, if_pos hle]

/-- Digits continue a number to the value that they have behind it. -/
theorem continue?_eq_some {cs : List Char} (h : ∀ c ∈ cs, c.isDigit) (n : Nat) :
    continue? n cs = some (Nat.ofDigitChars 10 cs n) := by
  induction cs generalizing n with
  | nil => rfl
  | cons c cs ih =>
    rw [List.forall_mem_cons] at h
    rw [continue?, digit?_eq_some h.1]
    exact (ih h.2 _).trans (by rw [Nat.ofDigitChars_cons])

/-- Digits, at least one, are read as the number that they are written for. -/
theorem read?_eq_some {cs : List Char} (hne : cs ≠ []) (h : ∀ c ∈ cs, c.isDigit) :
    read? cs = some (Nat.ofDigitChars 10 cs 0) := by
  cases cs with
  | nil => exact absurd rfl hne
  | cons c cs => exact continue?_eq_some h 0

/-- A numeral is written in digits. -/
theorem isDigit_of_mem_digits {n : Nat} {c : Char} (h : c ∈ digits n) : c.isDigit :=
  Nat.isDigit_of_mem_toDigits (by decide) (by decide) h

/-- A numeral that is filled up with zeros is written in digits. -/
theorem isDigit_of_mem_padded {width n : Nat} {c : Char} (h : c ∈ padded width n) : c.isDigit := by
  rcases List.mem_append.mp h with hzero | hdigit
  · rw [List.eq_of_mem_replicate hzero]
    rfl
  · exact isDigit_of_mem_digits hdigit

/-- A numeral is read as its number. -/
theorem read?_digits (n : Nat) : read? (digits n) = some n := by
  have hne : digits n ≠ [] := Nat.toDigits_ne_nil
  rw [read?_eq_some hne fun _ => isDigit_of_mem_digits, digits,
    Nat.ofDigitChars_toDigits (by decide) (by decide)]

/-- Zeros in front do not change the number. -/
theorem read?_padded (width n : Nat) : read? (padded width n) = some n := by
  have hne : padded width n ≠ [] := List.append_ne_nil_of_right_ne_nil _ Nat.toDigits_ne_nil
  rw [read?_eq_some hne fun _ => isDigit_of_mem_padded, padded, Nat.ofDigitChars_append,
    Nat.ofDigitChars_replicate_zero, Nat.mul_zero, digits,
    Nat.ofDigitChars_toDigits (by decide) (by decide)]

/-- A number below `10 ^ width` is padded to exactly that width. -/
theorem length_padded {width n : Nat} (hwidth : 0 < width) (h : n < 10 ^ width) :
    (padded width n).length = width := by
  have hle : (digits n).length ≤ width := (Nat.length_toDigits_le_iff (by decide) hwidth).mpr h
  rw [padded, List.length_append, List.length_replicate]
  omega

/-- Digits without a superfluous zero in front. -/
structure IsNumeral (cs : List Char) : Prop where
  ne_nil : cs ≠ []
  isDigit : ∀ c ∈ cs, c.isDigit
  eq_zero : cs.head? = some '0' → cs = ['0']

/-- Only zero has a numeral that starts with a zero. -/
theorem head?_digits_ne_zero {n : Nat} (h : 0 < n) : (digits n).head? ≠ some '0' := by
  induction n using Nat.strongRecOn with
  | ind n ih =>
    rw [digits, Nat.toDigits_eq_if (by decide)]
    by_cases hsmall : n < 10
    · have hchar : ∀ d : Fin 10, 0 < d.val → some (Nat.digitChar d.val) ≠ some '0' := by decide
      rw [if_pos hsmall]
      exact hchar ⟨n, hsmall⟩ h
    · have hne : digits (n / 10) ≠ [] := Nat.toDigits_ne_nil
      rw [if_neg hsmall, ← digits, List.head?_append_of_ne_nil _ hne]
      exact ih (n / 10) (by omega) (by omega)

/-- What a number is written as is a numeral. -/
theorem isNumeral_digits (n : Nat) : IsNumeral (digits n) where
  ne_nil := Nat.toDigits_ne_nil
  isDigit _ := isDigit_of_mem_digits
  eq_zero hhead := by
    obtain rfl | hpos := Nat.eq_zero_or_pos n
    · rfl
    · exact absurd hhead (head?_digits_ne_zero hpos)

/-! ## Decimals with a point -/

/-- The number that a decimal denotes: digits, a point, and digits behind it. -/
def fixedPoint? (text : String) : Option ℚ :=
  let whole := text.toList.takeWhile (· ≠ '.')
  match text.toList.dropWhile (· ≠ '.') with
  | [] => none
  | _ :: fraction => do
    let n ← read? whole
    let m ← read? fraction
    return (n : ℚ) + m / 10 ^ fraction.length

/-- A numeral, a point and further digits denote the sum of what they say apart. -/
theorem fixedPoint?_eq_some {whole fraction : List Char} {n m : Nat} (h : IsNumeral whole)
    (hwhole : read? whole = some n) (hfraction : read? fraction = some m) :
    fixedPoint? (String.ofList (whole ++ '.' :: fraction)) =
      some ((n : ℚ) + m / 10 ^ fraction.length) := by
  have hpoint : ∀ c ∈ whole, decide (c ≠ '.') = true := by
    intro c hc
    have hdigit := h.isDigit c hc
    refine decide_eq_true fun hdot => ?_
    rw [hdot] at hdigit
    exact absurd hdigit (by decide)
  simp only [fixedPoint?, String.toList_ofList, List.takeWhile_append_of_pos hpoint,
    List.dropWhile_append_of_pos hpoint]
  simp [hwhole, hfraction]

end Decimal

open Decimal

/-! ## Ether -/

/-- Whole micro-ether in an amount. -/
def microEther (wei : Word) : Nat := wei.toNat / 10 ^ 12

/-- A text of an amount in ether: a numeral, a point and six digits. -/
def IsEtherText (text : String) : Prop :=
  ∃ whole fraction, text = String.ofList (whole ++ '.' :: fraction) ∧
    IsNumeral whole ∧ fraction.length = 6 ∧ ∀ c ∈ fraction, c.isDigit

/-- The micro-ether behind the point have six digits. -/
theorem length_padded_micro (wei : Word) :
    (padded 6 (wei.toNat % 10 ^ 18 / 10 ^ 12)).length = 6 :=
  length_padded (by decide) (by omega)

/-- An amount is written as a text of ether. -/
theorem isEtherText_formatEth (wei : Word) : IsEtherText (formatEth wei) :=
  ⟨_, _, rfl, isNumeral_digits _, length_padded_micro wei, fun _ => isDigit_of_mem_padded⟩

/-- The text of an amount is read as its whole micro-ether. -/
theorem fixedPoint?_formatEth (wei : Word) :
    fixedPoint? (formatEth wei) = some ((microEther wei : ℚ) / 10 ^ 6) := by
  have hparts : microEther wei =
      wei.toNat / 10 ^ 18 * 10 ^ 6 + wei.toNat % 10 ^ 18 / 10 ^ 12 := by
    unfold microEther
    omega
  rw [formatEth, fixedPoint?_eq_some (isNumeral_digits _) (read?_digits _) (read?_padded _ _),
    length_padded_micro, hparts, Nat.cast_add, Nat.cast_mul]
  refine congrArg some ?_
  push_cast
  ring

/-- Two amounts have one text when they have the same whole micro-ether. -/
theorem formatEth_inj_iff {a b : Word} : formatEth a = formatEth b ↔ microEther a = microEther b := by
  constructor
  · intro htext
    have hread := fixedPoint?_formatEth a
    rw [htext, fixedPoint?_formatEth, Option.some.injEq] at hread
    have hcast : (microEther b : ℚ) = microEther a := by
      linarith
    exact (Nat.cast_injective hcast).symm
  · intro hmicro
    unfold microEther at hmicro
    have hwhole : a.toNat / 10 ^ 18 = b.toNat / 10 ^ 18 := by omega
    have hrest : a.toNat % 10 ^ 18 / 10 ^ 12 = b.toNat % 10 ^ 18 / 10 ^ 12 := by omega
    rw [formatEth, formatEth, hwhole, hrest]

/-- Cut after six decimals, an amount in ether loses less than `10 ^ 12` wei. -/
theorem microEther_bounds (wei : Word) :
    (microEther wei : ℚ) / 10 ^ 6 * 10 ^ 18 ≤ wei.toNat ∧
      (wei.toNat : ℚ) < microEther wei / 10 ^ 6 * 10 ^ 18 + 10 ^ 12 := by
  have hscale : (microEther wei : ℚ) / 10 ^ 6 * 10 ^ 18 = (microEther wei * 10 ^ 12 : ℕ) := by
    push_cast
    ring
  have hle : microEther wei * 10 ^ 12 ≤ wei.toNat := Nat.div_mul_le_self _ _
  have hlt : wei.toNat < microEther wei * 10 ^ 12 + 10 ^ 12 := by
    unfold microEther
    omega
  rw [hscale]
  exact ⟨by exact_mod_cast hle, by exact_mod_cast hlt⟩

/-- An amount is written as a numeral, a point and six digits. The text is read as the amount in ether,
cut after six decimals: it is no more than the amount, and less by under `10 ^ 12` wei. Two amounts are
written alike exactly when they have the same whole micro-ether. -/
theorem formatEth_read_back (wei : Word) :
    IsEtherText (formatEth wei) ∧
    (∃ ether, fixedPoint? (formatEth wei) = some ether ∧
      ether = ((wei.toNat / 10 ^ 12 : ℕ) : ℚ) / 10 ^ 6 ∧
      ether * 10 ^ 18 ≤ wei.toNat ∧ (wei.toNat : ℚ) < ether * 10 ^ 18 + 10 ^ 12) ∧
    ∀ other, formatEth wei = formatEth other ↔ wei.toNat / 10 ^ 12 = other.toNat / 10 ^ 12 :=
  ⟨isEtherText_formatEth wei, ⟨_, fixedPoint?_formatEth wei, rfl, microEther_bounds wei⟩,
    fun _ => formatEth_inj_iff⟩

example : formatEth 1234567890000000000 = "1.234567" := by decide

end StakeOracle
