import StakeOracle.Numeric.Power

/-!
# 256-bit words

Amounts, fees and fixed-point prices are 256-bit words. Plain `+`, `-`, `*` and shifts wrap; the
operations here clamp at the greatest word, or say that the result does not fit. Each is given by
its value as a natural number.
-/

namespace StakeOracle

/-- An unsigned 256-bit number. -/
abbrev Word := BitVec 256

namespace Word

/-- One more than the greatest word. -/
abbrev bound : Nat := 2 ^ 256

/-- The word nearest to a natural number: itself, or the greatest word when it does not fit. -/
def clamp (n : Nat) : Word := BitVec.ofNat 256 (min n (bound - 1))

/-- The word that is a natural number, when there is one. -/
def fit? (n : Nat) : Option Word := if n < bound then some (BitVec.ofNat 256 n) else none

/-- The sum, clamped at the greatest word. -/
def addSat (a b : Word) : Word := clamp (a.toNat + b.toNat)

/-- The product, clamped at the greatest word. -/
def mulSat (a b : Word) : Word := clamp (a.toNat * b.toNat)

/-- The difference, clamped at zero. -/
def subSat (a b : Word) : Word := BitVec.ofNat 256 (a.toNat - b.toNat)

/-- The sum, when it fits. -/
def add? (a b : Word) : Option Word := fit? (a.toNat + b.toNat)

/-- The product, when it fits. -/
def mul? (a b : Word) : Option Word := fit? (a.toNat * b.toNat)

/-- The sum of a list, clamped at the greatest word after every term. -/
def sumSat (ws : List Word) : Word := ws.foldl addSat 0

/-- The exact sum of a list, as a natural number. -/
def total : List Word → Nat
  | [] => 0
  | w :: ws => w.toNat + total ws

/-- A 64-bit number as a word. -/
def ofUInt64 (n : UInt64) : Word := BitVec.ofNat 256 n.toNat

/-- The decimal numeral of a word. -/
def text (w : Word) : String := toString w.toNat

/-- Every word is below the bound. -/
theorem toNat_lt (w : Word) : w.toNat < bound := w.isLt

/-- A number is clamped at the greatest word. -/
@[simp] theorem toNat_clamp (n : Nat) : (clamp n).toNat = min n (bound - 1) := by
  simp only [clamp, BitVec.toNat_ofNat, bound]
  omega

/-- A number fits when it is that of a word. -/
theorem fit?_eq_some_iff {n : Nat} {w : Word} : fit? n = some w ↔ w.toNat = n := by
  unfold fit?
  split
  · rename_i h
    constructor
    · intro hw
      cases hw
      exact (BitVec.toNat_ofNat n 256).trans (Nat.mod_eq_of_lt h)
    · intro hw
      subst hw
      simp
  · rename_i h
    constructor
    · intro hw
      cases hw
    · intro hw
      exact absurd (hw ▸ toNat_lt w) h

/-- A number that reaches the bound does not fit, and no other. -/
theorem fit?_eq_none_iff {n : Nat} : fit? n = none ↔ bound ≤ n := by
  unfold fit?
  split <;> simp <;> omega

/-- The sum as a natural number. -/
@[simp] theorem toNat_addSat (a b : Word) :
    (addSat a b).toNat = min (a.toNat + b.toNat) (bound - 1) := toNat_clamp _

/-- The product as a natural number. -/
@[simp] theorem toNat_mulSat (a b : Word) :
    (mulSat a b).toNat = min (a.toNat * b.toNat) (bound - 1) := toNat_clamp _

/-- The difference as a natural number, where it stops at zero too. -/
@[simp] theorem toNat_subSat (a b : Word) : (subSat a b).toNat = a.toNat - b.toNat := by
  have := toNat_lt a
  simp only [subSat, BitVec.toNat_ofNat, bound] at *
  omega

/-- A counter is the same number as a word. -/
@[simp] theorem toNat_ofUInt64 (n : UInt64) : (ofUInt64 n).toNat = n.toNat := by
  have := n.toNat_lt
  simp only [ofUInt64, BitVec.toNat_ofNat]
  omega

/-- Clamping after every term or once at the end gives the same total. -/
theorem toNat_sumSat (ws : List Word) : (sumSat ws).toNat = min (total ws) (bound - 1) := by
  suffices h : ∀ (acc : Word) (n : Nat), acc.toNat = min n (bound - 1) →
      (ws.foldl addSat acc).toNat = min (n + total ws) (bound - 1) by
    simpa [sumSat] using h 0 0 (by simp)
  induction ws with
  | nil => intro acc n h; simpa [total] using h
  | cons w ws ih =>
    intro acc n h
    rw [List.foldl_cons, ih (addSat acc w) (n + w.toNat), total, Nat.add_assoc]
    rw [toNat_addSat, h]
    omega

end Word

end StakeOracle
