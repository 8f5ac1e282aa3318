import StakeOracle.Numeric.Power

/-!
# 64-bit counters

Blocks, times, slots, epochs and gas are 64-bit counters. The operations here stop at the ends of
the range and treat a zero divisor as a case of its own; each is given by its value as a natural
number.
-/

/-- The sum, stopped at the greatest counter. -/
def UInt64.addSat (a b : UInt64) : UInt64 := UInt64.ofNatClamp (a.toNat + b.toNat)

/-- The product, stopped at the greatest counter. -/
def UInt64.mulSat (a b : UInt64) : UInt64 := UInt64.ofNatClamp (a.toNat * b.toNat)

/-- The difference, stopped at zero. -/
def UInt64.subSat (a b : UInt64) : UInt64 := if b ≤ a then a - b else 0

/-- The whole quotient, or zero when the divisor is zero. -/
def UInt64.divOrZero (a b : UInt64) : UInt64 := if b = 0 then 0 else a / b

/-- The greatest counter. -/
def UInt64.greatest : UInt64 := 0xffffffffffffffff

namespace StakeOracle

/-- A counter that is not zero is positive. -/
theorem toNat_pos_of_ne_zero {n : UInt64} (h : n ≠ 0) : 0 < n.toNat :=
  Nat.pos_of_ne_zero fun hzero => h (UInt64.toNat_inj.mp hzero)

/-- A number is clamped at the greatest counter. -/
theorem toNat_ofNatClamp (n : Nat) : (UInt64.ofNatClamp n).toNat = min n (2 ^ 64 - 1) := by
  unfold UInt64.ofNatClamp
  split
  · rename_i h
    simp only [UInt64.size] at h
    simp only [UInt64.toNat_ofNatLT]
    omega
  · rename_i h
    simp only [UInt64.size] at h
    simp only [UInt64.toNat_ofNatLT, UInt64.size]
    omega

/-- The sum as a natural number. -/
@[simp] theorem toNat_addSat (a b : UInt64) :
    (a.addSat b).toNat = min (a.toNat + b.toNat) (2 ^ 64 - 1) := toNat_ofNatClamp _

/-- The product as a natural number. -/
@[simp] theorem toNat_mulSat (a b : UInt64) :
    (a.mulSat b).toNat = min (a.toNat * b.toNat) (2 ^ 64 - 1) := toNat_ofNatClamp _

/-- The difference as a natural number, where it stops at zero too. -/
@[simp] theorem toNat_subSat (a b : UInt64) : (a.subSat b).toNat = a.toNat - b.toNat := by
  unfold UInt64.subSat
  split
  · rename_i h
    exact UInt64.toNat_sub_of_le _ _ h
  · rename_i h
    have : ¬ b.toNat ≤ a.toNat := fun hle => h (UInt64.le_iff_toNat_le.2 hle)
    simp only [UInt64.toNat_zero]
    omega

/-- The quotient as a natural number, where a zero divisor gives zero too. -/
@[simp] theorem toNat_divOrZero (a b : UInt64) : (a.divOrZero b).toNat = a.toNat / b.toNat := by
  unfold UInt64.divOrZero
  split
  · rename_i h
    subst h
    simp
  · exact UInt64.toNat_div _ _

end StakeOracle
