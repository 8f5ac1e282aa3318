import Mathlib.Data.Set.Operations
import Mathlib.Order.Bounds.Defs
import StakeOracle.Beacon.Timing

/-!
# The gate of finality is one comparison

The gate stops a difference at zero, divides it twice and compares the quotient. In natural numbers
that is one comparison of the block time with the end of the finalized epoch, a time that need not
fit a counter. So earlier blocks and later finalized epochs keep what was final, and nothing on the
way wraps around or is divided by zero, whatever the timing.
-/

/-- The difference, when it is not below zero. -/
def UInt64.sub? (a b : UInt64) : Option UInt64 := if b ≤ a then some (a - b) else none

/-- The whole quotient, when the divisor is not zero. -/
def UInt64.div? (a b : UInt64) : Option UInt64 := if b = 0 then none else some (a / b)

namespace StakeOracle

namespace Finality

/-- The position of the block that the gate was asked about. -/
def position : Finality → Position
  | finalized position => position
  | pending position _ => position

/-- The gate lets the block through. -/
def IsFinal : Finality → Prop
  | finalized _ => True
  | pending .. => False

end Finality

namespace BeaconTiming

variable {timing : BeaconTiming} {blockTime earlier : UInt64} {head : BeaconHead}

/-- The gate answers for the position of the block time. -/
theorem position_finality :
    (timing.finality blockTime head).position = timing.positionOf blockTime := by
  unfold finality
  dsimp only
  split
  · rfl
  · rfl

/-- A block is final when its epoch is not ahead of the finalized one. -/
theorem isFinal_finality_iff : (timing.finality blockTime head).IsFinal ↔
    (timing.positionOf blockTime).epoch ≤ head.finalizedEpoch := by
  unfold finality
  dsimp only
  split
  · rename_i hahead
    exact iff_of_false id (UInt64.not_le.mpr hahead)
  · rename_i hreached
    exact iff_of_true trivial (UInt64.not_lt.mp hreached)

/-! ## Positions in natural numbers -/

/-- From genesis on, the slot is the last one that has begun. -/
theorem isGreatest_slot (hseconds : timing.secondsPerSlot ≠ 0)
    (hgenesis : timing.genesisTime ≤ blockTime) :
    IsGreatest {slot : Nat | timing.genesisTime.toNat + slot * timing.secondsPerSlot.toNat ≤
      blockTime.toNat} (timing.positionOf blockTime).slot.toNat := by
  have hbegun : timing.genesisTime.toNat ≤ blockTime.toNat := UInt64.le_iff_toNat_le.mp hgenesis
  rw [toNat_slot_positionOf]
  constructor
  · have helapsed := Nat.div_mul_le_self (blockTime.toNat - timing.genesisTime.toNat)
      timing.secondsPerSlot.toNat
    rw [Set.mem_ofPred_eq]
    omega
  · intro slot hslot
    rw [Set.mem_ofPred_eq] at hslot
    rw [Nat.le_div_iff_mul_le (toNat_pos_of_ne_zero hseconds)]
    omega

/-- Before genesis it is slot zero. -/
theorem slot_before_genesis (hgenesis : blockTime < timing.genesisTime) :
    (timing.positionOf blockTime).slot = 0 := by
  have hnone : blockTime.toNat - timing.genesisTime.toNat = 0 :=
    Nat.sub_eq_zero_of_le (Nat.le_of_lt (UInt64.lt_iff_toNat_lt.mp hgenesis))
  apply UInt64.toNat_inj.mp
  rw [toNat_slot_positionOf, hnone, Nat.zero_div]
  rfl

/-- The slot lies in its epoch. -/
theorem slot_in_epoch (hslots : timing.slotsPerEpoch ≠ 0) :
    let position := timing.positionOf blockTime
    position.epoch.toNat * timing.slotsPerEpoch.toNat ≤ position.slot.toNat ∧
      position.slot.toNat < (position.epoch.toNat + 1) * timing.slotsPerEpoch.toNat := by
  intro position
  rw [toNat_epoch_positionOf]
  constructor
  · exact Nat.div_mul_le_self _ _
  · exact Nat.lt_mul_of_div_lt (Nat.lt_succ_self _) (toNat_pos_of_ne_zero hslots)

/-- A block belongs to an epoch or an earlier one when its time lies before that epoch's end. -/
theorem epoch_le_iff (hseconds : timing.secondsPerSlot ≠ 0) (hslots : timing.slotsPerEpoch ≠ 0)
    (epoch : UInt64) : (timing.positionOf blockTime).epoch ≤ epoch ↔
      blockTime.toNat < timing.genesisTime.toNat +
        (epoch.toNat + 1) * timing.slotsPerEpoch.toNat * timing.secondsPerSlot.toNat := by
  have hlength : 0 < timing.slotsPerEpoch.toNat * timing.secondsPerSlot.toNat :=
    Nat.mul_pos (toNat_pos_of_ne_zero hslots) (toNat_pos_of_ne_zero hseconds)
  have hend : 0 < (epoch.toNat + 1) * (timing.slotsPerEpoch.toNat * timing.secondsPerSlot.toNat) :=
    Nat.mul_pos (Nat.succ_pos _) hlength
  rw [UInt64.le_iff_toNat_le, toNat_epoch_positionOf, toNat_slot_positionOf,
    Nat.div_div_eq_div_mul, Nat.mul_comm timing.secondsPerSlot.toNat, ← Nat.lt_add_one_iff,
    Nat.div_lt_iff_lt_mul hlength, Nat.mul_assoc]
  omega

/-- Earlier blocks do not belong to later epochs. -/
theorem epoch_mono (h : earlier ≤ blockTime) :
    (timing.positionOf earlier).epoch ≤ (timing.positionOf blockTime).epoch := by
  rw [UInt64.le_iff_toNat_le] at h ⊢
  rw [toNat_epoch_positionOf, toNat_epoch_positionOf, toNat_slot_positionOf, toNat_slot_positionOf]
  exact Nat.div_le_div_right (Nat.div_le_div_right (Nat.sub_le_sub_right h _))

/-! ## Positions by operations that may be refused -/

/-- The position of a block time where a difference below zero and a quotient by zero are refused. No
difference is taken of a time before genesis, and nothing is divided by a parameter that is zero. -/
def positionOf? (timing : BeaconTiming) (blockTime : UInt64) : Option Position :=
  (if timing.genesisTime ≤ blockTime then blockTime.sub? timing.genesisTime else some 0).bind
    fun elapsed =>
  (if timing.secondsPerSlot = 0 then some 0 else elapsed.div? timing.secondsPerSlot).bind
    fun slot =>
  (if timing.slotsPerEpoch = 0 then some 0 else slot.div? timing.slotsPerEpoch).map
    fun epoch => ⟨slot, epoch⟩

/-- Behind its guard, a difference is never refused. -/
theorem guarded_sub? (a b : UInt64) :
    (if b ≤ a then a.sub? b else some 0) = some (a.subSat b) := by
  unfold UInt64.sub? UInt64.subSat
  split
  · rfl
  · rfl

/-- Behind its guard, a quotient is never refused. -/
theorem guarded_div? (a b : UInt64) :
    (if b = 0 then some 0 else a.div? b) = some (a.divOrZero b) := by
  unfold UInt64.div? UInt64.divOrZero
  split
  · rfl
  · rfl

/-- Nothing is refused on the way to a position. -/
theorem positionOf?_eq_some (timing : BeaconTiming) (blockTime : UInt64) :
    timing.positionOf? blockTime = some (timing.positionOf blockTime) := by
  rw [positionOf?, guarded_sub?, Option.bind_some, guarded_div?, Option.bind_some,
    guarded_div?, Option.map_some]
  rfl

/-! ## The gate -/

/-- For slots and epochs of some length, the gate lets a block through exactly when its time lies
before the end of the finalized epoch. It answers for the last slot that has begun, or slot zero
before genesis, and for the epoch of that slot. For any timing, what is final stays so for earlier
blocks and later finalized epochs, and no operation on the way to the position is refused. -/
theorem finality_iff_before_end (timing : BeaconTiming) (blockTime : UInt64) (head : BeaconHead) :
    let gate := timing.finality blockTime head
    let genesis := timing.genesisTime.toNat
    let seconds := timing.secondsPerSlot.toNat
    let slots := timing.slotsPerEpoch.toNat
    (timing.secondsPerSlot ≠ 0 → timing.slotsPerEpoch ≠ 0 →
      (gate.IsFinal ↔
        blockTime.toNat < genesis + (head.finalizedEpoch.toNat + 1) * slots * seconds) ∧
      (timing.genesisTime ≤ blockTime →
        IsGreatest {k : Nat | genesis + k * seconds ≤ blockTime.toNat} gate.position.slot.toNat) ∧
      (blockTime < timing.genesisTime → gate.position.slot = 0) ∧
      gate.position.epoch.toNat * slots ≤ gate.position.slot.toNat ∧
      gate.position.slot.toNat < (gate.position.epoch.toNat + 1) * slots) ∧
    (gate.IsFinal → ∀ earlier later, earlier ≤ blockTime →
      head.finalizedEpoch ≤ later.finalizedEpoch → (timing.finality earlier later).IsFinal) ∧
    timing.positionOf? blockTime = some gate.position := by
  intro gate genesis seconds slots
  have hposition : gate.position = timing.positionOf blockTime := position_finality
  rw [hposition]
  refine ⟨fun hseconds hslots => ⟨?_, isGreatest_slot hseconds, slot_before_genesis,
    slot_in_epoch hslots⟩, ?_, positionOf?_eq_some timing blockTime⟩
  · exact isFinal_finality_iff.trans (epoch_le_iff hseconds hslots head.finalizedEpoch)
  · intro hfinal earlier later hearlier hlater
    have hreached := isFinal_finality_iff.mp hfinal
    apply isFinal_finality_iff.mpr
    exact UInt64.le_trans (epoch_mono hearlier) (UInt64.le_trans hreached hlater)

/-- The last second of the finalized epoch passes the gate, and the next one does not. -/
theorem finality_at_end_of_epoch :
    let timing : BeaconTiming := ⟨1000, 12, 32⟩
    (timing.secondsPerSlot ≠ 0 ∧ timing.slotsPerEpoch ≠ 0) ∧
      (timing.finality 5223 ⟨12, 10⟩).IsFinal ∧ ¬ (timing.finality 5224 ⟨12, 10⟩).IsFinal := by
  intro timing
  have hseconds : timing.secondsPerSlot ≠ 0 := by decide
  have hslots : timing.slotsPerEpoch ≠ 0 := by decide
  have hlast := ((finality_iff_before_end timing 5223 ⟨12, 10⟩).1 hseconds hslots).1
  have hnext := ((finality_iff_before_end timing 5224 ⟨12, 10⟩).1 hseconds hslots).1
  refine ⟨⟨hseconds, hslots⟩, hlast.mpr (by decide), fun hfinal => ?_⟩
  exact absurd (hnext.mp hfinal) (by decide)

end BeaconTiming

end StakeOracle
