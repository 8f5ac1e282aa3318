import StakeOracle.Numeric.Counter

/-!
# Positions on the beacon chain

A block time belongs to a slot and the slot to an epoch. A checkpoint is final once its epoch is
not ahead of the latest finalized epoch. Times before genesis belong to slot zero, and so does
every time when a timing parameter is zero.
-/

namespace StakeOracle

/-- The timing parameters of the beacon chain. -/
structure BeaconTiming where
  genesisTime : UInt64
  secondsPerSlot : UInt64
  slotsPerEpoch : UInt64
  deriving DecidableEq, Repr

/-- The epoch of the head and the latest finalized epoch. -/
structure BeaconHead where
  epoch : UInt64
  finalizedEpoch : UInt64
  deriving DecidableEq, Repr

/-- The slot and epoch of a block. -/
structure Position where
  slot : UInt64
  epoch : UInt64
  deriving DecidableEq, Repr

/-- Whether a checkpoint may be reported. -/
inductive Finality where
  | finalized (position : Position)
  | pending (position : Position) (finalizedEpoch : UInt64)
  deriving DecidableEq, Repr

namespace BeaconTiming

/-- The slot and epoch that a block time belongs to. -/
def positionOf (timing : BeaconTiming) (blockTime : UInt64) : Position :=
  let slot := (blockTime.subSat timing.genesisTime).divOrZero timing.secondsPerSlot
  ⟨slot, slot.divOrZero timing.slotsPerEpoch⟩

/-- The finality of a block by its time. -/
def finality (timing : BeaconTiming) (blockTime : UInt64) (head : BeaconHead) : Finality :=
  let position := timing.positionOf blockTime
  if position.epoch > head.finalizedEpoch then .pending position head.finalizedEpoch
  else .finalized position

/-- The slot of a block counts whole slots since genesis. -/
theorem toNat_slot_positionOf (timing : BeaconTiming) (blockTime : UInt64) :
    (timing.positionOf blockTime).slot.toNat =
      (blockTime.toNat - timing.genesisTime.toNat) / timing.secondsPerSlot.toNat := by
  simp [positionOf]

/-- The epoch of a block counts whole epochs up to its slot. -/
theorem toNat_epoch_positionOf (timing : BeaconTiming) (blockTime : UInt64) :
    (timing.positionOf blockTime).epoch.toNat =
      (timing.positionOf blockTime).slot.toNat / timing.slotsPerEpoch.toNat := by
  simp [positionOf]

end BeaconTiming

end StakeOracle
