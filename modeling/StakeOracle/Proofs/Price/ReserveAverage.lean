import StakeOracle.Proofs.Price.PoolHistory

/-!
# The time-weighted price of reserves is the true average

Words keep the accumulated price modulo `2 ^ 256`, and the pool keeps times modulo `2 ^ 32`. Within
`2 ^ 32` seconds from the first update, what the words hold is the start plus the exact accumulated
price, modulo `2 ^ 256`. The difference of two observations is then exactly the sum of their window.
-/

namespace StakeOracle

/-- Seconds between two times less than `2 ^ 32` seconds apart, counted modulo `2 ^ 32`. -/
theorem toNat_sub_toUInt32 {earlier later : UInt64} (hle : earlier.toNat ≤ later.toNat)
    (hspan : later.toNat - earlier.toNat < 2 ^ 32) :
    (later.toUInt32 - earlier.toUInt32).toNat = later.toNat - earlier.toNat := by
  rw [UInt32.toNat_sub, UInt64.toNat_toUInt32, UInt64.toNat_toUInt32]
  omega

/-- The price of reserves in words is the exact spot price: scaling 112 bits by `2 ^ 112` fits. -/
theorem toNat_spotPrice {token0 : Bool} {update : PoolUpdate} (h : update.Priced token0) :
    (spotPrice (update.quote token0) (update.token token0)).toNat = update.spot token0 := by
  have hquote := h.quote_lt
  rw [spotPrice, BitVec.toNat_udiv, BitVec.toNat_shiftLeft, Nat.shiftLeft_eq,
    Nat.mod_eq_of_lt (by omega)]
  rfl

/-- An accumulated price is brought forward by the spot price for every second since the update. -/
theorem extrapolate_eq {token0 : Bool} {update : PoolUpdate} (h : update.Priced token0)
    (cumulative : Word) {t : UInt64} (hle : update.time.toNat ≤ t.toNat)
    (hspan : t.toNat - update.time.toNat < 2 ^ 32) :
    extrapolate cumulative update.reserves token0 t =
      .ok (cumulative + BitVec.ofNat 256
        (update.spot token0 * (t.toNat - update.time.toNat))) := by
  have helapsed := toNat_sub_toUInt32 hle hspan
  have htoken : update.token token0 ≠ 0 := by
    intro hzero
    have hpos := h.token_pos
    rw [hzero] at hpos
    exact absurd hpos (by decide)
  unfold extrapolate
  by_cases hnow : update.reserves.lastUpdate = t.toUInt32
  · have hsame : t.toNat - update.time.toNat = 0 := by
      rw [← helapsed, ← hnow]
      simp [PoolUpdate.reserves]
    rw [if_pos hnow, hsame, Nat.mul_zero]
    exact congrArg Except.ok (BitVec.add_zero cumulative).symm
  · rw [if_neg hnow]
    change (if update.token token0 = 0 then Except.error ReportError.emptyReserve
      else Except.ok (cumulative + spotPrice (update.quote token0) (update.token token0) *
        BitVec.ofNat 256 (t.toUInt32 - update.time.toUInt32).toNat)) = _
    rw [if_neg htoken, helapsed, BitVec.ofNat_mul, ← toNat_spotPrice h, BitVec.ofNat_toNat,
      BitVec.setWidth_eq]

namespace PoolHistory

variable {token0 : Bool} (h : PoolHistory token0)

/-- The accumulated price that the pool stores with each update: the one before, brought forward
to the time of the update. -/
def stored : ℕ → Except ReportError Word
  | 0 => .ok h.start
  | i + 1 => do extrapolate (← stored i) (h.update i).reserves token0 (h.update (i + 1)).time

/-- The observation at the time of a block: the latest update, brought forward to that time. -/
def observation (block time : UInt64) : Except ReportError CumulativeObservation := do
  let i := h.latest time.toNat
  return ⟨block, time, ← extrapolate (← h.stored i) (h.update i).reserves token0 time⟩

/-- The exact accumulated price at an update: the closed segments before it. -/
def reached (i : ℕ) : ℕ := ∑ j ∈ Finset.range i, h.spot j * (h.time (j + 1) - h.time j)

/-- Every update within `2 ^ 32` seconds of the first stores the start and what was reached. -/
theorem stored_eq {i : ℕ} (hi : i ≤ h.last) (hspan : h.time i - h.time 0 < 2 ^ 32) :
    h.stored i = .ok (h.start + BitVec.ofNat 256 (h.reached i)) := by
  induction i with
  | zero => simp [stored, reached]
  | succ i ih =>
    have hfirst := h.time_mono (Nat.zero_le i) (by omega)
    have hnext := h.time_le_succ hi
    rw [stored, ih (by omega) (by omega)]
    change extrapolate _ _ token0 _ = _
    rw [extrapolate_eq (h.priced i (by omega)) _ hnext (by
      change h.time (i + 1) - h.time i < 2 ^ 32
      omega)]
    rw [BitVec.add_assoc, ← BitVec.ofNat_add]
    unfold reached
    rw [Finset.sum_range_succ]
    rfl

/-- An observation within `2 ^ 32` seconds of the first update succeeds, and holds the start and the
exact accumulated price. -/
theorem observation_eq (block : UInt64) {t : UInt64} (ht : h.time 0 ≤ t.toNat)
    (hspan : t.toNat - h.time 0 < 2 ^ 32) :
    h.observation block t =
      .ok ⟨block, t, h.start + BitVec.ofNat 256 (h.accumulated t.toNat)⟩ := by
  have hlast := h.latest_le t.toNat
  have hfirst := h.time_mono (Nat.zero_le _) hlast
  have hlatest := h.time_latest_le ht
  have hsum : h.accumulated t.toNat = h.reached (h.latest t.toNat) +
      h.spot (h.latest t.toNat) * (t.toNat - h.time (h.latest t.toNat)) := h.sum_held h.spot ht
  rw [observation, h.stored_eq hlast (by omega)]
  change (extrapolate _ _ token0 t).bind _ = _
  rw [extrapolate_eq (h.priced _ hlast) _ hlatest (by
    change t.toNat - h.time (h.latest t.toNat) < 2 ^ 32
    omega)]
  rw [hsum, BitVec.ofNat_add, ← BitVec.add_assoc]
  rfl

/-- Two words that start alike differ by what was added in between. -/
theorem toNat_add_sub_add (start : Word) {n m : ℕ} (hle : n ≤ m) (hlt : m < 2 ^ 256) :
    ((start + BitVec.ofNat 256 m) - (start + BitVec.ofNat 256 n)).toNat = m - n := by
  simp only [BitVec.toNat_sub, BitVec.toNat_add, BitVec.toNat_ofNat]
  omega

/-- A history that starts at the greatest accumulated price, ten seconds before times wrap. -/
def wrapping : PoolHistory true where
  start := BitVec.allOnes 256
  last := 1
  update i := if i = 0 then ⟨4294967286, 1000, 4000⟩ else ⟨4294967306, 1000, 6000⟩
  ordered i hi := by
    rw [Nat.lt_one_iff.mp hi]
    decide
  priced i _ := by
    by_cases hzero : i = 0
    · rw [if_pos hzero]
      exact ⟨by decide, by decide⟩
    · rw [if_neg hzero]
      exact ⟨by decide, by decide⟩

end PoolHistory

end StakeOracle
