import Mathlib.Algebra.BigOperators.Group.Finset.Basic
import Mathlib.Algebra.BigOperators.Ring.Finset
import Mathlib.Algebra.Order.BigOperators.Group.Finset
import Mathlib.Data.Nat.Find
import StakeOracle.Price.Reserve

/-!
# The history of a pool and the exact price that accumulates over it

A pool is updated at times that never go back, and between two updates its price stands still. The
exact accumulated price is the sum over all updates of the price times the seconds for which it held.
Up to any time this is the sum over the closed segments before the latest update and an open rest.
-/

namespace StakeOracle

open Finset

/-- An update of a pool: the reserves that it leaves, and when. -/
structure PoolUpdate where
  time : UInt64
  reserve0 : Word
  reserve1 : Word

namespace PoolUpdate

/-- The reserves as the pool keeps them, with the time modulo `2 ^ 32`. -/
def reserves (update : PoolUpdate) : PoolReserves :=
  ⟨update.reserve0, update.reserve1, update.time.toUInt32⟩

/-- The reserve of the reward token. -/
def token (token0 : Bool) (update : PoolUpdate) : Word := (update.reserves.sides token0).1

/-- The reserve that the reward token is priced in. -/
def quote (token0 : Bool) (update : PoolUpdate) : Word := (update.reserves.sides token0).2

/-- The exact spot price as a UQ112.112 number, rounded down. -/
def spot (token0 : Bool) (update : PoolUpdate) : ℕ :=
  (update.quote token0).toNat * 2 ^ 112 / (update.token token0).toNat

/-- The reserve of the reward token is not empty, and the other one has 112 bits. -/
structure Priced (token0 : Bool) (update : PoolUpdate) : Prop where
  token_pos : 0 < (update.token token0).toNat
  quote_lt : (update.quote token0).toNat < 2 ^ 112

/-- Spot prices have 224 bits. -/
theorem Priced.spot_lt {token0 : Bool} {update : PoolUpdate} (h : update.Priced token0) :
    update.spot token0 < 2 ^ 224 := by
  have hquote := h.quote_lt
  have hscaled : (update.quote token0).toNat * 2 ^ 112 < 2 ^ 224 := by omega
  exact (Nat.div_le_self _ _).trans_lt hscaled

end PoolUpdate

/-- The updates of a pool from number zero to the last one, as the price of one of its tokens sees
them. The accumulated price may start anywhere. -/
structure PoolHistory (token0 : Bool) where
  start : Word
  last : ℕ
  update : ℕ → PoolUpdate
  ordered : ∀ i < last, (update i).time ≤ (update (i + 1)).time
  priced : ∀ i ≤ last, (update i).Priced token0

namespace PoolHistory

variable {token0 : Bool} (h : PoolHistory token0)

/-- The time of an update in seconds. -/
def time (i : ℕ) : ℕ := (h.update i).time.toNat

/-- The spot price from an update on. -/
def spot (i : ℕ) : ℕ := (h.update i).spot token0

/-- When an update stops governing the price, seen from time `q`: at the next update, or not yet. -/
def expiry (q i : ℕ) : ℕ := if i < h.last then min (h.time (i + 1)) q else q

/-- The seconds of the window from `p` to `q` that an update governs. -/
def governed (p q i : ℕ) : ℕ := h.expiry q i - max (h.time i) p

/-- The seconds that an update governs until `q`. -/
def held (q i : ℕ) : ℕ := h.expiry q i - h.time i

/-- The number of the latest update at or before a time. -/
def latest (t : ℕ) : ℕ := Nat.findGreatest (fun i => h.time i ≤ t) h.last

/-- An update is not before the one that precedes it. -/
theorem time_le_succ {i : ℕ} (hi : i < h.last) : h.time i ≤ h.time (i + 1) :=
  UInt64.le_iff_toNat_le.mp (h.ordered i hi)

/-- Later updates have later times. -/
theorem time_mono {i j : ℕ} (hij : i ≤ j) (hj : j ≤ h.last) : h.time i ≤ h.time j := by
  induction j with
  | zero => rw [Nat.le_zero.mp hij]
  | succ j ih =>
    rcases Nat.lt_or_ge j i with hlt | hle
    · rw [Nat.le_antisymm hij hlt]
    · exact (ih hle (by omega)).trans (h.time_le_succ hj)

/-- What an update governs until `q`, it governs until `p` or in between. -/
theorem held_add_governed {p q : ℕ} (hpq : p ≤ q) (i : ℕ) :
    h.held p i + h.governed p q i = h.held q i := by
  unfold held governed expiry
  by_cases hlast : i < h.last
  · have hnext := h.time_le_succ hlast
    rw [if_pos hlast, if_pos hlast]
    omega
  · rw [if_neg hlast, if_neg hlast]
    omega

/-- The latest update is one of the history. -/
theorem latest_le (t : ℕ) : h.latest t ≤ h.last := Nat.findGreatest_le h.last

/-- The latest update has happened, once the first one has. -/
theorem time_latest_le {t : ℕ} (ht : h.time 0 ≤ t) : h.time (h.latest t) ≤ t :=
  Nat.findGreatest_spec (P := fun i => h.time i ≤ t) (Nat.zero_le h.last) ht

/-- Updates after the latest one are still to come. -/
theorem lt_time_of_latest_lt {t i : ℕ} (hi : h.latest t < i) (hlast : i ≤ h.last) : t < h.time i :=
  Nat.lt_of_not_le (Nat.findGreatest_is_greatest (P := fun i => h.time i ≤ t) hi hlast)

/-- An update before the latest one governs until the next. -/
theorem held_of_lt_latest {t i : ℕ} (ht : h.time 0 ≤ t) (hi : i < h.latest t) :
    h.held t i = h.time (i + 1) - h.time i := by
  have hlast := h.latest_le t
  have hnext := (h.time_mono hi hlast).trans (h.time_latest_le ht)
  rw [held, expiry, if_pos (by omega), Nat.min_eq_left hnext]

/-- The latest update governs until now. -/
theorem held_latest (t : ℕ) : h.held t (h.latest t) = t - h.time (h.latest t) := by
  unfold held expiry
  by_cases hlast : h.latest t < h.last
  · have hnext := h.lt_time_of_latest_lt (Nat.lt_succ_self (h.latest t)) hlast
    rw [if_pos hlast, Nat.min_eq_right hnext.le]
  · rw [if_neg hlast]

/-- An update to come governs nothing yet. -/
theorem held_of_latest_lt {t i : ℕ} (hi : h.latest t < i) (hlast : i ≤ h.last) :
    h.held t i = 0 := by
  have hlater := h.lt_time_of_latest_lt hi hlast
  unfold held expiry
  split
  · omega
  · omega

/-- Weighted seconds until a time are those of the closed segments and of the open rest. -/
theorem sum_held (weight : ℕ → ℕ) {t : ℕ} (ht : h.time 0 ≤ t) :
    ∑ i ∈ range (h.last + 1), weight i * h.held t i =
      (∑ i ∈ range (h.latest t), weight i * (h.time (i + 1) - h.time i)) +
        weight (h.latest t) * (t - h.time (h.latest t)) := by
  have hlast := h.latest_le t
  have hfuture : ∑ i ∈ range (h.last + 1), weight i * h.held t i =
      ∑ i ∈ range (h.latest t + 1), weight i * h.held t i := by
    refine (sum_subset (range_subset_range.mpr (by omega)) ?_).symm
    intro i hi hpast
    rw [mem_range] at hi hpast
    rw [h.held_of_latest_lt (by omega) (by omega), Nat.mul_zero]
  rw [hfuture, sum_range_succ, h.held_latest]
  congr 1
  refine sum_congr rfl ?_
  intro i hi
  rw [h.held_of_lt_latest ht (mem_range.mp hi)]

/-- The updates up to a time govern all seconds from the first update on. -/
theorem sum_held_eq {t : ℕ} (ht : h.time 0 ≤ t) :
    ∑ i ∈ range (h.last + 1), h.held t i = t - h.time 0 := by
  have hsegments (k : ℕ) (hk : k ≤ h.last) :
      ∑ i ∈ range k, 1 * (h.time (i + 1) - h.time i) = h.time k - h.time 0 := by
    induction k with
    | zero => simp
    | succ k ih =>
      have hfirst := h.time_mono (Nat.zero_le k) (by omega)
      have hnext := h.time_le_succ hk
      rw [sum_range_succ, ih (by omega)]
      omega
  have hsum := h.sum_held (fun _ => 1) ht
  have hfirst := h.time_mono (Nat.zero_le (h.latest t)) (h.latest_le t)
  have hlatest := h.time_latest_le ht
  simp only [Nat.one_mul] at hsum hsegments
  rw [hsum, hsegments _ (h.latest_le t)]
  omega

/-- The exact accumulated price from the first update until a time. -/
def accumulated (t : ℕ) : ℕ := ∑ i ∈ range (h.last + 1), h.spot i * h.held t i

/-- The exact sum of the prices of a window, each for the seconds that it governs. -/
def windowSum (p q : ℕ) : ℕ := ∑ i ∈ range (h.last + 1), h.spot i * h.governed p q i

/-- The accumulated price grows by the sum of the window. -/
theorem accumulated_add_windowSum {p q : ℕ} (hpq : p ≤ q) :
    h.accumulated p + h.windowSum p q = h.accumulated q := by
  unfold accumulated windowSum
  rw [← sum_add_distrib]
  refine sum_congr rfl ?_
  intro i _
  rw [← Nat.mul_add, h.held_add_governed hpq i]

/-- Over less than `2 ^ 32` seconds, the exact accumulated price stays below `2 ^ 256`. -/
theorem accumulated_lt {t : ℕ} (ht : h.time 0 ≤ t) (hspan : t - h.time 0 < 2 ^ 32) :
    h.accumulated t < 2 ^ 256 := by
  have hbound : h.accumulated t ≤ ∑ i ∈ range (h.last + 1), 2 ^ 224 * h.held t i := by
    refine sum_le_sum ?_
    intro i hi
    have hspot := (h.priced i (Nat.lt_succ_iff.mp (mem_range.mp hi))).spot_lt
    exact Nat.mul_le_mul_right _ hspot.le
  rw [← mul_sum, h.sum_held_eq ht] at hbound
  omega

end PoolHistory

end StakeOracle
