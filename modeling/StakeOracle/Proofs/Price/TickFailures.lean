import Mathlib.Data.Rat.Floor
import StakeOracle.Price.Source
import StakeOracle.Proofs.Batch.Batches
import StakeOracle.Proofs.Price.TickAccuracy

/-!
# When a mean tick has no price

A pool's observations lead to a price when there are two of them, their difference fits into 64 bits,
some time has passed between them, and the mean tick is in range; the first of these that does not
hold is the failure. For a tick in range nothing on the way to its price goes wrong: each factor is
multiplied in without wrapping, no divisor is zero, and the quotient fits into a word.
-/

namespace StakeOracle

/-! ## Products of roots -/

/-- A ratio with one more factor, truncated. -/
def multiplyRoot (ratio factor : Word) : Word := (ratio * factor) >>> 128

/-- The factors at the binary digits that are set. -/
def chosenFactors : List Word → Nat → List Word
  | [], _ => []
  | factor :: rest, m =>
    if m % 2 = 1 then factor :: chosenFactors rest (m / 2) else chosenFactors rest (m / 2)

/-- A product of roots multiplies in the chosen factors one by one. -/
theorem multiplyRoots_eq_foldl (factors : List Word) (m : Nat) (ratio : Word) :
    multiplyRoots factors m ratio = (chosenFactors factors m).foldl multiplyRoot ratio := by
  induction factors generalizing m ratio with
  | nil => rfl
  | cons factor rest ih =>
    rw [multiplyRoots, chosenFactors, ih]
    split
    · rfl
    · rfl

/-- Nothing but given factors is chosen. -/
theorem mem_of_mem_chosenFactors {factors : List Word} {m : Nat} {factor : Word}
    (h : factor ∈ chosenFactors factors m) : factor ∈ factors := by
  induction factors generalizing m with
  | nil => exact h
  | cons first rest ih =>
    rw [chosenFactors] at h
    split at h
    · exact (List.mem_cons.mp h).elim (fun heq => List.mem_cons.mpr (.inl heq))
        fun hrest => List.mem_cons_of_mem _ (ih hrest)
    · exact List.mem_cons_of_mem _ (ih h)

/-- Ratios stay at most one while factors are multiplied in. -/
theorem toNat_foldl_multiplyRoot_le {factors : List Word}
    (hfactors : ∀ factor ∈ factors, IsFactor factor) {ratio : Word} (hratio : ratio.toNat ≤ 2 ^ 128) :
    (factors.foldl multiplyRoot ratio).toNat ≤ 2 ^ 128 := by
  induction factors generalizing ratio with
  | nil => exact hratio
  | cons factor rest ih =>
    obtain ⟨hfactor, hrest⟩ := List.forall_mem_cons.mp hfactors
    refine ih hrest ?_
    rw [multiplyRoot, toNat_mul_shiftRight hratio hfactor]
    exact Nat.div_le_of_le_mul (Nat.mul_le_mul hratio hfactor.2.le)

/-- So no product of a ratio and a factor wraps. -/
theorem foldl_multiplyRoot_mul_lt {earlier later : List Word} {factor ratio : Word}
    (hfactors : ∀ chosen ∈ earlier ++ factor :: later, IsFactor chosen)
    (hratio : ratio.toNat ≤ 2 ^ 128) :
    (earlier.foldl multiplyRoot ratio).toNat * factor.toNat < Word.bound := by
  obtain ⟨hearlier, hrest⟩ := List.forall_mem_append.mp hfactors
  exact mul_lt_bound (toNat_foldl_multiplyRoot_le hearlier hratio)
    (List.forall_mem_cons.mp hrest).1

/-! ## Ticks in range -/

/-- The way from a tick to its price, with nothing lost but what is truncated: the factors are
multiplied in without wrapping, no divisor is zero, and the last quotient fits into a word. -/
structure ExactPrice (tick : ℤ) (ratio price : Word) : Prop where
  in_range : |tick| ≤ 887272
  root : computedRoot tick.natAbs =
    (chosenFactors rootFactors tick.natAbs).foldl multiplyRoot (1 <<< 128)
  products_lt : ∀ earlier factor later,
    chosenFactors rootFactors tick.natAbs = earlier ++ factor :: later →
      (earlier.foldl multiplyRoot (1 <<< 128)).toNat * factor.toNat < Word.bound
  root_pos : 0 < (computedRoot tick.natAbs).toNat
  sqrtRatio_eq : sqrtRatio tick = .ok ratio
  square_pos : 0 < ratio.toNat * ratio.toNat
  square_lt : ratio.toNat * ratio.toNat < Word.bound * Word.bound
  quotient_lt : 10 ^ 18 * 2 ^ 256 / (ratio.toNat * ratio.toNat) < Word.bound
  priceOfTick_eq : priceOfTick tick = .ok price
  toNat_price : price.toNat = 10 ^ 18 * 2 ^ 256 / (ratio.toNat * ratio.toNat)

/-- A tick is in range up to 887272 on either side. -/
theorem natAbs_le_maxTick_iff {tick : ℤ} : tick.natAbs ≤ maxTick ↔ |tick| ≤ 887272 := by
  rw [Int.abs_eq_natAbs, maxTick]
  omega

/-- Every tick in range has a price on such a way. -/
theorem exists_exactPrice {tick : ℤ} (h : |tick| ≤ 887272) :
    ∃ ratio price, ExactPrice tick ratio price := by
  obtain ⟨ratio, hratio, hbits, -⟩ := within_sqrtRatio (natAbs_le_maxTick_iff.mpr h)
  obtain ⟨price, hprice, hvalue⟩ := priceOfRoot_of_bits tick hbits
  have hfactors : ∀ factor ∈ chosenFactors rootFactors tick.natAbs, IsFactor factor :=
    fun factor hmem => isFactor_of_mem_rootFactors factor (mem_of_mem_chosenFactors hmem)
  obtain ⟨hroot, -, -⟩ := computedRoot_bounds tick.natAbs
  exact ⟨ratio, price, {
    in_range := h
    root := multiplyRoots_eq_foldl _ _ _
    products_lt := fun earlier factor later hchosen =>
      foldl_multiplyRoot_mul_lt (hchosen ▸ hfactors) (by decide)
    root_pos := by omega
    sqrtRatio_eq := hratio
    square_pos := Nat.mul_pos (by omega) (by omega)
    square_lt := Nat.mul_lt_mul'' (Word.toNat_lt ratio) (Word.toNat_lt ratio)
    quotient_lt := hvalue ▸ Word.toNat_lt price
    priceOfTick_eq := by
      rw [priceOfTick, hratio]
      exact hprice
    toNat_price := hvalue }⟩

/-- A tick out of range has none. -/
theorem priceOfTick_of_out_of_range {tick : ℤ} (h : 887272 < |tick|) :
    priceOfTick tick = .error (.tickOutOfRange tick) := by
  have hrange : maxTick < tick.natAbs := by
    rw [Int.abs_eq_natAbs] at h
    rw [maxTick]
    omega
  rw [priceOfTick, sqrtRatio, if_pos hrange]
  rfl

/-- So a price is that of a tick in range. -/
theorem exists_exactPrice_of_eq_ok {tick : ℤ} {price : Word} (h : priceOfTick tick = .ok price) :
    ∃ ratio, ExactPrice tick ratio price := by
  rcases le_or_gt |tick| 887272 with hrange | hrange
  · obtain ⟨ratio, found, hexact⟩ := exists_exactPrice hrange
    obtain rfl : price = found := Except.ok.inj (h.symm.trans hexact.priceOfTick_eq)
    exact ⟨ratio, hexact⟩
  · rw [priceOfTick_of_out_of_range hrange] at h
    cases h

/-! ## Mean ticks -/

/-- A difference that fits into 64 bits with a sign. -/
def FitsInt64 (n : ℤ) : Prop := -2 ^ 63 ≤ n ∧ n < 2 ^ 63

instance : DecidablePred FitsInt64 := fun _ => inferInstanceAs (Decidable (_ ∧ _))

/-- The change of the cumulative per second of a window, rounded down. -/
def floorTick (change : ℤ) (window : UInt32) : ℤ := ⌊(change : ℚ) / window.toNat⌋

/-- Flooring division gives the mean tick. -/
theorem fdiv_eq_floorTick (change : ℤ) (window : UInt32) :
    change.fdiv window.toNat = floorTick change window := by
  rw [floorTick, Rat.floor_intCast_div_natCast, Int.fdiv_eq_ediv_of_nonneg _ (by omega)]

/-- Without two cumulatives there is no mean tick. -/
theorem meanTick_of_length_lt {cumulatives : List Int64} (h : cumulatives.length < 2)
    (window : UInt32) :
    meanTick cumulatives window = .error (.insufficientObservations cumulatives.length) := by
  match cumulatives, h with
  | [], _ => rfl
  | [_], _ => rfl

section

variable {first second : Int64} {rest : List Int64} {window : UInt32}

/-- Nor is there one where their difference does not fit. -/
theorem meanTick_of_overflow (h : ¬ FitsInt64 (second.toInt - first.toInt)) :
    meanTick (first :: second :: rest) window = .error (.overflow "tick cumulative delta") := by
  have hoverflow : second.toInt - first.toInt < -2 ^ 63 ∨ 2 ^ 63 ≤ second.toInt - first.toInt := by
    unfold FitsInt64 at h
    omega
  exact if_pos hoverflow

/-- Where it fits, the window must not be empty. -/
theorem meanTick_of_fits (h : FitsInt64 (second.toInt - first.toInt)) :
    meanTick (first :: second :: rest) window =
      if window = 0 then .error (.zeroElapsedTime 0 0)
      else .ok (floorTick (second.toInt - first.toInt) window) := by
  have hfits : ¬ (second.toInt - first.toInt < -2 ^ 63 ∨ 2 ^ 63 ≤ second.toInt - first.toInt) := by
    unfold FitsInt64 at h
    omega
  rw [← fdiv_eq_floorTick]
  exact if_neg hfits

end

/-- There is a mean tick where there are two cumulatives, their difference fits and some time has
passed. -/
theorem meanTick_eq_ok_iff {cumulatives : List Int64} {window : UInt32} {tick : ℤ} :
    meanTick cumulatives window = .ok tick ↔
      ∃ first second rest, cumulatives = first :: second :: rest ∧
        FitsInt64 (second.toInt - first.toInt) ∧ window ≠ 0 ∧
        floorTick (second.toInt - first.toInt) window = tick := by
  match cumulatives with
  | [] => simp [meanTick]
  | [_] => simp [meanTick]
  | first :: second :: rest =>
    by_cases hfits : FitsInt64 (second.toInt - first.toInt)
    · rw [meanTick_of_fits hfits]
      by_cases hwindow : window = 0
      · simp [hwindow]
      · simp [hfits, hwindow]
    · rw [meanTick_of_overflow hfits]
      simp [hfits]

/-! ## Prices at mean ticks -/

/-- With its observations read, a source answers with the price of their mean tick. -/
theorem result_priceAt_tick {chain : Chain} {cumulatives : List Int64}
    (hobserved : (Chain.readTickCumulatives.ask chain).result = .ok cumulatives) (pool : Address)
    (window : UInt32) (block : UInt64) :
    (((PriceSource.tick pool window).priceAt block).ask chain).result =
      (meanTick cumulatives window >>= priceOfTick) := by
  change ((PriceSource.tickPrice window block).ask chain).result = _
  unfold PriceSource.tickPrice
  rw [Query.result_ask_bind, Query.result_ask_within, hobserved]
  change ((Query.ofExcept (meanTick cumulatives window) >>= _).ask chain).result = _
  rw [Query.result_ask_bind, Query.ask_ofExcept]
  cases meanTick cumulatives window with
  | error failure => rfl
  | ok tick => rfl

/-- A source answers with a price exactly where the pool returned two cumulatives, their difference
fits into 64 bits, the window is not empty and the mean tick, rounded down, is in range. The price is
then that of this tick; otherwise the first of these that does not hold is the failure. Nothing on the
way from a tick in range to its price goes wrong. -/
theorem tick_price_fails_exactly (pool : Address) (window : UInt32) (block : UInt64) (chain : Chain)
    (cumulatives : List Int64)
    (hobserved : (Chain.readTickCumulatives.ask chain).result = .ok cumulatives) :
    let result := (((PriceSource.tick pool window).priceAt block).ask chain).result
    ((∃ price, result = .ok price) ↔
      ∃ first second rest, cumulatives = first :: second :: rest ∧
        FitsInt64 (second.toInt - first.toInt) ∧ window ≠ 0 ∧
        |floorTick (second.toInt - first.toInt) window| ≤ 887272) ∧
    (cumulatives.length < 2 →
      result = .error (.insufficientObservations cumulatives.length)) ∧
    (∀ first second rest, cumulatives = first :: second :: rest →
      let change := second.toInt - first.toInt
      let tick := floorTick change window
      (¬ FitsInt64 change → result = .error (.overflow "tick cumulative delta")) ∧
      (FitsInt64 change → window = 0 → result = .error (.zeroElapsedTime 0 0)) ∧
      (FitsInt64 change → window ≠ 0 → 887272 < |tick| →
        result = .error (.tickOutOfRange tick)) ∧
      (FitsInt64 change → window ≠ 0 → |tick| ≤ 887272 → result = priceOfTick tick)) ∧
    ∀ tick : ℤ, |tick| ≤ 887272 → ∃ ratio price, ExactPrice tick ratio price := by
  intro result
  have hresult : result = (meanTick cumulatives window >>= priceOfTick) :=
    result_priceAt_tick hobserved pool window block
  refine ⟨⟨?_, ?_⟩, fun hfew => ?_, ?_, fun tick => exists_exactPrice⟩
  · rintro ⟨price, h⟩
    obtain ⟨tick, htick, hprice⟩ := bind_eq_ok.mp (hresult.symm.trans h)
    obtain ⟨first, second, rest, hlist, hfits, hwindow, rfl⟩ := meanTick_eq_ok_iff.mp htick
    obtain ⟨ratio, hexact⟩ := exists_exactPrice_of_eq_ok hprice
    exact ⟨first, second, rest, hlist, hfits, hwindow, hexact.in_range⟩
  · rintro ⟨first, second, rest, hlist, hfits, hwindow, hrange⟩
    have htick := meanTick_eq_ok_iff.mpr ⟨first, second, rest, hlist, hfits, hwindow, rfl⟩
    obtain ⟨ratio, price, hexact⟩ := exists_exactPrice hrange
    exact ⟨price, hresult.trans (bind_eq_ok.mpr ⟨_, htick, hexact.priceOfTick_eq⟩)⟩
  · rw [hresult, meanTick_of_length_lt hfew]
    rfl
  · rintro first second rest rfl change tick
    refine ⟨fun hoverflow => ?_, fun hfits hwindow => ?_, fun hfits hwindow hrange => ?_,
      fun hfits hwindow _ => ?_⟩
    · rw [hresult, meanTick_of_overflow hoverflow]
      rfl
    · rw [hresult, meanTick_of_fits hfits, if_pos hwindow]
      rfl
    · rw [hresult, meanTick_of_fits hfits, if_neg hwindow]
      exact priceOfTick_of_out_of_range hrange
    · rw [hresult, meanTick_of_fits hfits, if_neg hwindow]
      rfl

/-- A chain whose price pool lost a hundred ticks in a window. -/
def fallingPool : Chain := { Chain.fresh with tickCumulatives := some [0, -100] }

/-- Over thirty seconds they make a mean tick of minus four. -/
theorem price_of_fallingPool :
    (Chain.readTickCumulatives.ask fallingPool).result = .ok [0, -100] ∧
      (((PriceSource.tick (Octets.replicate 20 7) 30).priceAt 50).ask fallingPool).result =
        priceOfTick (-4) := by
  have hobserved : (Chain.readTickCumulatives.ask fallingPool).result = .ok [0, -100] := rfl
  have hfits : FitsInt64 ((-100 : Int64).toInt - (0 : Int64).toInt) := by decide
  have htick : floorTick ((-100 : Int64).toInt - (0 : Int64).toInt) 30 = -4 :=
    (fdiv_eq_floorTick _ _).symm
  obtain ⟨-, -, hprices, -⟩ :=
    tick_price_fails_exactly (Octets.replicate 20 7) 30 50 fallingPool _ hobserved
  obtain ⟨-, -, -, hprice⟩ := hprices _ _ _ rfl
  rw [htick] at hprice
  exact ⟨hobserved, hprice hfits (by decide) (by decide)⟩

end StakeOracle
