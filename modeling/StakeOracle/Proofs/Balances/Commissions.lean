import Mathlib.Algebra.Group.Action.Defs
import StakeOracle.Proofs.Balances.Listing
import StakeOracle.Proofs.Balances.Totals

/-!
# Mean commissions and what they leave to depositors

One pass over a list of minipools tallies the commissions of all its nodes at once. Each node gets
one entry, with the mean of its own commissions and no others. A mean is rounded down, and so is a
share; both keep order, so the least and the greatest commission of a node bound what depositors get
of its fee distributor.
-/

namespace StakeOracle

/-! ## One entry for each node -/

namespace FeeTally

/-- Counting a commission enters its node, unless it has an entry. -/
theorem keys_countFee (node : Address) (fee : Word) (tallies : List (Address × FeeTally)) :
    (countFee node fee tallies).map Prod.fst =
      if node ∈ tallies.map Prod.fst then tallies.map Prod.fst
      else tallies.map Prod.fst ++ [node] := by
  induction tallies with
  | nil => rfl
  | cons entry rest ih =>
    obtain ⟨first, tally⟩ := entry
    by_cases hfirst : first = node
    · simp [countFee, hfirst]
    · rw [countFee, if_neg hfirst, List.map_cons, List.map_cons, ih]
      simp only [List.mem_cons, Ne.symm hfirst, false_or]
      split <;> rfl

/-- Counting a commission gives no node a second entry. -/
theorem nodup_keys_countFee (node : Address) (fee : Word) {tallies : List (Address × FeeTally)}
    (h : (tallies.map Prod.fst).Nodup) : ((countFee node fee tallies).map Prod.fst).Nodup := by
  rw [keys_countFee]
  split
  · exact h
  · rw [← List.concat_eq_append]
    exact h.concat ‹_›

/-- Counting the commissions of all minipools gives no node a second entry. -/
theorem nodup_keys_foldl (minipools : List Minipool) {tallies : List (Address × FeeTally)}
    (h : (tallies.map Prod.fst).Nodup) :
    ((minipools.foldl (fun tallies minipool => countFee minipool.node minipool.nodeFee tallies)
      tallies).map Prod.fst).Nodup := by
  induction minipools generalizing tallies with
  | nil => exact h
  | cons minipool minipools ih => exact ih (nodup_keys_countFee _ _ h)

end FeeTally

/-- No node has two entries. -/
theorem nodup_keys_meanFees (minipools : List Minipool) :
    ((meanFees minipools).map Prod.fst).Nodup := by
  have hkeys : (meanFees minipools).map Prod.fst = (feeTallies minipools).map Prod.fst := by
    rw [meanFees, List.map_map]
    rfl
  rw [hkeys]
  exact FeeTally.nodup_keys_foldl minipools List.nodup_nil

/-- A node has commissions when it has minipools. -/
theorem nodeFees_ne_nil_iff {minipools : List Minipool} {node : Address} :
    nodeFees minipools node ≠ [] ↔ node ∈ minipools.map (·.node) := by
  rw [nodeFees, ne_eq, List.map_eq_nil_iff, List.filter_eq_nil_iff, List.mem_map]
  simp

/-- A node has no more commissions than there are minipools. -/
theorem length_nodeFees_le (minipools : List Minipool) (node : Address) :
    (nodeFees minipools node).length ≤ minipools.length := by
  rw [nodeFees, List.length_map]
  exact List.length_filter_le _ _

/-- The mean of a node's commissions, if there are any. -/
theorem meanFee_of_mem {minipools : List Minipool} {node : Address}
    (h : node ∈ minipools.map (·.node)) :
    meanFee minipools node = some (Word.sumSat (nodeFees minipools node) /
      Word.ofUInt64 (UInt64.ofNat (nodeFees minipools node).length)) := by
  rw [meanFee.eq_def]
  split
  · exact absurd ‹_› (nodeFees_ne_nil_iff.mpr h)
  · rfl

/-- The nodes with an entry are those of the minipools. -/
theorem mem_keys_meanFees_iff {minipools : List Minipool} {node : Address} :
    node ∈ (meanFees minipools).map Prod.fst ↔ node ∈ minipools.map (·.node) := by
  have hlookup : ((meanFees minipools).lookup node).isSome ↔
      node ∈ (meanFees minipools).map Prod.fst := by
    simp [List.lookup_isSome_iff]
  rw [← hlookup, lookup_meanFees]
  constructor
  · intro hsome
    by_contra hnode
    have hnil : nodeFees minipools node = [] := not_not.mp (mt nodeFees_ne_nil_iff.mp hnode)
    simp [meanFee, hnil] at hsome
  · intro hnode
    rw [meanFee_of_mem hnode]
    rfl

/-! ## The mean -/

/-- Fewer than `2 ^ 64` commissions are counted exactly, so their mean divides the clamped sum by
their number. -/
theorem toNat_mean {fees : List Word} (hcount : fees.length < 2 ^ 64) :
    (Word.sumSat fees / Word.ofUInt64 (UInt64.ofNat fees.length)).toNat =
      min (fees.map BitVec.toNat).sum (2 ^ 256 - 1) / fees.length := by
  rw [BitVec.toNat_udiv, Word.toNat_sumSat, Word.total_eq_sum, Word.toNat_ofUInt64,
    UInt64.toNat_ofNat_of_lt' hcount]

/-- The mean of commissions of at most `10 ^ 18` lies between any bounds of theirs: they are too few
for their sum to be clamped. -/
theorem mean_mem_bounds {fees : List Word} {low high : Nat} (hfees : fees ≠ [])
    (hcount : fees.length < 2 ^ 64) (hbounds : ∀ fee ∈ fees, low ≤ fee.toNat ∧ fee.toNat ≤ high)
    (hhigh : high ≤ 10 ^ 18) :
    low ≤ min (fees.map BitVec.toNat).sum (2 ^ 256 - 1) / fees.length ∧
      min (fees.map BitVec.toNat).sum (2 ^ 256 - 1) / fees.length ≤ high := by
  have hlow : fees.length * low ≤ (fees.map BitVec.toNat).sum := by
    have := List.card_nsmul_le_sum (fees.map BitVec.toNat) low (by
      rw [List.forall_mem_map]
      exact fun fee hfee => (hbounds fee hfee).1)
    rwa [List.length_map, smul_eq_mul] at this
  have hsum : (fees.map BitVec.toNat).sum ≤ fees.length * high := by
    have := List.sum_le_card_nsmul (fees.map BitVec.toNat) high (by
      rw [List.forall_mem_map]
      exact fun fee hfee => (hbounds fee hfee).2)
    rwa [List.length_map, smul_eq_mul] at this
  -- Fewer than `2 ^ 64` terms of at most `10 ^ 18` are far from the greatest word.
  have hfit : (fees.map BitVec.toNat).sum ≤ 2 ^ 256 - 1 := by
    have : fees.length * high ≤ 2 ^ 64 * 10 ^ 18 := Nat.mul_le_mul (by omega) hhigh
    omega
  have hpos : 0 < fees.length := List.length_pos_of_ne_nil hfees
  rw [Nat.min_eq_left hfit]
  constructor
  · rwa [Nat.le_div_iff_mul_le hpos, Nat.mul_comm]
  · exact Nat.div_le_of_le_mul hsum

/-! ## The share -/

/-- What is charged on a fee distributor: the mean commission, or one half without one. -/
def chargedFee (fee : Option Word) : Nat := (fee.getD (weiPerEth / 2)).toNat

/-- The depositors' share is the balance less the commission, clamped, and halved. -/
theorem toNat_distributorShare (balance : Word) (fee : Option Word) :
    (distributorShare balance fee).toNat =
      min (balance.toNat * (10 ^ 18 - chargedFee fee)) (2 ^ 256 - 1) / (2 * 10 ^ 18) := by
  have hdivisor : (weiPerEth * 2 : Word).toNat = 2 * 10 ^ 18 := rfl
  unfold distributorShare
  split
  · rename_i hzero
    simp [hzero]
  · dsimp only
    rw [BitVec.toNat_udiv, Word.toNat_mulSat, hdivisor, toNat_kept]
    rfl

/-- A higher balance under a lower commission leaves depositors no less. -/
theorem distributorShare_mono {balance other : Word} {fee lower : Option Word}
    (hbalance : balance ≤ other) (hfee : chargedFee lower ≤ chargedFee fee) :
    distributorShare balance fee ≤ distributorShare other lower := by
  rw [BitVec.le_def] at hbalance ⊢
  rw [toNat_distributorShare, toNat_distributorShare]
  have hkept : balance.toNat * (10 ^ 18 - chargedFee fee) ≤
      other.toNat * (10 ^ 18 - chargedFee lower) :=
    Nat.mul_le_mul hbalance (Nat.sub_le_sub_left hfee _)
  apply Nat.div_le_div_right
  omega

/-- Below `2 ^ 196` the product of a balance with what is left of `10 ^ 18` is not clamped. -/
theorem toNat_distributorShare_of_lt {balance fee : Word} (h : balance.toNat < 2 ^ 196) :
    (distributorShare balance (some fee)).toNat =
      balance.toNat * (10 ^ 18 - fee.toNat) / (2 * 10 ^ 18) := by
  have hfit : balance.toNat * (10 ^ 18 - fee.toNat) ≤ 2 ^ 196 * 10 ^ 18 :=
    Nat.mul_le_mul (Nat.le_of_lt h) (Nat.sub_le _ _)
  rw [toNat_distributorShare, chargedFee, Option.getD_some, Nat.min_eq_left (by omega)]

/-- Over fewer than `2 ^ 64` minipools the mean commissions have exactly the nodes of the minipools as
keys, each once, in whatever order the minipools come, and a node's value is the clamped sum of its
commissions over their number, rounded down. Bounds of a node's commissions of at most `10 ^ 18`, such
as the least and the greatest of them, bound the mean, and with it the depositors' share of any balance
below `2 ^ 196`. Whatever the balance and the commission, that share is at most half of the balance; it
does not fall when the balance rises and does not rise with the commission. -/
theorem commissions_bound_distributor_shares :
    (∀ minipools : List Minipool, minipools.length < 2 ^ 64 →
      ((meanFees minipools).map Prod.fst).Nodup ∧
      (∀ node, node ∈ (meanFees minipools).map Prod.fst ↔ node ∈ minipools.map (·.node)) ∧
      (∀ others, others.Perm minipools → ∀ node,
        (meanFees others).lookup node = (meanFees minipools).lookup node) ∧
      ∀ node ∈ minipools.map (·.node), ∃ mean, (meanFees minipools).lookup node = some mean ∧
        let fees := nodeFees minipools node
        mean.toNat = min (fees.map BitVec.toNat).sum (2 ^ 256 - 1) / fees.length ∧
        ∀ low high, (∀ fee ∈ fees, low ≤ fee.toNat ∧ fee.toNat ≤ high) → high ≤ 10 ^ 18 →
          low ≤ mean.toNat ∧ mean.toNat ≤ high ∧
          ∀ balance : Word, balance.toNat < 2 ^ 196 →
            let share := (distributorShare balance (some mean)).toNat
            balance.toNat * (10 ^ 18 - high) / (2 * 10 ^ 18) ≤ share ∧
            share ≤ balance.toNat * (10 ^ 18 - low) / (2 * 10 ^ 18)) ∧
    (∀ (balance : Word) (fee : Option Word),
      (distributorShare balance fee).toNat ≤ balance.toNat / 2) ∧
    (∀ (balance other : Word) (fee : Option Word), balance ≤ other →
      distributorShare balance fee ≤ distributorShare other fee) ∧
    ∀ (balance : Word) (fee other : Option Word), chargedFee fee ≤ chargedFee other →
      distributorShare balance other ≤ distributorShare balance fee := by
  refine ⟨fun minipools hcount => ⟨nodup_keys_meanFees minipools, fun node => mem_keys_meanFees_iff,
    fun others hperm node => ?_, fun node hnode => ?_⟩, distributorShare_le,
    fun balance other fee hbalance => distributorShare_mono hbalance (Nat.le_refl _),
    fun balance fee other hfee => distributorShare_mono (BitVec.le_refl _) hfee⟩
  · rw [lookup_meanFees, lookup_meanFees]
    exact meanFee_perm hperm node
  · have hfew := Nat.lt_of_le_of_lt (length_nodeFees_le minipools node) hcount
    have hmean := toNat_mean hfew
    refine ⟨_, (lookup_meanFees minipools node).trans (meanFee_of_mem hnode), hmean,
      fun low high hbounds hhigh => ?_⟩
    have hbetween := mean_mem_bounds (nodeFees_ne_nil_iff.mpr hnode) hfew hbounds hhigh
    rw [← hmean] at hbetween
    refine ⟨hbetween.1, hbetween.2, fun balance hbalance => ?_⟩
    rw [toNat_distributorShare_of_lt hbalance]
    exact ⟨Nat.div_le_div_right (Nat.mul_le_mul_left _ (Nat.sub_le_sub_left hbetween.2 _)),
      Nat.div_le_div_right (Nat.mul_le_mul_left _ (Nat.sub_le_sub_left hbetween.1 _))⟩

/-- Three minipools of two nodes that alternate. The mean commission of the first node is not a whole
number. -/
def alternatingPools : List Minipool :=
  let minipool (number : UInt8) (node : UInt8) (fee : Word) : Minipool :=
    ⟨Octets.replicate 20 number, Octets.replicate 48 number, .staking, .half, ethToWei 16,
      ethToWei 16, fee, Octets.replicate 20 node⟩
  [minipool 1 11 100000000000000000, minipool 2 12 200000000000000000, minipool 3 11 1]

/-- Read backwards they give the first node the same mean, and the share of its four ether lies between
those under its two commissions. A fifth leaves depositors no less than what a node without minipools
is charged. -/
theorem alternatingPools_mean :
    let first := Octets.replicate 20 11
    let balance : Word := 4000000000000000000
    alternatingPools.length < 2 ^ 64 ∧ alternatingPools.reverse.Perm alternatingPools ∧
    first ∈ alternatingPools.map (·.node) ∧
    (∀ fee ∈ nodeFees alternatingPools first,
      1 ≤ fee.toNat ∧ fee.toNat ≤ 100000000000000000) ∧ balance.toNat < 2 ^ 196 ∧
    (meanFees alternatingPools.reverse).lookup first = some 50000000000000000 ∧
    (∃ mean, (meanFees alternatingPools).lookup first = some mean ∧
      mean.toNat = min 100000000000000001 (2 ^ 256 - 1) / 2 ∧
      1800000000000000000 ≤ (distributorShare balance (some mean)).toNat ∧
      (distributorShare balance (some mean)).toNat ≤ 1999999999999999998) ∧
    chargedFee (some 200000000000000000) ≤ chargedFee none ∧
    distributorShare balance none ≤ distributorShare balance (some 200000000000000000) := by
  intro first balance
  have hcount : alternatingPools.length < 2 ^ 64 := by decide
  have hfirst : first ∈ alternatingPools.map (·.node) := by decide
  have hbounds : ∀ fee ∈ nodeFees alternatingPools first,
      1 ≤ fee.toNat ∧ fee.toNat ≤ 100000000000000000 := by
    have hfees : nodeFees alternatingPools first = [100000000000000000, 1] := by decide
    simp [hfees]
  have hbalance : balance.toNat < 2 ^ 196 := by decide
  have hfee : chargedFee (some 200000000000000000) ≤ chargedFee none := by decide
  have hperm := alternatingPools.reverse_perm
  obtain ⟨hpools, -, -, hantitone⟩ := commissions_bound_distributor_shares
  obtain ⟨-, -, hsame, hmeans⟩ := hpools alternatingPools hcount
  obtain ⟨mean, hlookup, hmean, hbetween⟩ := hmeans first hfirst
  obtain ⟨-, -, hshares⟩ := hbetween 1 100000000000000000 hbounds (by decide)
  have hshare := hshares balance hbalance
  have hwei : balance.toNat = 4000000000000000000 := rfl
  rw [hwei] at hshare
  exact ⟨hcount, hperm, hfirst, hbounds, hbalance, (hsame _ hperm first).trans (by decide),
    ⟨mean, hlookup, hmean, hshare⟩, hfee, hantitone balance _ _ hfee⟩

end StakeOracle
