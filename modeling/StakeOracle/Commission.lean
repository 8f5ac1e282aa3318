import StakeOracle.Minipool
import StakeOracle.Units

/-!
# Commissions and fee distributors

A node's mean commission is taken over its minipools. One pass over a list of minipools counts the
commissions of all its nodes, however they alternate. Half of a fee distributor's balance, less the
mean commission, belongs to depositors; a node without minipools is charged one half.
-/

namespace StakeOracle

/-- Commissions counted so far: their sum, clamped at the greatest word, and how many they are. -/
structure FeeTally where
  sum : Word
  count : UInt64
  deriving DecidableEq, Repr

namespace FeeTally

/-- The tally before the first commission. -/
def empty : FeeTally := ⟨0, 0⟩

/-- The tally with one more commission. -/
def add (tally : FeeTally) (fee : Word) : FeeTally := ⟨tally.sum.addSat fee, tally.count + 1⟩

/-- The mean of the commissions in a tally. -/
def mean (tally : FeeTally) : Word := tally.sum / Word.ofUInt64 tally.count

/-- Counts a commission for a node, which gets a tally with its first one. -/
def countFee (node : Address) (fee : Word) :
    List (Address × FeeTally) → List (Address × FeeTally)
  | [] => [(node, empty.add fee)]
  | (other, tally) :: rest =>
    if other = node then (other, tally.add fee) :: rest
    else (other, tally) :: countFee node fee rest

/-- Counting a commission adds it to the tally of its node and to no other. -/
theorem lookup_countFee (node other : Address) (fee : Word) (tallies : List (Address × FeeTally)) :
    (countFee node fee tallies).lookup other =
      if other = node then some (((tallies.lookup node).getD empty).add fee)
      else tallies.lookup other := by
  induction tallies with
  | nil =>
    by_cases hother : other = node
    · simp [countFee, hother]
    · simp [countFee, hother]
  | cons entry rest ih =>
    obtain ⟨first, tally⟩ := entry
    by_cases hfirst : first = node
    · subst hfirst
      by_cases hother : other = first
      · simp [countFee, hother]
      · simp [countFee, List.lookup_cons, hother, beq_eq_false_iff_ne.mpr hother]
    · rw [countFee, if_neg hfirst, List.lookup_cons, List.lookup_cons, List.lookup_cons, ih]
      by_cases hother : other = node
      · simp [hother, beq_eq_false_iff_ne.mpr (Ne.symm hfirst)]
      · simp [hother]

/-- A tally that has counted commissions has summed them and counted them. -/
theorem foldl_add (fees : List Word) (tally : FeeTally) :
    fees.foldl add tally =
      ⟨fees.foldl Word.addSat tally.sum, tally.count + UInt64.ofNat fees.length⟩ := by
  induction fees generalizing tally with
  | nil => simp
  | cons fee fees ih =>
    rw [List.foldl_cons, List.foldl_cons, ih, List.length_cons, UInt64.ofNat_add,
      UInt64.add_comm (UInt64.ofNat fees.length), ← UInt64.add_assoc]
    rfl

/-- Once a node has a tally, all that happens is that its commissions are added. -/
theorem foldl_some (fees : List Word) (tally : FeeTally) :
    fees.foldl (fun known fee => some ((known.getD empty).add fee)) (some tally) =
      some (fees.foldl add tally) := by
  induction fees generalizing tally with
  | nil => rfl
  | cons fee fees ih => exact ih (tally.add fee)

end FeeTally

/-- The tally of every node in a list of minipools, in the order in which the nodes appear. -/
def feeTallies (minipools : List Minipool) : List (Address × FeeTally) :=
  minipools.foldl (fun tallies minipool => FeeTally.countFee minipool.node minipool.nodeFee tallies)
    []

/-- The mean commission of every node in a list of minipools. -/
def meanFees (minipools : List Minipool) : List (Address × Word) :=
  (feeTallies minipools).map fun (node, tally) => (node, tally.mean)

/-- The commissions of a node's minipools, in the order of the list. -/
def nodeFees (minipools : List Minipool) (node : Address) : List Word :=
  (minipools.filter (·.node = node)).map (·.nodeFee)

/-- The mean commission of a node, if it has minipools. -/
def meanFee (minipools : List Minipool) (node : Address) : Option Word :=
  match nodeFees minipools node with
  | [] => none
  | fees => some (Word.sumSat fees / Word.ofUInt64 (UInt64.ofNat fees.length))

/-- One pass over a list of minipools counts a node's own commissions for it, in their order. -/
theorem lookup_foldl_countFee (minipools : List Minipool) (node : Address)
    (tallies : List (Address × FeeTally)) :
    (minipools.foldl
        (fun tallies minipool => FeeTally.countFee minipool.node minipool.nodeFee tallies)
        tallies).lookup node =
      (nodeFees minipools node).foldl (fun known fee => some ((known.getD .empty).add fee))
        (tallies.lookup node) := by
  induction minipools generalizing tallies with
  | nil => rfl
  | cons minipool minipools ih =>
    rw [List.foldl_cons, ih, FeeTally.lookup_countFee]
    -- A minipool of another node leaves this node's tally, and is none of this node's commissions.
    by_cases hnode : minipool.node = node
    · simp [nodeFees, hnode]
    · simp [nodeFees, hnode, Ne.symm hnode]

/-- A key is looked up in the same place whatever is made of the values. -/
theorem lookup_map_value (f : β → γ) (entries : List (Address × β)) (key : Address) :
    (entries.map fun (node, value) => (node, f value)).lookup key = (entries.lookup key).map f := by
  induction entries with
  | nil => rfl
  | cons entry rest ih =>
    rw [List.map_cons, List.lookup_cons, List.lookup_cons, ih]
    cases key == entry.1 with
    | true => rfl
    | false => rfl

/-- The pass knows a node's mean exactly when the node has minipools. -/
theorem lookup_meanFees (minipools : List Minipool) (node : Address) :
    (meanFees minipools).lookup node = meanFee minipools node := by
  rw [meanFees, lookup_map_value, feeTallies, lookup_foldl_countFee, meanFee.eq_def]
  cases nodeFees minipools node with
  | nil => rfl
  | cons fee fees =>
    have hfees := FeeTally.foldl_add (fee :: fees) .empty
    rw [List.foldl_cons, List.lookup_nil, Option.getD_none, FeeTally.foldl_some, Option.map_some,
      ← List.foldl_cons, hfees, FeeTally.mean]
    simp only [FeeTally.empty, UInt64.zero_add]
    rfl

/-- The depositors' share of a fee distributor's balance. A commission above `10 ^ 18` counts as
`10 ^ 18`. -/
def distributorShare (balance : Word) (fee : Option Word) : Word :=
  if balance = 0 then 0
  else
    let charged := fee.getD (weiPerEth / 2)
    let kept := weiPerEth - if charged < weiPerEth then charged else weiPerEth
    balance.mulSat kept / (weiPerEth * 2)

end StakeOracle
