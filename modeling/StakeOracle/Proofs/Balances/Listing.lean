import Mathlib.Data.List.Nodup
import StakeOracle.Proofs.Balances.Backing
import StakeOracle.SubmissionKey

/-!
# The order of the lists does not show

Nodes that read the same chain may be told its minipools and nodes in different orders. Sums of
words are clamped, but a clamped sum is determined by the exact one, and so by the terms in any
order. The course of a snapshot meets the same hurdles in another order, so it is taken to its end
on both chains or on neither.
-/

namespace StakeOracle

/-- A clamped sum does not depend on the order of its terms. -/
theorem Word.sumSat_perm {ws vs : List Word} (h : ws.Perm vs) : sumSat ws = sumSat vs := by
  have htotal : total ws = total vs := by
    rw [total_eq_sum, total_eq_sum]
    exact (h.map BitVec.toNat).sum_eq
  apply BitVec.eq_of_toNat_eq
  rw [toNat_sumSat, toNat_sumSat, htotal]

/-- The mean commission of a node does not depend on the order of its minipools. -/
theorem meanFee_perm {minipools others : List Minipool} (h : minipools.Perm others)
    (node : Address) : meanFee minipools node = meanFee others node := by
  have hfees : (nodeFees minipools node).Perm (nodeFees others node) := (h.filter _).map _
  have hsum := Word.sumSat_perm hfees
  have hcount := hfees.length_eq
  unfold meanFee
  cases hfirst : nodeFees minipools node with
  | nil =>
    rw [hfirst, List.nil_perm] at hfees
    rw [hfees]
  | cons fee fees =>
    cases hsecond : nodeFees others node with
    | nil =>
      rw [hsecond, List.perm_nil, hfirst] at hfees
      cases hfees
    | cons other rest => rw [hfirst, hsecond] at hsum hcount; dsimp only; rw [hsum, hcount]

/-- A snapshot does not depend on the order of the shares that are folded into it. -/
theorem NetworkBalances.ofParts_perm (block : UInt64) (depositPool smoothing balance supply : Word)
    {minipools others : List MinipoolBalance} {shares otherShares : List Word}
    (hminipools : minipools.Perm others) (hshares : shares.Perm otherShares) :
    ofParts block depositPool minipools shares smoothing balance supply =
      ofParts block depositPool others otherShares smoothing balance supply := by
  unfold ofParts
  simp only [MinipoolTotals.all_count, MinipoolTotals.staking_count]
  rw [Word.sumSat_perm (hminipools.map _), Word.sumSat_perm ((hminipools.filter _).map _),
    Word.sumSat_perm hshares]

namespace Chain

/-- Under distinct addresses every minipool is the first one added with its address. -/
theorem listed_eq_minipools {chain : Chain} (h : (chain.minipools.map (·.address)).Nodup) :
    chain.listed = chain.minipools := by
  have hself : ∀ minipool ∈ chain.minipools, chain.firstAdded minipool = minipool := by
    intro minipool hmem
    have hfind := chain.find?_firstAdded hmem
    have haddress := List.find?_some hfind
    exact List.inj_on_of_nodup_map h (List.mem_of_find?_eq_some hfind) hmem
      (of_decide_eq_true haddress)
  rw [listed, List.map_congr_left hself, List.map_id']

/-- The chain with other lists of minipools and nodes. -/
def relist (chain : Chain) (minipools : List Minipool) (nodes : List Address) : Chain :=
  { chain with minipools, nodes }

/-- Minipools that are listed in another order are read in another order, and are the same ones. -/
theorem listed_relist {chain : Chain} {minipools : List Minipool} (nodes : List Address)
    (hminipools : minipools.Perm chain.minipools)
    (hdistinct : (chain.minipools.map (·.address)).Nodup) :
    (chain.relist minipools nodes).listed.Perm chain.listed := by
  have hrelisted : ((chain.relist minipools nodes).minipools.map (·.address)).Nodup :=
    (hminipools.map (·.address)).nodup_iff.mpr hdistinct
  rw [listed_eq_minipools hdistinct, listed_eq_minipools hrelisted]
  exact hminipools

end Chain

namespace Aggregator

variable {chain : Chain} {minipools : List Minipool} {nodes : List Address}

/-- The snapshot of a chain does not depend on the order of its lists. -/
theorem snapshot_relist (aggregator : Aggregator) (target : AggregationTarget)
    (hminipools : minipools.Perm chain.minipools) (hnodes : nodes.Perm chain.nodes)
    (hdistinct : (chain.minipools.map (·.address)).Nodup) :
    aggregator.snapshot (chain.relist minipools nodes) target = aggregator.snapshot chain target := by
  have hlisted := Chain.listed_relist nodes hminipools hdistinct
  have hshares : ∀ node, meanFee (chain.relist minipools nodes).listed node =
      meanFee chain.listed node := meanFee_perm hlisted
  unfold snapshot
  simp only [hshares]
  exact NetworkBalances.ofParts_perm _ _ _ _ _ (hlisted.map _) (hnodes.map _)

/-- The course of a snapshot meets the same hurdles whatever the order of the lists. -/
theorem course_relist (aggregator : Aggregator) (target : AggregationTarget)
    (hminipools : minipools.Perm chain.minipools) (hnodes : nodes.Perm chain.nodes)
    (hdistinct : (chain.minipools.map (·.address)).Nodup) :
    (aggregator.course (chain.relist minipools nodes) target).Perm
      (aggregator.course chain target) := by
  have hlisted := Chain.listed_relist nodes hminipools hdistinct
  have hwatched : (watchedKeys (chain.relist minipools nodes).listed).Perm
      (watchedKeys chain.listed) := (hlisted.filter _).map _
  have hlist : (listCourse (chain.relist minipools nodes)).Perm (listCourse chain) :=
    (hminipools.map _).cons _
  have hstatuses : statusCourse (chain.relist minipools nodes) = statusCourse chain := by
    unfold statusCourse
    simp only [← List.length_eq_zero_iff, hwatched.length_eq]
  have hbalances : (balanceCourse aggregator.curve (chain.relist minipools nodes) target.epoch).Perm
      (balanceCourse aggregator.curve chain target.epoch) := by
    unfold balanceCourse
    rw [hstatuses]
    exact (hlisted.map _).append_left _
  have hnodeCourses : (nodes.flatMap (nodeCourse (chain.relist minipools nodes))).Perm
      (chain.nodes.flatMap (nodeCourse chain)) := hnodes.flatMap_right _
  unfold course
  exact (hlist.append (hbalances.append ((hnodeCourses.cons _).append_right _))).append_left _

/-- A snapshot is the same whatever the order in which the chain lists its minipools and nodes, and
whatever the size of the batches. -/
theorem aggregate_relist_iff (aggregator : Aggregator) (size : Nat) (target : AggregationTarget)
    (hminipools : minipools.Perm chain.minipools) (hnodes : nodes.Perm chain.nodes)
    (hdistinct : (chain.minipools.map (·.address)).Nodup) (b : NetworkBalances) :
    (({ aggregator with batchSize := size }.aggregate target).ask
        (chain.relist minipools nodes)).result = .ok b ↔
      ((aggregator.aggregate target).ask chain).result = .ok b := by
  have hfollows : Follows chain (aggregator.aggregate target) (aggregator.course chain target)
      (aggregator.snapshot chain target) := follows_aggregate aggregator target
  have hrelisted : Follows (chain.relist minipools nodes)
      ({ aggregator with batchSize := size }.aggregate target)
      (aggregator.course (chain.relist minipools nodes) target)
      (aggregator.snapshot (chain.relist minipools nodes) target) := follows_aggregate _ target
  have hcourse := course_relist aggregator target hminipools hnodes hdistinct
  have hclear : Hurdle.firstFailure? (chain.relist minipools nodes)
        (aggregator.course (chain.relist minipools nodes) target) = none ↔
      Hurdle.firstFailure? chain (aggregator.course chain target) = none := by
    simp only [Hurdle.firstFailure?_eq_none_iff, hcourse.mem_iff]
    rfl
  rw [hrelisted.result_eq_ok_iff, hfollows.result_eq_ok_iff, hclear,
    snapshot_relist aggregator target hminipools hnodes hdistinct]

/-- Nodes that are told the same minipools and nodes in different orders agree on a snapshot: it can
be taken by both or by neither, whatever the sizes of their batches, and then it is the same, with
the same call and the same exact key. -/
theorem snapshot_independent_of_listing (aggregator : Aggregator) (size : Nat) (chain : Chain)
    (minipools : List Minipool) (nodes : List Address) (target : AggregationTarget)
    (hminipools : minipools.Perm chain.minipools) (hnodes : nodes.Perm chain.nodes)
    (hdistinct : (chain.minipools.map (·.address)).Nodup) :
    let taken := (aggregator.aggregate target).ask chain
    let retaken := ({ aggregator with batchSize := size }.aggregate target).ask
      { chain with minipools, nodes }
    ((∃ b, taken.result = .ok b) ↔ ∃ b, retaken.result = .ok b) ∧
    ∀ b b', taken.result = .ok b → retaken.result = .ok b' → b = b' ∧ b.call = b'.call ∧
      ∀ node, (SubmissionRecord.ofCall node b.call).exactKey =
        (SubmissionRecord.ofCall node b'.call).exactKey := by
  intro taken retaken
  have hsame : ∀ b, retaken.result = .ok b ↔ taken.result = .ok b :=
    aggregate_relist_iff aggregator size target hminipools hnodes hdistinct
  refine ⟨exists_congr fun b => (hsame b).symm, fun b b' htaken hretaken => ?_⟩
  obtain rfl : b = b' := Except.ok.inj (htaken.symm.trans ((hsame b').mp hretaken))
  exact ⟨rfl, rfl, fun _ => rfl⟩

/-- A chain with three minipools of two nodes. The mean commission of the first node is not a whole
number, and the third minipool is not staking yet. -/
def threePools : Chain :=
  let minipool (number : UInt8) (status : MinipoolStatus) (fee : Word) (node : Address) : Minipool :=
    ⟨Octets.replicate 20 number, Octets.replicate 48 number, status, .half, ethToWei 16, ethToWei 16,
      fee, node⟩
  let first := Octets.replicate 20 11
  let second := Octets.replicate 20 12
  { onePool with
    minipools := [minipool 1 .staking 100000000000000000 first, minipool 2 .staking 1 first,
      minipool 3 .prelaunch 0 second]
    nodes := [first, second]
    distributors := fun node => some node
    balances := fun _ => 1000000000000000003 }

/-- Read backwards and one by one, those minipools and nodes yield the same snapshot. -/
theorem threePools_backwards :
    let target : AggregationTarget := ⟨100, 1600001200, 100, 3⟩
    let backwards := { threePools with
      minipools := threePools.minipools.reverse, nodes := threePools.nodes.reverse }
    (threePools.minipools.map (·.address)).Nodup ∧
    ∃ b b', ((threeSmoothed.aggregate target).ask threePools).result = .ok b ∧
      (({ threeSmoothed with batchSize := 1 }.aggregate target).ask backwards).result = .ok b' ∧
      b = b' ∧ b.distributorShareTotal = 975000000000000002 := by
  intro target backwards
  have hdistinct : (threePools.minipools.map (·.address)).Nodup := by decide
  have htaken : ((threeSmoothed.aggregate target).ask threePools).result =
      .ok (threeSmoothed.snapshot threePools target) := rfl
  obtain ⟨hboth, hagree⟩ := snapshot_independent_of_listing threeSmoothed 1 threePools _ _ target
    threePools.minipools.reverse_perm threePools.nodes.reverse_perm hdistinct
  obtain ⟨b', hretaken⟩ := hboth.mp ⟨_, htaken⟩
  exact ⟨hdistinct, _, b', htaken, hretaken, (hagree _ b' htaken hretaken).1, by decide⟩

end Aggregator

end StakeOracle
