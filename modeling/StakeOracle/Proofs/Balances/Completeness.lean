import StakeOracle.Proofs.Balances.Snapshot
import StakeOracle.Proofs.Chain.Operation

/-!
# A snapshot is complete or not produced at all

Every part of aggregation follows its course, and so does the whole: it answers with the snapshot of
the chain when every hurdle is taken, and otherwise with the first failure. Batches do not show in
this, whatever their size.
-/

namespace StakeOracle

namespace Chain

/-- A chain on which every listed node has a fee distributor. -/
def Equipped (chain : Chain) : Prop := ∀ node ∈ chain.nodes, chain.distributors node ≠ none

variable {chain : Chain}

/-- On a fresh chain no node is listed. -/
theorem equipped_fresh : fresh.Equipped := fun _ hnode => by cases hnode

/-- A node is listed together with its fee distributor, and no change takes that one away. -/
theorem Equipped.apply (h : chain.Equipped) (change : Change) : (chain.apply change).Equipped := by
  cases change with
  | node added distributor =>
    intro node hnode
    change amended chain.distributors added (some distributor) node ≠ none
    by_cases hadded : node = added
    · simp [hadded]
    · rw [amended_of_ne _ _ hadded]
      exact h node ((List.mem_append.mp hnode).resolve_right fun hlast =>
        hadded (List.mem_singleton.mp hlast))
  | _ => exact h

/-- No operation takes a fee distributor away. -/
theorem Equipped.perform (h : chain.Equipped) (op : Operation) : (op.perform chain).Equipped := by
  cases op with
  | change change => exact h.apply change
  | send call options =>
    change (after (send call options) chain).Equipped
    by_cases hsend : .send ∈ chain.failing
    · rw [after_send_of_failing hsend]
      exact h
    · rw [after_send hsend]
      exact h
  | await wait hash =>
    obtain ⟨gate, hgate⟩ := chain.after_awaitInclusion wait hash
    change (after (awaitInclusion wait hash) chain).Equipped
    rw [hgate]
    exact h
  | read query => exact h
  | release count => exact h
  | leave wait => exact h

/-- Operations lead to chains on which every listed node has a fee distributor. -/
theorem Equipped.run (h : chain.Equipped) (ops : List Operation) :
    (Operation.run chain ops).Equipped := by
  induction ops generalizing chain with
  | nil => exact h
  | cons op ops ih => exact ih (h.perform op)

end Chain

namespace Aggregator

variable {chain : Chain}

/-- All minipools are listed and then read one by one. -/
theorem follows_readMinipools (batchSize : Nat) :
    Follows chain (readMinipools batchSize) (listCourse chain) chain.listed := by
  have haddresses : Follows chain (Chain.readMinipoolAddresses.within "minipool addresses")
      [.read .minipoolAddresses "minipool addresses"] (chain.minipools.map (·.address)) :=
    Follows.read rfl
  have hread : ∀ minipool ∈ chain.minipools,
      Follows chain ((Chain.readMinipool minipool.address).within "minipool details")
        [.read .minipoolInfo "minipool details"] (chain.firstAdded minipool) := by
    intro minipool hmem
    apply Follows.read
    simp only [Chain.find?_firstAdded hmem]
  refine haddresses.bind fun _ => ?_
  rw [batched_eq_mapM, List.mapM_map, List.map_eq_flatMap]
  exact Follows.mapM hread

/-- A listed key has its status in what a reader of all keys answers. -/
theorem lookup_statuses {keys : List Pubkey} {key : Pubkey} (h : key ∈ keys) :
    (keys.map fun key => (key, chain.validators key)).lookup key =
      some (chain.validators key) := by
  induction keys with
  | nil => cases h
  | cons head rest ih =>
    by_cases hhead : key = head
    · simp [hhead]
    · have hrest : key ∈ rest := (List.mem_cons.mp h).resolve_left hhead
      rw [List.map_cons, List.lookup_cons]
      simp only [beq_false_of_ne hhead]
      exact ih hrest

/-- The status that is known of a minipool's validator makes the minipool contribute what its own
status does: before staking a minipool counts with its deposits whatever is known. -/
theorem minipoolBalance_statuses (curve : BondingCurve) (epoch : UInt64) {minipool : Minipool}
    {minipools : List Minipool} (h : minipool ∈ minipools) :
    minipoolBalance curve epoch minipool
        (((watchedKeys minipools).map fun key => (key, chain.validators key)).lookup
          minipool.pubkey) =
      minipoolBalance curve epoch minipool (some (chain.validators minipool.pubkey)) := by
  refine minipoolBalance_congr fun hstage => ?_
  have hwatched : minipool.pubkey ∈ watchedKeys minipools := by
    rw [watchedKeys, List.mem_map]
    exact ⟨minipool, List.mem_filter.mpr ⟨h, by simp [hstage]⟩, rfl⟩
  exact lookup_statuses hwatched

/-- A minipool contributes, or its share cannot be computed. -/
theorem minipoolBalance_eq (curve : BondingCurve) (epoch : UInt64) (minipool : Minipool) :
    minipoolBalance curve epoch minipool (some (chain.validators minipool.pubkey)) =
      answerUnless (shareFailure? curve chain epoch minipool)
        (contribution curve chain epoch minipool) := by
  unfold shareFailure? contribution
  cases minipoolBalance curve epoch minipool (some (chain.validators minipool.pubkey)) with
  | error failure => rfl
  | ok balance => rfl

/-- Statuses are read once, unless no key is watched. -/
theorem follows_statusesOf :
    Follows chain (statusesOf Chain.readValidators (watchedKeys chain.listed)) (statusCourse chain)
      ((watchedKeys chain.listed).map fun key => (key, chain.validators key)) := by
  unfold statusesOf statusCourse
  by_cases h : watchedKeys chain.listed = []
  · rw [if_pos h, if_pos h, h]
    exact Follows.pure
  · rw [if_neg h, if_neg h]
    exact Follows.read rfl

/-- The balances of minipools need an epoch that the beacon chain has reached, the statuses of the
watched keys, and a share for each active minipool. -/
theorem follows_minipoolBalances (curve : BondingCurve) (epoch : UInt64) :
    Follows chain (minipoolBalances curve chain.listed epoch) (balanceCourse curve chain epoch)
      (chain.listed.map (contribution curve chain epoch)) := by
  have hhead : Follows chain (Chain.readHead.within "beacon head")
      [.read .beaconHead "beacon head"] chain.head := Follows.read rfl
  have hbalances : Follows chain
      (Query.ofExcept (balancesAt curve epoch chain.listed
        ((watchedKeys chain.listed).map fun key => (key, chain.validators key))))
      (chain.listed.map fun minipool => .demand (shareFailure? curve chain epoch minipool))
      (chain.listed.map (contribution curve chain epoch)) := by
    apply Follows.ofExcept_mapM
    intro minipool hmem
    rw [minipoolBalance_statuses curve epoch hmem, minipoolBalance_eq]
  rw [balanceCourse, List.append_assoc]
  exact hhead.bind fun _ => Follows.refuse fun _ => follows_statusesOf.bind fun _ => hbalances

/-- One node's share needs its fee distributor and that one's balance. -/
theorem follows_nodeShare (fees : List (Address × Word)) (node : Address) :
    Follows chain (nodeShare fees node) (nodeCourse chain node)
      (distributorShare (chain.distributorBalance node) (fees.lookup node)) := by
  have hbalance : ∀ distributor, Follows chain
      ((Chain.readBalance distributor).within "fee distributor balance")
      [.read .balance "fee distributor balance"] (chain.balances distributor) :=
    fun _ => Follows.read rfl
  unfold nodeShare nodeCourse distributorFailure? Chain.distributorBalance
  cases hdistributor : chain.distributors node with
  | none =>
    have hread : Follows chain ((Chain.readDistributor node).within "fee distributor address")
        [.read .feeDistributor "fee distributor address",
         .demand (some (.read "fee distributor address"
          (.notFound ("distributor of " ++ node.checksummed))))] node := by
      refine Follows.readOr (?_ : _ = answerUnless (some _) _)
      rw [hdistributor]
      rfl
    refine hread.bind fun hnone => ?_
    simp [Hurdle.firstFailure?, Hurdle.failure?] at hnone
  | some distributor =>
    have hread : Follows chain ((Chain.readDistributor node).within "fee distributor address")
        [.read .feeDistributor "fee distributor address", .demand none] distributor := by
      refine Follows.readOr (?_ : _ = answerUnless none _)
      rw [hdistributor]
      rfl
    exact hread.bind fun _ => (hbalance distributor).bind_pure Follows.pure

/-- All nodes are listed, and then their fee distributors are read one by one. -/
theorem follows_nodeShares (batchSize : Nat) (minipools : List Minipool) :
    Follows chain (nodeShares batchSize minipools)
      (.read .nodeAddresses "node addresses" :: chain.nodes.flatMap (nodeCourse chain))
      (chain.nodes.map fun node =>
        distributorShare (chain.distributorBalance node) (meanFee minipools node)) := by
  have hnodes : Follows chain (Chain.readNodes.within "node addresses")
      [.read .nodeAddresses "node addresses"] chain.nodes := Follows.read rfl
  refine hnodes.bind fun _ => ?_
  rw [batched_eq_mapM]
  refine Follows.mapM fun node _ => ?_
  rw [← lookup_meanFees]
  exact follows_nodeShare (meanFees minipools) node

/-- The estimator is asked once, if there is one. -/
theorem follows_smoothingShare (aggregator : Aggregator) (target : AggregationTarget) :
    Follows chain (smoothingShare aggregator.smoothing target)
      (smoothingCourse aggregator.smoothing chain target) (aggregator.estimated chain target) := by
  have hinterval : Follows chain (Chain.readRewards.within "rewards interval")
      [.read .rewardsInterval "rewards interval"] chain.rewards := Follows.read rfl
  unfold smoothingShare smoothingCourse estimated estimate
  refine hinterval.bind fun _ => ?_
  cases aggregator.smoothing with
  | none => exact Follows.pure
  | some estimate =>
    dsimp only
    cases estimate (chain.rewards.request target) with
    | ok share => exact ⟨rfl, rfl⟩
    | error reason => exact ⟨rfl, rfl⟩

/-- The receipt token needs three reads. -/
theorem follows_reth : Follows chain reth rethCourse
    (chain.balances chain.rethAddress, chain.rethSupply) := by
  have haddress : Follows chain (Chain.readRethAddress.within "rETH address")
      [.read .rethAddress "rETH address"] chain.rethAddress := Follows.read rfl
  have hbalance : Follows chain
      ((Chain.readBalance chain.rethAddress).within "rETH contract balance")
      [.read .balance "rETH contract balance"] (chain.balances chain.rethAddress) :=
    Follows.read rfl
  have hsupply : Follows chain (Chain.readRethSupply.within "rETH total supply")
      [.read .rethSupply "rETH total supply"] chain.rethSupply := Follows.read rfl
  exact haddress.bind fun _ => hbalance.bind fun _ => hsupply.bind_pure Follows.pure

/-- Aggregation follows its course to the snapshot of the chain. -/
theorem follows_aggregate (aggregator : Aggregator) (target : AggregationTarget) :
    Follows chain (aggregator.aggregate target) (aggregator.course chain target)
      (aggregator.snapshot chain target) := by
  have hdepositPool : Follows chain (Chain.readDepositPool.within "deposit pool balance")
      [.read .depositPool "deposit pool balance"] chain.depositPool := Follows.read rfl
  unfold aggregate course
  refine hdepositPool.bind fun _ => (follows_readMinipools aggregator.batchSize).bind fun _ =>
    (follows_minipoolBalances aggregator.curve target.epoch).bind fun _ =>
    (follows_nodeShares aggregator.batchSize chain.listed).bind fun _ =>
    (follows_smoothingShare aggregator target).bind fun _ => follows_reth.bind_pure ?_
  exact (Follows.log _).bind_pure Follows.pure

/-! ## What a complete snapshot needs -/

/-- A minipool has a contribution unless it is active and its share cannot be computed. -/
theorem shareFailure?_eq_none_iff {curve : BondingCurve} {epoch : UInt64} {minipool : Minipool} :
    shareFailure? curve chain epoch minipool = none ↔
      (chain.Active epoch minipool →
        ∃ share, curve.minipoolShare minipool (chain.liveBalance minipool) = .ok share) := by
  unfold shareFailure?
  by_cases hactive : chain.Active epoch minipool
  · rw [minipoolBalance_of_active hactive]
    cases curve.minipoolShare minipool (chain.liveBalance minipool) with
    | error failure => simp [hactive]
    | ok share => simp
  · rw [minipoolBalance_of_not_active hactive]
    simp [hactive]

/-- A node lacks nothing when it has a fee distributor. -/
theorem distributorFailure?_eq_none_iff {node : Address} :
    distributorFailure? chain node = none ↔ chain.distributors node ≠ none := by
  unfold distributorFailure?
  cases chain.distributors node with
  | none => simp
  | some distributor => simp

/-- An epoch lacks nothing once the head has reached it. -/
theorem epochFailure?_eq_none_iff {epoch : UInt64} :
    epochFailure? chain epoch = none ↔ epoch ≤ chain.head.epoch := by
  unfold epochFailure?
  split
  · rename_i hahead
    simp [UInt64.not_le.mpr hahead]
  · rename_i hreached
    simp [UInt64.not_lt.mp hreached]

/-- The demands on the course of a snapshot are those on the epoch, the shares of the minipools and the
fee distributors of the nodes. -/
theorem demand_mem_course_iff {aggregator : Aggregator} {target : AggregationTarget}
    {failure : Option ReportError} :
    .demand failure ∈ aggregator.course chain target ↔
      failure = epochFailure? chain target.epoch ∨
      (∃ minipool ∈ chain.listed,
        failure = shareFailure? aggregator.curve chain target.epoch minipool) ∨
      ∃ node ∈ chain.nodes,
        failure = (distributorFailure? chain node).map (.read "fee distributor address") := by
  have hstatuses : .demand failure ∉ statusCourse chain := by
    unfold statusCourse
    split
    · simp
    · simp
  have hsmoothing : .demand failure ∉ smoothingCourse aggregator.smoothing chain target := by
    unfold smoothingCourse
    cases aggregator.smoothing with
    | none => simp
    | some estimate => simp
  simp [course, listCourse, balanceCourse, nodeCourse, rethCourse, hstatuses, hsmoothing, eq_comm]

/-- All demands on the course are met when every node has a fee distributor, the beacon chain has
reached the epoch, and every active minipool has a share. -/
theorem demands_met_iff {aggregator : Aggregator} {target : AggregationTarget} :
    (∀ failure, .demand failure ∈ aggregator.course chain target → failure = none) ↔
      chain.Equipped ∧
      target.epoch ≤ chain.head.epoch ∧
      ∀ minipool ∈ chain.listed, chain.Active target.epoch minipool → ∃ share,
        aggregator.curve.minipoolShare minipool (chain.liveBalance minipool) = .ok share := by
  simp only [demand_mem_course_iff]
  constructor
  · intro h
    refine ⟨fun node hnode => ?_, ?_, fun minipool hmem => ?_⟩
    · have hnone := h _ (.inr (.inr ⟨node, hnode, rfl⟩))
      exact distributorFailure?_eq_none_iff.mp (Option.map_eq_none_iff.mp hnone)
    · exact epochFailure?_eq_none_iff.mp (h _ (.inl rfl))
    · exact shareFailure?_eq_none_iff.mp (h _ (.inr (.inl ⟨minipool, hmem, rfl⟩)))
  · rintro ⟨hnodes, hepoch, hshares⟩ failure (rfl | ⟨minipool, hmem, rfl⟩ | ⟨node, hnode, rfl⟩)
    · exact epochFailure?_eq_none_iff.mpr hepoch
    · exact shareFailure?_eq_none_iff.mpr (hshares minipool hmem)
    · exact Option.map_eq_none_iff.mpr (distributorFailure?_eq_none_iff.mpr (hnodes node hnode))

/-- The estimates on the course of a snapshot are those of its estimator. -/
theorem estimates_course (aggregator : Aggregator) (target : AggregationTarget) :
    (aggregator.course chain target).filterMap Hurdle.estimate? =
      aggregator.smoothing.toList.map fun estimate =>
        (chain.rewards.request target, estimate (chain.rewards.request target)) := by
  have hlist : (listCourse chain).filterMap Hurdle.estimate? = [] := by
    simp [listCourse]
  have hbalances : (balanceCourse aggregator.curve chain target.epoch).filterMap
      Hurdle.estimate? = [] := by
    unfold balanceCourse statusCourse
    split
    · simp
    · simp
  have hnodes : (chain.nodes.flatMap (nodeCourse chain)).filterMap Hurdle.estimate? = [] := by
    simp [List.filterMap_flatMap, nodeCourse]
  unfold course smoothingCourse rethCourse
  cases aggregator.smoothing with
  | none =>
    simp only [List.filterMap_append, List.filterMap_cons, List.filterMap_nil, hlist, hbalances,
      hnodes, Hurdle.estimate?_read]
    rfl
  | some estimate =>
    simp only [List.filterMap_append, List.filterMap_cons, List.filterMap_nil, hlist, hbalances,
      hnodes, Hurdle.estimate?_read, Hurdle.estimate?_estimate]
    rfl

/-- All estimates on the course are given when the estimator answers, or there is none to be asked. -/
theorem estimates_given_iff {aggregator : Aggregator} {target : AggregationTarget} :
    (∀ request answer, .estimate request answer ∈ aggregator.course chain target →
        ∃ share, answer = .ok share) ↔
      ∃ share, aggregator.estimate chain target = .ok share := by
  simp only [← Hurdle.mem_estimates_iff, estimates_course, estimate]
  cases aggregator.smoothing with
  | none => simp
  | some estimate => simp

/-- A snapshot succeeds exactly when no call that it makes is set to fail, every node has a fee
distributor, the beacon chain has reached the epoch, every active minipool has a share and the
estimator answers. -/
theorem aggregate_succeeds_iff (aggregator : Aggregator) (chain : Chain)
    (target : AggregationTarget) :
    (∃ snapshot, ((aggregator.aggregate target).ask chain).result = .ok snapshot) ↔
      (∀ method ∈ ((aggregator.aggregate target).ask chain).calls, method ∉ chain.failing) ∧
      chain.Equipped ∧
      target.epoch ≤ chain.head.epoch ∧
      (∀ minipool ∈ chain.listed, chain.Active target.epoch minipool → ∃ share,
        aggregator.curve.minipoolShare minipool (chain.liveBalance minipool) = .ok share) ∧
      ∃ share, aggregator.estimate chain target = .ok share := by
  have hfollows : Follows chain (aggregator.aggregate target) (aggregator.course chain target)
      (aggregator.snapshot chain target) := follows_aggregate aggregator target
  simp only [hfollows.result_eq_ok_iff, exists_and_left, exists_eq', and_true]
  rw [hfollows.firstFailure?_eq_none_iff, demands_met_iff, estimates_given_iff, and_assoc, and_assoc]

/-- A snapshot is taken in the order of its course, whatever the size of the batches and whatever was
done to the chain before. It succeeds exactly when no call that it makes is set to fail, the beacon
chain has reached the epoch, every active minipool has a share and the estimator answers. Then it is
the snapshot of the chain, for which the estimator was asked once; otherwise the first failure on the
course is the answer. -/
theorem aggregate_complete_or_failed (aggregator : Aggregator) (ops : List Chain.Operation)
    (target : AggregationTarget) :
    let chain := Chain.Operation.run .fresh ops
    let taken := (aggregator.aggregate target).ask chain
    let request := chain.rewards.request target
    ((∃ snapshot, taken.result = .ok snapshot) ↔
      (∀ method ∈ taken.calls, method ∉ chain.failing) ∧
      target.epoch ≤ chain.head.epoch ∧
      (∀ minipool ∈ chain.listed, chain.Active target.epoch minipool → ∃ share,
        aggregator.curve.minipoolShare minipool (chain.liveBalance minipool) = .ok share) ∧
      ∃ share, aggregator.estimate chain target = .ok share) ∧
    (match Hurdle.firstFailure? chain (aggregator.course chain target) with
      | some failure => taken.result = .error failure
      | none => taken.result = .ok (aggregator.snapshot chain target) ∧
        taken.notes.filterMap Note.request? = aggregator.smoothing.toList.map fun _ => request) ∧
    request.intervalsPassed.toNat =
      (target.blockTime.toNat - chain.rewards.startTime.toNat) / chain.rewards.duration.toNat := by
  intro chain taken request
  have hequipped : chain.Equipped := Chain.equipped_fresh.run ops
  have hfollows : Follows chain (aggregator.aggregate target) (aggregator.course chain target)
      (aggregator.snapshot chain target) := follows_aggregate aggregator target
  refine ⟨?_, ?_, ?_⟩
  · have hsucceeds := aggregate_succeeds_iff aggregator chain target
    rwa [iff_true_intro hequipped, true_and] at hsucceeds
  · cases hfirst : Hurdle.firstFailure? chain (aggregator.course chain target) with
    | some failure =>
      have hresult := hfollows.result
      rwa [hfirst] at hresult
    | none =>
      refine ⟨hfollows.result_eq_ok_iff.mpr ⟨hfirst, rfl⟩, ?_⟩
      rw [hfollows.requests_of_none hfirst, estimates_course, List.map_map]
      rfl
  · simp [request, RewardsInterval.request, RewardsInterval.passedAt]

end Aggregator

end StakeOracle
