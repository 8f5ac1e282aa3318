import StakeOracle.Aggregation
import StakeOracle.Proofs.Batch.Batches
import StakeOracle.Proofs.Chain.Answer

/-!
# Every minipool is classified on its own

What a minipool contributes is told by its own record and by the status that is known of its
validator. Statuses are asked for in one go, for the minipools past the stages before staking, and
whatever is answered is looked up key by key: keys may be missing, shared, or listed without having
been asked for. Nobody is asked when no minipool is past those stages, or when the epoch lies ahead.
-/

namespace StakeOracle

/-- A minipool is past the stages before staking when it is in neither of them. -/
theorem MinipoolStatus.preStake_eq_false_iff {status : MinipoolStatus} :
    status.preStake = false ↔ status ≠ .initialized ∧ status ≠ .prelaunch := by
  cases status <;> simp [preStake]

/-- A validator is active at an epoch if it exists and was activated before. -/
theorem ValidatorStatus.activeAt_iff {status : ValidatorStatus} {epoch : UInt64} :
    status.activeAt epoch = true ↔ status.present = true ∧ status.activationEpoch < epoch := by
  simp [activeAt]

namespace Aggregator

/-! ## One minipool -/

/-- A minipool that counts with a live balance: it is past the stages before staking, and among the
known statuses is that of its validator, which exists and was activated before the epoch. -/
structure Live (statuses : List (Pubkey × ValidatorStatus)) (epoch : UInt64) (minipool : Minipool)
    (status : ValidatorStatus) : Prop where
  past : minipool.status ≠ .initialized ∧ minipool.status ≠ .prelaunch
  known : statuses.lookup minipool.pubkey = some status
  present : status.present = true
  activated : status.activationEpoch < epoch

/-- What an entry says of a minipool: what the minipool itself is, whether it is staking, and what
depositors have in it, by the curve if it counts with a live balance and else as it was paid in. -/
structure Describes (curve : BondingCurve) (statuses : List (Pubkey × ValidatorStatus))
    (epoch : UInt64) (minipool : Minipool) (entry : MinipoolBalance) : Prop where
  status : entry.status = minipool.status
  node : entry.node = minipool.node
  nodeFee : entry.nodeFee = minipool.nodeFee
  staking : entry.staking = true ↔
    ∃ status, Live statuses epoch minipool status ∧ epoch < status.exitEpoch
  live : ∀ status, Live statuses epoch minipool status →
    curve.minipoolShare minipool (gweiToWei status.balanceGwei) = .ok entry.userBalance
  idle : (∀ status, ¬ Live statuses epoch minipool status) →
    entry.userBalance = minipool.userDeposit

variable {curve : BondingCurve} {statuses others : List (Pubkey × ValidatorStatus)} {epoch : UInt64}
  {minipool : Minipool} {minipools : List Minipool} {status : ValidatorStatus}

/-- A minipool is live with one status. -/
theorem Live.unique {other : ValidatorStatus} (h : Live statuses epoch minipool status)
    (hother : Live statuses epoch minipool other) : other = status :=
  Option.some.inj (hother.known.symm.trans h.known)

/-- A minipool that counts with a live balance contributes its share of it, if there is one. -/
theorem minipoolBalance_of_live (h : Live statuses epoch minipool status) :
    minipoolBalance curve epoch minipool (statuses.lookup minipool.pubkey) =
      match curve.minipoolShare minipool (gweiToWei status.balanceGwei) with
      | .error e => .error (.minipool minipool.address e.message)
      | .ok share =>
        .ok { idle minipool with userBalance := share, staking := epoch < status.exitEpoch } := by
  rw [h.known]
  exact minipoolBalance_active (MinipoolStatus.preStake_eq_false_iff.mpr h.past)
    (ValidatorStatus.activeAt_iff.mpr ⟨h.present, h.activated⟩)

/-- Any other minipool contributes its deposits. -/
theorem minipoolBalance_of_not_live (h : ∀ status, ¬ Live statuses epoch minipool status) :
    minipoolBalance curve epoch minipool (statuses.lookup minipool.pubkey) =
      .ok (idle minipool) := by
  cases hstage : minipool.status.preStake with
  | true => exact minipoolBalance_preStake curve epoch hstage _
  | false =>
    refine minipoolBalance_inactive hstage fun status hknown hactive => h status ?_
    obtain ⟨hpresent, hactivated⟩ := ValidatorStatus.activeAt_iff.mp hactive
    exact ⟨MinipoolStatus.preStake_eq_false_iff.mp hstage, hknown, hpresent, hactivated⟩

/-- An entry is told by the minipool and the statuses. -/
theorem Describes.unique {entry other : MinipoolBalance}
    (h : Describes curve statuses epoch minipool entry)
    (hother : Describes curve statuses epoch minipool other) : other = entry := by
  have hbalance : other.userBalance = entry.userBalance := by
    by_cases hlive : ∃ status, Live statuses epoch minipool status
    · obtain ⟨status, hstatus⟩ := hlive
      exact Except.ok.inj ((hother.live status hstatus).symm.trans (h.live status hstatus))
    · rw [not_exists] at hlive
      rw [hother.idle hlive, h.idle hlive]
  have hstaking : other.staking = entry.staking :=
    Bool.eq_iff_iff.mpr (hother.staking.trans h.staking.symm)
  have hstatus := hother.status.trans h.status.symm
  have hnode := hother.node.trans h.node.symm
  have hfee := hother.nodeFee.trans h.nodeFee.symm
  cases entry
  cases other
  simp_all

/-- A live minipool is described by its share and the exit of its validator. -/
theorem describes_live {share : Word} (h : Live statuses epoch minipool status)
    (hshare : curve.minipoolShare minipool (gweiToWei status.balanceGwei) = .ok share) :
    Describes curve statuses epoch minipool
      { idle minipool with userBalance := share, staking := epoch < status.exitEpoch } := by
  refine ⟨rfl, rfl, rfl, ?_, ?_, fun hnone => absurd h (hnone status)⟩
  · rw [decide_eq_true_iff]
    constructor
    · exact fun hexit => ⟨status, h, hexit⟩
    · rintro ⟨other, hother, hexit⟩
      rwa [h.unique hother] at hexit
  · intro other hother
    rw [h.unique hother]
    exact hshare

/-- Any other minipool is described by what was paid in. -/
theorem describes_idle (h : ∀ status, ¬ Live statuses epoch minipool status) :
    Describes curve statuses epoch minipool (idle minipool) where
  status := rfl
  node := rfl
  nodeFee := rfl
  staking := iff_of_false Bool.false_ne_true fun ⟨status, hstatus, _⟩ => h status hstatus
  live status hstatus := absurd hstatus (h status)
  idle _ := rfl

/-- A minipool contributes what describes it. -/
theorem minipoolBalance_eq_ok_iff {entry : MinipoolBalance} :
    minipoolBalance curve epoch minipool (statuses.lookup minipool.pubkey) = .ok entry ↔
      Describes curve statuses epoch minipool entry := by
  by_cases hlive : ∃ status, Live statuses epoch minipool status
  · obtain ⟨status, h⟩ := hlive
    rw [minipoolBalance_of_live h]
    cases hshare : curve.minipoolShare minipool (gweiToWei status.balanceGwei) with
    | error e =>
      refine iff_of_false (fun hentry => by cases hentry) fun hentry => ?_
      rw [hentry.live status h] at hshare
      cases hshare
    | ok share =>
      have hown := describes_live h hshare
      exact ⟨fun hentry => Except.ok.inj hentry ▸ hown,
        fun hentry => congrArg Except.ok (hentry.unique hown)⟩
  · rw [not_exists] at hlive
    rw [minipoolBalance_of_not_live hlive]
    have hown : Describes curve statuses epoch minipool (idle minipool) := describes_idle hlive
    exact ⟨fun hentry => Except.ok.inj hentry ▸ hown,
      fun hentry => congrArg Except.ok (hentry.unique hown)⟩

/-- It contributes something unless it counts with a live balance that there is no share of. -/
theorem exists_minipoolBalance_iff :
    (∃ entry, minipoolBalance curve epoch minipool (statuses.lookup minipool.pubkey) = .ok entry) ↔
      ∀ status, Live statuses epoch minipool status →
        ∃ share, curve.minipoolShare minipool (gweiToWei status.balanceGwei) = .ok share := by
  simp only [minipoolBalance_eq_ok_iff]
  constructor
  · rintro ⟨entry, hentry⟩ status h
    exact ⟨entry.userBalance, hentry.live status h⟩
  · intro hshares
    by_cases hlive : ∃ status, Live statuses epoch minipool status
    · obtain ⟨status, h⟩ := hlive
      obtain ⟨share, hshare⟩ := hshares status h
      exact ⟨_, describes_live h hshare⟩
    · exact ⟨_, describes_idle (not_exists.mp hlive)⟩

/-! ## All minipools -/

/-- The entries of minipools describe them one by one. -/
theorem balancesAt_eq_ok_iff {entries : List MinipoolBalance} :
    balancesAt curve epoch minipools statuses = .ok entries ↔
      List.Forall₂ (Describes curve statuses epoch) minipools entries := by
  unfold balancesAt
  simp only [mapM_eq_ok_iff, minipoolBalance_eq_ok_iff]

/-- There are entries exactly when every live minipool has a share. -/
theorem exists_balancesAt_iff :
    (∃ entries, balancesAt curve epoch minipools statuses = .ok entries) ↔
    ∀ minipool ∈ minipools, ∀ status, Live statuses epoch minipool status →
      ∃ share, curve.minipoolShare minipool (gweiToWei status.balanceGwei) = .ok share := by
  unfold balancesAt
  simp only [exists_mapM_eq_ok_iff, Done, exists_minipoolBalance_iff]

/-- No entry depends on what is known of minipools before staking. -/
theorem balancesAt_congr (h : ∀ minipool ∈ minipools, minipool.status.preStake = false →
      others.lookup minipool.pubkey = statuses.lookup minipool.pubkey) :
    balancesAt curve epoch minipools others = balancesAt curve epoch minipools statuses :=
  mapM_congr fun minipool hmem => minipoolBalance_congr (h minipool hmem)

/-- No key is watched when every minipool is in a stage before staking. -/
theorem watchedKeys_eq_nil_iff :
    watchedKeys minipools = [] ↔ ∀ minipool ∈ minipools, minipool.status.preStake = true := by
  simp [watchedKeys]

/-! ## Asking for statuses -/

variable {reader : StatusReader} {chain : Chain}

/-- A reader answers with statuses where there is something to ask. -/
def Answers (reader : StatusReader) (chain : Chain) (minipools : List Minipool)
    (statuses : List (Pubkey × ValidatorStatus)) : Prop :=
  watchedKeys minipools ≠ [] → ((reader (watchedKeys minipools)).ask chain).result = .ok statuses

/-- The beacon chain tells its head. -/
theorem result_readHead (hhead : Method.beaconHead ∉ chain.failing) :
    ((Chain.readHead.within "beacon head").ask chain).result = .ok chain.head :=
  Query.ask_read_eq_ok.mpr ⟨hhead, rfl⟩

/-- An epoch that lies ahead is refused once the head has been read. -/
theorem ask_minipoolBalancesFrom_ahead (reader : StatusReader) (curve : BondingCurve)
    (minipools : List Minipool) (hhead : Method.beaconHead ∉ chain.failing)
    (hahead : chain.head.epoch < epoch) :
    let taken := (minipoolBalancesFrom reader curve minipools epoch).ask chain
    taken.notes = [.called .beaconHead] ∧
      taken.result = .error (.epochAhead epoch chain.head.epoch) := by
  constructor
  · rw [minipoolBalancesFrom, Query.notes_ask_bind, result_readHead hhead]
    simp only [if_pos hahead]
    rfl
  · rw [minipoolBalancesFrom, Query.result_ask_bind, result_readHead hhead]
    simp only [if_pos hahead]
    rfl

/-- At an epoch that has been reached, the statuses of the watched keys are asked for next. -/
theorem ask_minipoolBalancesFrom_reached (reader : StatusReader) (curve : BondingCurve)
    (minipools : List Minipool) (hhead : Method.beaconHead ∉ chain.failing)
    (hreached : epoch ≤ chain.head.epoch)
    (hasked : ((statusesOf reader (watchedKeys minipools)).ask chain).result = .ok statuses) :
    let taken := (minipoolBalancesFrom reader curve minipools epoch).ask chain
    taken.notes =
        .called .beaconHead :: ((statusesOf reader (watchedKeys minipools)).ask chain).notes ∧
      taken.result = balancesAt curve epoch minipools statuses := by
  have hpassed : ¬ chain.head.epoch < epoch := UInt64.not_lt.mpr hreached
  constructor
  · rw [minipoolBalancesFrom, Query.notes_ask_bind, result_readHead hhead]
    simp only [if_neg hpassed]
    rw [Query.notes_ask_bind, hasked]
    dsimp only
    rw [Query.ask_ofExcept, List.append_nil]
    rfl
  · rw [minipoolBalancesFrom, Query.result_ask_bind, result_readHead hhead]
    simp only [if_neg hpassed]
    rw [Query.result_ask_bind, hasked]
    rfl

/-- Whatever a reader answers tells what every minipool contributes at an epoch that has been
reached. Without watched keys any statuses do, since none of them counts. -/
theorem result_minipoolBalancesFrom (hhead : Method.beaconHead ∉ chain.failing)
    (hreached : epoch ≤ chain.head.epoch) (hanswer : Answers reader chain minipools statuses) :
    ((minipoolBalancesFrom reader curve minipools epoch).ask chain).result =
      balancesAt curve epoch minipools statuses := by
  by_cases hwatched : watchedKeys minipools = []
  · have hasked : ((statusesOf reader (watchedKeys minipools)).ask chain).result = .ok [] := by
      rw [hwatched]
      rfl
    rw [(ask_minipoolBalancesFrom_reached reader curve minipools hhead hreached hasked).2]
    refine balancesAt_congr fun minipool hmem hpast => ?_
    rw [watchedKeys_eq_nil_iff.mp hwatched minipool hmem] at hpast
    cases hpast
  · have hasked : ((statusesOf reader (watchedKeys minipools)).ask chain).result = .ok statuses := by
      rw [statusesOf, if_neg hwatched]
      exact Query.ask_within_eq_ok.mpr (hanswer hwatched)
    exact (ask_minipoolBalancesFrom_reached reader curve minipools hhead hreached hasked).2

/-- Readers that agree on the keys of the minipools past the stages before staking lead to the same
result. -/
theorem result_minipoolBalancesFrom_congr {other : StatusReader} (curve : BondingCurve)
    (epoch : UInt64) (hhead : Method.beaconHead ∉ chain.failing)
    (hanswer : Answers reader chain minipools statuses)
    (hother : Answers other chain minipools others)
    (hagree : ∀ minipool ∈ minipools, minipool.status.preStake = false →
      others.lookup minipool.pubkey = statuses.lookup minipool.pubkey) :
    ((minipoolBalancesFrom other curve minipools epoch).ask chain).result =
      ((minipoolBalancesFrom reader curve minipools epoch).ask chain).result := by
  by_cases hahead : chain.head.epoch < epoch
  · rw [(ask_minipoolBalancesFrom_ahead other curve minipools hhead hahead).2,
      (ask_minipoolBalancesFrom_ahead reader curve minipools hhead hahead).2]
  · have hreached := UInt64.not_lt.mp hahead
    rw [result_minipoolBalancesFrom hhead hreached hother,
      result_minipoolBalancesFrom hhead hreached hanswer, balancesAt_congr hagree]

/-- No statuses are asked for when no key is watched. -/
theorem notes_minipoolBalancesFrom (reader : StatusReader) (curve : BondingCurve) (epoch : UInt64)
    (hhead : Method.beaconHead ∉ chain.failing) (hwatched : watchedKeys minipools = []) :
    ((minipoolBalancesFrom reader curve minipools epoch).ask chain).notes =
      [.called .beaconHead] := by
  have hasked : (statusesOf reader (watchedKeys minipools)).ask chain = ⟨[], .ok []⟩ := by
    rw [hwatched]
    rfl
  by_cases hahead : chain.head.epoch < epoch
  · exact (ask_minipoolBalancesFrom_ahead reader curve minipools hhead hahead).1
  · have hreached := UInt64.not_lt.mp hahead
    rw [(ask_minipoolBalancesFrom_reached reader curve minipools hhead hreached
      (congrArg Noted.result hasked)).1, hasked]

/-- The balances of minipools at an epoch, for any reader and whatever statuses it answers with. An
epoch that lies ahead is refused before any status is asked for. At an epoch that has been reached
there is one entry for each minipool, in their order, which describes that minipool alone, unless
some minipool counts with a live balance that there is no share of. Nobody is asked for statuses when
every minipool is in a stage before staking, and the keys of such minipools do not count: readers
that agree on the keys of the others lead to the same result. -/
theorem every_minipool_described (reader : StatusReader) (curve : BondingCurve)
    (minipools : List Minipool) (epoch : UInt64) (chain : Chain)
    (statuses : List (Pubkey × ValidatorStatus)) (hhead : Method.beaconHead ∉ chain.failing)
    (hanswer : Answers reader chain minipools statuses) :
    let taken := (minipoolBalancesFrom reader curve minipools epoch).ask chain
    (chain.head.epoch < epoch → taken.notes = [.called .beaconHead] ∧
      taken.result = .error (.epochAhead epoch chain.head.epoch)) ∧
    (epoch ≤ chain.head.epoch →
      ((∃ entries, taken.result = .ok entries) ↔
        ∀ minipool ∈ minipools, ∀ status, Live statuses epoch minipool status →
          ∃ share, curve.minipoolShare minipool (gweiToWei status.balanceGwei) = .ok share) ∧
      ∀ entries, taken.result = .ok entries ↔
        List.Forall₂ (Describes curve statuses epoch) minipools entries) ∧
    ((∀ minipool ∈ minipools, minipool.status = .initialized ∨ minipool.status = .prelaunch) →
      taken.notes = [.called .beaconHead]) ∧
    ∀ other others, Answers other chain minipools others →
      (∀ minipool ∈ minipools, minipool.status ≠ .initialized → minipool.status ≠ .prelaunch →
        others.lookup minipool.pubkey = statuses.lookup minipool.pubkey) →
      ((minipoolBalancesFrom other curve minipools epoch).ask chain).result = taken.result := by
  intro taken
  refine ⟨ask_minipoolBalancesFrom_ahead reader curve minipools hhead, fun hreached => ?_,
    fun hstages => ?_, fun other others hother hagree => ?_⟩
  · have hresult : taken.result = balancesAt curve epoch minipools statuses :=
      result_minipoolBalancesFrom hhead hreached hanswer
    rw [hresult]
    exact ⟨exists_balancesAt_iff, fun entries => balancesAt_eq_ok_iff⟩
  · apply notes_minipoolBalancesFrom reader curve epoch hhead
    apply watchedKeys_eq_nil_iff.mpr
    intro minipool hmem
    by_contra hpast
    obtain ⟨hinitialized, hprelaunch⟩ :=
      MinipoolStatus.preStake_eq_false_iff.mp (Bool.eq_false_iff.mpr hpast)
    exact (hstages minipool hmem).elim hinitialized hprelaunch
  · refine result_minipoolBalancesFrom_congr curve epoch hhead hanswer hother ?_
    intro minipool hmem hpast
    obtain ⟨hinitialized, hprelaunch⟩ := MinipoolStatus.preStake_eq_false_iff.mp hpast
    exact hagree minipool hmem hinitialized hprelaunch

/-- Statuses that lack the second of five validators, and tell of the first one, which nobody asks
for because its minipool is not staking yet. Of the others the third is activated with the epoch and
the fifth exits with it, one epoch late and one epoch early. -/
theorem described_by_partial_statuses :
    let minipool (n : UInt8) (status : MinipoolStatus) : Minipool :=
      ⟨Octets.replicate 20 n, Octets.replicate 48 n, status, .half, ethToWei 16, ethToWei 16,
        100000000000000000, Octets.replicate 20 12⟩
    let known (n : UInt8) (activation exit : UInt64) : Pubkey × ValidatorStatus :=
      (Octets.replicate 48 n, ⟨true, activation, exit, 34000000000⟩)
    let minipools := [minipool 1 .prelaunch, minipool 2 .staking, minipool 3 .staking,
      minipool 4 .staking, minipool 5 .withdrawable]
    let statuses := [known 1 10 90, known 3 50 90, known 4 49 51, known 5 10 50]
    let reader : StatusReader := fun _ => pure statuses
    let chain := { Chain.fresh with head := ⟨50, 48⟩ }
    let curve : BondingCurve := ⟨ethToWei 32, ethToWei 16⟩
    let entries := [idle (minipool 1 .prelaunch), idle (minipool 2 .staking),
      idle (minipool 3 .staking),
      { idle (minipool 4 .staking) with userBalance := 16900000000000000000, staking := true },
      { idle (minipool 5 .withdrawable) with userBalance := 16900000000000000000 }]
    Method.beaconHead ∉ chain.failing ∧ Answers reader chain minipools statuses ∧
      50 ≤ chain.head.epoch ∧
      ((minipoolBalancesFrom reader curve minipools 50).ask chain).result = .ok entries ∧
      List.Forall₂ (Describes curve statuses 50) minipools entries := by
  intro minipool known minipools statuses reader chain curve entries
  have hhead : Method.beaconHead ∉ chain.failing := by decide
  have hanswer : Answers reader chain minipools statuses := fun _ => rfl
  have hreached : 50 ≤ chain.head.epoch := by decide
  have hresult : ((minipoolBalancesFrom reader curve minipools 50).ask chain).result =
      .ok entries := by decide
  have hdescribed :=
    ((every_minipool_described reader curve minipools 50 chain statuses hhead hanswer).2.1
      hreached).2 entries
  exact ⟨hhead, hanswer, hreached, hresult, hdescribed.mp hresult⟩

end Aggregator

end StakeOracle
