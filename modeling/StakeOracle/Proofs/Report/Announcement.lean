import StakeOracle.Proofs.Chain.Answer
import StakeOracle.Report.Source

/-!
# What a balances report writes

The reads behind a snapshot write nothing to the log. So a balances report that computes its call
writes one entry for the snapshot and then announces its figures, and no figure of another snapshot
stands among them.
-/

namespace StakeOracle

namespace Query

/-- A query that writes no log entries. -/
def Silent (q : Query ε α) : Prop := ∀ chain, (q.ask chain).entries = []

namespace Silent

/-- A value that is given writes nothing. -/
protected theorem pure {a : α} : Silent (pure a : Query ε α) := fun _ => rfl

/-- A failure that is given writes nothing. -/
theorem throw {e : ε} : Silent (throw e : Query ε α) := fun _ => rfl

/-- A note of a request to the estimator is no log entry. -/
theorem asked {request : EstimateRequest} : Silent (note (.asked request) : Query ε Unit) :=
  fun _ => rfl

/-- A result that is given writes nothing. -/
theorem ofExcept {result : Except ε α} : Silent (Query.ofExcept result) := fun _ => rfl

/-- A read writes nothing, whatever the work around it is called. -/
theorem read {method : Method} {context : String} {answer : Chain → Except ChainError α} :
    Silent ((call method answer).within context) := fun _ => rfl

/-- A query in two silent parts is silent. -/
theorem bind {q : Query ε α} {f : α → Query ε β} (hq : Silent q) (hf : ∀ a, Silent (f a)) :
    Silent (q >>= f) := by
  intro chain
  rw [Noted.entries, filterMap_notes_ask_bind, ← Noted.entries, hq chain]
  cases (q.ask chain).result with
  | ok a => exact hf a chain
  | error e => rfl

/-- Silent work on every item of a list is silent. -/
theorem mapM {work : ι → Query ε α} (h : ∀ item, Silent (work item)) (items : List ι) :
    Silent (items.mapM work) := by
  induction items with
  | nil => exact .pure
  | cons item items ih =>
    rw [List.mapM_cons]
    exact .bind (h item) fun _ => .bind ih fun _ => .pure

end Silent

/-- The entries of a query are those that follow a first part without any. -/
theorem entries_ask_bind_of_silent {q : Query ε α} {f : α → Query ε β} {chain : Chain} {a : α}
    (hq : Silent q) (h : (q.ask chain).result = .ok a) :
    ((q >>= f).ask chain).entries = ((f a).ask chain).entries := by
  rw [Noted.entries, filterMap_notes_ask_bind, ← Noted.entries, hq chain, h]
  rfl

/-- Log entries that are written one after another, and what follows them. -/
theorem entries_ask_forM_log (entries : List LogEntry) (q : Query ε α) (chain : Chain) :
    ((entries.forM Query.log >>= fun _ => q).ask chain).entries =
      entries ++ (q.ask chain).entries := by
  induction entries with
  | nil => rfl
  | cons entry entries ih => exact congrArg (entry :: ·) ih

end Query

namespace Aggregator

open Query

/-- Reading the minipools writes nothing. -/
theorem silent_readMinipools (batchSize : Nat) : Silent (readMinipools batchSize) := by
  refine .bind .read fun addresses => ?_
  rw [batched_eq_mapM]
  exact .mapM (fun _ => .read) addresses

/-- Working out the balances of minipools writes nothing, fail as it may. -/
theorem silent_minipoolBalances (curve : BondingCurve) (minipools : List Minipool)
    (epoch : UInt64) : Silent (minipoolBalances curve minipools epoch) := by
  refine .bind .read fun head => ?_
  have hstatuses : Silent (statusesOf Chain.readValidators (watchedKeys minipools)) := by
    unfold statusesOf
    split
    · exact .pure
    · exact .read
  have hrest : Silent (statusesOf Chain.readValidators (watchedKeys minipools) >>= fun statuses =>
      Query.ofExcept (balancesAt curve epoch minipools statuses)) :=
    .bind hstatuses fun _ => .ofExcept
  dsimp only
  split
  · exact .bind .throw fun _ => hrest
  · exact hrest

/-- Reading what the nodes' distributors hold writes nothing. -/
theorem silent_nodeShares (batchSize : Nat) (minipools : List Minipool) :
    Silent (nodeShares batchSize minipools) := by
  refine .bind .read fun nodes => ?_
  rw [batched_eq_mapM]
  exact .mapM (fun _ => .bind .read fun _ => .bind .read fun _ => .pure) nodes

/-- Reading the interval and asking for the estimate writes nothing. -/
theorem silent_smoothingShare (smoothing : Option Estimator) (target : AggregationTarget) :
    Silent (smoothingShare smoothing target) := by
  refine .bind .read fun interval => ?_
  cases smoothing with
  | none => exact .pure
  | some estimate =>
    refine .bind .asked fun _ => ?_
    cases estimate (interval.request target) with
    | ok share => exact .pure
    | error reason => exact .throw

/-- Reading what backs the token and how much of it there is writes nothing. -/
theorem silent_reth : Silent reth :=
  .bind .read fun _ => .bind .read fun _ => .bind .read fun _ => .pure

/-- A snapshot that is taken leaves one entry. -/
theorem entries_aggregate {aggregator : Aggregator} {target : AggregationTarget} {chain : Chain}
    {snapshot : NetworkBalances}
    (h : ((aggregator.aggregate target).ask chain).result = .ok snapshot) :
    ∃ minipools distributors, ((aggregator.aggregate target).ask chain).entries =
      [.aggregated target.block minipools distributors] := by
  unfold aggregate at h ⊢
  obtain ⟨depositPool, hdeposit, h⟩ := ask_bind_eq_ok.mp h
  obtain ⟨minipools, hminipools, h⟩ := ask_bind_eq_ok.mp h
  obtain ⟨balances, hbalances, h⟩ := ask_bind_eq_ok.mp h
  obtain ⟨shares, hshares, h⟩ := ask_bind_eq_ok.mp h
  obtain ⟨smoothing, hsmoothing, h⟩ := ask_bind_eq_ok.mp h
  obtain ⟨⟨rethBalance, rethSupply⟩, hreth, h⟩ := ask_bind_eq_ok.mp h
  have hread : Silent (Chain.readDepositPool.within "deposit pool balance") := .read
  refine ⟨balances.length, shares.length, ?_⟩
  rw [entries_ask_bind_of_silent hread hdeposit,
    entries_ask_bind_of_silent (silent_readMinipools _) hminipools,
    entries_ask_bind_of_silent (silent_minipoolBalances _ _ _) hbalances,
    entries_ask_bind_of_silent (silent_nodeShares _ _) hshares,
    entries_ask_bind_of_silent (silent_smoothingShare _ _) hsmoothing,
    entries_ask_bind_of_silent silent_reth hreth]
  rfl

end Aggregator

/-- A report that computes its call has taken a snapshot, submits it, and announces it. -/
theorem ReportSource.computeBalances_eq_ok {aggregator : Aggregator} {checkpoint : Checkpoint}
    {chain : Chain} {call : SubmissionCall}
    (h : ((computeBalances aggregator checkpoint).ask chain).result = .ok call) :
    ∃ snapshot minipools distributors, snapshot.call = call ∧
      ((computeBalances aggregator checkpoint).ask chain).entries =
        .aggregated checkpoint.block minipools distributors :: announcement snapshot := by
  unfold computeBalances at h ⊢
  obtain ⟨snapshot, hsnapshot, h⟩ := Query.ask_bind_eq_ok.mp h
  obtain ⟨-, -, hcall⟩ := Query.ask_bind_eq_ok.mp h
  obtain ⟨minipools, distributors, hentries⟩ := Aggregator.entries_aggregate hsnapshot
  refine ⟨snapshot, minipools, distributors, Query.ask_pure_eq_ok.mp hcall, ?_⟩
  rw [Noted.entries, Query.filterMap_notes_ask_bind, ← Noted.entries, hentries, hsnapshot]
  dsimp only
  rw [← Noted.entries, Query.entries_ask_forM_log]
  exact congrArg (_ :: ·) (List.append_nil _)

end StakeOracle
