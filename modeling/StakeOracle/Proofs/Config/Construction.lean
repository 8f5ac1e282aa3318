import StakeOracle.Engine.Supervisor
import StakeOracle.Proofs.Price.TickFailures
import StakeOracle.Proofs.Submission.FeeCeiling

/-!
# Validation is enough to build the tasks

Settings are checked in one place and turned into tasks in another, which converts the same fields
again. Whatever passes the checks can be built, and nothing else can. What was checked is what the tasks
rely on later: their periods are not zero, their fees are ordered, no amount wraps, no batch is empty,
and a window of ticks has some length.
-/

namespace StakeOracle

/-! ## Windows of ticks -/

/-- Over a window that is not empty, a mean tick is not missing for want of time. -/
theorem meanTick_ne_zeroElapsedTime {window : UInt32} (hwindow : window ≠ 0)
    (cumulatives : List Int64) (previous current : UInt64) :
    meanTick cumulatives window ≠ .error (.zeroElapsedTime previous current) := by
  rcases cumulatives with _ | ⟨first, _ | ⟨second, rest⟩⟩
  · simp [meanTick]
  · simp [meanTick]
  · by_cases hfits : FitsInt64 (second.toInt - first.toInt)
    · simp [meanTick_of_fits hfits, hwindow]
    · simp [meanTick_of_overflow hfits]

/-- The price of a tick is never missing for want of time. -/
theorem priceOfTick_ne_zeroElapsedTime (tick : ℤ) (previous current : UInt64) :
    priceOfTick tick ≠ .error (.zeroElapsedTime previous current) := by
  obtain hrange | hrange := le_or_gt |tick| 887272
  · obtain ⟨ratio, price, hexact⟩ := exists_exactPrice hrange
    simp [hexact.priceOfTick_eq]
  · simp [priceOfTick_of_out_of_range hrange]

/-- Over a window that is not empty, no source of mean ticks finds that no time has passed. -/
theorem result_priceAt_tick_ne_zeroElapsedTime {window : UInt32} (hwindow : window ≠ 0)
    (pool : Address) (block : UInt64) (chain : Chain) (previous current : UInt64) :
    (((PriceSource.tick pool window).priceAt block).ask chain).result ≠
      .error (.zeroElapsedTime previous current) := by
  cases hobserved : (Chain.readTickCumulatives.ask chain).result with
  | error failure =>
    change ((PriceSource.tickPrice window block).ask chain).result ≠ _
    unfold PriceSource.tickPrice
    rw [Query.result_ask_bind, Query.result_ask_within, hobserved]
    simp [Except.mapError]
  | ok cumulatives =>
    rw [result_priceAt_tick hobserved]
    intro h
    rcases bind_eq_error.mp h with htick | ⟨tick, -, hprice⟩
    · exact meanTick_ne_zeroElapsedTime hwindow cumulatives previous current htick
    · exact priceOfTick_ne_zeroElapsedTime tick previous current hprice

namespace Config

/-! ## What the checks accept -/

variable {config : Config} {limits : FeeLimits}

/-- Settings that pass every check, with the fee limits that they come to. -/
structure Valid (config : Config) (limits : FeeLimits) : Prop where
  intervals : ∀ category, (config.schedule category).intervalSecs ≠ 0
  batchSize : config.aggregation.batchSize ≠ 0
  refund : config.aggregation.fullRefundEth ≤ config.aggregation.launchBalanceEth
  window : config.price.windowSecs ≠ 0
  fees : config.fees.limits = .ok limits
  priorityFee : limits.priorityFee ≤ limits.maxFee

/-- What follows a check is reached when the check holds. -/
theorem check_bind_eq_ok {holds : Bool} {fault : ConfigFault} {next : Unit → Except ConfigFault α}
    {a : α} : check holds fault >>= next = .ok a ↔ holds = true ∧ next () = .ok a := by
  cases holds <;> simp [check, bind, Except.bind]

/-- The checks of all intervals hold when none of them is zero. -/
theorem check_intervals_eq_ok_iff : (Category.all.forM fun category =>
      check ((config.schedule category).intervalSecs ≠ 0) (.zeroInterval category)) = .ok () ↔
    ∀ category, (config.schedule category).intervalSecs ≠ 0 := by
  simp only [Category.all, List.forM_eq_forM, List.forM_cons, List.forM_nil, check_bind_eq_ok,
    decide_eq_true_eq]
  constructor
  · rintro ⟨hbalances, hprices, -⟩ category
    cases category with
    | balances => exact hbalances
    | prices => exact hprices
  · exact fun h => ⟨h .balances, h .prices, rfl⟩

/-- The checks accept exactly the settings that pass all of them. -/
theorem validate_eq_ok_iff : config.validate = .ok limits ↔ config.Valid limits := by
  constructor
  · intro h
    obtain ⟨_, hintervals, h⟩ := bind_eq_ok.mp h
    obtain ⟨hbatch, h⟩ := check_bind_eq_ok.mp h
    obtain ⟨hrefund, h⟩ := check_bind_eq_ok.mp h
    obtain ⟨hwindow, h⟩ := check_bind_eq_ok.mp h
    obtain ⟨found, hfees, h⟩ := bind_eq_ok.mp h
    obtain ⟨hpriority, h⟩ := check_bind_eq_ok.mp h
    obtain rfl : found = limits := Except.ok.inj h
    exact ⟨check_intervals_eq_ok_iff.mp hintervals, of_decide_eq_true hbatch,
      of_decide_eq_true hrefund, of_decide_eq_true hwindow, hfees, of_decide_eq_true hpriority⟩
  · intro h
    refine bind_eq_ok.mpr ⟨(), check_intervals_eq_ok_iff.mpr h.intervals, ?_⟩
    refine check_bind_eq_ok.mpr ⟨decide_eq_true h.batchSize, ?_⟩
    refine check_bind_eq_ok.mpr ⟨decide_eq_true h.refund, ?_⟩
    refine check_bind_eq_ok.mpr ⟨decide_eq_true h.window, ?_⟩
    refine bind_eq_ok.mpr ⟨limits, h.fees, ?_⟩
    exact check_bind_eq_ok.mpr ⟨decide_eq_true h.priorityFee, rfl⟩

/-! ## What is built -/

/-- The tasks of settings with given fee limits: one for balances, and one for prices if a pool is
named. -/
def planned (config : Config) (limits : FeeLimits) (smoothing : Option Estimator) :
    List ScheduledTask :=
  config.balances.scheduled limits (.balances (config.aggregator smoothing)) ::
    config.price.pool.toList.map fun pool =>
      config.prices.scheduled limits (.price (config.price.sourceOf pool))

/-- Settings that the checks refuse are not built, for the same reason. -/
theorem result_tasks_of_error {fault : ConfigFault} (h : config.validate = .error fault)
    (smoothing : Option Estimator) :
    (config.tasks smoothing).result = .error (.config fault.error) := by
  rw [tasks, h, Noted.result_pure]

/-- Settings that the checks accept are built: nothing is left that can fail. -/
theorem result_tasks_of_valid (h : config.Valid limits) (smoothing : Option Estimator) :
    (config.tasks smoothing).result = .ok (config.planned limits smoothing) := by
  rw [tasks, validate_eq_ok_iff.mpr h]
  dsimp only
  rw [h.fees, PriceSettings.source, planned]
  cases config.price.pool with
  | none => rfl
  | some pool => rfl

/-- The tasks are built exactly from valid settings, and are those that were planned. -/
theorem result_tasks_eq_ok_iff {smoothing : Option Estimator} {tasks : List ScheduledTask} :
    (config.tasks smoothing).result = .ok tasks ↔
      ∃ limits, config.Valid limits ∧ tasks = config.planned limits smoothing := by
  constructor
  · intro h
    cases hchecked : config.validate with
    | error fault =>
      rw [result_tasks_of_error hchecked] at h
      cases h
    | ok limits =>
      have hvalid := validate_eq_ok_iff.mp hchecked
      rw [result_tasks_of_valid hvalid] at h
      exact ⟨limits, hvalid, (Except.ok.inj h).symm⟩
  · rintro ⟨limits, hvalid, rfl⟩
    exact result_tasks_of_valid hvalid smoothing

/-! ## What a task can rely on -/

/-- A source that is set up as configured, and that no setting makes fail. -/
def Sourced (config : Config) (smoothing : Option Estimator) : ReportSource → Prop
  | .balances aggregator =>
    aggregator.smoothing = smoothing ∧
    aggregator.curve.launchBalance.toNat = config.aggregation.launchBalanceEth.toNat * 10 ^ 18 ∧
    aggregator.curve.fullRefund.toNat = config.aggregation.fullRefundEth.toNat * 10 ^ 18 ∧
    aggregator.curve.fullRefund ≤ aggregator.curve.launchBalance ∧
    aggregator.batchSize = config.aggregation.batchSize.toNat ∧
    max 1 aggregator.batchSize = aggregator.batchSize
  | .price source => ∃ pool, config.price.pool = some pool ∧ source = config.price.sourceOf pool ∧
    ∀ window, source = .tick pool window → ∀ block chain previous current,
      ((source.priceAt block).ask chain).result ≠ .error (.zeroElapsedTime previous current)
  | .broken _ => False

/-- A task that is scheduled by the section of its own category, at a period that its loop can run with,
and under the configured fees. -/
structure Scheduled (config : Config) (smoothing : Option Estimator) (scheduled : ScheduledTask) :
    Prop where
  period : scheduled.period = (config.schedule scheduled.task.category).intervalSecs.toNat * 1000
  blockSource : scheduled.task.blockSource = (config.schedule scheduled.task.category).blockSource
  period_pos : 0 < scheduled.period
  running : Engine.firstStage scheduled.period = .running
  fees : config.fees.limits = .ok scheduled.task.limits
  priorityFee_le : scheduled.task.limits.priorityFee ≤ scheduled.task.limits.maxFee
  maxFee_lt : scheduled.task.limits.maxFee.toNat < 2 ^ 128
  source : config.Sourced smoothing scheduled.task.source

namespace Valid

variable {smoothing : Option Estimator}

/-- Under valid settings the balances are set up as configured. -/
theorem sourced_balances (h : config.Valid limits) :
    config.Sourced smoothing (.balances (config.aggregator smoothing)) := by
  have hlaunch := toNat_ethToWei config.aggregation.launchBalanceEth
  have hrefund := toNat_ethToWei config.aggregation.fullRefundEth
  have hle : config.aggregation.fullRefundEth.toNat ≤ config.aggregation.launchBalanceEth.toNat :=
    UInt64.le_iff_toNat_le.mp h.refund
  have hbatch : 0 < config.aggregation.batchSize.toNat := toNat_pos_of_ne_zero h.batchSize
  refine ⟨rfl, hlaunch, hrefund, ?_, ?_, ?_⟩
  · change ethToWei _ ≤ ethToWei _
    rw [BitVec.le_def, hlaunch, hrefund]
    exact Nat.mul_le_mul_right _ hle
  · change max 1 _ = _
    omega
  · change max 1 (max 1 _) = max 1 _
    omega

/-- Under valid settings the prices are set up as configured, if a pool is named. -/
theorem sourced_price (h : config.Valid limits) {pool : Address}
    (hpool : config.price.pool = some pool) :
    config.Sourced smoothing (.price (config.price.sourceOf pool)) := by
  refine ⟨pool, hpool, rfl, fun window hsource block chain previous current => ?_⟩
  have hwindow : window ≠ 0 := by
    unfold PriceSettings.sourceOf at hsource
    split at hsource
    · cases hsource
      exact h.window
    · cases hsource
  rw [hsource]
  exact result_priceAt_tick_ne_zeroElapsedTime hwindow pool block chain previous current

/-- Under valid settings a source that is set up as configured makes a task that is scheduled. -/
theorem scheduled (h : config.Valid limits) {source : ReportSource}
    (hsource : config.Sourced smoothing source) :
    config.Scheduled smoothing ((config.schedule source.category).scheduled limits source) := by
  have hperiod : 0 < (config.schedule source.category).intervalSecs.toNat * millisPerSecond :=
    Nat.mul_pos (toNat_pos_of_ne_zero (h.intervals _)) (by decide)
  exact {
    period := rfl
    blockSource := rfl
    period_pos := hperiod
    running := if_neg hperiod.ne'
    fees := h.fees
    priorityFee_le := h.priorityFee
    maxFee_lt := FeeSettings.maxFee_lt_of_limits h.fees
    source := hsource }

/-- Under valid settings every planned task is scheduled. -/
theorem scheduled_of_mem (h : config.Valid limits) {scheduled : ScheduledTask}
    (hmem : scheduled ∈ config.planned limits smoothing) : config.Scheduled smoothing scheduled := by
  obtain rfl | hmem := List.mem_cons.mp hmem
  · exact h.scheduled h.sourced_balances
  · obtain ⟨pool, hpool, rfl⟩ := List.mem_map.mp hmem
    exact h.scheduled (h.sourced_price (Option.mem_toList.mp hpool))

end Valid

/-- The task for balances is the first one, and that for prices comes with a pool. -/
theorem map_category_planned (config : Config) (limits : FeeLimits) (smoothing : Option Estimator) :
    (config.planned limits smoothing).map (·.task.category) =
      if config.price.pool.isSome then [.balances, .prices] else [.balances] := by
  unfold planned
  cases config.price.pool with
  | none => rfl
  | some pool => rfl

/-- Whatever the settings are, tasks are built from them exactly when the checks accept them, and
otherwise fail with the message of the check. There is a task for balances, then one for prices if a pool
is named, and every task that is built is scheduled and set up as configured. -/
theorem tasks_built_iff_validated (config : Config) (smoothing : Option Estimator) :
    let built := (config.tasks smoothing).result
    ((∃ tasks, built = .ok tasks) ↔ ∃ limits, config.validate = .ok limits) ∧
    (∀ fault, config.validate = .error fault →
      built = .error (.config fault.error) ∧
        (ReportError.config fault.error).message = fault.error.message) ∧
    ∀ tasks, built = .ok tasks →
      tasks.map (·.task.category) =
        (if config.price.pool.isSome then [.balances, .prices] else [.balances]) ∧
      ∀ scheduled ∈ tasks, config.Scheduled smoothing scheduled := by
  intro built
  refine ⟨⟨?_, ?_⟩, fun fault h => ⟨result_tasks_of_error h smoothing, rfl⟩, fun tasks h => ?_⟩
  · rintro ⟨tasks, h⟩
    obtain ⟨limits, hvalid, -⟩ := result_tasks_eq_ok_iff.mp h
    exact ⟨limits, validate_eq_ok_iff.mpr hvalid⟩
  · rintro ⟨limits, h⟩
    exact ⟨_, result_tasks_of_valid (validate_eq_ok_iff.mp h) smoothing⟩
  · obtain ⟨limits, hvalid, rfl⟩ := result_tasks_eq_ok_iff.mp h
    exact ⟨map_category_planned config limits smoothing, fun scheduled => hvalid.scheduled_of_mem⟩

/-- The default settings with a pool of ticks over a given window. -/
def tickSettings (windowSecs : UInt32) : Config :=
  { standard with
    price := { PriceSettings.standard with
      pool := some (Octets.replicate 20 0x77), windowSecs := windowSecs } }

/-- Over half a minute they have both tasks; over no time they fail as their check does. -/
theorem tasks_of_tickSettings :
    (tickSettings 0).validate = .error .zeroWindow ∧
    ((tickSettings 0).tasks none).result =
      .error (.config (.invalid "twap_window_secs must be non-zero")) ∧
    ∃ tasks, ((tickSettings 30).tasks none).result = .ok tasks ∧
      tasks.map (·.task.category) = [.balances, .prices] ∧
      ∀ scheduled ∈ tasks, scheduled.period = 60000 := by
  have hrefused : (tickSettings 0).validate = .error .zeroWindow := rfl
  have haccepted : (tickSettings 30).validate = .ok ⟨200000000000, 2000000000⟩ := rfl
  obtain ⟨-, herror, -⟩ := tasks_built_iff_validated (tickSettings 0) none
  obtain ⟨hbuilt, -, htasks⟩ := tasks_built_iff_validated (tickSettings 30) none
  obtain ⟨tasks, hok⟩ := hbuilt.mpr ⟨_, haccepted⟩
  obtain ⟨hcategories, hscheduled⟩ := htasks tasks hok
  refine ⟨hrefused, (herror .zeroWindow hrefused).1, tasks, hok, hcategories, ?_⟩
  intro scheduled hmem
  rw [(hscheduled scheduled hmem).period]
  cases scheduled.task.category with
  | balances => rfl
  | prices => rfl

end Config

end StakeOracle
