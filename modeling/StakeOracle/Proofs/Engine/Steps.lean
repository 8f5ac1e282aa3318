import StakeOracle.Engine.Step
import StakeOracle.Proofs.Chain.Transmission

/-!
# What steps do to the chain of an engine

Questions and log entries leave an engine as it is. Most steps only read its chain; a release and a
cancelled report move the gate of the chain, and a report that begins may send.
-/

namespace StakeOracle.Engine

/-- Writing a log entry leaves the engine as it is. -/
@[simp] theorem after_log (entry : LogEntry) (engine : Engine) :
    after (log entry) engine = engine := rfl

/-- Asking leaves the engine as it is. -/
@[simp] theorem after_ask (q : Query ε α) (engine : Engine) : after (ask q) engine = engine := rfl

/-- What is asked is asked of the chain. -/
@[simp] theorem answer_ask (q : Query ε α) (engine : Engine) :
    answer (ask q) engine = (q.ask engine.chain).result := rfl

/-- An action on the chain changes nothing but the chain. -/
@[simp] theorem after_onChain (action : Action α) (engine : Engine) :
    after (onChain action) engine = { engine with chain := after action engine.chain } := rfl

/-- An action on the chain is answered by the chain. -/
@[simp] theorem answer_onChain (action : Action α) (engine : Engine) :
    answer (onChain action) engine = answer action engine.chain := rfl

/-- Moving a report to another phase does not touch the chain. -/
@[simp] theorem chain_setPhase (engine : Engine) (report : Nat) (phase : Phase) :
    (engine.setPhase report phase).chain = engine.chain := rfl

/-- Freeing a flight does not touch the chain. -/
@[simp] theorem chain_freeFlight (engine : Engine) (task : Nat) :
    (engine.freeFlight task).chain = engine.chain := rfl

/-- Finishing a report ends it and frees the flight of its task. -/
@[simp] theorem after_finishReport (report : Nat) (r : Report) (category : Category)
    (transaction : Option Digest) (result : Except ReportError ReportOutcome) (engine : Engine) :
    after (finishReport report r category transaction result) engine =
      (engine.setPhase report (.ended (.finished result) transaction)).freeFlight r.task := by
  unfold finishReport
  cases result with
  | error e => rfl
  | ok outcome => rfl

/-- Ticking a task only reads the chain. -/
theorem chain_tick (engine : Engine) (task : Nat) :
    (after (tick task) engine).chain = engine.chain := by
  unfold tick
  rw [after_bind, after_get, answer_get]
  cases engine.tasks[task]? with
  | none => rfl
  | some slot =>
    simp only [after_bind, after_ask, answer_ask]
    cases ((slot.task.tick slot.flight.busy).ask engine.chain).result with
    | error e => rfl
    | ok outcome =>
      dsimp only
      split
      · rfl
      · rfl

/-! ## Loops -/

/-- The reports that a tick with an answer started. -/
def startedBy : Option (Except ReportError Ticked) → List Nat
  | some (.ok ticked) => ticked.report.toList
  | _ => []

/-- The reports of a list that have not ended. -/
def unendedOf (engine : Engine) (reports : List Nat) : List Nat :=
  reports.filter fun report => !engine.hasEnded report

/-- A loop that runs ticks its task. It forgets the reports that have ended, and keeps the one that its
tick starts. -/
theorem after_tickLoop {engine : Engine} {loop : Nat} {l : Loop} (hloop : engine.loops[loop]? = some l)
    (hrunning : l.stage = .running) :
    let ticked := after (tick l.task) engine
    after (tickLoop loop) engine = { ticked with
      loops := ticked.loops.set loop { l with
        inFlight := engine.unendedOf l.inFlight ++ startedBy (answer (tick l.task) engine)
        due := l.nextTick } } := by
  unfold tickLoop
  rw [after_bind, after_get, answer_get, hloop]
  simp only [hrunning, ↓reduceIte, after_bind]
  cases answer (tick l.task) engine with
  | none => rfl
  | some ticked =>
    cases ticked with
    | error e => rfl
    | ok ticked => rfl

/-- A loop ticks only while it runs. -/
theorem tickLoop_cases (engine : Engine) (loop : Nat) : after (tickLoop loop) engine = engine ∨
    ∃ l, engine.loops[loop]? = some l ∧ l.stage = .running := by
  cases hloop : engine.loops[loop]? with
  | none => exact .inl (by simp [tickLoop, hloop])
  | some l =>
    by_cases hrunning : l.stage = .running
    · exact .inr ⟨l, rfl, hrunning⟩
    · exact .inl (by simp [tickLoop, hloop, hrunning])

/-- A loop is told to stop only while it runs. -/
theorem stopLoop_cases (engine : Engine) (loop : Nat) : after (stopLoop loop) engine = engine ∨
    ∃ l, engine.loops[loop]? = some l ∧ l.stage = .running ∧
      after (stopLoop loop) engine =
        { engine with loops := engine.loops.set loop { l with stage := .draining } } := by
  unfold stopLoop
  rw [after_bind, after_get, answer_get]
  cases hloop : engine.loops[loop]? with
  | none => exact .inl rfl
  | some l =>
    by_cases hrunning : l.stage = .running
    · refine .inr ⟨l, rfl, hrunning, ?_⟩
      simp only [hrunning, ↓reduceIte, after_bind]
      split
      · rfl
      · rfl
    · exact .inl (by simp [hrunning])

/-- A loop stops only once it was told to, and once the reports that it keeps have ended. -/
theorem drainLoop_cases (engine : Engine) (loop : Nat) : after (drainLoop loop) engine = engine ∨
    ∃ l, engine.loops[loop]? = some l ∧ l.stage = .draining ∧
      (∀ report ∈ l.inFlight, engine.hasEnded report = true) ∧
      after (drainLoop loop) engine =
        { engine with loops := engine.loops.set loop { l with stage := .stopped } } := by
  unfold drainLoop
  rw [after_bind, after_get, answer_get]
  cases hloop : engine.loops[loop]? with
  | none => exact .inl rfl
  | some l =>
    by_cases hdrained : l.stage = .draining ∧ l.inFlight.all engine.hasEnded
    · refine .inr ⟨l, rfl, hdrained.1, List.all_eq_true.mp hdrained.2, ?_⟩
      simp only [if_pos hdrained]
      rfl
    · exact .inl (by simp only [if_neg hdrained]; rfl)

/-- A loop's tick only reads the chain. -/
theorem chain_tickLoop (engine : Engine) (loop : Nat) :
    (after (tickLoop loop) engine).chain = engine.chain := by
  rcases engine.tickLoop_cases loop with hsame | ⟨l, hloop, hrunning⟩
  · rw [hsame]
  · rw [after_tickLoop hloop hrunning]
    exact chain_tick engine l.task

/-- Starting a loop does not touch the chain. -/
theorem chain_startLoop (engine : Engine) (task period : Nat) :
    (after (startLoop task period) engine).chain = engine.chain := rfl

/-- Stopping a loop does not touch the chain. -/
theorem chain_stopLoop (engine : Engine) (loop : Nat) :
    (after (stopLoop loop) engine).chain = engine.chain := by
  rcases engine.stopLoop_cases loop with hsame | ⟨l, -, -, hstopped⟩
  · rw [hsame]
  · rw [hstopped]

/-- Draining a loop does not touch the chain. -/
theorem chain_drainLoop (engine : Engine) (loop : Nat) :
    (after (drainLoop loop) engine).chain = engine.chain := by
  rcases engine.drainLoop_cases loop with hsame | ⟨l, -, -, -, hdrained⟩
  · rw [hsame]
  · rw [hdrained]

/-! ## Reports -/

/-- Concluding a report makes its receipt up from the chain, and leaves the chain as it is. -/
theorem chain_concludeReport (engine : Engine) (report : Nat) :
    (after (concludeReport report) engine).chain = engine.chain := by
  unfold concludeReport
  rw [after_bind, after_get, answer_get]
  cases engine.reports[report]? with
  | none => rfl
  | some r =>
    cases hphase : r.phase with
    | admitted call hash => simp [hphase]
    | queued => simp [hphase]
    | inLine call hash => simp [hphase]
    | ended ending transaction => simp [hphase]

/-- A cancelled report leaves the line of the gate; one that has ended is left alone. -/
theorem chain_cancelReport (engine : Engine) (report : Nat) :
    (after (cancelReport report) engine).chain = engine.chain ∨
      (after (cancelReport report) engine).chain = engine.chain.leave report := by
  unfold cancelReport
  rw [after_bind, after_get, answer_get]
  cases engine.reports[report]? with
  | none => exact .inl rfl
  | some r =>
    by_cases hended : r.phase.isEnded
    · left
      simp [hended]
    · right
      simp [hended, endReport]

end StakeOracle.Engine
