import StakeOracle.Engine.Clock
import StakeOracle.Proofs.Engine.Supervision

/-!
# Shutting a supervisor down

A loop takes notice of a shutdown between two of its ticks, at any later time, and stops once
nothing that it keeps is under way. So when the last loop has stopped, every report has come to an
end, and no loop ticks again.
-/

namespace StakeOracle.Engine

variable {engine next : Engine} {loop : Nat}

/-! ## Loops that were left -/

/-- A loop that runs no more. -/
def Left (engine : Engine) (loop : Nat) : Prop :=
  ∃ l : Loop, engine.loops[loop]? = some l ∧ l.stage ≠ .running

/-- The loops stay as they are, or one of them changes, without being started again. -/
def LoopsMove (engine next : Engine) : Prop :=
  next.loops = engine.loops ∨ ∃ (loop : Nat) (l l' : Loop), engine.loops[loop]? = some l ∧
    next.loops = engine.loops.set loop l' ∧ (l'.stage = .running → l.stage = .running)

/-- Reports advance without their loops. -/
theorem loops_of_advances {allowed : Ending → Prop} (h : Advances allowed engine next) :
    next.loops = engine.loops := by
  induction h with
  | refl => rfl
  | tail _ hadvance ih => exact hadvance.loops.1.trans ih

/-- A tick leaves the loops as they are. -/
theorem loops_tick (engine : Engine) (task : Nat) :
    (after (tick task) engine).loops = engine.loops := by
  rcases engine.tick_cases task with ⟨hsame, -⟩ | ⟨slot, checkpoint, flight, -, -, -, -, hlaunch⟩
  · rw [hsame]
  · rw [hlaunch]
    rfl

/-- So does a claim. -/
theorem loops_claimFlight (engine : Engine) (task : Nat) (checkpoint : Checkpoint) :
    (after (claimFlight task checkpoint) engine).loops = engine.loops := by
  rcases engine.claimFlight_cases task checkpoint with ⟨hsame, -⟩ | ⟨slot, flight, -, -, -, hlaunch⟩
  · rw [hsame]
  · rw [hlaunch]
    rfl

/-- Nothing that happens under a supervisor starts a loop again. -/
theorem loopsMove_occur (engine : Engine) (occurrence : Occurrence) :
    LoopsMove engine (after (occur occurrence) engine) := by
  cases occurrence with
  | change change => exact .inl rfl
  | release count => exact .inl (loops_of_advances (engine.advances_releaseGate count))
  | begin report => exact .inl (loops_of_advances (engine.advances_beginReport report))
  | resolve report decision? =>
    exact .inl (loops_of_advances (engine.advances_resolveReport report decision?))
  | conclude report => exact .inl (loops_of_advances (engine.advances_concludeReport report))
  | tick loop =>
    change LoopsMove engine (after (tickLoop loop) engine)
    rcases engine.tickLoop_cases loop with hsame | ⟨l, hloop, hrunning⟩
    · exact .inl (by rw [hsame])
    · rw [after_tickLoop hloop hrunning]
      exact .inr ⟨loop, l, _, hloop, by rw [loops_tick], fun _ => hrunning⟩
  | prune loop =>
    change LoopsMove engine (after (pruneLoop loop) engine)
    rcases engine.pruneLoop_cases loop with hsame | ⟨l, hloop, hrunning, hpruned⟩
    · exact .inl (by rw [hsame])
    · rw [hpruned]
      exact .inr ⟨loop, l, _, hloop, rfl, fun _ => hrunning⟩
  | claim loop checkpoint =>
    change LoopsMove engine (after (claimLoop loop checkpoint) engine)
    rcases engine.claimLoop_cases loop checkpoint with hsame | ⟨l, hloop, hrunning, hclaimed⟩
    · exact .inl (by rw [hsame])
    · rw [hclaimed]
      exact .inr ⟨loop, l, _, hloop, by rw [loops_claimFlight], fun _ => hrunning⟩
  | signal =>
    refine .inl ?_
    change (after signal engine).loops = engine.loops
    rw [signal, after_modify]
    split
    · rfl
    · rfl
  | retire =>
    refine .inl ?_
    change (after retireSupervisor engine).loops = engine.loops
    rw [retireSupervisor, after_modify]
    split
    · rfl
    · rfl
  | stop loop =>
    change LoopsMove engine (after (stopLoop loop) engine)
    rcases engine.stopLoop_cases loop with hsame | ⟨l, hloop, hrunning, hstopped⟩
    · exact .inl (by rw [hsame])
    · rw [hstopped]
      exact .inr ⟨loop, l, _, hloop, rfl, fun _ => hrunning⟩
  | drain loop =>
    change LoopsMove engine (after (drainLoop loop) engine)
    rcases engine.drainLoop_cases loop with hsame | ⟨l, hloop, -, -, hdrained⟩
    · exact .inl (by rw [hsame])
    · rw [hdrained]
      exact .inr ⟨loop, l, _, hloop, rfl, fun h => by cases h⟩

/-- A loop that runs no more is not started again. -/
theorem Left.move (h : engine.Left loop) (hmove : LoopsMove engine next) : next.Left loop := by
  obtain ⟨l, hloop, hstage⟩ := h
  rcases hmove with hsame | ⟨other, k, k', hother, hset, hstarts⟩
  · exact ⟨l, by rwa [hsame], hstage⟩
  · rw [Left, hset]
    by_cases heq : other = loop
    · obtain rfl : l = k := by
        rw [← heq, hother] at hloop
        exact (Option.some.inj hloop).symm
      have hlength : other < engine.loops.length := (List.getElem?_eq_some_iff.mp hother).1
      exact ⟨k', heq ▸ List.getElem?_set_self hlength, fun h => hstage (hstarts h)⟩
    · exact ⟨l, (List.getElem?_set_ne heq).trans hloop, hstage⟩

/-- Whatever happens later. -/
theorem Left.proceed (h : engine.Left loop) (occurrences : List Occurrence) :
    (after (proceed occurrences) engine).Left loop :=
  after_forM_induction (P := (Left · loop)) occurrences h fun occurrence s hleft =>
    hleft.move (s.loopsMove_occur occurrence)

/-- No tick of a loop that runs no more begins or goes on: it does nothing at all. -/
theorem Left.idle (h : engine.Left loop) (checkpoint : Checkpoint) :
    tickLoop loop engine = (pure () : Act Unit) engine ∧
      pruneLoop loop engine = (pure () : Act Unit) engine ∧
      claimLoop loop checkpoint engine = (pure () : Act Unit) engine := by
  obtain ⟨l, hloop, hstage⟩ := h
  have hidle : engine.runningTask? loop = none := by
    simp [runningTask?, hloop, hstage]
  obtain ⟨work, hwork⟩ := exists_tickLoop_eq loop
  exact ⟨hwork ▸ whileRunning_of_idle work hidle, whileRunning_of_idle _ hidle,
    whileRunning_of_idle _ hidle⟩

/-! ## Shutting down with the clock -/

/-- Runs in a row are one run. -/
theorem after_proceed_append (first second : List Occurrence) (engine : Engine) :
    after (proceed (first ++ second)) engine =
      after (proceed second) (after (proceed first) engine) :=
  after_forM_append ..

/-- Doing with each item of a list what a run does is a run. -/
theorem after_forM_eq_proceed {f : Nat → Act Unit} (events : Nat → List Occurrence)
    (h : ∀ item engine, after (f item) engine = after (proceed (events item)) engine)
    (items : List Nat) (engine : Engine) :
    after (items.forM f) engine = after (proceed (items.flatMap events)) engine := by
  induction items generalizing engine with
  | nil => rfl
  | cons item items ih =>
    rw [List.flatMap_cons, after_proceed_append, after_forM_cons, h item engine]
    exact ih _

/-- Reports advance without touching what a shutdown waits for. -/
theorem stopping_of_advances {allowed : Ending → Prop} (h : Advances allowed engine next) :
    next.stopping = engine.stopping := by
  induction h with
  | refl => rfl
  | tail _ hadvance ih => exact hadvance.loops.2.2.trans ih

/-- Neither does a loop that stops. -/
theorem stopping_drainLoop (engine : Engine) (loop : Nat) :
    (after (drainLoop loop) engine).stopping = engine.stopping := by
  rcases engine.drainLoop_cases loop with hsame | ⟨l, -, -, -, hdrained⟩
  · rw [hsame]
  · rw [hdrained]

/-- Settling is a run in which reports are carried on and loops stop. -/
theorem exists_settle (engine : Engine) : ∃ occurrences,
    after settle engine = after (proceed occurrences) engine ∧
      (after settle engine).stopping = engine.stopping := by
  let begun := after (engine.unfinished.forM beginReport) engine
  let concluded := after (begun.unfinished.forM concludeReport) begun
  have hsettle : after settle engine =
      after ((List.range concluded.loops.length).forM drainLoop) concluded := rfl
  refine ⟨engine.unfinished.flatMap ([.begin ·]) ++ begun.unfinished.flatMap ([.conclude ·]) ++
    (List.range concluded.loops.length).flatMap ([.drain ·]), ?_, ?_⟩
  · rw [after_proceed_append, after_proceed_append,
      ← after_forM_eq_proceed (f := beginReport) ([.begin ·]) fun _ _ => rfl,
      ← after_forM_eq_proceed (f := concludeReport) ([.conclude ·]) fun _ _ => rfl,
      ← after_forM_eq_proceed (f := drainLoop) ([.drain ·]) fun _ _ => rfl]
    exact hsettle
  · rw [hsettle]
    let same (s : Engine) : Prop := s.stopping = engine.stopping
    have hbegun : same begun := after_forM_induction _ rfl fun report s h =>
      (stopping_of_advances (s.advances_beginReport report)).trans h
    have hconcluded : same concluded := after_forM_induction _ hbegun fun report s h =>
      (stopping_of_advances (s.advances_concludeReport report)).trans h
    exact after_forM_induction (P := same) _ hconcluded fun loop s h =>
      (s.stopping_drainLoop loop).trans h

/-- So is telling loops to stop. -/
theorem after_stopLoops (loops : List Nat) (engine : Engine) : after (stopLoops loops) engine =
    after (proceed (loops.flatMap fun loop => [.stop loop, .drain loop])) engine := by
  refine after_forM_eq_proceed _ (fun loop s => ?_) loops engine
  rw [proceed, after_forM_cons, after_forM_cons, after_forM_nil, after_bind]
  rfl

/-- The shutdown of a supervisor is a run of this kind. -/
theorem exists_shutdown (h : engine.stopping = none) : ∃ occurrences,
    after shutdown engine = after (proceed occurrences) engine := by
  have hsignal : after signal engine = { engine with stopping := some engine.supervised } := by
    simp [signal, h]
  obtain ⟨first, hfirst, hstopping⟩ := exists_settle (after signal engine)
  generalize hsettled : after settle (after signal engine) = settled at hfirst hstopping
  have hretired : after retireSupervisor settled = { settled with supervised := [] } := by
    have hsome : settled.stopping = some engine.supervised := by rw [hstopping, hsignal]
    simp [retireSupervisor, hsome]
  have hshutdown : after shutdown engine = after settle (after (stopLoops settled.supervised)
      (after retireSupervisor settled)) := by
    rw [hretired]
    simp only [shutdown, dismiss, after_bind, after_modify, after_get, answer_get, after_set,
      ← hsettled, hsignal]
  obtain ⟨last, hlast, -⟩ :=
    exists_settle (after (stopLoops settled.supervised) (after retireSupervisor settled))
  refine ⟨[.signal] ++ first ++ [.retire] ++
    (settled.supervised.flatMap fun loop => [.stop loop, .drain loop]) ++ last, ?_⟩
  have hrun (events : List Occurrence) : after (proceed ([.signal] ++ first ++ [.retire] ++ events))
      engine = after (proceed events) (after retireSupervisor settled) := by
    rw [after_proceed_append, after_proceed_append, after_proceed_append, hfirst]
    rfl
  rw [hshutdown, hlast, after_stopLoops, ← hrun, ← after_proceed_append]

/-- So an engine that is shut down with the clock is still tended. -/
theorem Tended.shutdown (h : engine.Tended) (hnone : engine.stopping = none) :
    (after shutdown engine).Tended := by
  obtain ⟨occurrences, hrun⟩ := exists_shutdown hnone
  rw [hrun]
  exact after_forM_induction occurrences h fun occurrence _ h => h.occur occurrence

/-! ## The end of a shutdown -/

/-- Once all loops have stopped, nothing is under way. -/
theorem Tended.hasEnded (h : engine.Tended) (hstopped : engine.stopped? = some true)
    (report : Nat) : engine.hasEnded report = true := by
  obtain ⟨loops, hstopping, hall⟩ := Option.map_eq_some_iff.mp hstopped
  rw [h.stopping loops hstopping, List.all_eq_true] at hall
  rw [← Bool.not_eq_false]
  intro hunderway
  obtain ⟨loop, l, hloop, -, hstage⟩ := h.kept report hunderway
  have hstopped := hall loop (List.mem_range.mpr (List.getElem?_eq_some_iff.mp hloop).1)
  simp [hasStopped, hloop, hstage] at hstopped

/-- Then no flight is taken. -/
theorem Tended.isRunning_eq_false (h : engine.Tended) (hstopped : engine.stopped? = some true)
    (task : Nat) : engine.isRunning task = false := by
  rw [h.held.isRunning_eq_false_iff, unfinishedOf, List.countP_eq_zero]
  intro r hr
  obtain ⟨i, hi⟩ := List.mem_iff_getElem?.mp hr
  have hended := h.hasEnded hstopped i
  rw [Engine.hasEnded, hi] at hended
  have hphase : r.phase.isEnded = true := hended
  simp [Report.underwayFor, hphase]

/-- Every report has come to an end of its own. -/
theorem Tended.ended (h : engine.Tended) (hstopped : engine.stopped? = some true) {r : Report}
    (hr : r ∈ engine.reports) : ∃ ending transaction,
      r.phase = .ended ending transaction ∧ ending ≠ .cancelled := by
  obtain ⟨i, hi⟩ := List.mem_iff_getElem?.mp hr
  have hended := h.hasEnded hstopped i
  rw [Engine.hasEnded, hi] at hended
  cases hphase : r.phase with
  | ended ending transaction =>
    refine ⟨ending, transaction, rfl, ?_⟩
    rintro rfl
    exact h.uncancelled hi transaction hphase
  | queued => simp [hphase, Phase.isEnded] at hended
  | inLine call hash => simp [hphase, Phase.isEnded] at hended
  | admitted call hash => simp [hphase, Phase.isEnded] at hended

/-- A shutdown loses no report. When the loops that it waits for have stopped, every report that was
ever started has come to an end other than being cancelled, and no task is running. From the moment
that a loop runs no more, it never ticks again. -/
theorem shutdown_loses_no_report (chain : Chain) (tasks : List ReportTask)
    (schedule : List (Nat × Nat)) (occurrences : List Occurrence) :
    let engine := after (proceed occurrences) (supervising chain tasks schedule)
    (engine.stopped? = some true →
      (∀ r ∈ engine.reports, ∃ ending transaction,
        r.phase = .ended ending transaction ∧ ending ≠ .cancelled) ∧
      ∀ task, engine.isRunning task = false) ∧
    ∀ loop, engine.Left loop → ∀ later checkpoint,
      let final := after (proceed later) engine
      final.Left loop ∧ tickLoop loop final = (pure () : Act Unit) final ∧
        pruneLoop loop final = (pure () : Act Unit) final ∧
        claimLoop loop checkpoint final = (pure () : Act Unit) final := by
  intro engine
  have htended : engine.Tended := tended_proceed chain tasks schedule occurrences
  refine ⟨fun hstopped => ?_, fun loop hleft later checkpoint => ?_⟩
  · exact ⟨fun r hr => htended.ended hstopped hr, htended.isRunning_eq_false hstopped⟩
  · exact ⟨hleft.proceed later, (hleft.proceed later).idle checkpoint⟩

/-- A chain that is due for a price report and holds inclusion back. -/
def heldChain : Chain :=
  [.latestBlock 120, .reportable .prices 100, .closeGate].foldl Chain.apply Chain.fresh

/-- A task that reports a fixed price. -/
def fixedPriceTask : ReportTask := ⟨.price (.fixed 42), .onChain, ⟨100000000000, 1000000000⟩⟩

/-- A shutdown while the report of a fixed price is held back, and the release of that report. -/
def heldShutdown : List Occurrence :=
  [.tick 0, .begin 0, .signal, .stop 0, .drain 0, .release 1, .conclude 0, .drain 0]

/-- The engine under a supervisor of that task, with what happened. -/
def heldEngine (occurrences : List Occurrence) : Engine :=
  after (proceed occurrences) (supervising heldChain [fixedPriceTask] [(0, 1000)])

/-- Before the release the shutdown waits. Behind it the report has ended, the task is free, and its
loop does not tick again. -/
theorem held_report_survives_shutdown :
    (heldEngine (heldShutdown.take 5)).stopped? = some false ∧
    let engine := heldEngine heldShutdown
    engine.stopped? = some true ∧ engine.reports.length = 1 ∧
      (∀ r ∈ engine.reports, ∃ ending transaction,
        r.phase = .ended ending transaction ∧ ending ≠ .cancelled) ∧
      engine.isRunning 0 = false ∧ tickLoop 0 engine = (pure () : Act Unit) engine := by
  have hwaits : (heldEngine (heldShutdown.take 5)).stopped? = some false := rfl
  have hstopped : (heldEngine heldShutdown).stopped? = some true := rfl
  have hleft : (heldEngine heldShutdown).Left 0 := ⟨_, rfl, by decide⟩
  obtain ⟨hended, hidle⟩ :=
    shutdown_loses_no_report heldChain [fixedPriceTask] [(0, 1000)] heldShutdown
  obtain ⟨hreports, hfree⟩ := hended hstopped
  exact ⟨hwaits, hstopped, rfl, hreports, hfree 0, (hidle 0 hleft [] ⟨.prices, 0, 0, 0, 0, 0⟩).2.1⟩

end StakeOracle.Engine
