import StakeOracle.Proofs.Engine.Flights

/-!
# Loops that look after their reports

The loops of a supervisor are the only ones to tick its tasks, and each keeps the reports that it
started until they have ended. Ticks of different loops and the reports that they start may take
their reads in between one another. Whatever happens, a report that is under way is kept by a loop
that has not stopped.
-/

namespace StakeOracle.Engine

/-! ## What happens under a supervisor -/

/-- An engine whose only work is a supervisor, with a loop for each scheduled task and period. -/
def supervising (chain : Chain) (tasks : List ReportTask) (schedule : List (Nat × Nat)) : Engine :=
  after (schedule.forM fun (task, period) => startLoop task period)
    { fresh with
      chain
      tasks := tasks.map fun task => ⟨task, Flight.free⟩
      supervised := List.range schedule.length }

/-- Work on a loop, which is left alone unless it runs. -/
def whileRunning (loop : Nat) (work : Engine → Loop → Act Unit) : Act Unit := do
  let engine ← get
  match engine.loops[loop]? with
  | none => return
  | some l => if l.stage = .running then work engine l

/-- The beginning of a loop's tick: the reports that have ended are forgotten. -/
def pruneLoop (loop : Nat) : Act Unit :=
  whileRunning loop fun engine l =>
    set { engine with
      loops := engine.loops.set loop { l with inFlight := engine.unendedOf l.inFlight } }

/-- The end of a loop's tick that got through its gates: the report that it starts is kept. -/
def claimLoop (loop : Nat) (checkpoint : Checkpoint) : Act Unit :=
  whileRunning loop fun _ l => do
    let claimed ← claimFlight l.task checkpoint
    modify fun e =>
      { e with
        loops := e.loops.set loop
          { l with inFlight := l.inFlight ++ startedBy (claimed.map .ok), due := l.nextTick } }

/-- Calls for a shutdown, unless one was called for. -/
def signal : Act Unit :=
  modify fun engine =>
    match engine.stopping with
    | none => { engine with stopping := some engine.supervised }
    | some _ => engine

/-- Ends the supervisor that is shut down. -/
def retireSupervisor : Act Unit :=
  modify fun engine =>
    match engine.stopping with
    | none => engine
    | some _ => { engine with supervised := [] }

/-- One thing that happens under a supervisor. -/
inductive Occurrence where
  | change (change : Change)
  | release (count : Nat)
  | begin (report : Nat)
  /-- The computation of a report comes to a decision, or breaks down. -/
  | resolve (report : Nat) (decision? : Option (Except ReportError Verdict))
  | conclude (report : Nat)
  | tick (loop : Nat)
  /-- A tick of a loop begins, and goes on with the reads of its gates. -/
  | prune (loop : Nat)
  /-- A tick of a loop gets through its gates. -/
  | claim (loop : Nat) (checkpoint : Checkpoint)
  | signal
  | retire
  /-- A loop takes notice that it is to stop. -/
  | stop (loop : Nat)
  | drain (loop : Nat)

/-- Lets something happen. -/
def occur : Occurrence → Act Unit
  | .change change => modify fun engine => { engine with chain := engine.chain.apply change }
  | .release count => releaseGate count
  | .begin report => beginReport report
  | .resolve report decision? => resolveReport report decision?
  | .conclude report => concludeReport report
  | .tick loop => tickLoop loop
  | .prune loop => pruneLoop loop
  | .claim loop checkpoint => claimLoop loop checkpoint
  | .signal => signal
  | .retire => retireSupervisor
  | .stop loop => stopLoop loop
  | .drain loop => drainLoop loop

/-- Lets things happen one after another. -/
def proceed (occurrences : List Occurrence) : Act Unit := occurrences.forM occur

variable {engine next : Engine} {report loop : Nat}

/-! ## Loops that run, and loops that do not -/

/-- What is asked of the state is answered by the state. -/
theorem get_bind_run (f : σ → StateT σ Noted α) (s : σ) : (get >>= f) s = f s s := rfl

/-- Work on a loop that does not run is not done. -/
theorem whileRunning_of_idle (work : Engine → Loop → Act Unit)
    (h : engine.runningTask? loop = none) :
    whileRunning loop work engine = (pure () : Act Unit) engine := by
  rw [whileRunning, get_bind_run]
  unfold runningTask? at h
  cases hloop : engine.loops[loop]? with
  | none => rfl
  | some l =>
    rw [hloop] at h
    have hstage : l.stage ≠ .running := by simpa using h
    simp only [if_neg hstage]

/-- Work on a loop that runs is done. -/
theorem whileRunning_of_running (work : Engine → Loop → Act Unit) {l : Loop}
    (hloop : engine.loops[loop]? = some l) (hstage : l.stage = .running) :
    whileRunning loop work engine = work engine l engine := by
  rw [whileRunning, get_bind_run]
  simp only [hloop, if_pos hstage]

/-- Ticking a loop is such work. -/
theorem exists_tickLoop_eq (loop : Nat) :
    ∃ work, tickLoop loop = whileRunning loop work := ⟨_, rfl⟩

/-- Work on a loop is done only while it runs. -/
theorem whileRunning_cases (engine : Engine) (loop : Nat) (work : Engine → Loop → Act Unit) :
    after (whileRunning loop work) engine = engine ∨
      ∃ l, engine.loops[loop]? = some l ∧ l.stage = .running ∧
        after (whileRunning loop work) engine = after (work engine l) engine := by
  cases hrunning : engine.runningTask? loop with
  | none => exact .inl (by rw [after, whileRunning_of_idle work hrunning]; rfl)
  | some task =>
    obtain ⟨l, hloop, hstage, -⟩ := runningTask?_eq_some_iff.mp hrunning
    exact .inr ⟨l, hloop, hstage, by rw [after, whileRunning_of_running work hloop hstage]; rfl⟩

/-- A tick begins only while its loop runs, which then forgets the reports that have ended. -/
theorem pruneLoop_cases (engine : Engine) (loop : Nat) :
    after (pruneLoop loop) engine = engine ∨
      ∃ l, engine.loops[loop]? = some l ∧ l.stage = .running ∧
        after (pruneLoop loop) engine = { engine with
          loops := engine.loops.set loop { l with inFlight := engine.unendedOf l.inFlight } } :=
  engine.whileRunning_cases loop _

/-- A tick gets through its gates only while its loop runs, which then keeps the report that it
starts. -/
theorem claimLoop_cases (engine : Engine) (loop : Nat) (checkpoint : Checkpoint) :
    after (claimLoop loop checkpoint) engine = engine ∨
      ∃ l, engine.loops[loop]? = some l ∧ l.stage = .running ∧
        let claimed := after (claimFlight l.task checkpoint) engine
        after (claimLoop loop checkpoint) engine = { claimed with
          loops := claimed.loops.set loop { l with
            inFlight := l.inFlight ++
              startedBy ((answer (claimFlight l.task checkpoint) engine).map .ok)
            due := l.nextTick } } :=
  engine.whileRunning_cases loop _

/-! ## Reports that are kept -/

/-- A loop that has not stopped keeps a report. -/
def Keeps (engine : Engine) (report : Nat) : Prop :=
  ∃ (loop : Nat) (l : Loop), engine.loops[loop]? = some l ∧ report ∈ l.inFlight ∧ l.stage ≠ .stopped

/-- An engine under a supervisor: every report that is under way is kept by a loop and holds the
flight of its task, no report was cancelled, and a shutdown waits for all loops. -/
structure Tended (engine : Engine) : Prop where
  kept : ∀ report, engine.hasEnded report = false → engine.Keeps report
  held : engine.FlightsHeld
  uncancelled : ∀ {i : Nat} {r : Report}, engine.reports[i]? = some r →
    ∀ transaction, r.phase ≠ .ended .cancelled transaction
  supervised : engine.stopping = none → engine.supervised = List.range engine.loops.length
  stopping : ∀ loops, engine.stopping = some loops → loops = List.range engine.loops.length

/-- A report is under way when it is listed and has not ended. -/
theorem hasEnded_eq_false_iff : engine.hasEnded report = false ↔
    ∃ r, engine.reports[report]? = some r ∧ r.phase.isEnded = false := by
  unfold hasEnded
  cases engine.reports[report]? with
  | none => simp
  | some r => simp

/-- When a report is moved to a phase, the others stay as they are. -/
theorem listed_of_setPhase {phase : Phase} {i : Nat} {r' : Report}
    (h : (engine.setPhase report phase).reports[i]? = some r') :
    ∃ r, engine.reports[i]? = some r ∧ (r' = r ∨ report = i ∧ r' = { r with phase }) := by
  obtain ⟨r, hr, rfl⟩ := Option.map_eq_some_iff.mp ((List.getElem?_modify ..).symm.trans h)
  refine ⟨r, hr, ?_⟩
  split
  · rename_i hreport
    exact .inr ⟨hreport, rfl⟩
  · exact .inl rfl

/-- A report that advanced was listed before. It is the same, or it was under way and has moved on,
or ended in a way that is allowed. -/
theorem Advance.listed {allowed : Ending → Prop} (h : Advance allowed engine next) {i : Nat}
    {r' : Report} (hr' : next.reports[i]? = some r') :
    ∃ r, engine.reports[i]? = some r ∧ (r' = r ∨ r.phase.isEnded = false ∧
      (r'.phase.isEnded = false ∨
        ∃ ending transaction, r'.phase = .ended ending transaction ∧ allowed ending)) := by
  cases h with
  | world chain => exact ⟨r', hr', .inl rfl⟩
  | @move report r phase hlisted hunderway hunended =>
    obtain ⟨old, hold, hsame | ⟨rfl, rfl⟩⟩ := listed_of_setPhase hr'
    · exact ⟨old, hold, .inl hsame⟩
    · obtain rfl : r = old := Option.some.inj (hlisted.symm.trans hold)
      exact ⟨r, hold, .inr ⟨hunderway, .inl hunended⟩⟩
  | @finish report r ending transaction hlisted hunderway hallowed =>
    obtain ⟨old, hold, hsame | ⟨rfl, rfl⟩⟩ := listed_of_setPhase hr'
    · exact ⟨old, hold, .inl hsame⟩
    · obtain rfl : r = old := Option.some.inj (hlisted.symm.trans hold)
      exact ⟨r, hold, .inr ⟨hunderway, .inr ⟨ending, transaction, rfl, hallowed⟩⟩⟩

/-- A report of a list that has not ended is among those that have not. -/
theorem mem_unendedOf {reports : List Nat} : report ∈ engine.unendedOf reports ↔
    report ∈ reports ∧ engine.hasEnded report = false := by
  simp [unendedOf]

/-- Reports advance without their loops. -/
theorem Advance.loops {allowed : Ending → Prop} (h : Advance allowed engine next) :
    next.loops = engine.loops ∧ next.supervised = engine.supervised ∧
      next.stopping = engine.stopping := by
  cases h with
  | world chain => exact ⟨rfl, rfl, rfl⟩
  | move listed underway unended => exact ⟨rfl, rfl, rfl⟩
  | finish transaction listed underway allows => exact ⟨rfl, rfl, rfl⟩

/-- A report that a loop keeps is still kept when the loop is replaced by one that keeps it. -/
theorem Keeps.setLoop {loop : Nat} {l l' : Loop} (h : engine.Keeps report)
    (hloop : engine.loops[loop]? = some l) (hnext : next.loops = engine.loops.set loop l')
    (hkeeps : report ∈ l.inFlight → report ∈ l'.inFlight ∧ l'.stage ≠ .stopped) :
    next.Keeps report := by
  obtain ⟨other, k, hother, hmem, hstage⟩ := h
  rw [Keeps, hnext]
  by_cases hsame : loop = other
  · obtain rfl : l = k := by
      rw [← hsame, hloop] at hother
      exact Option.some.inj hother
    have hlength : loop < engine.loops.length := (List.getElem?_eq_some_iff.mp hloop).1
    exact ⟨loop, l', List.getElem?_set_self hlength, hkeeps hmem⟩
  · exact ⟨other, k, (List.getElem?_set_ne hsame).trans hother, hmem, hstage⟩

namespace Tended

/-- Reports that advance without being cancelled are still tended. -/
theorem advance (h : engine.Tended) (hadvance : Advance Uncancelled engine next) :
    next.Tended := by
  obtain ⟨hloops, hsupervised, hstopping⟩ := hadvance.loops
  constructor
  · intro report hunderway
    obtain ⟨r', hr', hunended⟩ := hasEnded_eq_false_iff.mp hunderway
    obtain ⟨r, hr, hadvanced⟩ := hadvance.listed hr'
    have hwas : r.phase.isEnded = false := by
      rcases hadvanced with rfl | ⟨hwas, -⟩
      · exact hunended
      · exact hwas
    rw [Keeps, hloops]
    exact h.kept report (hasEnded_eq_false_iff.mpr ⟨r, hr, hwas⟩)
  · exact h.held.advance hadvance
  · intro i r' hr' transaction hcancelled
    obtain ⟨r, hr, rfl | ⟨-, hunended | ⟨ending, transaction', hended, hallowed⟩⟩⟩ :=
      hadvance.listed hr'
    · exact h.uncancelled hr transaction hcancelled
    · rw [hcancelled] at hunended
      cases hunended
    · rw [hcancelled] at hended
      cases hended
      exact hallowed rfl
  · rw [hstopping, hsupervised, hloops]
    exact h.supervised
  · rw [hstopping, hloops]
    exact h.stopping

/-- So are any number of such reports. -/
theorem advances (h : engine.Tended) (hadvances : Advances Uncancelled engine next) :
    next.Tended := by
  induction hadvances with
  | refl => exact h
  | tail _ hadvance ih => exact ih.advance hadvance

/-- An engine is tended when a loop is replaced by one that keeps what is under way. -/
theorem setLoop (h : engine.Tended) {loop : Nat} {l l' : Loop}
    (hloop : engine.loops[loop]? = some l)
    (hkeeps : ∀ report ∈ l.inFlight, engine.hasEnded report = false →
      report ∈ l'.inFlight ∧ l'.stage ≠ .stopped) :
    Tended { engine with loops := engine.loops.set loop l' } := by
  constructor
  · intro report hunderway
    exact (h.kept report hunderway).setLoop hloop rfl fun hmem => hkeeps report hmem hunderway
  · exact h.held.of_eq rfl rfl
  · exact h.uncancelled
  · exact fun hnone => (h.supervised hnone).trans (by rw [List.length_set])
  · intro loops hstopping
    exact (h.stopping loops hstopping).trans (by rw [List.length_set])

/-- An engine is tended when a loop starts a report and keeps it, besides what is under way. -/
theorem launch (h : engine.Tended) {loop : Nat} {l l' : Loop} {slot : TaskSlot} {flight : Flight}
    (checkpoint : Checkpoint) (hloop : engine.loops[loop]? = some l)
    (hslot : engine.tasks[l.task]? = some slot) (hacquired : slot.flight.acquire? = some flight)
    (hkeeps : ∀ report ∈ l.inFlight, engine.hasEnded report = false → report ∈ l'.inFlight)
    (hnew : engine.reports.length ∈ l'.inFlight) (hstage : l'.stage ≠ .stopped) :
    Tended { engine.launch l.task checkpoint flight with loops := engine.loops.set loop l' } := by
  constructor
  · intro report hunderway
    obtain ⟨r, hr, hunended⟩ := hasEnded_eq_false_iff.mp hunderway
    rcases Nat.lt_or_ge report engine.reports.length with hold | hnewest
    · have hwas : engine.hasEnded report = false :=
        hasEnded_eq_false_iff.mpr ⟨r, (List.getElem?_append_left hold).symm.trans hr, hunended⟩
      exact (h.kept report hwas).setLoop hloop rfl fun hmem => ⟨hkeeps report hmem hwas, hstage⟩
    · have hlength := (List.getElem?_eq_some_iff.mp hr).1
      have hlast : report = engine.reports.length := by
        simp only [Engine.launch, List.length_append, List.length_singleton] at hlength
        omega
      have hloops : loop < engine.loops.length := (List.getElem?_eq_some_iff.mp hloop).1
      exact ⟨loop, l', List.getElem?_set_self hloops, hlast ▸ hnew, hstage⟩
  · exact (h.held.launch hslot hacquired checkpoint).of_eq rfl rfl
  · intro i r hr transaction
    rcases List.mem_append.mp (List.mem_of_getElem? hr) with hmem | hmem
    · obtain ⟨j, hj⟩ := List.mem_iff_getElem?.mp hmem
      exact h.uncancelled hj transaction
    · rw [List.mem_singleton.mp hmem]
      simp
  · exact fun hnone => (h.supervised hnone).trans (by rw [List.length_set])
  · intro loops hstopping
    exact (h.stopping loops hstopping).trans (by rw [List.length_set])

/-- A loop that ticks keeps the report that this starts. -/
theorem tickLoop (h : engine.Tended) (loop : Nat) : (after (tickLoop loop) engine).Tended := by
  rcases engine.tickLoop_cases loop with hsame | ⟨l, hloop, hrunning⟩
  · rwa [hsame]
  · have hstage (inFlight : List Nat) (due : Nat) : { l with inFlight, due }.stage ≠ .stopped := by
      simp [hrunning]
    rw [after_tickLoop hloop hrunning]
    rcases engine.tick_cases l.task with
      ⟨hsame, -⟩ | ⟨slot, checkpoint, flight, hslot, hacquired, -, hanswer, hlaunch⟩
    · rw [hsame]
      refine h.setLoop hloop fun report hmem hunderway => ⟨?_, hstage _ _⟩
      exact List.mem_append_left _ (mem_unendedOf.mpr ⟨hmem, hunderway⟩)
    · rw [hlaunch, hanswer]
      refine h.launch checkpoint hloop hslot hacquired (fun report hmem hunderway => ?_) ?_
        (hstage _ _)
      · exact List.mem_append_left _ (mem_unendedOf.mpr ⟨hmem, hunderway⟩)
      · exact List.mem_append_right _ (List.mem_singleton.mpr rfl)

/-- A loop whose tick begins keeps what is under way. -/
theorem pruneLoop (h : engine.Tended) (loop : Nat) : (after (pruneLoop loop) engine).Tended := by
  rcases engine.pruneLoop_cases loop with hsame | ⟨l, hloop, hstage, hpruned⟩
  · rwa [hsame]
  · rw [hpruned]
    refine h.setLoop hloop fun report hmem hunderway => ?_
    exact ⟨mem_unendedOf.mpr ⟨hmem, hunderway⟩, by simp [hstage]⟩

/-- A loop whose tick gets through its gates keeps the report that this starts. -/
theorem claimLoop (h : engine.Tended) (loop : Nat) (checkpoint : Checkpoint) :
    (after (claimLoop loop checkpoint) engine).Tended := by
  rcases engine.claimLoop_cases loop checkpoint with hsame | ⟨l, hloop, hstage, hclaimed⟩
  · rwa [hsame]
  · rw [hclaimed]
    rcases engine.claimFlight_cases l.task checkpoint with
      ⟨hsame, -⟩ | ⟨slot, flight, hslot, hacquired, hanswer, hlaunch⟩
    · rw [hsame]
      refine h.setLoop hloop fun report hmem _ => ⟨List.mem_append_left _ hmem, ?_⟩
      simp [hstage]
    · rw [hlaunch, hanswer]
      refine h.launch checkpoint hloop hslot hacquired (fun report hmem _ => ?_) ?_ ?_
      · exact List.mem_append_left _ hmem
      · exact List.mem_append_right _ (List.mem_singleton.mpr rfl)
      · simp [hstage]

/-- A loop that is told to stop keeps what is under way. -/
theorem stopLoop (h : engine.Tended) (loop : Nat) : (after (stopLoop loop) engine).Tended := by
  rcases engine.stopLoop_cases loop with hsame | ⟨l, hloop, -, hstopped⟩
  · rwa [hsame]
  · rw [hstopped]
    exact h.setLoop hloop fun report hmem _ => ⟨hmem, by simp⟩

/-- A loop stops when nothing that it keeps is under way. -/
theorem drainLoop (h : engine.Tended) (loop : Nat) : (after (drainLoop loop) engine).Tended := by
  rcases engine.drainLoop_cases loop with hsame | ⟨l, hloop, -, hended, hdrained⟩
  · rwa [hsame]
  · rw [hdrained]
    refine h.setLoop hloop fun report hmem hunderway => ?_
    rw [hended report hmem] at hunderway
    cases hunderway

/-- A shutdown waits for all loops. -/
theorem signal (h : engine.Tended) : (after signal engine).Tended := by
  rw [Engine.signal, after_modify]
  split
  · rename_i hnone
    refine ⟨h.kept, h.held.of_eq rfl rfl, h.uncancelled, nofun, fun loops hloops => ?_⟩
    exact (Option.some.inj hloops).symm.trans (h.supervised hnone)
  · exact h

/-- What a shutdown waits for stays the same when the supervisor is ended. -/
theorem retireSupervisor (h : engine.Tended) : (after retireSupervisor engine).Tended := by
  rw [Engine.retireSupervisor, after_modify]
  split
  · exact h
  · rename_i awaited hstopping
    refine ⟨h.kept, h.held.of_eq rfl rfl, h.uncancelled, fun hnone => ?_, h.stopping⟩
    cases hstopping.symm.trans hnone

/-- Whatever happens, the engine stays tended. -/
theorem occur (h : engine.Tended) (occurrence : Occurrence) :
    (after (occur occurrence) engine).Tended := by
  cases occurrence with
  | change change => exact h.advance (.world _)
  | release count => exact h.advances (engine.advances_releaseGate count)
  | begin report => exact h.advances (engine.advances_beginReport report)
  | resolve report decision? => exact h.advances (engine.advances_resolveReport report decision?)
  | conclude report => exact h.advances (engine.advances_concludeReport report)
  | tick loop => exact h.tickLoop loop
  | prune loop => exact h.pruneLoop loop
  | claim loop checkpoint => exact h.claimLoop loop checkpoint
  | signal => exact h.signal
  | retire => exact h.retireSupervisor
  | stop loop => exact h.stopLoop loop
  | drain loop => exact h.drainLoop loop

end Tended

/-- Loops that are started come behind those that are there. -/
theorem after_startLoops (schedule : List (Nat × Nat)) (engine : Engine) :
    ∃ loops, loops.length = schedule.length ∧
      after (schedule.forM fun (task, period) => startLoop task period) engine =
        { engine with loops := engine.loops ++ loops } := by
  induction schedule generalizing engine with
  | nil => exact ⟨[], rfl, by simp⟩
  | cons entry schedule ih =>
    obtain ⟨loops, hlength, hafter⟩ := ih (after (startLoop entry.1 entry.2) engine)
    refine ⟨⟨entry.1, entry.2, engine.clock, [], firstStage entry.2⟩ :: loops, ?_, ?_⟩
    · rw [List.length_cons, List.length_cons, hlength]
    · rw [after_forM_cons, hafter]
      simp [startLoop]

/-- A supervisor that was just started is tended. -/
theorem tended_supervising (chain : Chain) (tasks : List ReportTask)
    (schedule : List (Nat × Nat)) : (supervising chain tasks schedule).Tended := by
  obtain ⟨loops, hlength, hafter⟩ := after_startLoops schedule
    { fresh with
      chain
      tasks := tasks.map fun task => ⟨task, Flight.free⟩
      supervised := List.range schedule.length }
  rw [supervising, hafter]
  refine ⟨fun report hunderway => ?_, .of_free rfl fun slot hslot => ?_, fun hr => ?_,
    fun h => ?_, fun loops h => ?_⟩
  · cases hunderway
  · obtain ⟨task, -, rfl⟩ := List.mem_map.mp hslot
    rfl
  · cases hr
  · simp [fresh, hlength]
  · cases h

/-- On whatever happens under a supervisor, the engine is tended. -/
theorem tended_proceed (chain : Chain) (tasks : List ReportTask) (schedule : List (Nat × Nat))
    (occurrences : List Occurrence) :
    (after (proceed occurrences) (supervising chain tasks schedule)).Tended :=
  after_forM_induction occurrences (tended_supervising chain tasks schedule)
    fun occurrence _ h => h.occur occurrence

end StakeOracle.Engine
