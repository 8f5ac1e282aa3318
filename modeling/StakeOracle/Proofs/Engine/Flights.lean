import StakeOracle.Proofs.Engine.Advance
import StakeOracle.Proofs.Engine.Delivery
import StakeOracle.Proofs.Report.Passage

/-!
# One report in flight

A task may be ticked by any number of callers, and its ticks and reports may take their reads in
between one another. All the same, its flight is taken exactly while one of its reports is under
way, and there is never a second one: a tick that gets through its gates meanwhile does nothing.
-/

namespace StakeOracle

/-- Whether a report of a task is under way. -/
def Report.underwayFor (task : Nat) (r : Report) : Bool :=
  decide (r.task = task) && !r.phase.isEnded

/-- A lock is taken where nobody has it, and then somebody does. -/
theorem Flight.acquire?_eq_some_iff {flight taken : Flight} :
    flight.acquire? = some taken ↔ flight.busy = false ∧ taken = ⟨true⟩ := by
  cases hbusy : flight.busy with
  | true => simp [acquire?, hbusy]
  | false => simp [acquire?, hbusy, eq_comm]

namespace Engine

/-- The number of reports of a task that are under way. -/
def unfinishedOf (engine : Engine) (task : Nat) : Nat :=
  engine.reports.countP (Report.underwayFor task)

/-- Every flight that is taken is held by one report of its task, and every report that is under way
holds one. -/
def FlightsHeld (engine : Engine) : Prop :=
  ∀ task, engine.unfinishedOf task = if engine.isRunning task then 1 else 0

/-! ## Counting reports -/

/-- Changing one item of a list changes a count by what it changes about that item. -/
theorem countP_modify {p : α → Bool} {f : α → α} {items : List α} {i : Nat} {a : α}
    (h : items[i]? = some a) : (items.modify i f).countP p + (if p a then 1 else 0) =
      items.countP p + if p (f a) then 1 else 0 := by
  induction items generalizing i with
  | nil => cases h
  | cons b items ih =>
    cases i with
    | zero =>
      obtain rfl : b = a := Option.some.inj h
      rw [List.modify_zero_cons, List.countP_cons, List.countP_cons]
      omega
    | succ i =>
      have hrest := ih h
      rw [List.modify_succ_cons, List.countP_cons, List.countP_cons]
      omega

variable {allowed : Ending → Prop} {engine next : Engine} {report task : Nat} {r : Report}

/-- A report that is moved to another phase is counted in that phase. -/
theorem unfinishedOf_setPhase (hlisted : engine.reports[report]? = some r)
    (hunderway : r.phase.isEnded = false) (phase : Phase) (task : Nat) :
    (engine.setPhase report phase).unfinishedOf task + (if r.task = task then 1 else 0) =
      engine.unfinishedOf task + if r.task = task ∧ phase.isEnded = false then 1 else 0 := by
  have hcount :=
    countP_modify (p := Report.underwayFor task) (f := fun r => { r with phase }) hlisted
  simpa [unfinishedOf, setPhase, Report.underwayFor, hunderway] using hcount

/-- A started report is counted for its task. -/
theorem unfinishedOf_launch (engine : Engine) (task other : Nat) (checkpoint : Checkpoint)
    (flight : Flight) : (engine.launch task checkpoint flight).unfinishedOf other =
      engine.unfinishedOf other + if task = other then 1 else 0 := by
  simp [unfinishedOf, launch, Report.underwayFor, Phase.isEnded]

/-- A task runs while its flight is busy. -/
theorem isRunning_of_slot {slot : TaskSlot} (hslot : engine.tasks[task]? = some slot) :
    engine.isRunning task = slot.flight.busy := by
  simp [isRunning, hslot]

/-- Freeing the flight of a task ends its run and no other. -/
theorem isRunning_freeFlight (engine : Engine) (task other : Nat) :
    (engine.freeFlight task).isRunning other =
      if task = other then false else engine.isRunning other := by
  by_cases hother : task = other
  · cases hslot : engine.tasks[other]? with
    | none => simp [isRunning, freeFlight, hother, hslot]
    | some slot => simp [isRunning, freeFlight, hother, hslot, Flight.release, Flight.free]
  · simp [isRunning, freeFlight, hother]

/-- Starting a report sets the flight of its task and no other. -/
theorem isRunning_launch {slot : TaskSlot} {flight : Flight}
    (hslot : engine.tasks[task]? = some slot) (checkpoint : Checkpoint) (other : Nat) :
    (engine.launch task checkpoint flight).isRunning other =
      if task = other then flight.busy else engine.isRunning other := by
  by_cases hother : task = other
  · simp [isRunning, launch, ← hother, hslot]
  · simp [isRunning, launch, hother]

namespace FlightsHeld

/-- Without reports, no flight may be taken. -/
theorem of_free (hreports : engine.reports = []) (hfree : ∀ slot ∈ engine.tasks, slot.flight = .free) :
    engine.FlightsHeld := by
  intro task
  have hrunning : engine.isRunning task = false := by
    cases hslot : engine.tasks[task]? with
    | none => simp [isRunning, hslot]
    | some slot =>
      rw [isRunning_of_slot hslot, hfree slot (List.mem_of_getElem? hslot)]
      rfl
  rw [unfinishedOf, hreports, hrunning]
  rfl

/-- Flights are held by reports and tasks, whatever else is in the engine. -/
theorem of_eq (h : engine.FlightsHeld) (hreports : next.reports = engine.reports)
    (htasks : next.tasks = engine.tasks) : next.FlightsHeld := by
  intro task
  rw [unfinishedOf, isRunning, hreports, htasks]
  exact h task

/-- At most one report of a task is under way. -/
theorem le_one (h : engine.FlightsHeld) (task : Nat) : engine.unfinishedOf task ≤ 1 := by
  rw [h task]
  split
  · exact Nat.le_refl 1
  · exact Nat.zero_le 1

/-- A task is running exactly while a report of it is under way. -/
theorem isRunning_iff (h : engine.FlightsHeld) (task : Nat) :
    engine.isRunning task = true ↔ engine.unfinishedOf task = 1 := by
  rw [h task]
  cases engine.isRunning task with
  | true => simp
  | false => simp

/-- A task is not running exactly while no report of it is under way. -/
theorem isRunning_eq_false_iff (h : engine.FlightsHeld) (task : Nat) :
    engine.isRunning task = false ↔ engine.unfinishedOf task = 0 := by
  rw [h task]
  cases engine.isRunning task with
  | true => simp
  | false => simp

/-- A report that moves on holds its flight, and one that ends gives it back. -/
theorem advance (h : engine.FlightsHeld) (hadvance : Advance allowed engine next) :
    next.FlightsHeld := by
  intro task
  have hheld := h task
  cases hadvance with
  | world chain => exact hheld
  | @move report r phase hlisted hunderway hunended =>
    have hcount := unfinishedOf_setPhase hlisted hunderway phase task
    simp only [hunended, and_true, Nat.add_right_cancel_iff] at hcount
    rw [hcount]
    exact hheld
  | @finish report r ending transaction hlisted hunderway hallowed =>
    have hcount := unfinishedOf_setPhase hlisted hunderway (.ended ending transaction) task
    change (engine.setPhase report _).unfinishedOf task = _
    rw [isRunning_freeFlight]
    change _ = if (if r.task = task then false else engine.isRunning task) = true then 1 else 0
    simp only [Phase.isEnded, Bool.true_eq_false, and_false, ↓reduceIte, Nat.add_zero] at hcount
    by_cases htask : r.task = task
    · have hone := h.le_one task
      simp only [if_pos htask, Bool.false_eq_true, ↓reduceIte] at hcount ⊢
      omega
    · simpa [htask, hheld] using hcount

/-- So do any number of such things. -/
theorem advances (h : engine.FlightsHeld) (hadvances : Advances allowed engine next) :
    next.FlightsHeld := by
  induction hadvances with
  | refl => exact h
  | tail _ hadvance ih => exact ih.advance hadvance

/-- A report is started with a flight that was free, which it then holds. -/
theorem launch (h : engine.FlightsHeld) {slot : TaskSlot} {flight : Flight}
    (hslot : engine.tasks[task]? = some slot) (hacquired : slot.flight.acquire? = some flight)
    (checkpoint : Checkpoint) : (engine.launch task checkpoint flight).FlightsHeld := by
  have hnone : engine.unfinishedOf task = 0 := by
    rw [← h.isRunning_eq_false_iff, isRunning_of_slot hslot]
    exact (Flight.acquire?_eq_some_iff.mp hacquired).1
  have htaken : flight.busy = true := by rw [(Flight.acquire?_eq_some_iff.mp hacquired).2]
  intro other
  rw [unfinishedOf_launch, isRunning_launch hslot]
  by_cases hother : task = other
  · rw [if_pos hother, if_pos hother, if_pos htaken, ← hother, hnone]
  · rw [if_neg hother, if_neg hother]
    exact h other

/-- A task that is added has a flight that is free, and no reports yet. -/
theorem enrol (h : engine.FlightsHeld) (task : ReportTask) :
    FlightsHeld { engine with tasks := engine.tasks ++ [⟨task, Flight.free⟩] } := by
  intro other
  have hrunning : isRunning { engine with tasks := engine.tasks ++ [⟨task, Flight.free⟩] } other =
      engine.isRunning other := by
    rcases Nat.lt_trichotomy other engine.tasks.length with hlt | rfl | hgt
    · simp [isRunning, List.getElem?_append_left hlt]
    · simp [isRunning, Flight.free]
    · have hnone : (engine.tasks ++ [⟨task, Flight.free⟩])[other]? = none := by
        rw [List.getElem?_eq_none_iff, List.length_append]
        exact hgt
      simp [isRunning, hnone, List.getElem?_eq_none_iff.mpr (Nat.le_of_lt hgt)]
  rw [hrunning]
  exact h other

end FlightsHeld

/-! ## Ticks between other ticks -/

/-- The end of a tick that got through its gates with a checkpoint: the flight of the task is taken
and a report started, or the tick learns that there is one already. What the gates read may have
been read between any other steps. -/
def claimFlight (task : Nat) (checkpoint : Checkpoint) : Act (Option Ticked) := do
  let engine ← get
  match engine.tasks[task]? with
  | none => return none
  | some slot =>
    match slot.flight.acquire? with
    | none =>
      log (.alreadyRunning slot.task.category)
      return some ⟨.alreadyRunning, none⟩
    | some flight =>
      log (.reportStarted slot.task.category checkpoint.block checkpoint.slot checkpoint.epoch)
      modify fun e => e.launch task checkpoint flight
      return some ⟨.started checkpoint, some engine.reports.length⟩

/-- A turn, the end of a tick whose gates were read earlier, or the end of a computation whose reads
were taken earlier. -/
inductive Beat where
  | turn (t : Turn)
  | claim (task : Nat) (checkpoint : Checkpoint)
  | resolve (report : Nat) (decision? : Option (Except ReportError Verdict))

/-- Takes a beat. -/
def beat : Beat → Act Unit
  | .turn t => turn t
  | .claim task checkpoint => do let _ ← claimFlight task checkpoint
  | .resolve report decision? => resolveReport report decision?

/-- Takes beats one after another. -/
def pulse (beats : List Beat) : Act Unit := beats.forM beat

/-- A claim takes a flight that is free. -/
theorem claimFlight_of_free {slot : TaskSlot} (hslot : engine.tasks[task]? = some slot)
    (hfree : slot.flight.busy = false) (checkpoint : Checkpoint) :
    after (claimFlight task checkpoint) engine = engine.launch task checkpoint ⟨true⟩ ∧
      answer (claimFlight task checkpoint) engine =
        some ⟨.started checkpoint, some engine.reports.length⟩ ∧
      (claimFlight task checkpoint engine).deeds = [] := by
  have hacquired : slot.flight.acquire? = some ⟨true⟩ :=
    Flight.acquire?_eq_some_iff.mpr ⟨hfree, rfl⟩
  unfold claimFlight
  simp only [after_bind, answer_bind, after_get, answer_get, hslot, hacquired, Noted.deeds,
    notes_run_bind]
  exact ⟨rfl, rfl, rfl⟩

/-- A claim changes nothing when the flight is taken. -/
theorem claimFlight_of_busy {slot : TaskSlot} (hslot : engine.tasks[task]? = some slot)
    (hbusy : slot.flight.busy = true) (checkpoint : Checkpoint) :
    after (claimFlight task checkpoint) engine = engine ∧
      answer (claimFlight task checkpoint) engine = some ⟨.alreadyRunning, none⟩ ∧
      (claimFlight task checkpoint engine).deeds = [] := by
  have hheld : slot.flight.acquire? = none := Flight.acquire?_eq_none_iff.mpr hbusy
  unfold claimFlight
  simp only [after_bind, answer_bind, after_get, answer_get, hslot, hheld, Noted.deeds,
    notes_run_bind]
  exact ⟨rfl, rfl, rfl⟩

/-- A claim changes nothing and names no report, or it starts the next report. -/
theorem claimFlight_cases (engine : Engine) (task : Nat) (checkpoint : Checkpoint) :
    (after (claimFlight task checkpoint) engine = engine ∧
      ∀ outcome report,
        answer (claimFlight task checkpoint) engine ≠ some ⟨outcome, some report⟩) ∨
    ∃ slot flight, engine.tasks[task]? = some slot ∧ slot.flight.acquire? = some flight ∧
      answer (claimFlight task checkpoint) engine =
        some ⟨.started checkpoint, some engine.reports.length⟩ ∧
      after (claimFlight task checkpoint) engine = engine.launch task checkpoint flight := by
  cases hslot : engine.tasks[task]? with
  | none => exact .inl (by simp [claimFlight, hslot])
  | some slot =>
    cases hbusy : slot.flight.busy with
    | true =>
      obtain ⟨hafter, hanswer, -⟩ := claimFlight_of_busy hslot hbusy checkpoint
      exact .inl ⟨hafter, by simp [hanswer]⟩
    | false =>
      obtain ⟨hafter, hanswer, -⟩ := claimFlight_of_free hslot hbusy checkpoint
      exact .inr ⟨slot, ⟨true⟩, rfl, Flight.acquire?_eq_some_iff.mpr ⟨hbusy, rfl⟩, hanswer, hafter⟩

/-- The outcome of a tick. -/
def tickOutcome (engine : Engine) (task : Nat) : Option (Except ReportError TickOutcome) :=
  (answer (tick task) engine).map (·.map (·.outcome))

/-- A tick that gets through its gates ends like a claim. -/
theorem tick_of_passes {slot : TaskSlot} {checkpoint : Checkpoint}
    (hslot : engine.tasks[task]? = some slot)
    (hpasses : Passes engine.chain slot.task checkpoint) :
    after (tick task) engine = after (claimFlight task checkpoint) engine ∧
      engine.tickOutcome task =
        (answer (claimFlight task checkpoint) engine).map (fun ticked => .ok ticked.outcome) ∧
      (tick task engine).deeds = slot.task.gateCalls.map .called := by
  obtain ⟨hafter, houtcome, hnotes⟩ := tick_of_slot hslot
  have hdeeds : (tick task engine).deeds = slot.task.gateCalls.map .called := by
    rw [Noted.deeds, hnotes]
    exact ReportTask.deeds_tick_of_passes hpasses slot.flight.busy
  cases hbusy : slot.flight.busy with
  | true =>
    have hresult : ((slot.task.tick slot.flight.busy).ask engine.chain).result =
        .ok .alreadyRunning := ReportTask.ask_tick_eq_alreadyRunning.mpr ⟨⟨_, hpasses⟩, hbusy⟩
    obtain ⟨hclaimed, hanswer, -⟩ := claimFlight_of_busy hslot hbusy checkpoint
    rw [hresult] at hafter houtcome
    rw [hclaimed, hanswer]
    exact ⟨hafter, houtcome, hdeeds⟩
  | false =>
    have hresult : ((slot.task.tick slot.flight.busy).ask engine.chain).result =
        .ok (.started checkpoint) := ReportTask.ask_tick_eq_started.mpr ⟨hpasses, hbusy⟩
    have hacquired : slot.flight.acquire? = some ⟨true⟩ :=
      Flight.acquire?_eq_some_iff.mpr ⟨hbusy, rfl⟩
    have hlaunch : launch? slot.flight (.ok (.started checkpoint)) = some (checkpoint, ⟨true⟩) := by
      simp only [launch?, hacquired]
    obtain ⟨hclaimed, hanswer, -⟩ := claimFlight_of_free hslot hbusy checkpoint
    rw [hresult] at hafter houtcome
    rw [ticked, hlaunch] at hafter
    rw [hclaimed, hanswer]
    exact ⟨hafter, houtcome, hdeeds⟩

/-! ## Runs -/

/-- A tick takes the flight of its task only where that is free. -/
theorem FlightsHeld.tick (h : engine.FlightsHeld) (task : Nat) :
    (after (tick task) engine).FlightsHeld := by
  rcases engine.tick_cases task with
    ⟨hsame, -⟩ | ⟨slot, checkpoint, flight, hslot, hacquired, -, -, hlaunch⟩
  · rwa [hsame]
  · rw [hlaunch]
    exact h.launch hslot hacquired checkpoint

/-- So does a claim. -/
theorem FlightsHeld.claim (h : engine.FlightsHeld) (task : Nat) (checkpoint : Checkpoint) :
    (after (claimFlight task checkpoint) engine).FlightsHeld := by
  rcases engine.claimFlight_cases task checkpoint with
    ⟨hsame, -⟩ | ⟨slot, flight, hslot, hacquired, -, hlaunch⟩
  · rwa [hsame]
  · rw [hlaunch]
    exact h.launch hslot hacquired checkpoint

/-- No turn lets go of a flight too early, or too late. -/
theorem FlightsHeld.turn (h : engine.FlightsHeld) (t : Turn) :
    (after (turn t) engine).FlightsHeld := by
  cases t with
  | judge report computed => exact h.advances (engine.advances_judgeReport report computed)
  | step s =>
    cases s with
    | change change => exact h.of_eq rfl rfl
    | addTask task => exact h.enrol task
    | tick task => exact h.tick task
    | begin report => exact h.advances (engine.advances_beginReport report)
    | release count => exact h.advances (engine.advances_releaseGate count)
    | conclude report => exact h.advances (engine.advances_concludeReport report)
    | cancel report => exact h.advances (engine.advances_cancelReport report)
    | startLoop task period => exact h.of_eq rfl rfl
    | tickLoop loop =>
      change (after (tickLoop loop) engine).FlightsHeld
      rcases engine.tickLoop_cases loop with hsame | ⟨l, hloop, hrunning⟩
      · rwa [hsame]
      · rw [after_tickLoop hloop hrunning]
        exact (h.tick l.task).of_eq rfl rfl
    | stopLoop loop =>
      change (after (stopLoop loop) engine).FlightsHeld
      rcases engine.stopLoop_cases loop with hsame | ⟨l, -, -, hstopped⟩
      · rwa [hsame]
      · rw [hstopped]
        exact h.of_eq rfl rfl
    | drainLoop loop =>
      change (after (drainLoop loop) engine).FlightsHeld
      rcases engine.drainLoop_cases loop with hsame | ⟨l, -, -, -, hdrained⟩
      · rwa [hsame]
      · rw [hdrained]
        exact h.of_eq rfl rfl

/-- Neither does a beat. -/
theorem FlightsHeld.beat (h : engine.FlightsHeld) (b : Beat) :
    (after (beat b) engine).FlightsHeld := by
  cases b with
  | turn t => exact h.turn t
  | claim task checkpoint => exact h.claim task checkpoint
  | resolve report decision? => exact h.advances (engine.advances_resolveReport report decision?)

/-- On a run from a fresh engine all flights are held by reports that are under way. -/
theorem flightsHeld_pulse (beats : List Beat) : (after (pulse beats) fresh).FlightsHeld :=
  after_forM_induction beats (.of_free rfl (by simp [fresh])) fun b _ h => h.beat b

/-- Whatever ticks and reports do between one another, at most one report of a task is under way,
and the task is running exactly while one is. A tick that gets through all its gates starts a report
if none is. Otherwise it finds that there is one: it has made no calls but those of its gates, and
has changed nothing. The same holds of a tick whose gates were read before some of the beats. -/
theorem one_report_in_flight (beats : List Beat) {task : Nat} {slot : TaskSlot}
    (hslot : (after (pulse beats) fresh).tasks[task]? = some slot) :
    let engine := after (pulse beats) fresh
    engine.unfinishedOf task ≤ 1 ∧
    (engine.isRunning task = true ↔ engine.unfinishedOf task = 1) ∧
    (∀ checkpoint, engine.tickOutcome task = some (.ok (.started checkpoint)) ↔
      Passes engine.chain slot.task checkpoint ∧ engine.unfinishedOf task = 0) ∧
    (engine.tickOutcome task = some (.ok .alreadyRunning) ↔
      (∃ checkpoint, Passes engine.chain slot.task checkpoint) ∧ engine.unfinishedOf task ≠ 0) ∧
    (engine.tickOutcome task = some (.ok .alreadyRunning) →
      (tick task engine).deeds = slot.task.gateCalls.map .called ∧
        after (tick task) engine = engine) ∧
    ∀ checkpoint,
      (answer (claimFlight task checkpoint) engine =
          some ⟨.started checkpoint, some engine.reports.length⟩ ↔ engine.unfinishedOf task = 0) ∧
      (engine.unfinishedOf task ≠ 0 →
        answer (claimFlight task checkpoint) engine = some ⟨.alreadyRunning, none⟩ ∧
          (claimFlight task checkpoint engine).deeds = [] ∧
          after (claimFlight task checkpoint) engine = engine) := by
  intro engine
  have hheld : engine.FlightsHeld := flightsHeld_pulse beats
  have hfree : slot.flight.busy = false ↔ engine.unfinishedOf task = 0 := by
    rw [← hheld.isRunning_eq_false_iff, isRunning_of_slot hslot]
  have hbusy : slot.flight.busy = true ↔ engine.unfinishedOf task ≠ 0 := by
    rw [← Bool.not_eq_false, hfree]
  have hrunning : engine.tickOutcome task = some (.ok .alreadyRunning) ↔
      (∃ checkpoint, Passes engine.chain slot.task checkpoint) ∧ engine.unfinishedOf task ≠ 0 := by
    rw [tickOutcome, (tick_of_slot hslot).2.1, Option.some_inj,
      ReportTask.ask_tick_eq_alreadyRunning, hbusy]
  refine ⟨hheld.le_one task, hheld.isRunning_iff task, fun checkpoint => ?_, hrunning, fun h => ?_,
    fun checkpoint => ⟨?_, fun hunfinished => ?_⟩⟩
  · rw [tickOutcome, (tick_of_slot hslot).2.1, Option.some_inj, ReportTask.ask_tick_eq_started,
      hfree]
  · obtain ⟨⟨checkpoint, hpasses⟩, hunfinished⟩ := hrunning.mp h
    obtain ⟨hafter, -, hdeeds⟩ := tick_of_passes hslot hpasses
    refine ⟨hdeeds, ?_⟩
    rw [hafter]
    exact (claimFlight_of_busy hslot (hbusy.mpr hunfinished) checkpoint).1
  · constructor
    · intro hanswer
      refine Decidable.byContradiction fun hunfinished => ?_
      rw [(claimFlight_of_busy hslot (hbusy.mpr hunfinished) checkpoint).2.1] at hanswer
      cases hanswer
    · exact fun hnone => (claimFlight_of_free hslot (hfree.mpr hnone) checkpoint).2.1
  · obtain ⟨hafter, hanswer, hdeeds⟩ :=
      claimFlight_of_busy hslot (hbusy.mpr hunfinished) checkpoint
    exact ⟨hanswer, hdeeds, hafter⟩

/-- A run in which the report of a fixed price is started and begun, on a chain with one change. -/
def priceBeats (change : Change) : List Beat :=
  [.turn (.step (.change (.latestBlock 120))), .turn (.step (.change (.reportable .prices 100))),
   .turn (.step (.change change)),
   .turn (.step (.addTask ⟨.price (.fixed 42), .onChain, ⟨100000000000, 1000000000⟩⟩)),
   .turn (.step (.tick 0)), .turn (.step (.begin 0))]

/-- In such a run the report ends so, its flight is free, and a second tick starts the next report. -/
def EndsAndRestarts (change : Change) (ending : Except ReportError ReportOutcome) : Prop :=
  let engine := after (pulse (priceBeats change)) fresh
  engine.ending? 0 = some (.finished ending) ∧ engine.unfinishedOf 0 = 0 ∧
    engine.isRunning 0 = false ∧
    engine.tickOutcome 0 = some (.ok (.started ⟨.prices, 100, 0, 1600001200, 100, 3⟩))

/-- While the report stands in line behind a closed gate, a second tick makes the nine calls of the
gates and changes nothing. When a read has failed, fees were too high or the transaction was reverted,
a second tick starts the next report. -/
theorem second_tick_of_price :
    (let engine := after (pulse (priceBeats .closeGate)) fresh
     engine.chain.sent.length = 1 ∧ engine.unfinishedOf 0 = 1 ∧
        engine.tickOutcome 0 = some (.ok .alreadyRunning) ∧
        (tick 0 engine).deeds = [.called .executionSynced, .called .consensusSynced,
          .called .trustedMember, .called .submissionsEnabled, .called .reportableBlock,
          .called .recordedBlock, .called .header, .called .beaconConfig, .called .beaconHead] ∧
        after (tick 0) engine = engine) ∧
    EndsAndRestarts (.fail .storageFlag) (.error (.read "exact submission flag"
      (.transport "injected failure: storage_bool"))) ∧
    EndsAndRestarts (.gas ⟨80000, 100000, 200000000000⟩) (.ok .feeCeilingExceeded) ∧
    EndsAndRestarts (.reverting true) (.error (.reverted (.prices 100 42) (Octets.ofNat 32 1))) := by
  have hended {change : Change} {ending : Except ReportError ReportOutcome} {slot : TaskSlot}
      (hslot : (after (pulse (priceBeats change)) fresh).tasks[0]? = some slot)
      (hending : (after (pulse (priceBeats change)) fresh).ending? 0 = some (.finished ending))
      (houtcome : (after (pulse (priceBeats change)) fresh).tickOutcome 0 =
        some (.ok (.started ⟨.prices, 100, 0, 1600001200, 100, 3⟩))) :
      EndsAndRestarts change ending := by
    obtain ⟨-, hrunning, hstarted, -⟩ := one_report_in_flight (priceBeats change) hslot
    obtain ⟨-, hnone⟩ := (hstarted _).mp houtcome
    refine ⟨hending, hnone, ?_, houtcome⟩
    rw [← Bool.not_eq_true, hrunning, hnone]
    decide
  refine ⟨?_, hended rfl rfl rfl, hended rfl rfl rfl, hended rfl rfl rfl⟩
  intro engine
  have hslot : engine.tasks[0]? = some ⟨⟨.price (.fixed 42), .onChain,
    ⟨100000000000, 1000000000⟩⟩, ⟨true⟩⟩ := rfl
  have hanswer : answer (tick 0) (after (pulse (priceBeats .closeGate)) fresh) =
      some (.ok ⟨.alreadyRunning, none⟩) := rfl
  have houtcome : engine.tickOutcome 0 = some (.ok .alreadyRunning) := by
    rw [tickOutcome, hanswer]
    rfl
  obtain ⟨-, hrunning, -, -, hidle, -⟩ := one_report_in_flight (priceBeats .closeGate) hslot
  obtain ⟨hdeeds, hafter⟩ := hidle houtcome
  exact ⟨rfl, hrunning.mp rfl, houtcome, hdeeds, hafter⟩

end Engine

end StakeOracle
