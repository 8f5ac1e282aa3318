import StakeOracle.Proofs.Engine.Submissions
import StakeOracle.Proofs.Report.Gates

/-!
# What turns do to reports

A report keeps its number, its task and its checkpoint, and once it was begun it is never queued
again. A turn starts at most one report, by a tick that passes its gates, and sends at most one
transaction, for a report that was queued until then.
-/

namespace StakeOracle.Engine

/-- What is there of reports and tasks stays under its number. A report keeps its task and its
checkpoint, and is queued only if it was queued before; a task keeps its schedule. -/
structure Continues (engine next : Engine) : Prop where
  report : ∀ {i : Nat} {r : Report}, engine.reports[i]? = some r →
    ∃ r', next.reports[i]? = some r' ∧ r'.task = r.task ∧ r'.checkpoint = r.checkpoint ∧
      (r'.phase = .queued → r.phase = .queued)
  slot : ∀ {i : Nat} {slot : TaskSlot}, engine.tasks[i]? = some slot →
    ∃ slot', next.tasks[i]? = some slot' ∧ slot'.task = slot.task

/-- An engine that continues another one with no more reports. -/
structure Retains (engine next : Engine) : Prop extends Continues engine next where
  length : next.reports.length = engine.reports.length

variable {engine next last : Engine}

/-- Every engine continues itself. -/
protected theorem Continues.refl (engine : Engine) : Continues engine engine :=
  ⟨fun h => ⟨_, h, rfl, rfl, id⟩, fun h => ⟨_, h, rfl⟩⟩

/-- What continues an engine that continues another one continues that one. -/
protected theorem Continues.trans (h : Continues engine next) (hnext : Continues next last) :
    Continues engine last := by
  constructor
  · intro i r hr
    obtain ⟨r', hr', htask', hcheckpoint', hqueued'⟩ := h.report hr
    obtain ⟨r'', hr'', htask'', hcheckpoint'', hqueued''⟩ := hnext.report hr'
    exact ⟨r'', hr'', htask''.trans htask', hcheckpoint''.trans hcheckpoint',
      hqueued' ∘ hqueued''⟩
  · intro i slot hslot
    obtain ⟨slot', hslot', htask'⟩ := h.slot hslot
    obtain ⟨slot'', hslot'', htask''⟩ := hnext.slot hslot'
    exact ⟨slot'', hslot'', htask''.trans htask'⟩

/-- Every engine retains its own reports. -/
protected theorem Retains.refl (engine : Engine) : Retains engine engine :=
  ⟨.refl engine, rfl⟩

/-- What is retained twice is retained. -/
protected theorem Retains.trans (h : Retains engine next) (hnext : Retains next last) :
    Retains engine last :=
  ⟨h.toContinues.trans hnext.toContinues, hnext.length.trans h.length⟩

/-- Reports and tasks are retained by whatever does not touch them. -/
theorem Retains.of_eq (hreports : next.reports = engine.reports)
    (htasks : next.tasks = engine.tasks) : Retains engine next := by
  refine ⟨⟨fun h => ?_, fun h => ?_⟩, by rw [hreports]⟩
  · exact ⟨_, by rwa [hreports], rfl, rfl, id⟩
  · exact ⟨_, by rwa [htasks], rfl⟩

/-- A report that moves to a later phase stays the same report. -/
theorem retains_setPhase {phase : Phase} (engine : Engine) (report : Nat) (h : phase ≠ .queued) :
    Retains engine (engine.setPhase report phase) := by
  refine ⟨⟨fun {i} {r} hr => ?_, fun hslot => ⟨_, hslot, rfl⟩⟩, List.length_modify _ _ _⟩
  by_cases hi : report = i
  · refine ⟨{ r with phase }, ?_, rfl, rfl, fun hqueued => absurd hqueued h⟩
    simp [setPhase, hi, hr]
  · refine ⟨r, ?_, rfl, rfl, id⟩
    simp [setPhase, hi, hr]

/-- A task whose flight becomes free stays the same task. -/
theorem retains_freeFlight (engine : Engine) (task : Nat) :
    Retains engine (engine.freeFlight task) := by
  refine ⟨⟨fun hr => ⟨_, hr, rfl, rfl, id⟩, fun {i} {slot} hslot => ?_⟩, rfl⟩
  by_cases hi : task = i
  · refine ⟨{ slot with flight := slot.flight.release }, ?_, rfl⟩
    simp [freeFlight, hi, hslot]
  · refine ⟨slot, ?_, rfl⟩
    simp [freeFlight, hi, hslot]

/-- Starting a report leaves the earlier ones as they are. -/
theorem continues_launch (engine : Engine) (task : Nat) (checkpoint : Checkpoint)
    (flight : Flight) : Continues engine (engine.launch task checkpoint flight) := by
  constructor
  · intro i r hr
    refine ⟨r, ?_, rfl, rfl, id⟩
    rw [launch, List.getElem?_append_left (List.getElem?_eq_some_iff.mp hr).1, hr]
  · intro i slot hslot
    by_cases hi : task = i
    · refine ⟨{ slot with flight }, ?_, rfl⟩
      simp [launch, hi, hslot]
    · refine ⟨slot, ?_, rfl⟩
      simp [launch, hi, hslot]

/-- A report that ends frees the flight of its task. -/
theorem retains_end (engine : Engine) (report task : Nat) (ending : Ending)
    (transaction : Option Digest) :
    Retains engine ((engine.setPhase report (.ended ending transaction)).freeFlight task) :=
  (engine.retains_setPhase report (by simp)).trans (retains_freeFlight _ _)

/-- A report that was moved to a phase is in that phase. -/
theorem phase_of_setPhase {report : Nat} {phase : Phase} {r : Report}
    (h : (engine.setPhase report phase).reports[report]? = some r) : r.phase = phase := by
  simp only [setPhase, List.getElem?_modify_eq, Option.map_eq_map, Option.map_eq_some_iff] at h
  obtain ⟨old, -, rfl⟩ := h
  rfl

/-! ## Reports that are carried out -/

variable {report : Nat} {r : Report} {decision : Except ReportError Verdict}

/-- Carrying out a decision keeps all reports. -/
theorem CarriedOut.retains (h : CarriedOut engine report r decision next) :
    Retains engine next := by
  cases h with
  | unsent result => exact engine.retains_end report r.task (.finished result) none
  | @waiting call options gate decided accepted =>
    have hsent : Retains engine (engine.transmitted call options gate) := .of_eq rfl rfl
    exact hsent.trans (retains_setPhase _ _ (by simp))
  | @settled call options gate result decided accepted =>
    have hsent : Retains engine (engine.transmitted call options gate) := .of_eq rfl rfl
    exact hsent.trans (retains_end _ _ _ _ _)

/-- A report that was carried out is not queued any more. -/
theorem CarriedOut.begun (h : CarriedOut engine report r decision next) {r' : Report}
    (hr' : next.reports[report]? = some r') : r'.phase ≠ .queued := by
  cases h with
  | unsent result =>
    rw [phase_of_setPhase hr']
    simp
  | waiting gate decided accepted =>
    rw [phase_of_setPhase hr']
    simp
  | settled gate result decided accepted =>
    rw [phase_of_setPhase hr']
    simp

/-! ## Ticks -/

/-- A tick changes nothing and names no report, or it starts the next report. -/
theorem tick_cases (engine : Engine) (task : Nat) :
    (after (tick task) engine = engine ∧
      ∀ outcome report, answer (tick task) engine ≠ some (.ok ⟨outcome, some report⟩)) ∨
    ∃ slot checkpoint flight, engine.tasks[task]? = some slot ∧
      slot.flight.acquire? = some flight ∧
      ((slot.task.tick slot.flight.busy).ask engine.chain).result = .ok (.started checkpoint) ∧
      answer (tick task) engine =
        some (.ok ⟨.started checkpoint, some engine.reports.length⟩) ∧
      after (tick task) engine = engine.launch task checkpoint flight := by
  unfold tick
  simp only [after_bind, answer_bind, after_get, answer_get]
  cases hslot : engine.tasks[task]? with
  | none => exact .inl ⟨rfl, by simp⟩
  | some slot =>
    simp only [after_bind, answer_bind, after_ask, answer_ask]
    cases hresult : ((slot.task.tick slot.flight.busy).ask engine.chain).result with
    | error e => exact .inl ⟨rfl, by simp⟩
    | ok outcome =>
      dsimp only
      split
      · rename_i checkpoint flight hflight
        exact .inr ⟨slot, checkpoint, flight, rfl, hflight, hresult, rfl, rfl⟩
      · exact .inl ⟨rfl, by simp⟩

/-- The task of a loop, while the loop is running. -/
def runningTask? (engine : Engine) (loop : Nat) : Option Nat :=
  match engine.loops[loop]? with
  | some l => if l.stage = .running then some l.task else none
  | none => none

/-- A loop has a running task while it runs. -/
theorem runningTask?_eq_some_iff {loop task : Nat} : engine.runningTask? loop = some task ↔
    ∃ l, engine.loops[loop]? = some l ∧ l.stage = .running ∧ l.task = task := by
  unfold runningTask?
  cases engine.loops[loop]? with
  | none => simp
  | some l => simp

/-- The task that a turn ticks. -/
def Turn.ticks? (engine : Engine) : Turn → Option Nat
  | .step (.tick task) => some task
  | .step (.tickLoop loop) => engine.runningTask? loop
  | _ => none

/-- The report that a turn carries out. -/
def Turn.carriesOut? : Turn → Option Nat
  | .step (.begin report) => some report
  | .judge report _ => some report
  | _ => none

/-- A turn starts a report on a checkpoint, by a tick of a task. -/
structure Starts (engine : Engine) (t : Turn) (task report : Nat) (checkpoint : Checkpoint) :
    Prop where
  ticks : t.ticks? engine = some task
  started : answer (tick task) engine = some (.ok ⟨.started checkpoint, some report⟩)

/-- A turn that ticks a task does to reports and tasks what the tick does. -/
theorem after_turn_of_ticks {t : Turn} {task : Nat} (h : t.ticks? engine = some task) :
    (after (turn t) engine).reports = (after (tick task) engine).reports ∧
      (after (turn t) engine).tasks = (after (tick task) engine).tasks := by
  cases t with
  | judge report computed => cases h
  | step s =>
    cases s with
    | tick ticked =>
      obtain rfl : ticked = task := Option.some.inj h
      exact ⟨rfl, rfl⟩
    | tickLoop loop =>
      change engine.runningTask? loop = some task at h
      obtain ⟨l, hloop, hrunning, rfl⟩ := runningTask?_eq_some_iff.mp h
      change (after (tickLoop loop) engine).reports = _ ∧ (after (tickLoop loop) engine).tasks = _
      rw [after_tickLoop hloop hrunning]
      exact ⟨rfl, rfl⟩
    | _ => cases h

/-- A loop that is not running does not tick. -/
theorem after_tickLoop_of_idle {loop : Nat} (h : engine.runningTask? loop = none) :
    after (tickLoop loop) engine = engine := by
  rcases engine.tickLoop_cases loop with hsame | ⟨l, hloop, hrunning⟩
  · exact hsame
  · rw [runningTask?_eq_some_iff.mpr ⟨l, hloop, hrunning, rfl⟩] at h
    cases h

/-- A started report is the next one, and it is queued. -/
theorem Starts.launched {t : Turn} {task report : Nat} {checkpoint : Checkpoint}
    (h : Starts engine t task report checkpoint) :
    report = engine.reports.length ∧
      (after (turn t) engine).reports = engine.reports ++ [⟨task, checkpoint, .queued⟩] := by
  rcases engine.tick_cases task with
    ⟨-, hnone⟩ | ⟨slot, checkpoint', flight, -, -, -, hanswer, hafter⟩
  · exact absurd h.started (hnone _ _)
  · have hstarted := h.started
    rw [hanswer] at hstarted
    cases hstarted
    refine ⟨rfl, ?_⟩
    rw [(after_turn_of_ticks h.ticks).1, hafter]
    rfl

/-- The gates of a started report were passed on the chain that its tick read. -/
theorem Starts.authorised {t : Turn} {task report : Nat} {checkpoint : Checkpoint}
    (h : Starts engine t task report checkpoint) :
    ∃ slot, engine.tasks[task]? = some slot ∧ Authorised engine.chain slot.task checkpoint := by
  rcases engine.tick_cases task with
    ⟨-, hnone⟩ | ⟨slot, checkpoint', flight, hslot, -, hresult, hanswer, -⟩
  · exact absurd h.started (hnone _ _)
  · have hstarted := h.started
    rw [hanswer] at hstarted
    cases hstarted
    exact ⟨slot, hslot, (ReportTask.authorised_of_tick hresult).1⟩

/-! ## All other steps -/

/-- What is kept at every item is kept over a list. -/
theorem retains_foldl {items : List α} {f : Engine → α → Engine}
    (h : ∀ engine item, Retains engine (f engine item)) (engine : Engine) :
    Retains engine (items.foldl f engine) := by
  induction items generalizing engine with
  | nil => exact .refl engine
  | cons item items ih => exact (h engine item).trans (ih (f engine item))

/-- Permits move reports out of the line. -/
theorem retains_releaseGate (engine : Engine) (count : Nat) :
    Retains engine (after (releaseGate count) engine) := by
  refine (retains_foldl (fun passed wait => ?_) engine).trans (.of_eq rfl rfl)
  split
  · exact retains_setPhase _ _ (by simp)
  · exact .refl passed

/-- Concluding a report ends it, if it was let through. -/
theorem retains_concludeReport (engine : Engine) (report : Nat) :
    Retains engine (after (concludeReport report) engine) := by
  unfold concludeReport
  rw [after_bind, after_get, answer_get]
  cases engine.reports[report]? with
  | none => exact .refl engine
  | some r =>
    cases hphase : r.phase with
    | admitted call hash =>
      simp only [hphase, after_bind, after_lift, after_finishReport]
      exact retains_end _ _ _ _ _
    | queued => simpa [hphase] using Retains.refl engine
    | inLine call hash => simpa [hphase] using Retains.refl engine
    | ended ending transaction => simpa [hphase] using Retains.refl engine

/-- Cancelling a report ends it, unless it has ended. -/
theorem retains_cancelReport (engine : Engine) (report : Nat) :
    Retains engine (after (cancelReport report) engine) := by
  unfold cancelReport
  rw [after_bind, after_get, answer_get]
  cases engine.reports[report]? with
  | none => exact .refl engine
  | some r =>
    by_cases hended : r.phase.isEnded
    · simpa [hended] using Retains.refl engine
    · have hleft : Retains engine { engine with chain := engine.chain.leave report } :=
        .of_eq rfl rfl
      simpa [hended, endReport] using hleft.trans (retains_end _ _ _ _ _)

/-- Telling a loop to stop leaves reports and tasks alone. -/
theorem retains_stopLoop (engine : Engine) (loop : Nat) :
    Retains engine (after (stopLoop loop) engine) := by
  rcases engine.stopLoop_cases loop with hsame | ⟨l, -, -, hstopped⟩
  · rw [hsame]
    exact .refl engine
  · rw [hstopped]
    exact .of_eq rfl rfl

/-- So does stopping it. -/
theorem retains_drainLoop (engine : Engine) (loop : Nat) :
    Retains engine (after (drainLoop loop) engine) := by
  rcases engine.drainLoop_cases loop with hsame | ⟨l, -, -, -, hdrained⟩
  · rw [hsame]
    exact .refl engine
  · rw [hdrained]
    exact .of_eq rfl rfl

/-- A turn that neither ticks a task nor carries a report out keeps all reports. -/
theorem retains_turn_of_idle {t : Turn} (hticks : t.ticks? engine = none)
    (hcarries : t.carriesOut? = none) : Retains engine (after (turn t) engine) := by
  cases t with
  | judge report computed => cases hcarries
  | step s =>
    cases s with
    | change change => exact .of_eq rfl rfl
    | addTask task =>
      refine ⟨⟨fun hr => ⟨_, hr, rfl, rfl, id⟩, fun hslot => ⟨_, ?_, rfl⟩⟩, rfl⟩
      exact (List.getElem?_append_left (List.getElem?_eq_some_iff.mp hslot).1).trans hslot
    | tick task => cases hticks
    | begin report => cases hcarries
    | release count => exact engine.retains_releaseGate count
    | conclude report => exact engine.retains_concludeReport report
    | cancel report => exact engine.retains_cancelReport report
    | startLoop task period => exact .of_eq rfl rfl
    | tickLoop loop => exact (after_tickLoop_of_idle hticks).symm ▸ .refl engine
    | stopLoop loop => exact engine.retains_stopLoop loop
    | drainLoop loop => exact engine.retains_drainLoop loop

/-! ## Turns -/

/-- A turn sends a transaction for a report of a task. -/
structure Sends (engine : Engine) (t : Turn) (task report : Nat) (transaction : SentTransaction) :
    Prop where
  carries : t.carriesOut? = some report
  task : engine.reports[report]?.map (·.task) = some task
  sent : (after (turn t) engine).chain.sent = engine.chain.sent ++ [transaction]

/-- A report that was queued until a call on its block and in its category was sent for it. -/
structure BegunWith (engine next : Engine) (report : Nat) (r : Report) (slot : TaskSlot)
    (call : SubmissionCall) : Prop where
  listed : engine.reports[report]? = some r
  queued : r.phase = .queued
  assigned : engine.tasks[r.task]? = some slot
  category : call.category = slot.task.category
  block : call.block = r.checkpoint.block
  begun : ∀ {r' : Report}, next.reports[report]? = some r' → r'.phase ≠ .queued

/-- A report that is carried out sends nothing, or the call that was decided on. -/
theorem CarriedOut.sent_cases {slot : TaskSlot} (h : CarriedOut engine report r decision next)
    (hlisted : engine.reports[report]? = some r) (hqueued : r.phase = .queued)
    (hslot : engine.tasks[r.task]? = some slot)
    (hown : ∀ call options, decision = .ok (.send call options) →
      call.category = slot.task.category ∧ call.block = r.checkpoint.block) :
    next.chain.sent = engine.chain.sent ∨ ∃ transaction,
      next.chain.sent = engine.chain.sent ++ [transaction] ∧
        BegunWith engine next report r slot transaction.call := by
  rcases h.chain_cases with hchain | ⟨call, options, gate, hdecided, -, hchain⟩
  · exact .inl (congrArg Chain.sent hchain)
  · obtain ⟨hcategory, hblock⟩ := hown call options hdecided
    exact .inr ⟨engine.chain.transaction call options, congrArg Chain.sent hchain,
      hlisted, hqueued, hslot, hcategory, hblock, h.begun⟩

/-- A turn that carries a report out keeps all reports, and sends nothing or one transaction for that
report. -/
theorem turn_of_carries {t : Turn} (engine : Engine) (h : t.carriesOut? = some report) :
    Retains engine (after (turn t) engine) ∧
      ((after (turn t) engine).chain.sent = engine.chain.sent ∨ ∃ r slot transaction,
        (after (turn t) engine).chain.sent = engine.chain.sent ++ [transaction] ∧
          BegunWith engine (after (turn t) engine) report r slot transaction.call) := by
  cases t with
  | judge judged computed =>
    obtain rfl : judged = report := Option.some.inj h
    change Retains engine (after (judgeReport judged computed) engine) ∧ _
    rcases engine.judgeReport_cases judged computed with
      hsame | ⟨r, slot, hlisted, hqueued, hslot, hcategory, hblock, hcarried⟩
    · exact ⟨hsame.symm ▸ .refl engine, .inl (congrArg (·.chain.sent) hsame)⟩
    · refine ⟨hcarried.retains, ?_⟩
      refine (hcarried.sent_cases hlisted hqueued hslot ?_).imp_right fun hsent => ⟨r, slot, hsent⟩
      intro call options hdecided
      obtain ⟨rfl, -⟩ := ReportTask.judge_eq_send hdecided
      exact ⟨hcategory, hblock⟩
  | step s =>
    cases s with
    | begin begun =>
      obtain rfl : begun = report := Option.some.inj h
      change Retains engine (after (beginReport begun) engine) ∧ _
      rcases engine.beginReport_cases begun with hsame | ⟨r, slot, hlisted, hqueued, hslot,
        ⟨-, hbroken⟩ | ⟨compute, hsource, hcarried⟩⟩
      · exact ⟨hsame.symm ▸ .refl engine, .inl (congrArg (·.chain.sent) hsame)⟩
      · exact ⟨hbroken.symm ▸ engine.retains_end begun r.task _ _,
          .inl (congrArg (·.chain.sent) hbroken)⟩
      · refine ⟨hcarried.retains, ?_⟩
        refine (hcarried.sent_cases hlisted hqueued hslot ?_).imp_right
          fun hsent => ⟨r, slot, hsent⟩
        intro call options hdecided
        exact ReportSource.call_of_compute hsource (ReportTask.prepare_eq_send hsource hdecided).1
    | _ => cases h

/-- What is sent for a report is sent on its block and in its category, and the report was queued until
then. -/
theorem Sends.begunWith {t : Turn} {task : Nat} {transaction : SentTransaction}
    (h : Sends engine t task report transaction) : ∃ r slot, r.task = task ∧
      BegunWith engine (after (turn t) engine) report r slot transaction.call := by
  rcases (turn_of_carries engine h.carries).2 with hsame | ⟨r, slot, other, hsent, hbegun⟩
  · have hlength := congrArg List.length (h.sent.symm.trans hsame)
    simp at hlength
  · obtain rfl : transaction = other :=
      List.singleton_inj.mp (List.append_cancel_left (h.sent.symm.trans hsent))
    have htask := h.task
    rw [hbegun.listed] at htask
    exact ⟨r, slot, Option.some.inj htask, hbegun⟩

/-- A turn sends nothing, or one transaction for the report that it carries out. -/
theorem sent_turn (engine : Engine) (t : Turn) :
    (after (turn t) engine).chain.sent = engine.chain.sent ∨
      ∃ task report transaction, Sends engine t task report transaction := by
  cases hcarries : t.carriesOut? with
  | some report =>
    refine (turn_of_carries engine hcarries).2.imp_right ?_
    rintro ⟨r, slot, transaction, hsent, hbegun⟩
    exact ⟨r.task, report, transaction, hcarries, by rw [hbegun.listed]; rfl, hsent⟩
  | none =>
    left
    cases t with
    | judge report computed => cases hcarries
    | step s => exact (keeps_step (fun report hbegin => by subst hbegin; cases hcarries) engine).sent

/-- A turn continues the engine. Unless it starts a report, it retains the engine's reports. -/
theorem continues_turn (engine : Engine) (t : Turn) :
    Continues engine (after (turn t) engine) ∧
      ((after (turn t) engine).reports.length = engine.reports.length ∨
        ∃ task checkpoint, Starts engine t task engine.reports.length checkpoint) := by
  cases hticks : t.ticks? engine with
  | some task =>
    obtain ⟨hreports, htasks⟩ := after_turn_of_ticks hticks
    have hturn : Retains (after (tick task) engine) (after (turn t) engine) :=
      .of_eq hreports htasks
    rcases engine.tick_cases task with
      ⟨hsame, -⟩ | ⟨slot, checkpoint, flight, -, -, -, hanswer, hlaunch⟩
    · rw [hsame] at hturn
      exact ⟨hturn.toContinues, .inl hturn.length⟩
    · rw [hlaunch] at hturn
      exact ⟨(engine.continues_launch task checkpoint flight).trans hturn.toContinues,
        .inr ⟨task, checkpoint, hticks, hanswer⟩⟩
  | none =>
    have hretains : Retains engine (after (turn t) engine) := by
      cases hcarries : t.carriesOut? with
      | some report => exact (turn_of_carries engine hcarries).1
      | none => exact retains_turn_of_idle hticks hcarries
    exact ⟨hretains.toContinues, .inl hretains.length⟩

end StakeOracle.Engine
