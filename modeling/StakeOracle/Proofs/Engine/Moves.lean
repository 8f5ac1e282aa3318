import StakeOracle.Proofs.Engine.Agreement
import StakeOracle.Proofs.Engine.Reports
import StakeOracle.Proofs.Submission.RecordKeys

/-!
# Runs of a balances task and a prices task

Two tasks share one chain. Their runs are lists of moves: the world changes the chain, one of the tasks
ticks, or a report that was started for it is carried out. A move is a step of the engine. While
inclusion is not held back, the engine stays steady: its tasks stay in place, and transactions have
distinct hashes, so a report that begins runs to its end.
-/

namespace StakeOracle

namespace Category

/-- The number of a category's task. -/
def taskNumber : Category → Nat
  | balances => 0
  | prices => 1

/-- The tasks of the two categories have different numbers. -/
theorem taskNumber_inj {category other : Category} (h : category.taskNumber = other.taskNumber) :
    category = other := by
  cases category <;> cases other <;> first | rfl | cases h

end Category

/-- Whether a report of a task waits to begin. -/
def Report.queuedFor (task : Nat) (r : Report) : Bool :=
  r.task = task && match r.phase with
    | .queued => true
    | _ => false

namespace Engine

/-- A task of each category. -/
structure TaskPair where
  task : Category → ReportTask
  category_task : ∀ category, (task category).category = category

/-- An engine with the two tasks over a fresh chain. -/
def TaskPair.engine (tasks : TaskPair) : Engine :=
  { fresh with tasks := Category.all.map fun category => ⟨tasks.task category, Flight.free⟩ }

/-- The first report of a task that waits to begin. -/
def queued? (engine : Engine) (task : Nat) : Option Nat :=
  engine.reports.findIdx? (Report.queuedFor task)

/-- The checkpoints of the reports of a task that wait to begin. -/
def queueOf (engine : Engine) (task : Nat) : List Checkpoint :=
  (engine.reports.filter (Report.queuedFor task)).map (·.checkpoint)

/-- One move of a run. -/
inductive Move where
  | change (change : Change)
  | tick (category : Category)
  /-- A report of the category that waits to begin is carried out. -/
  | report (category : Category)
  deriving DecidableEq, Repr

/-- What a category sees of its own moves: the outcomes of ticks and the endings of reports. -/
inductive Observation where
  | ticked (result : Except ReportError TickOutcome)
  | reported (ending : Ending)

namespace Move

/-- The category that makes a move. -/
def category? : Move → Option Category
  | change _ => none
  | tick category => some category
  | report category => some category

/-- The step that a move is; without a report that waits to begin there is none. -/
def step? (engine : Engine) : Move → Option Step
  | change c => some (.change c)
  | tick category => some (.tick category.taskNumber)
  | report category => (engine.queued? category.taskNumber).map .begin

/-- The engine after a move. -/
def perform (engine : Engine) (move : Move) : Engine :=
  match move.step? engine with
  | some s => after (step s) engine
  | none => engine

/-- The calls of a move. -/
def calls (engine : Engine) (move : Move) : List Method :=
  match move.step? engine with
  | some s => (step s engine).calls
  | none => []

/-- What its category sees of a move, up to the hashes of transactions. -/
def observation? (engine : Engine) : Move → Option Observation
  | change _ => none
  | tick category =>
    (answer (Engine.tick category.taskNumber) engine).map fun answer =>
      .ticked (answer.map (·.outcome))
  | report category =>
    match engine.queued? category.taskNumber with
    | none => none
    | some i => ((after (beginReport i) engine).ending? i).map fun ending =>
      .reported ending.unhashed

/-- The record that the ledger is asked about in a move: that of the call which a report computes. -/
def record? (engine : Engine) : Move → Option SubmissionRecord
  | report category =>
    match (engine.queueOf category.taskNumber).head?, engine.tasks[category.taskNumber]? with
    | some checkpoint, some slot => slot.task.asksAbout? checkpoint engine.chain
    | _, _ => none
  | _ => none

end Move

/-- The engine after a run. -/
def performAll (engine : Engine) (moves : List Move) : Engine := moves.foldl Move.perform engine

/-- What is found at every move along a run. -/
def along (f : Engine → Move → List α) (engine : Engine) : List Move → List α
  | [] => []
  | move :: moves => f engine move ++ along f (move.perform engine) moves

/-- What a category sees along a run. -/
def observations (category : Category) : Engine → List Move → List Observation :=
  along fun engine move =>
    if move.category? = some category then (move.observation? engine).toList else []

/-- The calls of a category's moves along a run. -/
def callsOf (category : Category) : Engine → List Move → List Method :=
  along fun engine move => if move.category? = some category then move.calls engine else []

/-- The records that the ledger is asked about along a run. -/
def recordsOf : Engine → List Move → List SubmissionRecord :=
  along fun engine move => (move.record? engine).toList

/-! ## Reports in the queue -/

/-- In a list whose first match is moved on to no match, the other matches stay. -/
theorem filter_modify_findIdx? {p : α → Bool} {f : α → α} (hf : ∀ a, p (f a) = false) {i : Nat} :
    ∀ {items : List α}, items.findIdx? p = some i →
      ∃ a, items[i]? = some a ∧ p a = true ∧ items.filter p = a :: (items.modify i f).filter p
  | [], h => by cases h
  | item :: items, h => by
    rw [List.findIdx?_cons] at h
    cases hitem : p item with
    | true =>
      rw [hitem] at h
      obtain rfl := Option.some.inj h
      exact ⟨item, rfl, hitem, by simp [hitem, hf]⟩
    | false =>
      rw [hitem] at h
      obtain ⟨j, hj, rfl⟩ := Option.map_eq_some_iff.mp h
      obtain ⟨a, ha, hmatch, hfilter⟩ := filter_modify_findIdx? hf hj
      refine ⟨a, ha, hmatch, ?_⟩
      rw [List.filter_cons_of_neg (by simp [hitem]), hfilter, List.modify_succ_cons,
        List.filter_cons_of_neg (by simp [hitem])]

/-- What is moved on without having matched changes no matches. -/
theorem filter_modify_of_not {p : α → Bool} {f : α → α} {items : List α} {i : Nat} {a : α}
    (ha : items[i]? = some a) (hold : p a = false) (hnew : p (f a) = false) :
    (items.modify i f).filter p = items.filter p := by
  induction items generalizing i with
  | nil => cases ha
  | cons item items ih =>
    cases i with
    | zero =>
      obtain rfl := Option.some.inj ha
      simp [hold, hnew]
    | succ i =>
      rw [List.modify_succ_cons, List.filter_cons, List.filter_cons, ih ha]

variable {engine : Engine} {task report : Nat}

/-- A report waits for its task while it is queued. -/
theorem queuedFor_iff {r : Report} :
    r.queuedFor task = true ↔ r.task = task ∧ r.phase = .queued := by
  unfold Report.queuedFor
  cases r.phase with
  | _ => simp

/-- A report that waits to begin is the first in its queue, and leaves it when it ends. -/
theorem queueOf_retire (h : engine.queued? task = some report) (delivery : Chain.Delivery) :
    ∃ r, engine.reports[report]? = some r ∧ r.task = task ∧ r.phase = .queued ∧
      engine.queueOf task =
        r.checkpoint :: (engine.retire report task delivery).queueOf task := by
  let move (r : Report) : Report :=
    { r with phase := .ended delivery.ending delivery.transaction }
  have hmoved : ∀ r, (move r).queuedFor task = false := by simp [move, Report.queuedFor]
  obtain ⟨r, hr, hqueued, hfilter⟩ := filter_modify_findIdx? hmoved h
  obtain ⟨htask, hphase⟩ := queuedFor_iff.mp hqueued
  refine ⟨r, hr, htask, hphase, ?_⟩
  rw [queueOf, hfilter, List.map_cons]
  rfl

/-- Queues of other tasks stay as they are. -/
theorem queueOf_retire_of_ne (h : engine.queued? task = some report) {other : Nat}
    (hother : task ≠ other) (delivery : Chain.Delivery) :
    (engine.retire report task delivery).queueOf other = engine.queueOf other := by
  obtain ⟨r, hr, htask, -, -⟩ := queueOf_retire h delivery
  refine congrArg (List.map _) (filter_modify_of_not hr ?_ ?_)
  · simp [Report.queuedFor, htask, hother]
  · simp [Report.queuedFor, htask, hother]

/-- Without a report that waits to begin the queue is empty. -/
theorem queueOf_eq_nil_iff : engine.queueOf task = [] ↔ engine.queued? task = none := by
  rw [queueOf, queued?, List.map_eq_nil_iff, List.filter_eq_nil_iff, List.findIdx?_eq_none_iff]
  simp

/-- A report that is started waits at the end of its queue. -/
theorem queueOf_launch (engine : Engine) (task other : Nat) (checkpoint : Checkpoint)
    (flight : Flight) : (engine.launch task checkpoint flight).queueOf other =
      engine.queueOf other ++ if task = other then [checkpoint] else [] := by
  rw [queueOf, launch, List.filter_append, List.map_append]
  by_cases h : task = other
  · simp [queueOf, Report.queuedFor, h]
  · simp [queueOf, Report.queuedFor, h]

/-! ## Steady engines -/

/-- An engine with its two tasks in place, whose transactions are included at once and are numbered by
their hashes. -/
structure Steady (tasks : TaskPair) (engine : Engine) : Prop where
  gate : engine.chain.gate = none
  slots : ∀ category : Category, ∃ flight,
    engine.tasks[category.taskNumber]? = some ⟨tasks.task category, flight⟩
  numbered : engine.chain.Numbered

variable {tasks : TaskPair}

/-- The engine with the two tasks and nothing done is steady. -/
theorem TaskPair.steady (tasks : TaskPair) : Steady tasks tasks.engine where
  gate := rfl
  slots category := by cases category <;> exact ⟨_, rfl⟩
  numbered _ _ h := by cases h

/-- While transactions can be numbered, the next hash of a steady engine is new. -/
theorem Steady.undelayed (h : Steady tasks engine)
    (hcount : engine.chain.sent.length < 2 ^ 64) : engine.chain.Undelayed :=
  ⟨h.gate, fun _ hmem => h.numbered.hash_ne_nextHash hcount hmem⟩

/-- A tick of a steady engine has the result of the task's gates. -/
theorem Steady.perform_tick (h : Steady tasks engine) (category : Category) :
    ∃ flight, engine.tasks[category.taskNumber]? = some ⟨tasks.task category, flight⟩ ∧
      let asked := ((tasks.task category).tick flight.busy).ask engine.chain
      (Move.tick category).perform engine =
        engine.ticked category.taskNumber flight asked.result ∧
      (Move.tick category).calls engine = asked.calls ∧
      (Move.tick category).observation? engine = some (.ticked asked.result) := by
  obtain ⟨flight, hslot⟩ := h.slots category
  obtain ⟨hafter, hanswer, hnotes⟩ := tick_of_slot hslot
  refine ⟨flight, hslot, hafter, ?_, ?_⟩
  · change ((tick category.taskNumber >>= fun _ => pure () : Act Unit) engine).calls = _
    rw [calls_bind, Noted.calls, hnotes]
    exact List.append_nil _
  · obtain ⟨result, hresult, houtcome⟩ := Option.map_eq_some_iff.mp hanswer
    rw [Move.observation?, hresult, Option.map_some, houtcome]

/-- Without a report that waits to begin, carrying one out does nothing. -/
theorem perform_report_of_nil {category : Category}
    (h : engine.queueOf category.taskNumber = []) :
    (Move.report category).perform engine = engine ∧
      (Move.report category).calls engine = [] ∧
      (Move.report category).observation? engine = none := by
  have hnone := queueOf_eq_nil_iff.mp h
  have hstep : (Move.report category).step? engine = none := by rw [Move.step?, hnone]; rfl
  rw [Move.perform, Move.calls, Move.observation?, hstep, hnone]
  exact ⟨rfl, rfl, rfl⟩

/-- In a steady engine the first report that waits to begin runs to its end. -/
theorem Steady.perform_report (h : Steady tasks engine)
    (hcount : engine.chain.sent.length < 2 ^ 64) {category : Category} {checkpoint : Checkpoint}
    {rest : List Checkpoint}
    (hqueue : engine.queueOf category.taskNumber = checkpoint :: rest) :
    let delivery := engine.chain.fulfil (tasks.task category) checkpoint
    ∃ report, engine.queued? category.taskNumber = some report ∧
      (engine.retire report category.taskNumber delivery).queueOf category.taskNumber = rest ∧
      (Move.report category).perform engine =
        engine.retire report category.taskNumber delivery ∧
      (Move.report category).calls engine = delivery.calls ∧
      (Move.report category).observation? engine =
        some (.reported delivery.ending.unhashed) := by
  intro delivery
  cases hqueued : engine.queued? category.taskNumber with
  | none =>
    rw [queueOf_eq_nil_iff.mpr hqueued] at hqueue
    cases hqueue
  | some report =>
    obtain ⟨r, hr, htask, hphase, hfirst⟩ := queueOf_retire hqueued delivery
    obtain ⟨flight, hslot⟩ := h.slots category
    rw [hfirst] at hqueue
    obtain ⟨hcheckpoint, hrest⟩ := List.cons.inj hqueue
    rw [← htask] at hslot
    obtain ⟨hafter, hcalls⟩ := beginReport_of_undelayed (h.undelayed hcount) hr hphase hslot
    rw [htask, hcheckpoint] at hafter
    rw [hcheckpoint] at hcalls
    have hstep : (Move.report category).step? engine = some (.begin report) := by
      rw [Move.step?, hqueued]
      rfl
    refine ⟨report, rfl, hrest, ?_, ?_, ?_⟩
    · rw [Move.perform, hstep]
      exact hafter
    · rw [Move.calls, hstep]
      exact hcalls
    · rw [Move.observation?, hqueued]
      dsimp only
      rw [hafter, ending?_retire hr]
      rfl

/-- A task stays in its slot when a flight is taken or given back. -/
theorem exists_slot_modify {slots : List TaskSlot} (g : Flight → Flight) {n i : Nat}
    {task : ReportTask} (h : ∃ flight, slots[n]? = some ⟨task, flight⟩) :
    ∃ flight, (slots.modify i fun slot => { slot with flight := g slot.flight })[n]? =
      some ⟨task, flight⟩ := by
  obtain ⟨flight, hslot⟩ := h
  by_cases hi : i = n
  · exact ⟨g flight, by simp [hi, hslot]⟩
  · exact ⟨flight, by simp [hi, hslot]⟩

/-- A report that ends keeps an engine steady, whatever it has sent. -/
theorem Steady.retire (h : Steady tasks engine) (report task : Nat) {delivery : Chain.Delivery}
    (hchain : delivery.chain = engine.chain ∨
      ∃ call options, delivery.chain = engine.chain.accept call options) :
    Steady tasks (engine.retire report task delivery) := by
  have hslots : ∀ category : Category, ∃ flight,
      (engine.retire report task delivery).tasks[category.taskNumber]? =
        some ⟨tasks.task category, flight⟩ := fun category =>
    exists_slot_modify Flight.release (h.slots category)
  rcases hchain with hchain | ⟨call, options, hchain⟩
  · have hsame : (engine.retire report task delivery).chain = engine.chain := hchain
    exact ⟨hsame ▸ h.gate, hslots, hsame ▸ h.numbered⟩
  · have hnext : (engine.retire report task delivery).chain = engine.chain.accept call options :=
      hchain
    exact ⟨hnext ▸ h.gate, hslots, hnext ▸ h.numbered.accept call options⟩

/-- A move keeps an engine steady, unless it closes the gate. -/
theorem Steady.perform (h : Steady tasks engine) (hcount : engine.chain.sent.length < 2 ^ 64)
    {move : Move} (hmove : move ≠ .change .closeGate) : Steady tasks (move.perform engine) := by
  cases move with
  | change change =>
    have hsent : (engine.chain.apply change).sent = engine.chain.sent :=
      Chain.sent_apply change engine.chain
    have hgate : (engine.chain.apply change).gate = engine.chain.gate :=
      Chain.gate_apply (fun hclose => hmove (congrArg Move.change hclose)) engine.chain
    exact ⟨hgate.trans h.gate, h.slots, h.numbered.of_sent_eq hsent⟩
  | tick category =>
    obtain ⟨flight, -, hperform, -⟩ := h.perform_tick category
    rw [hperform, ticked]
    split
    · rename_i checkpoint taken _
      exact ⟨h.gate, fun other => exists_slot_modify (fun _ => taken) (h.slots other), h.numbered⟩
    · exact h
  | report category =>
    cases hqueue : engine.queueOf category.taskNumber with
    | nil =>
      rw [(perform_report_of_nil hqueue).1]
      exact h
    | cons checkpoint rest =>
      obtain ⟨report, -, -, hperform, -⟩ := h.perform_report hcount hqueue
      rw [hperform]
      refine h.retire report category.taskNumber ?_
      refine (engine.chain.fulfil_cases (tasks.task category) checkpoint).imp_right ?_
      rintro ⟨compute, call, options, -, -, hchain⟩
      exact ⟨call, options, hchain⟩

/-- A move sends one transaction at most, and takes none back. -/
theorem length_sent_perform (engine : Engine) (move : Move) :
    engine.chain.sent.length ≤ (move.perform engine).chain.sent.length ∧
      (move.perform engine).chain.sent.length ≤ engine.chain.sent.length + 1 := by
  unfold Move.perform
  cases move.step? engine with
  | none => exact ⟨Nat.le_refl _, Nat.le_succ _⟩
  | some s =>
    dsimp only
    rcases sent_turn engine (.step s) with hsame | ⟨task, report, transaction, hsends⟩
    · have hlength := congrArg List.length hsame
      change (after (step s) engine).chain.sent.length = _ at hlength
      omega
    · have hlength := congrArg List.length hsends.sent
      change (after (step s) engine).chain.sent.length = _ at hlength
      rw [List.length_append, List.length_singleton] at hlength
      omega

/-- So a run sends no more transactions than it has moves, and takes none back. -/
theorem length_sent_performAll (engine : Engine) (moves : List Move) :
    engine.chain.sent.length ≤ (performAll engine moves).chain.sent.length ∧
      (performAll engine moves).chain.sent.length ≤ engine.chain.sent.length + moves.length := by
  induction moves generalizing engine with
  | nil => exact ⟨Nat.le_refl _, Nat.le_refl _⟩
  | cons move moves ih =>
    have hmove := length_sent_perform engine move
    have hrest := ih (move.perform engine)
    change _ ≤ (performAll (move.perform engine) moves).chain.sent.length ∧
      (performAll (move.perform engine) moves).chain.sent.length ≤ _
    rw [List.length_cons]
    omega

end Engine

end StakeOracle
