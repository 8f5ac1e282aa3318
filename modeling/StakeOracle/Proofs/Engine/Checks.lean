import StakeOracle.Proofs.Engine.Delivery
import StakeOracle.Proofs.Report.Passage

/-!
# The checks of a tick

A tick goes through a list of checks in order: reads, which may fail, demands on what was read, and
gates, which may turn it back. It makes the calls of the reads up to the first check that stops it,
and ends as that check says. Behind all checks it starts a report; a tick that starts no report
changes nothing.
-/

namespace StakeOracle

open Hurdle (firstFailure? reached firstFailure?_append reached_append_of_some
  reached_append_of_none)

/-- One check of a tick. -/
inductive Check where
  /-- Something to get past on the way to a gate. -/
  | hurdle (hurdle : Hurdle)
  /-- A gate, and the outcome of a tick that it turns back. -/
  | gate (refusal : Option TickOutcome)

namespace Check

/-- A read, and the work that it serves. -/
def read (method : Method) (context : String) : Check := .hurdle (.read method context)

/-- How a tick ends at a check, if it cannot get past it. -/
def stop? (chain : Chain) : Check → Option (Except ReportError TickOutcome)
  | .hurdle h => (h.failure? chain).map .error
  | .gate refusal => refusal.map .ok

/-- The call that is made for a check. -/
def call? : Check → Option Method
  | .hurdle h => h.note?.bind Note.call?
  | .gate _ => none

/-- The checks up to the first one that stops a tick, and that one. -/
def made (chain : Chain) : List Check → List Check
  | [] => []
  | check :: rest =>
    match check.stop? chain with
    | some _ => [check]
    | none => check :: made chain rest

variable {chain : Chain} {first second : List Check} {hurdles : List Hurdle}

/-- A list of checks is made to its end, or up to the first check that stops. -/
theorem exists_split (chain : Chain) (checks : List Check) : ∃ passed rest,
    checks = passed ++ rest ∧ (∀ check ∈ passed, check.stop? chain = none) ∧
      made chain checks = passed ++ rest.take 1 ∧
      checks.findSome? (stop? chain) = rest.head?.bind (stop? chain) ∧
      ∀ check ∈ rest.head?, check.stop? chain ≠ none := by
  induction checks with
  | nil => exact ⟨[], [], rfl, by simp, rfl, rfl, by simp⟩
  | cons check checks ih =>
    rw [made, List.findSome?_cons]
    cases hstop : check.stop? chain with
    | some stop => exact ⟨[], check :: checks, rfl, by simp, rfl, hstop.symm, by simp [hstop]⟩
    | none =>
      obtain ⟨passed, rest, rfl, hpassed, hmade, hfirst, hrest⟩ := ih
      refine ⟨check :: passed, rest, rfl, List.forall_mem_cons.mpr ⟨hstop, hpassed⟩, ?_, hfirst,
        hrest⟩
      exact congrArg (check :: ·) hmade

/-- Only checks of a list are made, and in its order. -/
theorem made_sublist (chain : Chain) (checks : List Check) : (made chain checks).Sublist checks := by
  obtain ⟨passed, rest, rfl, -, hmade, -, -⟩ := exists_split chain checks
  rw [hmade]
  exact (List.take_sublist 1 rest).append_left passed

/-- Further checks are made behind those that do not stop. -/
theorem made_append_of_none (h : first.findSome? (stop? chain) = none) :
    made chain (first ++ second) = first ++ made chain second := by
  induction first with
  | nil => rfl
  | cons check first ih =>
    rw [List.findSome?_eq_none_iff, List.forall_mem_cons] at h
    rw [List.cons_append, made, h.1]
    exact congrArg (check :: ·) (ih (List.findSome?_eq_none_iff.mpr h.2))

/-- Nothing is checked behind a stop. -/
theorem made_append_of_some {stop : Except ReportError TickOutcome}
    (h : first.findSome? (stop? chain) = some stop) :
    made chain (first ++ second) = made chain first := by
  induction first with
  | nil => cases h
  | cons check first ih =>
    rw [List.findSome?_cons] at h
    rw [List.cons_append, made, made]
    cases hstop : check.stop? chain with
    | some _ => rfl
    | none =>
      rw [hstop] at h
      exact congrArg (check :: ·) (ih h)

/-- Hurdles stop a tick with the first failure on their course. -/
theorem findSome?_map_hurdle (chain : Chain) (hurdles : List Hurdle) :
    (hurdles.map hurdle).findSome? (stop? chain) = (firstFailure? chain hurdles).map .error := by
  induction hurdles with
  | nil => rfl
  | cons head hurdles ih =>
    rw [List.map_cons, List.findSome?_cons, firstFailure?, List.findSome?_cons, stop?, ih]
    cases head.failure? chain <;> rfl

/-- Of hurdles those are checked that are reached. -/
theorem made_map_hurdle : made chain (hurdles.map hurdle) = (reached chain hurdles).map hurdle := by
  induction hurdles with
  | nil => rfl
  | cons head hurdles ih =>
    rw [List.map_cons, made, reached, stop?, ih]
    cases head.failure? chain <;> rfl

/-- The calls of hurdles are those that are noted at them. -/
theorem filterMap_call?_map_hurdle : (hurdles.map hurdle).filterMap call? =
    (hurdles.filterMap Hurdle.note?).filterMap Note.call? := by
  rw [List.filterMap_map, List.filterMap_filterMap]
  congr 1

end Check

namespace Barrier

open Check

/-- The checks at a barrier. -/
def checks (barrier : Barrier) : List Check := barrier.hurdles.map .hurdle ++ [.gate barrier.refusal]

variable {chain : Chain} {barriers : List Barrier}

/-- Barriers stop a tick with the first failure on their course, or turn it back with their first
refusal. -/
theorem findSome?_checks : (barriers.flatMap checks).findSome? (stop? chain) =
    match firstFailure? chain (course barriers) with
    | some failure => some (.error failure)
    | none => (barriers.findSome? refusal).map .ok := by
  induction barriers with
  | nil => rfl
  | cons barrier barriers ih =>
    rw [List.flatMap_cons, checks, course, firstFailure?_append, List.findSome?_cons,
      List.findSome?_append, List.findSome?_append, findSome?_map_hurdle, ih]
    cases firstFailure? chain barrier.hurdles with
    | some failure => rfl
    | none => cases barrier.refusal with
      | some refusal => rfl
      | none => cases firstFailure? chain (course barriers) <;> rfl

/-- The calls at barriers are the reads that are reached on their course. -/
theorem calls_checks : (made chain (barriers.flatMap checks)).filterMap call? =
    ((reached chain (course barriers)).filterMap Hurdle.note?).filterMap Note.call? := by
  induction barriers with
  | nil => rfl
  | cons barrier barriers ih =>
    rw [List.flatMap_cons, checks, course, List.append_assoc]
    have hfirst := findSome?_map_hurdle chain barrier.hurdles
    cases hfailure : firstFailure? chain barrier.hurdles with
    | some failure =>
      rw [hfailure] at hfirst
      rw [made_append_of_some hfirst, reached_append_of_some hfailure, made_map_hurdle,
        filterMap_call?_map_hurdle]
    | none =>
      rw [hfailure] at hfirst
      rw [made_append_of_none hfirst, reached_append_of_none hfailure, List.filterMap_append,
        List.filterMap_append, List.filterMap_append, filterMap_call?_map_hurdle]
      cases hrefusal : barrier.refusal with
      | some refusal => rfl
      | none => exact congrArg _ ih

end Barrier

namespace ReportTask

open Check

/-- The checks of a tick in their order. -/
def checks (task : ReportTask) (chain : Chain) (busy : Bool) : List Check :=
  let category := task.category
  let block := task.blockSource.block chain category
  let recorded := chain.recorded category
  let epoch := (chain.timing.positionOf (chain.blockTime block)).epoch
  let finalized := chain.head.finalizedEpoch
  [.read .executionSynced "execution sync status",
    .read .consensusSynced "consensus sync status",
    .gate (if !(chain.executionSynced && chain.consensusSynced) then some .notSynced else none),
    .read .trustedMember "trusted member check",
    .gate (if !chain.trusted chain.node then some .notTrusted else none),
    .read .submissionsEnabled "submissions enabled flag",
    .gate (if !chain.enabled category then some .disabled else none)] ++
  (task.blockSource.hurdles chain category).map .hurdle ++
  [.read .recordedBlock "recorded block",
    .gate (if recorded < block then none else some (.notDue block recorded)),
    .read .header "checkpoint header",
    .hurdle (.demand (if chain.latestBlock < block
      then some (.read "checkpoint header" (.notFound ("block " ++ toString block.toNat)))
      else none)),
    .read .beaconConfig "beacon config",
    .read .beaconHead "beacon head",
    .gate (if finalized < epoch then some (.awaitingFinality block epoch finalized) else none),
    .gate (if busy then some .alreadyRunning else none)]

variable {chain : Chain} {task : ReportTask} {busy : Bool}

/-- They are the checks at the gates of the task, and then that of its flight. -/
theorem checks_eq_flatMap :
    task.checks chain busy = (task.gates chain ++ [flightBarrier busy]).flatMap Barrier.checks := by
  obtain ⟨source, blockSource, limits⟩ := task
  cases blockSource with
  | onChain => rfl
  | frequency => rfl

/-- Their calls are those of a tick that gets through all gates. -/
theorem filterMap_call?_checks (task : ReportTask) (chain : Chain) (busy : Bool) :
    (task.checks chain busy).filterMap call? = task.gateCalls := by
  obtain ⟨source, blockSource, limits⟩ := task
  cases blockSource with
  | onChain => rfl
  | frequency => rfl

/-- No call is made twice on the way through the gates. -/
theorem nodup_gateCalls : task.gateCalls.Nodup := by
  rw [gateCalls]
  cases task.blockSource with
  | onChain => decide
  | frequency => decide

/-- A tick ends as the first check says that stops it, or starts a report. -/
theorem result_tick (task : ReportTask) (chain : Chain) (busy : Bool) :
    ((task.tick busy).ask chain).result =
      ((task.checks chain busy).findSome? (stop? chain)).getD
        (.ok (.started (task.candidate chain))) := by
  rw [(task.follows_tick busy chain).result, checks_eq_flatMap, Barrier.findSome?_checks]
  cases firstFailure? chain (Barrier.course (task.gates chain ++ [flightBarrier busy])) with
  | some failure => rfl
  | none =>
    rw [Barrier.outcome]
    cases (task.gates chain ++ [flightBarrier busy]).findSome? Barrier.refusal <;> rfl

/-- A tick makes the calls of its checks up to the one that stops it. -/
theorem calls_tick : ((task.tick busy).ask chain).calls =
    (made chain (task.checks chain busy)).filterMap call? := by
  rw [checks_eq_flatMap, Barrier.calls_checks, ← (task.follows_tick busy chain).deeds, Noted.calls,
    Noted.filterMap_deeds fun _ => rfl]

/-- None of them is made twice. -/
theorem nodup_calls_tick : ((task.tick busy).ask chain).calls.Nodup := by
  rw [calls_tick]
  refine task.nodup_gateCalls.sublist ?_
  rw [← task.filterMap_call?_checks chain busy]
  exact (made_sublist chain (task.checks chain busy)).filterMap _

/-- No check stops a tick by starting a report. -/
theorem stop?_ne_started {check : Check} (h : check ∈ task.checks chain busy)
    (checkpoint : Checkpoint) : check.stop? chain ≠ some (.ok (.started checkpoint)) := by
  rw [checks_eq_flatMap, List.mem_flatMap] at h
  obtain ⟨barrier, hbarrier, hcheck⟩ := h
  have hrefusal : barrier.refusal ≠ some (.started checkpoint) := by
    rcases List.mem_append.mp hbarrier with hgate | hflight
    · exact (refusal_of_mem_gates hgate checkpoint).2
    · cases List.mem_singleton.mp hflight
      cases busy <;> simp [flightBarrier]
  rcases List.mem_append.mp hcheck with hhurdle | hgate
  · obtain ⟨hurdle, -, rfl⟩ := List.mem_map.mp hhurdle
    simp [stop?]
  · cases List.mem_singleton.mp hgate
    simpa [stop?] using hrefusal

end ReportTask

namespace Engine

open Check

variable {engine : Engine} {task : Nat} {slot : TaskSlot}

/-- The calls of a tick are those of the tick of its task. -/
theorem calls_tick_of_slot (hslot : engine.tasks[task]? = some slot) :
    (tick task engine).calls = ((slot.task.tick slot.flight.busy).ask engine.chain).calls :=
  congrArg (List.filterMap Note.call?) (tick_of_slot hslot).2.2

/-- A tick with no report to start answers with its outcome alone, and changes nothing. -/
theorem answer_tick_of_not_started (hslot : engine.tasks[task]? = some slot)
    {stop : Except ReportError TickOutcome}
    (hresult : ((slot.task.tick slot.flight.busy).ask engine.chain).result = stop)
    (hstop : ∀ checkpoint, stop ≠ .ok (.started checkpoint)) :
    answer (tick task) engine = some (stop.map (⟨·, none⟩)) ∧ after (tick task) engine = engine := by
  unfold tick
  rw [after_bind, answer_bind, after_get, answer_get, hslot]
  simp only [after_bind, answer_bind, after_ask, answer_ask, hresult]
  cases stop with
  | error e => exact ⟨rfl, rfl⟩
  | ok outcome =>
    cases outcome with
    | started checkpoint => exact absurd rfl (hstop checkpoint)
    | _ => exact ⟨rfl, rfl⟩

/-- A tick with a report to start answers with the number of the report, which holds the flight. -/
theorem answer_tick_of_started (hslot : engine.tasks[task]? = some slot) {checkpoint : Checkpoint}
    (hresult : ((slot.task.tick slot.flight.busy).ask engine.chain).result =
      .ok (.started checkpoint)) :
    answer (tick task) engine = some (.ok ⟨.started checkpoint, some engine.reports.length⟩) ∧
      after (tick task) engine = engine.launch task checkpoint ⟨true⟩ := by
  have hfree : slot.flight.acquire? = some ⟨true⟩ :=
    if_neg (Bool.not_eq_true _ ▸ (ReportTask.ask_tick_eq_started.mp hresult).2)
  unfold tick
  rw [after_bind, answer_bind, after_get, answer_get, hslot]
  simp only [after_bind, answer_bind, after_ask, answer_ask, hresult, hfree]
  exact ⟨rfl, rfl⟩

/-- A tick goes through the checks of its task in order. It makes the calls of the checks that it
gets past and of the one that stops it, none of them twice, and ends as that check says, having
changed nothing. It starts a report exactly when no check stops it. -/
theorem tick_ends_at_first_stop (hslot : engine.tasks[task]? = some slot) :
    let checks := slot.task.checks engine.chain slot.flight.busy
    let candidate := slot.task.candidate engine.chain
    (∃ passed rest, checks = passed ++ rest ∧
      (∀ check ∈ passed, check.stop? engine.chain = none) ∧
      (tick task engine).calls = (passed ++ rest.take 1).filterMap call? ∧
      match rest with
      | [] =>
        answer (tick task) engine = some (.ok ⟨.started candidate, some engine.reports.length⟩) ∧
          after (tick task) engine = engine.launch task candidate ⟨true⟩
      | check :: _ => ∃ stop, check.stop? engine.chain = some stop ∧
          answer (tick task) engine = some (stop.map (⟨·, none⟩)) ∧
          after (tick task) engine = engine) ∧
      (tick task engine).calls.Nodup ∧
      ((∃ checkpoint number, answer (tick task) engine = some (.ok ⟨.started checkpoint, number⟩)) ↔
        ∀ check ∈ checks, check.stop? engine.chain = none) := by
  intro checks candidate
  have hresult := slot.task.result_tick engine.chain slot.flight.busy
  have hcalls : (tick task engine).calls = (made engine.chain checks).filterMap call? :=
    (calls_tick_of_slot hslot).trans ReportTask.calls_tick
  have hnodup : (tick task engine).calls.Nodup :=
    calls_tick_of_slot hslot ▸ ReportTask.nodup_calls_tick
  obtain ⟨passed, rest, hsplit, hpassed, hmade, hfirst, hrest⟩ := exists_split engine.chain checks
  rw [hfirst] at hresult
  rw [hmade] at hcalls
  cases rest with
  | nil =>
    obtain ⟨hanswer, hafter⟩ := answer_tick_of_started hslot hresult
    refine ⟨⟨passed, [], hsplit, hpassed, hcalls, hanswer, hafter⟩, hnodup, ?_⟩
    rw [hsplit, List.append_nil]
    exact ⟨fun _ => hpassed, fun _ => ⟨_, _, hanswer⟩⟩
  | cons check rest =>
    have hmem : check ∈ checks := hsplit ▸ List.mem_append_right passed (List.mem_cons_self ..)
    obtain ⟨stop, hstop⟩ := Option.ne_none_iff_exists'.mp (hrest check rfl)
    have hother (checkpoint : Checkpoint) : stop ≠ .ok (.started checkpoint) :=
      fun h => ReportTask.stop?_ne_started hmem checkpoint (h ▸ hstop)
    rw [List.head?_cons, Option.bind_some, hstop, Option.getD_some] at hresult
    obtain ⟨hanswer, hafter⟩ := answer_tick_of_not_started hslot hresult hother
    refine ⟨⟨passed, check :: rest, hsplit, hpassed, hcalls, stop, hstop, hanswer, hafter⟩, hnodup,
      fun ⟨checkpoint, number, hstarted⟩ => ?_, fun h => absurd (h check hmem) (hrest check rfl)⟩
    rw [hanswer] at hstarted
    cases stop with
    | error e => cases hstarted
    | ok outcome =>
      cases hstarted
      exact absurd rfl (hother checkpoint)

/-- A run after which the price of a block is due whose header cannot be read. -/
def headerlessSteps : List Step :=
  [.change (.latestBlock 130), .change (.frequency .prices 40), .change (.recorded .prices 80),
   .change (.fail .header),
   .addTask ⟨.price (.fixed 42), .frequency, ⟨100000000000, 1000000000⟩⟩]

/-- A tick then makes eight calls, fails at the header, and changes nothing. -/
theorem tick_without_header :
    let engine := after (run headerlessSteps) fresh
    engine.tasks[0]? = some ⟨⟨.price (.fixed 42), .frequency, ⟨100000000000, 1000000000⟩⟩, ⟨false⟩⟩ ∧
      (tick 0 engine).calls = [.executionSynced, .consensusSynced, .trustedMember,
        .submissionsEnabled, .latestBlock, .submissionFrequency, .recordedBlock, .header] ∧
      answer (tick 0) engine =
        some (.error (.read "checkpoint header" (.transport "injected failure: header_by_number"))) ∧
      after (tick 0) engine = engine := by
  intro engine
  have hslot : engine.tasks[0]? =
    some ⟨⟨.price (.fixed 42), .frequency, ⟨100000000000, 1000000000⟩⟩, ⟨false⟩⟩ := rfl
  have hanswer : answer (tick 0) (after (run headerlessSteps) fresh) = some (.error
    (.read "checkpoint header" (.transport "injected failure: header_by_number"))) := rfl
  obtain ⟨⟨passed, rest, -, -, -, hend⟩, -, -⟩ := tick_ends_at_first_stop hslot
  refine ⟨hslot, by decide, hanswer, ?_⟩
  cases rest with
  | nil => cases hanswer.symm.trans hend.1
  | cons check rest => exact hend.choose_spec.2.2

end Engine

end StakeOracle
