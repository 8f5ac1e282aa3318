import StakeOracle.Proofs.Chain.Course
import StakeOracle.Proofs.Report.Gates

/-!
# The passage through the gates

On its way to a gate a tick meets hurdles; the gate then lets it through, or turns it back with an
outcome. The gates of a task stand in a fixed order, and behind all of them only a report that is
in flight can turn a tick back. A tick that is not turned back starts a report.
-/

namespace StakeOracle

open Hurdle

namespace Hurdle

/-- A read is taken where it is not set to fail. -/
@[simp] theorem failure?_read_eq_none_iff {chain : Chain} {method : Method} {context : String} :
    (read method context).failure? chain = none ↔ method ∉ chain.failing := by
  rw [failure?]
  split <;> simp_all

/-- A demand that is not met leads to its failure. -/
@[simp] theorem failure?_demand (chain : Chain) (failure : Option ReportError) :
    (demand failure).failure? chain = failure := rfl

end Hurdle

/-- A gate: the hurdles on the way to it, and the outcome of a tick that it turns back. -/
structure Barrier where
  hurdles : List Hurdle
  refusal : Option TickOutcome

namespace Barrier

/-- The course through barriers, up to the first one that turns back. -/
def course : List Barrier → List Hurdle
  | [] => []
  | barrier :: rest => barrier.hurdles ++
      match barrier.refusal with
      | some _ => []
      | none => course rest

/-- The first refusal, or the outcome behind all barriers. -/
def outcome (passed : TickOutcome) (barriers : List Barrier) : TickOutcome :=
  (barriers.findSome? refusal).getD passed

/-- A barrier that is reached and lets through. -/
structure Open (chain : Chain) (barrier : Barrier) : Prop where
  clear : ∀ hurdle ∈ barrier.hurdles, hurdle.failure? chain = none
  unrefused : barrier.refusal = none

/-- A barrier is open when its hurdles can be taken and it refuses nothing. -/
theorem open_iff {chain : Chain} {barrier : Barrier} : Open chain barrier ↔
    (∀ hurdle ∈ barrier.hurdles, hurdle.failure? chain = none) ∧ barrier.refusal = none :=
  ⟨fun h => ⟨h.clear, h.unrefused⟩, fun h => ⟨h.1, h.2⟩⟩

variable {chain : Chain} {first rest : List Barrier} {passed : TickOutcome}

/-- Behind open barriers the course goes on. -/
theorem course_append_of_open (h : ∀ barrier ∈ first, Open chain barrier) :
    course (first ++ rest) = first.flatMap hurdles ++ course rest := by
  induction first with
  | nil => rfl
  | cons barrier first ih =>
    rw [List.forall_mem_cons] at h
    rw [List.cons_append, course, h.1.unrefused, List.flatMap_cons, List.append_assoc]
    exact congrArg (barrier.hurdles ++ ·) (ih h.2)

/-- What lies behind barriers is reached without a failure or refusal exactly through open
barriers. -/
theorem passed_iff : firstFailure? chain (course (first ++ rest)) = none ∧
      first.findSome? refusal = none ↔
    (∀ barrier ∈ first, Open chain barrier) ∧ firstFailure? chain (course rest) = none := by
  induction first with
  | nil => simp
  | cons barrier first ih =>
    rw [List.forall_mem_cons, List.findSome?_cons, List.cons_append, course,
      Hurdle.firstFailure?_append, Option.or_eq_none_iff, Hurdle.firstFailure?_eq_none_iff]
    cases hrefusal : barrier.refusal with
    | some refusal =>
      constructor
      · rintro ⟨-, h⟩
        cases h
      · rintro ⟨⟨⟨-, h⟩, -⟩, -⟩
        rw [hrefusal] at h
        cases h
    | none =>
      constructor
      · rintro ⟨⟨hclear, hrest⟩, hnone⟩
        obtain ⟨hopen, hlast⟩ := ih.mp ⟨hrest, hnone⟩
        exact ⟨⟨⟨hclear, hrefusal⟩, hopen⟩, hlast⟩
      · rintro ⟨⟨⟨hclear, -⟩, hopen⟩, hlast⟩
        obtain ⟨hrest, hnone⟩ := ih.mpr ⟨hopen, hlast⟩
        exact ⟨⟨hclear, hrest⟩, hnone⟩

/-- A query that answers with a refusal where there is one, and otherwise goes on through further
barriers, follows their course. -/
theorem follows_cons {q : Query ReportError TickOutcome} {refusal? : Option TickOutcome}
    (hturned : ∀ refusal, refusal? = some refusal → Follows chain q [] refusal)
    (hpassed : refusal? = none → Follows chain q (course rest) (outcome passed rest)) :
    Follows chain q (course (⟨[], refusal?⟩ :: rest)) (outcome passed (⟨[], refusal?⟩ :: rest)) := by
  cases refusal? with
  | some refusal => exact hturned refusal rfl
  | none => exact hpassed rfl

/-- A flag that turns a tick back is such a barrier. -/
theorem follows_gate {closed : Bool} {entry : LogEntry} {refusal : TickOutcome}
    {others : Query ReportError TickOutcome}
    (h : closed = false → Follows chain others (course rest) (outcome passed rest)) :
    Follows chain (if closed then Query.log entry >>= fun _ => pure refusal else others)
      (course (⟨[], if closed then some refusal else none⟩ :: rest))
      (outcome passed (⟨[], if closed then some refusal else none⟩ :: rest)) := by
  cases closed with
  | true => exact (Follows.log entry).bind_pure Follows.pure
  | false => exact h rfl

end Barrier

namespace BlockSource

/-- What is met on the way to the reportable block of a category. -/
def hurdles (source : BlockSource) (chain : Chain) (category : Category) : List Hurdle :=
  match source with
  | onChain => [.read .reportableBlock "latest reportable block"]
  | frequency =>
    [.read .latestBlock "latest block number", .read .submissionFrequency "submission frequency",
      .demand (if chain.frequency category = 0 then some (.zeroFrequency category.name) else none)]

/-- The reportable block of a category, unless its source has none. -/
def block? (source : BlockSource) (chain : Chain) (category : Category) : Option UInt64 :=
  match source with
  | onChain => some (chain.reportable category)
  | frequency => Checkpoint.roundToFrequency chain.latestBlock (chain.frequency category)

/-- The reportable block of a category, or zero. -/
def block (source : BlockSource) (chain : Chain) (category : Category) : UInt64 :=
  (source.block? chain category).getD 0

/-- The calls for the reportable block of a category. -/
def calls : BlockSource → List Method
  | onChain => [.reportableBlock]
  | frequency => [.latestBlock, .submissionFrequency]

/-- The reportable block is known behind its hurdles. -/
theorem follows_reportableBlock (source : BlockSource) (chain : Chain) (category : Category) :
    Follows chain (Checkpoint.reportableBlock category source) (source.hurdles chain category)
      (source.block chain category) := by
  cases source with
  | onChain => exact Follows.read rfl
  | frequency =>
    have hhead : Follows chain (Chain.readLatestBlock.within "latest block number")
      [.read .latestBlock "latest block number"] chain.latestBlock := Follows.read rfl
    have hfrequency : Follows chain
      ((Chain.readFrequency category).within "submission frequency")
      [.read .submissionFrequency "submission frequency"] (chain.frequency category) :=
      Follows.read rfl
    refine hhead.bind fun _ => hfrequency.bind fun _ => ?_
    unfold block block? Checkpoint.roundToFrequency
    by_cases hzero : chain.frequency category = 0
    · simp only [if_pos hzero]
      exact ⟨rfl, rfl⟩
    · simp only [if_neg hzero]
      exact ⟨rfl, rfl⟩

/-- The hurdles before the reportable block are taken where the reads are answered and there is such
a block. -/
theorem clear_iff {source : BlockSource} {chain : Chain} {category : Category} :
    (∀ hurdle ∈ source.hurdles chain category, hurdle.failure? chain = none) ↔
      (∀ method ∈ source.calls, method ∉ chain.failing) ∧
        source.block? chain category = some (source.block chain category) := by
  cases source with
  | onChain => simp [hurdles, calls, block, block?]
  | frequency =>
    by_cases hzero : chain.frequency category = 0
    · simp [hurdles, block?, Checkpoint.roundToFrequency, hzero]
    · simp [hurdles, calls, block, block?, Checkpoint.roundToFrequency, hzero]

end BlockSource

/-- The decision on the checkpoint of a category is known behind the reads of both its blocks. -/
theorem Checkpoint.follows_decision (category : Category) (source : BlockSource) (chain : Chain) :
    Follows chain (decision category source)
      (source.hurdles chain category ++ [.read .recordedBlock "recorded block"])
      (if chain.recorded category < source.block chain category
        then .due (source.block chain category) (chain.recorded category)
        else .notDue (source.block chain category) (chain.recorded category)) := by
  have hrecorded : Follows chain ((Chain.readRecorded category).within "recorded block")
    [.read .recordedBlock "recorded block"] (chain.recorded category) := Follows.read rfl
  refine (source.follows_reportableBlock chain category).bind fun _ =>
    hrecorded.bind_pure ((Follows.log _).bind_pure ?_)
  split
  · exact Follows.pure
  · exact Follows.pure

namespace ReportTask

/-- The checkpoint of a report that a chain lets a task start. -/
def candidate (task : ReportTask) (chain : Chain) : Checkpoint :=
  let block := task.blockSource.block chain task.category
  let position := chain.timing.positionOf (chain.blockTime block)
  { category := task.category
    block
    recordedBlock := chain.recorded task.category
    blockTime := chain.blockTime block
    slot := position.slot
    epoch := position.epoch }

/-- The hurdles on the way to the gate of finality. -/
def finalityHurdles (chain : Chain) (block : UInt64) : List Hurdle :=
  [.read .header "checkpoint header",
    .demand (if chain.latestBlock < block
      then some (.read "checkpoint header" (.notFound ("block " ++ toString block.toNat)))
      else none),
    .read .beaconConfig "beacon config", .read .beaconHead "beacon head"]

/-- The gates of a task in their order. -/
def gates (task : ReportTask) (chain : Chain) : List Barrier :=
  let ⟨category, block, recorded, _, _, epoch⟩ := task.candidate chain
  [⟨[.read .executionSynced "execution sync status",
      .read .consensusSynced "consensus sync status"],
    if !(chain.executionSynced && chain.consensusSynced) then some .notSynced else none⟩,
   ⟨[.read .trustedMember "trusted member check"],
    if !chain.trusted chain.node then some .notTrusted else none⟩,
   ⟨[.read .submissionsEnabled "submissions enabled flag"],
    if !chain.enabled category then some .disabled else none⟩,
   ⟨task.blockSource.hurdles chain category ++ [.read .recordedBlock "recorded block"],
    if recorded < block then none else some (.notDue block recorded)⟩,
   ⟨finalityHurdles chain block,
    if chain.head.finalizedEpoch < epoch
      then some (.awaitingFinality block epoch chain.head.finalizedEpoch) else none⟩]

/-- What turns a tick back behind all gates: a report that is in flight. -/
def flightBarrier (busy : Bool) : Barrier := ⟨[], if busy then some .alreadyRunning else none⟩

/-- The calls of a tick that gets through all gates. -/
def gateCalls (task : ReportTask) : List Method :=
  [.executionSynced, .consensusSynced, .trustedMember, .submissionsEnabled] ++
    task.blockSource.calls ++ [.recordedBlock, .header, .beaconConfig, .beaconHead]

variable {chain : Chain} {checkpoint : Checkpoint}

/-- The last gates are those of finality and of the flight. -/
theorem follows_checkFinality (category : Category) (busy : Bool) (block recorded : UInt64) :
    let time := chain.blockTime block
    let position := chain.timing.positionOf time
    let finalized := chain.head.finalizedEpoch
    let barriers : List Barrier :=
      [⟨finalityHurdles chain block,
        if finalized < position.epoch then some (.awaitingFinality block position.epoch finalized)
          else none⟩,
       flightBarrier busy]
    Follows chain (checkFinality category busy block recorded) (Barrier.course barriers)
      (Barrier.outcome (.started ⟨category, block, recorded, time, position.slot, position.epoch⟩)
        barriers) := by
  intro time position finalized barriers
  have hheader : Follows chain ((Chain.readBlockTime block).within "checkpoint header")
      [.read .header "checkpoint header", .demand (if chain.latestBlock < block
        then some (.read "checkpoint header" (.notFound ("block " ++ toString block.toNat)))
        else none)] time := by
    by_cases hahead : chain.latestBlock < block
    · rw [if_pos hahead]
      refine Follows.readOr (?_ : _ = answerUnless (some _) _)
      exact if_pos hahead
    · rw [if_neg hahead]
      refine Follows.readOr (?_ : _ = answerUnless none _)
      exact if_neg hahead
  have htiming : Follows chain (Chain.readTiming.within "beacon config")
    [.read .beaconConfig "beacon config"] chain.timing := Follows.read rfl
  have hhead : Follows chain (Chain.readHead.within "beacon head")
    [.read .beaconHead "beacon head"] chain.head := Follows.read rfl
  refine hheader.bind fun _ => htiming.bind fun _ => hhead.bind fun _ => ?_
  refine Barrier.follows_cons (fun refusal hturned => ?_) (fun hpassed => ?_)
  · obtain ⟨hpending, hrefusal⟩ := Option.ite_none_right_eq_some.mp hturned
    cases hrefusal
    have hfinality : chain.timing.finality time chain.head = .pending position finalized :=
      if_pos hpending
    rw [hfinality]
    exact (Follows.log _).bind_pure Follows.pure
  · have hfinal : ¬ finalized < position.epoch := by simpa using hpassed
    have hfinality : chain.timing.finality time chain.head = .finalized position := if_neg hfinal
    rw [hfinality]
    refine Barrier.follows_gate fun _ => ?_
    exact (Follows.log _).bind_pure Follows.pure

/-- A tick follows the course through the gates of its task. -/
theorem follows_tick (task : ReportTask) (busy : Bool) (chain : Chain) :
    Follows chain (task.tick busy) (Barrier.course (task.gates chain ++ [flightBarrier busy]))
      (Barrier.outcome (.started (task.candidate chain))
        (task.gates chain ++ [flightBarrier busy])) := by
  have hexecution : Follows chain (Chain.readExecutionSynced.within "execution sync status")
    [.read .executionSynced "execution sync status"] chain.executionSynced := Follows.read rfl
  have hconsensus : Follows chain (Chain.readConsensusSynced.within "consensus sync status")
    [.read .consensusSynced "consensus sync status"] chain.consensusSynced := Follows.read rfl
  have hnode : Follows chain (Chain.readNode : Query ReportError Address) [] chain.node := ⟨rfl, rfl⟩
  have htrusted : Follows chain ((Chain.readTrusted chain.node).within "trusted member check")
    [.read .trustedMember "trusted member check"] (chain.trusted chain.node) := Follows.read rfl
  have henabled : Follows chain
    ((Chain.readEnabled task.category).within "submissions enabled flag")
    [.read .submissionsEnabled "submissions enabled flag"] (chain.enabled task.category) :=
    Follows.read rfl
  refine hexecution.bind fun _ => hconsensus.bind fun _ => Barrier.follows_gate fun _ => ?_
  refine hnode.bind fun _ => htrusted.bind fun _ => Barrier.follows_gate fun _ => ?_
  refine henabled.bind fun _ => Barrier.follows_gate fun _ => ?_
  refine (Checkpoint.follows_decision task.category task.blockSource chain).bind fun _ => ?_
  refine Barrier.follows_cons (fun refusal hturned => ?_) (fun hpassed => ?_)
  · obtain ⟨hbehind, hrefusal⟩ := Option.ite_none_left_eq_some.mp hturned
    cases hrefusal
    rw [if_neg hbehind]
    exact (Follows.log _).bind_pure Follows.pure
  · have habove : chain.recorded task.category < task.blockSource.block chain task.category := by
      simpa [candidate] using hpassed
    rw [if_pos habove]
    exact follows_checkFinality _ busy _ _

/-! ## Ticks that get through -/

/-- A gate never turns a tick back with an outcome from behind the gates. -/
theorem refusal_of_mem_gates {task : ReportTask} {gate : Barrier} (hgate : gate ∈ task.gates chain)
    (checkpoint : Checkpoint) :
    gate.refusal ≠ some .alreadyRunning ∧ gate.refusal ≠ some (.started checkpoint) := by
  simp only [gates, List.mem_cons, List.not_mem_nil, or_false] at hgate
  rcases hgate with rfl | rfl | rfl | rfl | rfl
  all_goals
    dsimp only
    split
    · simp
    · simp

end ReportTask

/-- A chain on which a task gets through all its gates with a checkpoint: it may report on it, the
checkpoint is the reportable one, and every read on the way is answered. -/
structure Passes (chain : Chain) (task : ReportTask) (checkpoint : Checkpoint) : Prop extends
    Authorised chain task checkpoint where
  answered : ∀ method ∈ task.gateCalls, method ∉ chain.failing
  reportable : task.blockSource.block? chain task.category = some checkpoint.block
  slot : checkpoint.slot = (chain.timing.positionOf checkpoint.blockTime).slot

namespace ReportTask

/-- The gates of a task are open where its reads are answered and every demand of theirs is met. -/
theorem gates_open_iff {task : ReportTask} :
    (∀ gate ∈ task.gates chain, gate.Open chain) ↔
      (∀ method ∈ task.gateCalls, method ∉ chain.failing) ∧
      task.blockSource.block? chain task.category = some (task.candidate chain).block ∧
      (chain.executionSynced = true ∧ chain.consensusSynced = true) ∧
      chain.trusted chain.node = true ∧ chain.enabled task.category = true ∧
      (task.candidate chain).recordedBlock < (task.candidate chain).block ∧
      (task.candidate chain).block ≤ chain.latestBlock ∧
      (task.candidate chain).epoch ≤ chain.head.finalizedEpoch := by
  have hcategory : (task.candidate chain).category = task.category := rfl
  have hblock : task.blockSource.block chain task.category = (task.candidate chain).block := rfl
  simp only [gates, Barrier.open_iff, List.forall_mem_cons, List.forall_mem_append,
    BlockSource.clear_iff, finalityHurdles, failure?_read_eq_none_iff, failure?_demand, gateCalls]
  generalize task.candidate chain = c at hcategory hblock ⊢
  simp only [hcategory, hblock, Bool.not_and, Bool.or_eq_true, Bool.not_eq_true', Bool.not_eq_false,
    ite_eq_left_iff, ite_eq_right_iff, reduceCtorEq, imp_false, not_or, UInt64.not_lt]
  grind

/-- A task gets through its gates where they are all open, with one checkpoint. -/
theorem passes_iff_open {task : ReportTask} : Passes chain task checkpoint ↔
    (∀ gate ∈ task.gates chain, gate.Open chain) ∧ task.candidate chain = checkpoint := by
  rw [gates_open_iff]
  constructor
  · intro h
    have hblock : task.blockSource.block chain task.category = checkpoint.block := by
      rw [BlockSource.block, h.reportable, Option.getD_some]
    have hcandidate : task.candidate chain = checkpoint := by
      have hcategory := h.category
      have hrecorded := h.recordedBlock
      have htime := h.blockTime
      have hslot := h.slot
      have hepoch := h.epoch
      rw [htime] at hslot hepoch
      obtain ⟨category, block, recorded, time, slot, epoch⟩ := checkpoint
      dsimp only at hcategory hblock hrecorded htime hslot hepoch
      rw [candidate, hblock, hcategory, hrecorded, htime, hslot, hepoch]
    rw [hcandidate]
    exact ⟨⟨h.answered, h.reportable, ⟨h.executionSynced, h.consensusSynced⟩, h.trusted, h.enabled,
      h.above, h.reached, h.final⟩, rfl⟩
  · rintro ⟨⟨hanswered, hreportable, ⟨hexecution, hconsensus⟩, htrusted, henabled, habove, hreached,
      hfinal⟩, rfl⟩
    exact ⟨⟨hexecution, hconsensus, htrusted, henabled, rfl, rfl, habove, hreached, rfl, rfl,
      hfinal⟩, hanswered, hreportable, rfl⟩

/-- The outcome behind the gates is reached exactly through open gates. -/
theorem ask_tick_eq_ok {task : ReportTask} {busy : Bool} {found : TickOutcome}
    (hbehind : ∀ gate ∈ task.gates chain, gate.refusal ≠ some found) :
    ((task.tick busy).ask chain).result = .ok found ↔
      (∀ gate ∈ task.gates chain, gate.Open chain) ∧
        (if busy then .alreadyRunning else .started (task.candidate chain)) = found := by
  have hpassed : firstFailure? chain
        (Barrier.course (task.gates chain ++ [flightBarrier busy])) = none ∧
      (task.gates chain).findSome? Barrier.refusal = none ↔
        ∀ gate ∈ task.gates chain, gate.Open chain := by
    rw [Barrier.passed_iff, and_iff_left]
    cases busy with
    | true => rfl
    | false => rfl
  rw [(task.follows_tick busy chain).result_eq_ok_iff, ← hpassed, Barrier.outcome,
    List.findSome?_append]
  cases hfirst : (task.gates chain).findSome? Barrier.refusal with
  | none => cases busy <;> simp [flightBarrier]
  | some refusal =>
    obtain ⟨gate, hgate, hrefusal⟩ := List.exists_of_findSome?_eq_some hfirst
    have hother : refusal ≠ found := fun h => hbehind gate hgate (h ▸ hrefusal)
    simp [hother]

/-- A tick starts a report on a checkpoint exactly when it gets through all gates with it, and no
report is in flight. -/
theorem ask_tick_eq_started {task : ReportTask} {busy : Bool} :
    ((task.tick busy).ask chain).result = .ok (.started checkpoint) ↔
      Passes chain task checkpoint ∧ busy = false := by
  rw [ask_tick_eq_ok fun gate hgate => (refusal_of_mem_gates hgate checkpoint).2, passes_iff_open]
  cases busy with
  | true => simp
  | false => simp

/-- A tick finds a report in flight exactly when it gets through all gates and there is one. -/
theorem ask_tick_eq_alreadyRunning {task : ReportTask} {busy : Bool} :
    ((task.tick busy).ask chain).result = .ok .alreadyRunning ↔
      (∃ checkpoint, Passes chain task checkpoint) ∧ busy = true := by
  rw [ask_tick_eq_ok fun gate hgate => (refusal_of_mem_gates hgate (task.candidate chain)).1]
  simp only [passes_iff_open]
  cases busy with
  | true => simp
  | false => simp

/-- A tick that gets through all gates makes their calls, and asks for no estimates. -/
theorem deeds_tick_of_passes {task : ReportTask} (h : Passes chain task checkpoint) (busy : Bool) :
    ((task.tick busy).ask chain).deeds = task.gateCalls.map .called := by
  have hopen := (passes_iff_open.mp h).1
  have hlast : Barrier.course [flightBarrier busy] = [] := by cases busy <;> rfl
  have hnone : firstFailure? chain
      (Barrier.course (task.gates chain ++ [flightBarrier busy])) = none := by
    refine (Barrier.passed_iff.mpr ⟨hopen, ?_⟩).1
    rw [hlast, firstFailure?_nil]
  rw [(task.follows_tick busy chain).deeds, reached_eq_self hnone,
    Barrier.course_append_of_open hopen, hlast, List.append_nil]
  obtain ⟨source, blockSource, limits⟩ := task
  cases blockSource with
  | onChain => rfl
  | frequency => rfl

end ReportTask

end StakeOracle
