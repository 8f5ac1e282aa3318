import Mathlib.Logic.Relation
import StakeOracle.Proofs.Engine.Reports

/-!
# How started reports advance

Whatever is done about started reports comes down to three things: the chain changes around them,
one of them moves on to a phase that is not the last, or one of them ends and frees the flight of
its task. All ways of going on with a report, to whatever ending, are made up of these.
-/

namespace StakeOracle.Engine

/-- One thing that happens about started reports. A report ends only in a way that is allowed. -/
inductive Advance (allowed : Ending → Prop) (engine : Engine) : Engine → Prop where
  | world (chain : Chain) : Advance allowed engine { engine with chain }
  | move {report : Nat} {r : Report} {phase : Phase} (listed : engine.reports[report]? = some r)
      (underway : r.phase.isEnded = false) (unended : phase.isEnded = false) :
      Advance allowed engine (engine.setPhase report phase)
  | finish {report : Nat} {r : Report} {ending : Ending} (transaction : Option Digest)
      (listed : engine.reports[report]? = some r) (underway : r.phase.isEnded = false)
      (allows : allowed ending) :
      Advance allowed engine
        ((engine.setPhase report (.ended ending transaction)).freeFlight r.task)

/-- Any number of such things, one after another. -/
abbrev Advances (allowed : Ending → Prop) : Engine → Engine → Prop :=
  Relation.ReflTransGen (Advance allowed)

/-- An ending other than by being cancelled. -/
def Uncancelled (ending : Ending) : Prop := ending ≠ .cancelled

variable {allowed : Ending → Prop} {engine next : Engine} {report : Nat} {r : Report}

/-- A report that moves on behind a change of the chain. -/
theorem Advances.move_behind {phase : Phase} (chain : Chain)
    (hlisted : engine.reports[report]? = some r) (hunderway : r.phase.isEnded = false)
    (hunended : phase.isEnded = false) :
    Advances allowed engine ({ engine with chain }.setPhase report phase) :=
  .tail (.single (.world chain)) (.move hlisted hunderway hunended)

/-- A report that ends behind a change of the chain. -/
theorem Advances.finish_behind {ending : Ending} (chain : Chain) (transaction : Option Digest)
    (hlisted : engine.reports[report]? = some r) (hunderway : r.phase.isEnded = false)
    (hallowed : allowed ending) :
    Advances allowed engine (({ engine with chain }.setPhase report
      (.ended ending transaction)).freeFlight r.task) :=
  .tail (.single (.world chain)) (.finish transaction hlisted hunderway hallowed)

/-- A queued report advances when its decision is carried out. -/
theorem CarriedOut.advances {decision : Except ReportError Verdict}
    (h : CarriedOut engine report r decision next) (hlisted : engine.reports[report]? = some r)
    (hqueued : r.phase = .queued) : Advances Uncancelled engine next := by
  have hunderway : r.phase.isEnded = false := by
    rw [hqueued]
    rfl
  cases h with
  | unsent result => exact .single (.finish none hlisted hunderway (by simp [Uncancelled]))
  | waiting gate decided accepted => exact .move_behind _ hlisted hunderway rfl
  | settled gate result decided accepted =>
    exact .finish_behind _ _ hlisted hunderway (by simp [Uncancelled])

/-- A report that begins advances to its end or into the line of the gate. -/
theorem advances_beginReport (engine : Engine) (report : Nat) :
    Advances Uncancelled engine (after (beginReport report) engine) := by
  rcases engine.beginReport_cases report with
    hsame | ⟨r, slot, hlisted, hqueued, -, ⟨-, hbroken⟩ | ⟨compute, -, hcarried⟩⟩
  · rw [hsame]
  · rw [hbroken]
    exact .single (.finish none hlisted (by rw [hqueued]; rfl) (by simp [Uncancelled]))
  · exact hcarried.advances hlisted hqueued

/-- So does a report whose computation took its reads between earlier turns. -/
theorem advances_judgeReport (engine : Engine) (report : Nat) (computed : SubmissionCall) :
    Advances Uncancelled engine (after (judgeReport report computed) engine) := by
  rcases engine.judgeReport_cases report computed with
    hsame | ⟨r, slot, hlisted, hqueued, -, -, -, hcarried⟩
  · rw [hsame]
  · exact hcarried.advances hlisted hqueued

/-- What advances at every item advances over a list. -/
theorem advances_foldl {items : List α} {f : Engine → α → Engine}
    (h : ∀ engine item, Advances allowed engine (f engine item)) (engine : Engine) :
    Advances allowed engine (items.foldl f engine) := by
  induction items generalizing engine with
  | nil => exact .refl
  | cons item items ih => exact (h engine item).trans (ih (f engine item))

/-- Permits let reports move on. -/
theorem advances_releaseGate (engine : Engine) (count : Nat) :
    Advances Uncancelled engine (after (releaseGate count) engine) := by
  refine (advances_foldl (fun passed wait => ?_) engine).trans (.single (.world _))
  split
  · rename_i task checkpoint call hash hlisted
    exact .single (.move hlisted rfl rfl)
  · exact .refl

/-- A report that was let through ends when it is concluded. -/
theorem advances_concludeReport (engine : Engine) (report : Nat) :
    Advances Uncancelled engine (after (concludeReport report) engine) := by
  unfold concludeReport
  rw [after_bind, after_get, answer_get]
  cases hlisted : engine.reports[report]? with
  | none => exact .refl
  | some r =>
    cases hphase : r.phase with
    | admitted call hash =>
      simp only [hphase, after_bind, after_lift, after_finishReport]
      exact .single (.finish _ hlisted (by rw [hphase]; rfl) (by simp [Uncancelled]))
    | queued => simpa [hphase] using Relation.ReflTransGen.refl
    | inLine call hash => simpa [hphase] using Relation.ReflTransGen.refl
    | ended ending transaction => simpa [hphase] using Relation.ReflTransGen.refl

/-- A report that is cancelled ends, if it had not. -/
theorem advances_cancelReport (engine : Engine) (report : Nat) :
    Advances (· = .cancelled) engine (after (cancelReport report) engine) := by
  unfold cancelReport
  rw [after_bind, after_get, answer_get]
  cases hlisted : engine.reports[report]? with
  | none => exact .refl
  | some r =>
    cases hended : r.phase.isEnded with
    | true => simpa [hended] using Relation.ReflTransGen.refl
    | false =>
      simp only [hended, Bool.not_false, ↓reduceIte, after_bind, after_set, endReport, after_modify]
      exact .finish_behind _ _ hlisted hended rfl

/-! ## Computations with any answer -/

/-- Goes on with a queued report whose computation has come to a decision, or has broken down. What
it read may have been read between any other steps. -/
def resolveReport (report : Nat) (decision? : Option (Except ReportError Verdict)) : Act Unit := do
  let engine ← get
  match engine.reports[report]? with
  | some r =>
    match r.phase, decision? with
    | .queued, none => endReport report r .broken none
    | .queued, some decision => carryOut report r (engine.categoryOf r.task) decision
    | _, _ => return
  | none => return

/-- A report that begins is resolved with what its computation decides on the chain. -/
theorem after_beginReport_eq_resolve {slot : TaskSlot}
    (hlisted : engine.reports[report]? = some r) (hslot : engine.tasks[r.task]? = some slot) :
    after (beginReport report) engine = after (resolveReport report
      (slot.task.source.compute?.map fun compute =>
        ((slot.task.prepare r.checkpoint compute).ask engine.chain).result)) engine := by
  have hcategory : engine.categoryOf r.task = slot.task.category := by
    simp [categoryOf, hslot]
  unfold beginReport resolveReport
  simp only [after_bind, after_get, answer_get, hlisted, hslot, hcategory]
  cases r.phase with
  | queued =>
    dsimp only
    cases slot.task.source.compute? with
    | none => rfl
    | some compute => rfl
  | inLine call hash => rfl
  | admitted call hash => rfl
  | ended ending transaction => rfl

/-- A report advances whatever its computation has come to. -/
theorem advances_resolveReport (engine : Engine) (report : Nat)
    (decision? : Option (Except ReportError Verdict)) :
    Advances Uncancelled engine (after (resolveReport report decision?) engine) := by
  unfold resolveReport
  rw [after_bind, after_get, answer_get]
  cases hlisted : engine.reports[report]? with
  | none => exact .refl
  | some r =>
    cases hphase : r.phase with
    | queued =>
      cases decision? with
      | none =>
        simp only [hphase]
        exact .single (.finish none hlisted (by rw [hphase]; rfl) (by simp [Uncancelled]))
      | some decision =>
        simp only [hphase]
        exact (engine.carriedOut_carryOut report r _ decision).advances hlisted hphase
    | inLine call hash => simpa [hphase] using Relation.ReflTransGen.refl
    | admitted call hash => simpa [hphase] using Relation.ReflTransGen.refl
    | ended ending transaction => simpa [hphase] using Relation.ReflTransGen.refl

end StakeOracle.Engine
