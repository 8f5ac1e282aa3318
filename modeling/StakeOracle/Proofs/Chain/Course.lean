import StakeOracle.Chain.Reads

/-!
# The course of a query

Many queries meet the same hurdles on a chain whatever they are asked for: reads that may be set to
fail, an estimate, and demands on the state of the chain, one after another. The course of such a
query lists its hurdles without saying how the query is put together. The query stops at the first
hurdle that it cannot take, and otherwise has a known answer.
-/

namespace StakeOracle

/-- The failure of a call that is set to fail. -/
def Method.fault (method : Method) : ChainError := .transport ("injected failure: " ++ method.name)

/-- One thing that a query has to get past. -/
inductive Hurdle where
  /-- A read, and the work that it serves. -/
  | read (method : Method) (context : String)
  /-- An estimate, and what the estimator answers. -/
  | estimate (request : EstimateRequest) (answer : Except String Word)
  /-- A demand on the state of a chain, with the failure that follows where it is not met. -/
  | demand (failure : Option ReportError)

namespace Hurdle

/-- The failure that a hurdle leads to, if it cannot be taken. -/
def failure? (chain : Chain) : Hurdle → Option ReportError
  | read method context =>
    if method ∈ chain.failing then some (.read context method.fault) else none
  | estimate _ (.ok _) => none
  | estimate _ (.error reason) => some (.estimator reason)
  | demand failure => failure

/-- The note that is left at a hurdle; a demand leaves none. -/
def note? : Hurdle → Option Note
  | read method _ => some (.called method)
  | estimate request _ => some (.asked request)
  | demand _ => none

/-- The request of an estimate and its answer. -/
def estimate? : Hurdle → Option (EstimateRequest × Except String Word)
  | estimate request answer => some (request, answer)
  | _ => none

/-- The first failure on a course. -/
def firstFailure? (chain : Chain) (course : List Hurdle) : Option ReportError :=
  course.findSome? (failure? chain)

/-- The hurdles up to the first one that cannot be taken, and that one. -/
def reached (chain : Chain) : List Hurdle → List Hurdle
  | [] => []
  | hurdle :: rest =>
    match hurdle.failure? chain with
    | some _ => [hurdle]
    | none => hurdle :: reached chain rest

variable {chain : Chain} {first second course : List Hurdle}

/-- Without hurdles there is no failure. -/
@[simp] theorem firstFailure?_nil : firstFailure? chain [] = none := rfl

/-- A read is no estimate. -/
@[simp] theorem estimate?_read (method : Method) (context : String) :
    (read method context).estimate? = none := rfl

/-- An estimate is its request with its answer. -/
@[simp] theorem estimate?_estimate (request : EstimateRequest) (answer : Except String Word) :
    (estimate request answer).estimate? = some (request, answer) := rfl

/-- A demand is no estimate. -/
@[simp] theorem estimate?_demand (failure : Option ReportError) :
    (demand failure).estimate? = none := rfl

/-- The estimates of a course are its hurdles of that kind. -/
theorem mem_estimates_iff {request : EstimateRequest} {answer : Except String Word} :
    (request, answer) ∈ course.filterMap estimate? ↔ estimate request answer ∈ course := by
  rw [List.mem_filterMap]
  constructor
  · rintro ⟨hurdle, hmem, hestimate⟩
    cases hurdle with
    | read method context => cases hestimate
    | demand failure => cases hestimate
    | estimate other given =>
      cases hestimate
      exact hmem
  · exact fun hmem => ⟨_, hmem, rfl⟩

/-- The first failure on two courses is that on the first one, or else that on the second. -/
theorem firstFailure?_append : firstFailure? chain (first ++ second) =
    (firstFailure? chain first).or (firstFailure? chain second) :=
  List.findSome?_append

/-- A course without failures is taken to its end. -/
theorem firstFailure?_eq_none_iff :
    firstFailure? chain course = none ↔ ∀ hurdle ∈ course, hurdle.failure? chain = none :=
  List.findSome?_eq_none_iff

/-- A second course is reached when the first one has no failures. -/
theorem reached_append_of_none (h : firstFailure? chain first = none) :
    reached chain (first ++ second) = first ++ reached chain second := by
  induction first with
  | nil => rfl
  | cons hurdle rest ih =>
    rw [firstFailure?_eq_none_iff, List.forall_mem_cons] at h
    rw [List.cons_append, reached, h.1]
    exact congrArg (hurdle :: ·) (ih (firstFailure?_eq_none_iff.mpr h.2))

/-- Nothing behind a failure is reached. -/
theorem reached_append_of_some {failure : ReportError}
    (h : firstFailure? chain first = some failure) :
    reached chain (first ++ second) = reached chain first := by
  induction first with
  | nil => cases h
  | cons hurdle rest ih =>
    rw [List.cons_append, reached, reached]
    cases hhurdle : hurdle.failure? chain with
    | some _ => rfl
    | none =>
      rw [firstFailure?, List.findSome?_cons, hhurdle] at h
      exact congrArg (hurdle :: ·) (ih h)

/-- On a course without failures every hurdle is reached. -/
theorem reached_eq_self (h : firstFailure? chain course = none) : reached chain course = course := by
  have happend : reached chain (course ++ []) = course ++ reached chain [] :=
    reached_append_of_none h
  simpa [reached] using happend

/-- The first failure on a course is that of a hurdle that was reached. -/
theorem exists_reached_of_firstFailure? {failure : ReportError}
    (h : firstFailure? chain course = some failure) :
    ∃ hurdle ∈ reached chain course, hurdle.failure? chain = some failure := by
  induction course with
  | nil => cases h
  | cons hurdle rest ih =>
    rw [reached]
    cases hhurdle : hurdle.failure? chain with
    | some _ =>
      rw [firstFailure?, List.findSome?_cons, hhurdle] at h
      exact ⟨hurdle, List.mem_singleton.mpr rfl, hhurdle.trans h⟩
    | none =>
      rw [firstFailure?, List.findSome?_cons, hhurdle] at h
      obtain ⟨other, hother, hfailure⟩ := ih h
      exact ⟨other, List.mem_cons_of_mem _ hother, hfailure⟩

/-- Nothing but hurdles of a course is reached. -/
theorem mem_of_mem_reached {hurdle : Hurdle} (h : hurdle ∈ reached chain course) :
    hurdle ∈ course := by
  induction course with
  | nil => exact h
  | cons head rest ih =>
    rw [reached] at h
    cases hhead : head.failure? chain with
    | some _ =>
      rw [hhead] at h
      exact List.mem_cons.mpr (.inl (List.mem_singleton.mp h))
    | none =>
      rw [hhead] at h
      exact (List.mem_cons.mp h).elim (fun heq => List.mem_cons.mpr (.inl heq))
        (fun hrest => List.mem_cons_of_mem _ (ih hrest))

end Hurdle

/-- A value, unless there was a failure. -/
def answerUnless (failure : Option ε) (value : α) : Except ε α :=
  match failure with
  | some failure => .error failure
  | none => .ok value

/-- The notes of a computation but for its log entries: its calls and the estimates it asked for. -/
def Noted.deeds (n : Noted α) : List Note := n.notes.filter fun note => note.entry?.isNone

/-- What is not told by a log entry is told by the deeds. -/
theorem Noted.filterMap_deeds {f : Note → Option β} (h : ∀ entry, f (.logged entry) = none)
    (n : Noted α) : n.deeds.filterMap f = n.notes.filterMap f := by
  rw [Noted.deeds, List.filterMap_filter]
  congr 1
  funext note
  cases note with
  | logged entry => exact (h entry).symm
  | called method => rfl
  | asked request => rfl

/-- A query follows a course on a chain: it takes the hurdles in order, stops with the failure of the
first that it cannot take, and otherwise answers. -/
structure Follows (chain : Chain) (q : Query ReportError α) (course : List Hurdle) (value : α) :
    Prop where
  result : (q.ask chain).result = answerUnless (Hurdle.firstFailure? chain course) value
  deeds : (q.ask chain).deeds = (Hurdle.reached chain course).filterMap Hurdle.note?

namespace Follows

open Hurdle

variable {chain : Chain} {q : Query ReportError α} {course : List Hurdle} {value : α}

/-- A query answers exactly when nothing fails on its course, and then with its value. -/
theorem result_eq_ok_iff (h : Follows chain q course value) {answer : α} :
    (q.ask chain).result = .ok answer ↔ firstFailure? chain course = none ∧ value = answer := by
  rw [h.result]
  cases firstFailure? chain course <;> simp [answerUnless]

/-- The calls of a query are the reads that it reaches. -/
theorem mem_calls_iff (h : Follows chain q course value) {method : Method} :
    method ∈ (q.ask chain).calls ↔ ∃ context, .read method context ∈ reached chain course := by
  rw [Noted.calls, ← Noted.filterMap_deeds fun _ => rfl, h.deeds, List.filterMap_filterMap,
    List.mem_filterMap]
  constructor
  · rintro ⟨hurdle, hreached, hnote⟩
    cases hurdle with
    | read other context =>
      obtain rfl : other = method := Option.some.inj hnote
      exact ⟨context, hreached⟩
    | estimate request answer => cases hnote
    | demand failure => cases hnote
  · rintro ⟨context, hreached⟩
    exact ⟨.read method context, hreached, rfl⟩

/-- Where nothing fails, a query asks for all estimates of its course. -/
theorem requests_of_none (h : Follows chain q course value)
    (hnone : firstFailure? chain course = none) :
    (q.ask chain).notes.filterMap Note.request? =
      (course.filterMap estimate?).map fun estimate => estimate.1 := by
  rw [← Noted.filterMap_deeds fun _ => rfl, h.deeds, reached_eq_self hnone,
    List.filterMap_filterMap, List.map_filterMap]
  congr 1
  funext hurdle
  cases hurdle with
  | read method context => rfl
  | estimate request answer => rfl
  | demand failure => rfl

/-- Nothing fails on the course of a query exactly when no call that it makes is set to fail, all
demands are met and all estimates are given. -/
theorem firstFailure?_eq_none_iff (h : Follows chain q course value) :
    firstFailure? chain course = none ↔
      (∀ method ∈ (q.ask chain).calls, method ∉ chain.failing) ∧
      (∀ failure, .demand failure ∈ course → failure = none) ∧
      ∀ request answer, .estimate request answer ∈ course → ∃ share, answer = .ok share := by
  constructor
  · intro hnone
    have hclear := Hurdle.firstFailure?_eq_none_iff.mp hnone
    refine ⟨?_, ?_, ?_⟩
    · intro method hcall hfailing
      obtain ⟨context, hreached⟩ := h.mem_calls_iff.mp hcall
      have hread := hclear _ (mem_of_mem_reached hreached)
      rw [failure?, if_pos hfailing] at hread
      cases hread
    · exact fun failure hmem => hclear _ hmem
    · intro request answer hmem
      have hestimate := hclear _ hmem
      cases answer with
      | ok share => exact ⟨share, rfl⟩
      | error reason => cases hestimate
  · rintro ⟨hcalls, hdemands, hestimates⟩
    cases hfirst : firstFailure? chain course with
    | none => rfl
    | some failure =>
      obtain ⟨hurdle, hreached, hfails⟩ := exists_reached_of_firstFailure? hfirst
      have hmem := mem_of_mem_reached hreached
      cases hurdle with
      | read method context =>
        rw [failure?, if_neg (hcalls method (h.mem_calls_iff.mpr ⟨context, hreached⟩))] at hfails
        cases hfails
      | estimate request answer =>
        obtain ⟨share, rfl⟩ := hestimates request answer hmem
        cases hfails
      | demand failure =>
        obtain rfl := hdemands failure hmem
        cases hfails

/-- What is known takes no hurdle. -/
protected theorem pure : Follows chain (pure value : Query ReportError α) [] value := ⟨rfl, rfl⟩

/-- Log entries are no hurdles. -/
theorem log (entry : LogEntry) : Follows chain (Query.log entry) [] () := ⟨rfl, rfl⟩

/-- A read with an answer is one hurdle. -/
theorem read {method : Method} {context : String} {answer : Chain → Except ChainError α}
    (h : answer chain = .ok value) :
    Follows chain ((Query.call method answer).within context) [.read method context] value := by
  refine ⟨?_, ?_⟩
  · rw [Query.result_ask_within, Query.result_ask_call, firstFailure?, List.findSome?_cons, failure?]
    by_cases hfailing : method ∈ chain.failing
    · rw [if_pos hfailing, if_pos hfailing]
      rfl
    · rw [if_neg hfailing, if_neg hfailing, h]
      rfl
  · rw [Noted.deeds, Query.notes_ask_within, Query.notes_ask_call, reached]
    cases (Hurdle.read method context).failure? chain <;> rfl

/-- A read that the chain may have no answer for is a hurdle and a demand. -/
theorem readOr {method : Method} {context : String} {answer : Chain → Except ChainError α}
    {cause : Option ChainError} (h : answer chain = answerUnless cause value) :
    Follows chain ((Query.call method answer).within context)
      [.read method context, .demand (cause.map (.read context))] value := by
  refine ⟨?_, ?_⟩
  · rw [Query.result_ask_within, Query.result_ask_call, firstFailure?, List.findSome?_cons, failure?]
    by_cases hfailing : method ∈ chain.failing
    · rw [if_pos hfailing, if_pos hfailing]
      rfl
    · rw [if_neg hfailing, if_neg hfailing, h]
      cases cause with
      | none => rfl
      | some cause => rfl
  · rw [Noted.deeds, Query.notes_ask_within, Query.notes_ask_call, reached]
    cases (Hurdle.read method context).failure? chain <;> cases cause <;> rfl

/-- A computation that needs no chain is a demand. -/
theorem ofExcept {result : Except ReportError α} {failure : Option ReportError}
    (h : result = answerUnless failure value) :
    Follows chain (Query.ofExcept result) [.demand failure] value := by
  rw [h]
  cases failure with
  | none => exact ⟨rfl, rfl⟩
  | some failure => exact ⟨rfl, rfl⟩

/-- A query in two parts follows the courses of both. The second part counts only where nothing
fails on the first course. -/
protected theorem bind {f : α → Query ReportError β} {rest : List Hurdle} {final : β}
    (h : Follows chain q course value)
    (hf : firstFailure? chain course = none → Follows chain (f value) rest final) :
    Follows chain (q >>= f) (course ++ rest) final := by
  have hresult := h.result
  cases hfirst : firstFailure? chain course with
  | none =>
    rw [hfirst] at hresult
    have hf := hf hfirst
    refine ⟨?_, ?_⟩
    · rw [Query.result_ask_bind, hresult, firstFailure?_append, hfirst]
      exact hf.result
    · have hdeeds := h.deeds
      rw [reached_eq_self hfirst] at hdeeds
      rw [reached_append_of_none hfirst, List.filterMap_append, ← hdeeds, ← hf.deeds, Noted.deeds,
        Query.notes_ask_bind, hresult, List.filter_append]
      rfl
  | some failure =>
    rw [hfirst] at hresult
    refine ⟨?_, ?_⟩
    · rw [Query.result_ask_bind, hresult, firstFailure?_append, hfirst]
      rfl
    · rw [reached_append_of_some hfirst, ← h.deeds, Noted.deeds, Query.notes_ask_bind, hresult]
      exact congrArg (List.filter _) (List.append_nil _)

/-- A refusal in front of a query is a demand. -/
theorem refuse {condition : Prop} [Decidable condition] {failure : ReportError}
    {f : PUnit → Query ReportError α}
    (h : ¬ condition → Follows chain (f ⟨⟩) course value) :
    Follows chain (if condition then (do f (← throw failure)) else f ⟨⟩)
      (.demand (if condition then some failure else none) :: course) value := by
  by_cases hcondition : condition
  · rw [if_pos hcondition, if_pos hcondition]
    exact ⟨rfl, rfl⟩
  · rw [if_neg hcondition, if_neg hcondition]
    exact ⟨(h hcondition).result, (h hcondition).deeds⟩

/-- A second part that follows no course of its own only changes the value. -/
theorem bind_pure {f : α → Query ReportError β} {final : β} (h : Follows chain q course value)
    (hf : Follows chain (f value) [] final) : Follows chain (q >>= f) course final := by
  simpa using h.bind fun _ => hf

/-- Going through a list follows the courses of its items. -/
protected theorem mapM {work : ι → Query ReportError α} {courses : ι → List Hurdle} {values : ι → α}
    {items : List ι} (h : ∀ item ∈ items, Follows chain (work item) (courses item) (values item)) :
    Follows chain (items.mapM work) (items.flatMap courses) (items.map values) := by
  induction items with
  | nil =>
    rw [List.mapM_nil]
    exact Follows.pure
  | cons item items ih =>
    rw [List.forall_mem_cons] at h
    rw [List.mapM_cons, List.flatMap_cons]
    exact h.1.bind fun _ => (ih h.2).bind_pure Follows.pure

/-- A list of computations that need no chain is a list of demands. -/
theorem ofExcept_mapM {work : ι → Except ReportError α} {failures : ι → Option ReportError}
    {values : ι → α} {items : List ι}
    (h : ∀ item ∈ items, work item = answerUnless (failures item) (values item)) :
    Follows chain (Query.ofExcept (items.mapM work))
      (items.map fun item => .demand (failures item)) (items.map values) := by
  have hmapM : Query.ofExcept (items.mapM work) =
      items.mapM fun item => Query.ofExcept (work item) := by
    clear h
    induction items with
    | nil => rfl
    | cons item items ih =>
      rw [List.mapM_cons, List.mapM_cons, ← ih]
      cases work item with
      | error failure => rfl
      | ok value =>
        cases items.mapM work with
        | error failure => rfl
        | ok values => rfl
  rw [hmapM, List.map_eq_flatMap]
  exact Follows.mapM fun item hmem => Follows.ofExcept (h item hmem)

end Follows

end StakeOracle
