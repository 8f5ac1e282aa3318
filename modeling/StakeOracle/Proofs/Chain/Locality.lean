import StakeOracle.Chain.Change
import StakeOracle.Chain.Reads

/-!
# Where a query looks

Apart from the flags of submissions, the transactions and the faults that are set on calls, two chains
may hold the same. A query that looks at flags only where they agree answers alike on both, as long as
the calls that it makes fail on both or on neither: faults of other calls do not show. Its calls read
a chain; none of them sends anything or waits for an inclusion.
-/

namespace StakeOracle

/-- What a chain holds besides flags, transactions and faults. -/
def Chain.world (chain : Chain) : Chain := { chain with flags := [], sent := [], failing := [] }

/-- Whether a call only reads a chain. -/
def Method.isRead : Method → Bool
  | send => false
  | awaitInclusion => false
  | _ => true

/-- A change does to the world of a chain what it does to the chain. -/
theorem Chain.world_apply (chain : Chain) (change : Change) :
    (chain.apply change).world = (chain.world.apply change).world := by
  cases change with
  | _ => rfl

/-- An answer with its notes is determined by the two. -/
theorem Noted.eq_of {a b : Noted α} (hnotes : a.notes = b.notes) (hresult : a.result = b.result) :
    a = b := by
  cases a
  cases b
  exact congr (congrArg Noted.mk hnotes) hresult

namespace Query

/-- A query answers on another chain as on this one, if the calls that it makes here fail on both or on
neither. -/
def Alike (chain other : Chain) (q : Query ε α) : Prop :=
  (∀ method ∈ (q.ask chain).calls, method ∈ other.failing ↔ method ∈ chain.failing) →
    q.ask other = q.ask chain

/-- A query in two parts, once it is known how the first one goes. -/
theorem ask_bind_of_ok {q : Query ε α} {chain : Chain} {notes : List Note} {a : α}
    (h : q.ask chain = ⟨notes, .ok a⟩) (f : α → Query ε β) :
    (q >>= f).ask chain = ⟨notes ++ ((f a).ask chain).notes, ((f a).ask chain).result⟩ :=
  Noted.eq_of (by rw [notes_ask_bind, h]) (by rw [result_ask_bind, h])

/-- A query whose first part fails goes no further. -/
theorem ask_bind_of_error {q : Query ε α} {chain : Chain} {notes : List Note} {e : ε}
    (h : q.ask chain = ⟨notes, .error e⟩) (f : α → Query ε β) :
    (q >>= f).ask chain = ⟨notes, .error e⟩ :=
  Noted.eq_of (by rw [notes_ask_bind, h, List.append_nil]) (by rw [result_ask_bind, h])

/-- A query whose failures are passed on plainly has the same notes. -/
theorem ask_plain (q : Query ChainError α) (chain : Chain) :
    q.plain.ask chain = ⟨(q.ask chain).notes, (q.ask chain).result.mapError .chain⟩ :=
  Noted.eq_of (notes_ask_plain q chain) (result_ask_plain q chain)

namespace Alike

variable {chain other : Chain}

/-- A value that is given looks nowhere. -/
protected theorem pure {a : α} : Alike chain other (pure a : Query ε α) := fun _ => rfl

/-- A failure that is given looks nowhere. -/
theorem throw {e : ε} : Alike chain other (throw e : Query ε α) := fun _ => rfl

/-- Writing a log entry looks nowhere. -/
theorem log {entry : LogEntry} : Alike chain other (log entry : Query ε Unit) := fun _ => rfl

/-- Leaving a note looks nowhere. -/
theorem note {n : Note} : Alike chain other (note n : Query ε Unit) := fun _ => rfl

/-- A result that is given looks nowhere. -/
theorem ofExcept {result : Except ε α} : Alike chain other (ofExcept result) := fun _ => rfl

/-- A call looks at what its answer depends on. -/
theorem call {method : Method} {answer : Chain → Except ChainError α}
    (h : answer other = answer chain) : Alike chain other (call method answer) := by
  intro hcalls
  have hfails : method ∈ other.failing ↔ method ∈ chain.failing :=
    hcalls method List.mem_cons_self
  refine Noted.eq_of rfl ?_
  simp only [result_ask_call, hfails, h]

/-- A call that looks at the world only answers alike in the same world. -/
theorem read {method : Method} {answer : Chain → Except ChainError α}
    (hworld : other.world = chain.world) (h : ∀ c : Chain, answer c.world = answer c) :
    Alike chain other (Query.call method answer) :=
  .call (by rw [← h other, hworld, h chain])

/-- The parts of a query may each look at what the chains share. -/
theorem bind {q : Query ε α} {f : α → Query ε β} (hq : Alike chain other q)
    (hf : ∀ a, (q.ask chain).result = .ok a → Alike chain other (f a)) :
    Alike chain other (q >>= f) := by
  intro hcalls
  rw [Noted.calls, filterMap_notes_ask_bind, List.forall_mem_append] at hcalls
  obtain ⟨hfirst, hsecond⟩ := hcalls
  refine Noted.eq_of ?_ ?_
  · rw [notes_ask_bind, notes_ask_bind, hq hfirst]
    cases hresult : (q.ask chain).result with
    | error e => rfl
    | ok a =>
      rw [hresult] at hsecond
      dsimp only
      rw [hf a hresult hsecond]
  · rw [result_ask_bind, result_ask_bind, hq hfirst]
    cases hresult : (q.ask chain).result with
    | error e => rfl
    | ok a =>
      rw [hresult] at hsecond
      dsimp only
      rw [hf a hresult hsecond]

/-- Naming the work around a query does not change where it looks. -/
theorem within {q : Query ChainError α} {context : String} (h : Alike chain other q) :
    Alike chain other (q.within context) := by
  intro hcalls
  rw [Noted.calls, notes_ask_within] at hcalls
  refine Noted.eq_of ?_ ?_
  · rw [notes_ask_within, notes_ask_within, h hcalls]
  · rw [result_ask_within, result_ask_within, h hcalls]

/-- Passing failures on plainly does not change where a query looks. -/
theorem plain {q : Query ChainError α} (h : Alike chain other q) : Alike chain other q.plain := by
  intro hcalls
  rw [Noted.calls, notes_ask_plain] at hcalls
  refine Noted.eq_of ?_ ?_
  · rw [notes_ask_plain, notes_ask_plain, h hcalls]
  · rw [result_ask_plain, result_ask_plain, h hcalls]

/-- The node of a wallet belongs to the world. -/
theorem readNode (hworld : other.world = chain.world) :
    Alike chain other (Chain.readNode : Query ε Address) := by
  intro _
  have hnode : other.world.node = chain.world.node := congrArg Chain.node hworld
  exact Noted.eq_of rfl (congrArg Except.ok hnode)

end Alike

/-- A query that only reads, and reads what both chains share. -/
structure Shares (chain other : Chain) (q : Query ε α) : Prop where
  alike : Alike chain other q
  reads : ∀ method ∈ (q.ask chain).calls, method.isRead = true

namespace Shares

variable {chain other : Chain}

/-- So does a query that makes no calls. -/
theorem of_calls_eq_nil {q : Query ε α} (halike : Alike chain other q)
    (hcalls : (q.ask chain).calls = []) : Shares chain other q := by
  refine ⟨halike, fun method hmethod => ?_⟩
  rw [hcalls] at hmethod
  exact absurd hmethod List.not_mem_nil

/-- A value that is given reads nothing. -/
protected theorem pure {a : α} : Shares chain other (pure a : Query ε α) :=
  .of_calls_eq_nil .pure rfl

/-- A failure that is given reads nothing. -/
theorem throw {e : ε} : Shares chain other (throw e : Query ε α) := .of_calls_eq_nil .throw rfl

/-- Writing a log entry reads nothing. -/
theorem log {entry : LogEntry} : Shares chain other (log entry : Query ε Unit) :=
  .of_calls_eq_nil .log rfl

/-- A note of a request to the estimator reads nothing. -/
theorem asked {request : EstimateRequest} :
    Shares chain other (note (.asked request) : Query ε Unit) := .of_calls_eq_nil .note rfl

/-- A result that is given reads nothing. -/
theorem ofExcept {result : Except ε α} : Shares chain other (ofExcept result) :=
  .of_calls_eq_nil .ofExcept rfl

/-- The node of a wallet is shared by chains of the same world. -/
theorem readNode (hworld : other.world = chain.world) :
    Shares chain other (Chain.readNode : Query ε Address) :=
  .of_calls_eq_nil (.readNode hworld) rfl

/-- A read looks at what its answer depends on. -/
theorem call {method : Method} {answer : Chain → Except ChainError α}
    (hread : method.isRead = true) (h : answer other = answer chain) :
    Shares chain other (call method answer) :=
  ⟨.call h, fun _ hmethod => List.mem_singleton.mp hmethod ▸ hread⟩

/-- A read that looks at the world only finds it shared by chains of the same world. -/
theorem read {method : Method} {answer : Chain → Except ChainError α}
    (hread : method.isRead = true) (hworld : other.world = chain.world)
    (h : ∀ c : Chain, answer c.world = answer c) : Shares chain other (Query.call method answer) :=
  ⟨.read hworld h, fun _ hmethod => List.mem_singleton.mp hmethod ▸ hread⟩

/-- The parts of a query may each look at what the chains share. -/
theorem bind {q : Query ε α} {f : α → Query ε β} (hq : Shares chain other q)
    (hf : ∀ a, (q.ask chain).result = .ok a → Shares chain other (f a)) :
    Shares chain other (q >>= f) := by
  refine ⟨.bind hq.alike fun a ha => (hf a ha).alike, ?_⟩
  rw [Noted.calls, filterMap_notes_ask_bind, List.forall_mem_append]
  refine ⟨hq.reads, ?_⟩
  cases hresult : (q.ask chain).result with
  | error e => simp
  | ok a => exact (hf a hresult).reads

/-- Naming the work around a query does not change what it reads. -/
theorem within {q : Query ChainError α} {context : String} (h : Shares chain other q) :
    Shares chain other (q.within context) := by
  refine ⟨h.alike.within, ?_⟩
  rw [Noted.calls, notes_ask_within]
  exact h.reads

/-- Passing failures on plainly does not change what a query reads. -/
theorem plain {q : Query ChainError α} (h : Shares chain other q) : Shares chain other q.plain := by
  refine ⟨h.alike.plain, ?_⟩
  rw [Noted.calls, notes_ask_plain]
  exact h.reads

/-- Work on every item of a list looks where the work on the items does. -/
theorem mapM {items : List ι} {work : ι → Query ε α}
    (h : ∀ item ∈ items, Shares chain other (work item)) :
    Shares chain other (items.mapM work) := by
  induction items with
  | nil => exact .pure
  | cons item items ih =>
    rw [List.mapM_cons]
    refine .bind (h item List.mem_cons_self) fun a _ => ?_
    exact .bind (ih fun next hnext => h next (List.mem_cons_of_mem _ hnext)) fun rest _ => .pure

/-- Writing log entries looks nowhere. -/
theorem forM_log (entries : List LogEntry) :
    Shares chain other (entries.forM fun entry => (Query.log entry : Query ε Unit)) := by
  induction entries with
  | nil => exact .pure
  | cons entry entries ih => exact .bind .log fun _ _ => ih

/-- A gate looks where the query behind it does. -/
theorem gate {closed : Bool} {entry : LogEntry} {refusal : α} {rest : Query ε α}
    (h : Shares chain other rest) : Shares chain other
      (if closed then Query.log entry >>= fun _ => pure refusal else rest) := by
  cases closed with
  | true => exact .bind .log fun _ _ => .pure
  | false => exact h

end Shares

end Query

end StakeOracle
