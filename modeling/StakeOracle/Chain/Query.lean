import StakeOracle.Chain.State
import StakeOracle.Journal.Noted

/-!
# Questions to a chain

A query reads a chain and leaves notes; it cannot change the chain. It ends at its first failure,
so nothing that would have followed is called or noted.
-/

namespace StakeOracle

/-- A computation that reads a chain, leaves notes, and may fail. -/
abbrev Query (ε : Type) := ExceptT ε (ReaderT Chain Noted)

namespace Query

/-- Asks a query of a chain. -/
def ask (q : Query ε α) (chain : Chain) : Noted (Except ε α) := (ExceptT.run q).run chain

/-- Leaves a note. -/
def note (n : Note) : Query ε Unit := ExceptT.lift fun _ => Noted.note n

/-- Writes a log entry. -/
def log (entry : LogEntry) : Query ε Unit := note (.logged entry)

/-- A result that is known without reading. -/
def ofExcept (result : Except ε α) : Query ε α := ExceptT.mk (pure result)

/-- Makes a call: it is counted, and then answered unless it is set to fail. -/
def call (method : Method) (answer : Chain → Except ChainError α) : Query ChainError α :=
  ExceptT.mk fun chain =>
    ⟨[.called method],
      if method ∈ chain.failing then .error (.transport ("injected failure: " ++ method.name))
      else answer chain⟩

/-- A chain failure passed on as it is. -/
def plain (q : Query ChainError α) : Query ReportError α := ExceptT.adapt .chain q

/-- A chain failure named after the work it interrupted. -/
def within (context : String) (q : Query ChainError α) : Query ReportError α :=
  ExceptT.adapt (.read context) q

/-- A value that is given leaves no notes. -/
@[simp] theorem ask_pure (a : α) (chain : Chain) :
    (pure a : Query ε α).ask chain = ⟨[], .ok a⟩ := rfl

/-- A failure that is given leaves no notes. -/
@[simp] theorem ask_throw (e : ε) (chain : Chain) :
    (throw e : Query ε α).ask chain = ⟨[], .error e⟩ := rfl

/-- The notes of a query in two parts: the second part leaves none when the first one failed. -/
@[simp] theorem notes_ask_bind (q : Query ε α) (f : α → Query ε β) (chain : Chain) :
    ((q >>= f).ask chain).notes = (q.ask chain).notes ++
      match (q.ask chain).result with
      | .ok a => ((f a).ask chain).notes
      | .error _ => [] := by
  have key : ((q >>= f).ask chain).notes = (q.ask chain).notes ++
      ((ExceptT.bindCont f (q.ask chain).result).run chain).notes := rfl
  rw [key]
  cases (q.ask chain).result <;> rfl

/-- The notes of one kind that a query in two parts leaves, such as its calls or its log entries. -/
theorem filterMap_notes_ask_bind (kind : Note → Option κ) (q : Query ε α) (f : α → Query ε β)
    (chain : Chain) : ((q >>= f).ask chain).notes.filterMap kind =
      (q.ask chain).notes.filterMap kind ++
        match (q.ask chain).result with
        | .ok a => ((f a).ask chain).notes.filterMap kind
        | .error _ => [] := by
  rw [notes_ask_bind, List.filterMap_append]
  cases (q.ask chain).result with
  | ok a => rfl
  | error e => rfl

/-- A query in two parts goes on with the result of the first part unless that failed. -/
@[simp] theorem result_ask_bind (q : Query ε α) (f : α → Query ε β) (chain : Chain) :
    ((q >>= f).ask chain).result =
      match (q.ask chain).result with
      | .ok a => ((f a).ask chain).result
      | .error e => .error e := by
  have key : ((q >>= f).ask chain).result =
      ((ExceptT.bindCont f (q.ask chain).result).run chain).result := rfl
  rw [key]
  cases (q.ask chain).result <;> rfl

/-- A note is all that is left by leaving it. -/
@[simp] theorem ask_note (n : Note) (chain : Chain) :
    (note n : Query ε Unit).ask chain = ⟨[n], .ok ()⟩ := rfl

/-- A log entry is left as a note of its own. -/
@[simp] theorem ask_log (entry : LogEntry) (chain : Chain) :
    (log entry : Query ε Unit).ask chain = ⟨[.logged entry], .ok ()⟩ := rfl

/-- A result that is given leaves no notes. -/
@[simp] theorem ask_ofExcept (result : Except ε α) (chain : Chain) :
    (ofExcept result).ask chain = ⟨[], result⟩ := rfl

/-- A call is noted even where it is set to fail. -/
@[simp] theorem notes_ask_call (method : Method) (answer : Chain → Except ChainError α)
    (chain : Chain) : ((call method answer).ask chain).notes = [.called method] := rfl

/-- A call answers unless it is set to fail. -/
@[simp] theorem result_ask_call (method : Method) (answer : Chain → Except ChainError α)
    (chain : Chain) : ((call method answer).ask chain).result =
      if method ∈ chain.failing then .error (.transport ("injected failure: " ++ method.name))
      else answer chain := rfl

/-- Naming the work around a query leaves no more notes. -/
@[simp] theorem notes_ask_within (context : String) (q : Query ChainError α) (chain : Chain) :
    ((q.within context).ask chain).notes = (q.ask chain).notes := by
  change (q.ask chain).notes ++ [] = _
  simp

/-- The failure of a query is that of the work around it. -/
@[simp] theorem result_ask_within (context : String) (q : Query ChainError α) (chain : Chain) :
    ((q.within context).ask chain).result = (q.ask chain).result.mapError (.read context) := rfl

/-- Passing failures on plainly leaves no more notes. -/
@[simp] theorem notes_ask_plain (q : Query ChainError α) (chain : Chain) :
    (q.plain.ask chain).notes = (q.ask chain).notes := by
  change (q.ask chain).notes ++ [] = _
  simp

/-- A failure that is passed on plainly is that of the chain. -/
@[simp] theorem result_ask_plain (q : Query ChainError α) (chain : Chain) :
    (q.plain.ask chain).result = (q.ask chain).result.mapError .chain := rfl

end Query

end StakeOracle
