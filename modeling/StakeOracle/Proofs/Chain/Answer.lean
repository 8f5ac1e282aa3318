import StakeOracle.Chain.Query

/-!
# Queries that succeed

A query that answers has passed all its parts. These equivalences take such an answer apart, one
part at a time, so that a proof about a long query follows the order of its reads.
-/

namespace StakeOracle

/-- Rewording a failure leaves the successful results as they are. -/
theorem mapError_eq_ok {result : Except ε α} {f : ε → ε'} {a : α} :
    result.mapError f = .ok a ↔ result = .ok a := by
  cases result with
  | error e =>
    constructor
    · intro h
      cases h
    · intro h
      cases h
  | ok b =>
    constructor
    · intro h
      exact congrArg Except.ok (Except.ok.inj h)
    · intro h
      exact congrArg Except.ok (Except.ok.inj h)

namespace Query

/-- A query in two parts answers exactly when both parts do, the second on the first one's result. -/
theorem ask_bind_eq_ok {q : Query ε α} {f : α → Query ε β} {chain : Chain} {b : β} :
    ((q >>= f).ask chain).result = .ok b ↔
      ∃ a, (q.ask chain).result = .ok a ∧ ((f a).ask chain).result = .ok b := by
  rw [result_ask_bind]
  cases h : (q.ask chain).result with
  | error e => simp
  | ok a => simp

/-- Naming the work around a read leaves its successful answers as they are. -/
theorem ask_within_eq_ok {context : String} {q : Query ChainError α} {chain : Chain} {a : α} :
    ((q.within context).ask chain).result = .ok a ↔ (q.ask chain).result = .ok a := by
  rw [result_ask_within, mapError_eq_ok]

/-- A call answers exactly when it is not set to fail and the chain has an answer. -/
theorem ask_call_eq_ok {method : Method} {answer : Chain → Except ChainError α} {chain : Chain}
    {a : α} : ((call method answer).ask chain).result = .ok a ↔
      method ∉ chain.failing ∧ answer chain = .ok a := by
  rw [result_ask_call]
  by_cases h : method ∈ chain.failing
  · simp [h]
  · simp [h]

/-- A named read of what every chain holds answers with it unless the call is set to fail. -/
theorem ask_read_eq_ok {method : Method} {context : String} {value : Chain → α} {chain : Chain}
    {a : α} : (((call method fun c => .ok (value c)).within context).ask chain).result = .ok a ↔
      method ∉ chain.failing ∧ value chain = a := by
  rw [ask_within_eq_ok, ask_call_eq_ok, Except.ok.injEq]

/-- A pure result is the answer that it names. -/
theorem ask_pure_eq_ok {a b : α} {chain : Chain} :
    ((pure a : Query ε α).ask chain).result = .ok b ↔ a = b := by
  rw [ask_pure]
  simp

/-- A gate that answers otherwise than with its own refusal was open, and what lies behind it gave the
answer. -/
theorem ask_gate_eq_ok {closed : Bool} {entry : LogEntry} {refusal a : α} {rest : Query ε α}
    {chain : Chain} (hother : refusal ≠ a)
    (h : ((if closed then log entry >>= fun _ => pure refusal else rest).ask chain).result =
      .ok a) : closed = false ∧ (rest.ask chain).result = .ok a := by
  cases closed with
  | true =>
    obtain ⟨-, -, h⟩ := ask_bind_eq_ok.mp h
    exact absurd (ask_pure_eq_ok.mp h) hother
  | false => exact ⟨rfl, h⟩

end Query

end StakeOracle
