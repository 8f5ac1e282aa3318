import StakeOracle.Chain.Method
import StakeOracle.Journal.LogEntry

/-!
# Work that leaves notes

While the engine works it calls its chain, writes log entries and asks for estimates. The notes of
a computation are all of these in the order in which they happened.
-/

namespace StakeOracle

/-- What the smoothing pool's estimator is told. -/
structure EstimateRequest where
  block : UInt64
  blockTime : UInt64
  slot : UInt64
  epoch : UInt64
  /-- The rewards interval that is accruing. -/
  intervalIndex : UInt64
  intervalStart : UInt64
  /-- Whole intervals since its start. -/
  intervalsPassed : UInt64
  deriving DecidableEq, Repr

/-- One thing that happened. -/
inductive Note where
  | called (method : Method)
  | logged (entry : LogEntry)
  | asked (request : EstimateRequest)
  deriving DecidableEq, Repr

namespace Note

/-- The call of a note. -/
def call? : Note → Option Method
  | called method => some method
  | _ => none

/-- The log entry of a note. -/
def entry? : Note → Option LogEntry
  | logged entry => some entry
  | _ => none

/-- The estimate request of a note. -/
def request? : Note → Option EstimateRequest
  | asked request => some request
  | _ => none

end Note

/-- A result with the notes that were left on the way to it. -/
structure Noted (α : Type) where
  notes : List Note
  result : α
  deriving Repr

namespace Noted

/-- The calls in order. -/
def calls (n : Noted α) : List Method := n.notes.filterMap Note.call?

/-- The log entries in order. -/
def entries (n : Noted α) : List LogEntry := n.notes.filterMap Note.entry?

instance : Monad Noted where
  pure a := ⟨[], a⟩
  bind n f :=
    let next := f n.result
    ⟨n.notes ++ next.notes, next.result⟩

/-- A value that is given has no notes. -/
@[simp] theorem notes_pure (a : α) : (pure a : Noted α).notes = [] := rfl

/-- A value that is given is the result. -/
@[simp] theorem result_pure (a : α) : (pure a : Noted α).result = a := rfl

/-- Work in two parts leaves the notes of the first part and then those of the second. -/
@[simp] theorem notes_bind (n : Noted α) (f : α → Noted β) :
    (n >>= f).notes = n.notes ++ (f n.result).notes := rfl

/-- Work in two parts has the result of its second part. -/
@[simp] theorem result_bind (n : Noted α) (f : α → Noted β) :
    (n >>= f).result = (f n.result).result := rfl

instance : LawfulMonad Noted :=
  LawfulMonad.mk' Noted (fun n => by simp [Functor.map]) (fun a f => by simp [bind, pure])
    (fun n f g => by simp [bind, List.append_assoc])

/-- Leaves one note. -/
def note (n : Note) : Noted Unit := ⟨[n], ()⟩

end Noted

end StakeOracle
