/-!
# One holder at a time

A flight is a lock with at most one holder. Flights that were copied from one another share one
lock; a holder's guard frees that lock once, and no other.
-/

namespace StakeOracle

/-- A lock that at most one holder has. -/
structure Flight where
  busy : Bool
  deriving DecidableEq, Repr

namespace Flight

/-- A lock that nobody has. -/
def free : Flight := ⟨false⟩

/-- The lock once it is taken, unless somebody has it already. -/
def acquire? (flight : Flight) : Option Flight := if flight.busy then none else some ⟨true⟩

/-- The lock after its holder gave it back. -/
def release (_ : Flight) : Flight := free

/-- A lock can be taken exactly when nobody has it. -/
theorem acquire?_eq_none_iff {flight : Flight} : flight.acquire? = none ↔ flight.busy = true := by
  simp [acquire?]

end Flight

/-- Flights and guards by number, over the locks that they share. -/
structure FlightBoard where
  locks : List Flight
  /-- The lock of each flight. -/
  flights : List Nat
  /-- The lock that each guard holds; nothing once it was dropped, or when it got none. -/
  guards : List (Option Nat)
  deriving DecidableEq, Repr

/-- One use of a board. -/
inductive FlightStep where
  | copy (flight : Nat)
  | create
  | acquire (flight : Nat)
  | drop (guard : Nat)
  | isRunning (flight : Nat)
  deriving DecidableEq, Repr

namespace FlightBoard

/-- A board with one flight that nobody has. -/
def single : FlightBoard := ⟨[Flight.free], [0], []⟩

/-- Whether the lock of a flight is taken. -/
def isRunning (board : FlightBoard) (flight : Nat) : Bool :=
  match board.flights[flight]? with
  | none => false
  | some lock => (board.locks[lock]?.map (·.busy)).getD false

/-- Adds a flight that shares the lock of another. -/
def copy (board : FlightBoard) (flight : Nat) : FlightBoard :=
  match board.flights[flight]? with
  | none => board
  | some lock => { board with flights := board.flights ++ [lock] }

/-- Adds a flight with a lock of its own. -/
def create (board : FlightBoard) : FlightBoard :=
  { board with
    locks := board.locks ++ [Flight.free]
    flights := board.flights ++ [board.locks.length] }

/-- Tries to take the lock of a flight; the next guard holds it, or nothing. -/
def acquire (board : FlightBoard) (flight : Nat) : FlightBoard × Bool :=
  match board.flights[flight]?.bind fun lock =>
      (board.locks[lock]?.bind Flight.acquire?).map fun taken => (lock, taken) with
  | some (lock, taken) =>
    ({ board with
      locks := board.locks.set lock taken
      guards := board.guards ++ [some lock] }, true)
  | none => ({ board with guards := board.guards ++ [none] }, false)

/-- Drops a guard and frees the lock that it holds. -/
def drop (board : FlightBoard) (guard : Nat) : FlightBoard × Bool :=
  match board.guards[guard]? with
  | some (some lock) =>
    ({ board with
      locks := board.locks.modify lock Flight.release
      guards := board.guards.set guard none }, true)
  | _ => (board, false)

/-- The board after a step, and the answer of a step that has one. -/
def step (board : FlightBoard) : FlightStep → FlightBoard × Option Bool
  | .copy flight => (board.copy flight, none)
  | .create => (board.create, none)
  | .acquire flight => let (after, taken) := board.acquire flight; (after, some taken)
  | .drop guard => let (after, held) := board.drop guard; (after, some held)
  | .isRunning flight => (board, some (board.isRunning flight))

/-- The board and the answers after a list of steps. -/
def run (board : FlightBoard) : List FlightStep → FlightBoard × List (Option Bool)
  | [] => (board, [])
  | step :: rest =>
    let (after, answer) := board.step step
    let (final, answers) := after.run rest
    (final, answer :: answers)

end FlightBoard

end StakeOracle
