/-!
# Reading text

A reader takes characters off the front of a text and answers with a value and what is left, or
refuses. Repetition is bounded by the length of the text, since every item that is worth repeating
takes at least one character.
-/

namespace StakeOracle

/-- A computation that takes characters off the front of a text, or refuses. -/
abbrev Reader := StateT (List Char) Option

namespace Reader

/-- Reads a whole text; nothing may be left. -/
def readAll? (reader : Reader α) (text : String) : Option α :=
  match reader.run text.toList with
  | some (value, []) => some value
  | _ => none

/-- The next character, which stays where it is. -/
def next? : Reader (Option Char) := return (← get).head?

/-- Takes a character that passes a test. -/
def one (test : Char → Bool) : Reader Char := fun
  | c :: rest => if test c then some (c, rest) else none
  | [] => none

/-- Takes one character. -/
def char (c : Char) : Reader Unit := do
  let _ ← one (· == c)

/-- Takes a word. -/
def word (text : String) : Reader Unit := text.toList.forM char

/-- Takes characters as long as they pass a test. -/
def run (test : Char → Bool) : Reader (List Char) := fun rest =>
  some (rest.takeWhile test, rest.dropWhile test)

/-- Takes at least one character, and as many as pass a test. -/
def run1 (test : Char → Bool) : Reader (List Char) := do
  let first ← one test
  return first :: (← run test)

/-- Takes a fixed number of characters that pass a test. -/
def times (count : Nat) (test : Char → Bool) : Reader (List Char) :=
  (List.range count).mapM fun _ => one test

/-- Takes items as long as there is one, at most the given number. -/
def atMost : Nat → Reader α → Reader (List α)
  | 0, _ => pure []
  | count + 1, item => fun rest =>
    match item rest with
    | none => some ([], rest)
    | some (value, rest) =>
      (atMost count item rest).map fun (values, rest) => (value :: values, rest)

/-- Takes items as long as there is one. -/
def many (item : Reader α) : Reader (List α) := do atMost (← get).length item

/-- Takes items with a separator between them, at least one. -/
def separated (item : Reader α) (separator : Reader Unit) : Reader (List α) := do
  let first ← item
  return first :: (← many (do separator; item))

/-- Refuses unless nothing is left. -/
def done : Reader Unit := fun
  | [] => some ((), [])
  | _ :: _ => none

/-- Refuses unless a condition holds. -/
def require (condition : Bool) : Reader Unit := if condition then pure () else failure

end Reader

end StakeOracle
