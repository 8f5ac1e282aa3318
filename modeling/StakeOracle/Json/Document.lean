import StakeOracle.Json.Value
import StakeOracle.Text.Reader

/-!
# JSON documents

A document is one value with blanks around it. Values may be nested to any depth, so the depth is
bounded by the length of the text alone.
-/

namespace StakeOracle.Json

open Reader

/-- Blanks between tokens. -/
def blanks : Reader Unit := do
  let _ ← run fun c => c = ' ' || c = '\n' || c = '\t' || c = '\r'

/-- The value of a hexadecimal digit. -/
def hexValue? (c : Char) : Option Nat :=
  if c.isDigit then some (c.toNat - '0'.toNat)
  else if 'a' ≤ c ∧ c ≤ 'f' then some (c.toNat - 'a'.toNat + 10)
  else if 'A' ≤ c ∧ c ≤ 'F' then some (c.toNat - 'A'.toNat + 10)
  else none

/-- A unit of a string: a character, or a code unit written as an escape. -/
inductive StringUnit where
  | char (c : Char)
  | code (unit : Nat)

/-- A code unit of four hexadecimal digits. -/
def codeUnit : Reader Nat := do
  let digits ← times 4 fun c => (hexValue? c).isSome
  return digits.foldl (fun n c => 16 * n + (hexValue? c).getD 0) 0

/-- The unit that an escape stands for. -/
def escape : Reader StringUnit := do
  char '\\'
  match ← one fun _ => true with
  | '"' => return .char '"'
  | '\\' => return .char '\\'
  | '/' => return .char '/'
  | 'b' => return .char '\x08'
  | 'f' => return .char '\x0c'
  | 'n' => return .char '\n'
  | 'r' => return .char '\r'
  | 't' => return .char '\t'
  | 'u' => return .code (← codeUnit)
  | _ => failure

/-- The characters that the units of a string denote; two code units that form a surrogate pair
denote one. -/
def textOf : List StringUnit → Option (List Char)
  | [] => some []
  | .char c :: rest => (textOf rest).map (c :: ·)
  | .code high :: rest =>
    if high.isValidChar then (textOf rest).map (Char.ofNat high :: ·)
    else
      match rest with
      | .code low :: rest =>
        if high < 0xdc00 ∧ 0xdc00 ≤ low ∧ low < 0xe000 then
          (textOf rest).map
            (Char.ofNat (0x10000 + (high - 0xd800) * 0x400 + (low - 0xdc00)) :: ·)
        else none
      | _ => none

/-- A character that stands for itself. -/
def plain : Reader StringUnit := do
  return .char (← one fun c => 0x20 ≤ c.toNat && c ≠ '"' && c ≠ '\\')

/-- A string. -/
def string : Reader Text := do
  char '"'
  let units ← many (plain <|> escape)
  char '"'
  return (textOf units).map String.ofList

/-- The digits in front of the point, without a needless zero. -/
def whole : Reader Unit := do
  if (← next?) = some '0' then char '0'
  else
    let _ ← run1 Char.isDigit

/-- The digits behind the point. -/
def fraction : Reader Unit := do
  char '.'
  let _ ← run1 Char.isDigit

/-- The exponent, with a sign or without. -/
def exponent : Reader Unit := do
  let _ ← one fun c => c = 'e' || c = 'E'
  let _ ← optional (one fun c => c = '+' || c = '-')
  let _ ← run1 Char.isDigit

/-- A number. -/
def number : Reader Unit := do
  let _ ← optional (char '-')
  whole
  let _ ← optional fraction
  let _ ← optional exponent

/-- An item with blanks around it. -/
def padded (item : Reader α) : Reader α := do
  blanks
  let i ← item
  blanks
  return i

/-- Items with commas between them, between two brackets. -/
def bracketed (opening closing : Char) (item : Reader α) : Reader (List α) := do
  char opening
  blanks
  let items ← optional (separated (padded item) (char ','))
  char closing
  return items.getD []

/-- A member of an object. -/
def member (value : Reader Value) : Reader (Text × Value) := do
  let name ← string
  blanks
  char ':'
  blanks
  return (name, ← value)

/-- A value without brackets. -/
def scalar : Reader Value :=
  (do word "null"; return .null) <|>
  (do word "true"; return .boolean true) <|>
  (do word "false"; return .boolean false) <|>
  (do number; return .number) <|>
  (do return .text (← string))

/-- A value within which brackets may go the given number of levels deep. -/
def value : Nat → Reader Value
  | 0 => scalar
  | depth + 1 =>
    scalar <|>
    (do return .array (← bracketed '[' ']' (value depth))) <|>
    (do return .object (← bracketed '\x7b' '\x7d' (member (value depth))))

/-- A value with blanks around it. -/
def document : Reader Value := padded do value (← get).length

/-- The value of a document. -/
def read? (text : String) : Option Value := document.readAll? text

end StakeOracle.Json
