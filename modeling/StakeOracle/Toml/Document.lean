import StakeOracle.Toml.Moment
import StakeOracle.Toml.Quoted
import StakeOracle.Toml.Tree

/-!
# Settings documents

A document is a list of entries, then sections under headers; entries and headers stand on lines
of their own, and comments reach to the end of a line. Arrays may be spread over lines and may end
with a comma, tables in braces may not. Brackets and dotted keys go less than eighty levels deep.
-/

namespace StakeOracle.Toml

open Reader

/-- The depth that brackets and dotted keys do not reach. -/
def depthLimit : Nat := 80

/-- Blanks within a line. -/
def blanks : Reader Unit := do
  let _ ← run isBlank

/-- A comment, up to the end of its line. -/
def comment : Reader Unit := do
  char '#'
  let _ ← run isLineChar

/-- The rest of a line that says nothing more. -/
def lineEnd : Reader Unit := do
  blanks
  let _ ← optional comment
  lineBreak <|> done

/-- Lines that say nothing. -/
def emptyLines : Reader Unit := do
  let _ ← many do
    blanks
    let _ ← optional comment
    lineBreak

/-- Blanks, line breaks and comments between the items of an array. -/
def spacing : Reader Unit := do
  emptyLines
  blanks

/-- A key without quotes. -/
def bareKey : Reader (List Char) := run1 fun c => c.isAlphanum || c = '_' || c = '-'

/-- Keys with dots between them. -/
def keyPath : Reader (List String) := do
  let path ← separated
    (do
      blanks
      let key ← lineText '"' <|> lineText '\'' <|> bareKey
      blanks
      return String.ofList key)
    (char '.')
  require (path.length < depthLimit)
  return path

/-- A value without brackets. -/
def scalar : Reader Value :=
  (do return .text (← quoted)) <|>
  (do moment; return .moment) <|>
  (do return .float (← float)) <|>
  (do return .integer (← integer)) <|>
  (do word "true"; return .boolean true) <|>
  (do word "false"; return .boolean false)

/-- A key with its value. -/
def entry (value : Reader Value) : Reader Entry := do
  let path ← keyPath
  char '='
  blanks
  return ⟨path, ← value⟩

/-- Values in square brackets. -/
def array (value : Reader Value) : Reader Value := do
  char '['
  let items ← optional do
    let items ← separated (do spacing; let item ← value; spacing; return item) (char ',')
    let _ ← optional (char ',')
    return items
  spacing
  char ']'
  return .array (items.getD [])

/-- Entries in braces, on one line. -/
def inlineTable (value : Reader Value) : Reader Value := do
  char '{'
  let entries ← optional (separated (do let e ← entry value; blanks; return e) (char ','))
  blanks
  char '}'
  match Entries.insertAll (entries.getD []) [] with
  | some table => return .table (entryValues table)
  | none => failure

/-- A value within which brackets may go the given number of levels deep. -/
def value : Nat → Reader Value
  | 0 => scalar
  | depth + 1 => scalar <|> array (value depth) <|> inlineTable (value depth)

/-- The entries up to the next header. -/
def entryLines : Reader (List Entry) :=
  many do
    emptyLines
    let e ← entry (value (depthLimit - 1))
    lineEnd
    return e

/-- A header: its path, and whether double brackets enclose it. -/
def header : Reader (List String × Bool) := do
  emptyLines
  blanks
  let found ←
    (do word "[["; let path ← keyPath; word "]]"; return (path, true)) <|>
    (do char '['; let path ← keyPath; char ']'; return (path, false))
  lineEnd
  return found

/-- A header with the entries under it. -/
def headed : Reader Section := do
  let (path, isElement) ← header
  return ⟨path, isElement, ← entryLines⟩

/-- A whole document: its entries before any header, and its sections. -/
def document : Reader (List Entry × List Section) := do
  let _ ← optional (char '\ufeff')
  let entries ← entryLines
  let sections ← many headed
  emptyLines
  blanks
  let _ ← optional comment
  return (entries, sections)

/-- Puts a document together. -/
def assemble (entries : List Entry) (sections : List Section) : Option Entries := do
  let table ← Entries.insertAll entries []
  sections.foldlM (fun table s => table.place s.entries s.isElement s.path) table

/-- The entries of a document. -/
def read? (text : String) : Option (List (String × Value)) := do
  let (entries, sections) ← document.readAll? text
  let table ← assemble entries sections
  return entryValues table

end StakeOracle.Toml
