import StakeOracle.Text.Reader
import StakeOracle.Toml.Number

/-!
# Quoted text in settings

Text stands between double quotes, where a backslash starts an escape, or between single quotes,
where nothing is escaped. Either quote written three times opens text over several lines: a line
break right after it is dropped, up to two quotes in a row belong to the text, and between double
quotes a backslash at the end of a line joins it to the next word. Line breaks are read as line
feeds.
-/

namespace StakeOracle.Toml

open Reader

/-- Whether a character may stand in a line: no control character but the tab. -/
def isLineChar (c : Char) : Bool := c = '\t' || (0x20 ≤ c.toNat && c.toNat ≠ 0x7f)

/-- Whether a character is a blank. -/
def isBlank (c : Char) : Bool := c = ' ' || c = '\t'

/-- A line break: a line feed, or a carriage return and a line feed. -/
def lineBreak : Reader Unit := char '\n' <|> word "\r\n"

/-- The character with a code of `width` hexadecimal digits. -/
def codePoint (width : Nat) : Reader Char := do
  let code := numberOf 16 (← times width isHexDigit)
  require (code.isValidChar)
  return Char.ofNat code

/-- The character that an escape stands for. -/
def escape : Reader Char := do
  char '\\'
  match ← one fun _ => true with
  | 'b' => return '\x08'
  | 'f' => return '\x0c'
  | 'n' => return '\n'
  | 'r' => return '\r'
  | 't' => return '\t'
  | '"' => return '"'
  | '\\' => return '\\'
  | 'u' => codePoint 4
  | 'U' => codePoint 8
  | _ => failure

/-- A backslash at the end of a line, with the line breaks and blanks that follow. -/
def joinedLines : Reader Unit := do
  char '\\'
  let _ ← run isBlank
  lineBreak
  let _ ← many (lineBreak <|> do let _ ← run1 isBlank)

/-- Text in one line, with escapes if double quotes enclose it. -/
def lineText (quote : Char) : Reader (List Char) := do
  char quote
  let text ← many <|
    if quote = '"' then (one fun c => isLineChar c && c ≠ '"' && c ≠ '\\') <|> escape
    else one fun c => isLineChar c && c ≠ quote
  char quote
  return text

/-- Quotes within text over several lines: one or two, and no third. -/
def innerQuotes (quote : Char) : Reader (List Char) := do
  let quotes ← run (· == quote)
  require (0 < quotes.length && quotes.length ≤ 2)
  return quotes

/-- A piece of text over several lines. -/
def piece (quote : Char) : Reader (List Char) :=
  (do lineBreak; pure ['\n']) <|>
  innerQuotes quote <|>
  if quote = '"' then
    run1 (fun c => isLineChar c && c ≠ '"' && c ≠ '\\') <|>
    (do joinedLines; pure []) <|>
    (do return [← escape])
  else run1 fun c => isLineChar c && c ≠ quote

/-- Text over several lines. Of the quotes at its end three close it and the others belong to it. -/
def blockText (quote : Char) : Reader (List Char) := do
  let _ ← times 3 (· == quote)
  let _ ← optional lineBreak
  let pieces ← many (piece quote)
  let closing ← run (· == quote)
  require (3 ≤ closing.length && closing.length ≤ 5)
  return pieces.flatten ++ closing.drop 3

/-- Quoted text of any kind. -/
def quoted : Reader String := do
  let text ← blockText '"' <|> lineText '"' <|> blockText '\'' <|> lineText '\''
  return String.ofList text

end StakeOracle.Toml
