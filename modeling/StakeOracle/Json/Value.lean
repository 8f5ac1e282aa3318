/-!
# JSON values

Numbers are told apart from other values and not read. A string whose escapes leave half of a
surrogate pair alone is well formed but denotes no text.
-/

namespace StakeOracle.Json

/-- A string: its text, or nothing when it denotes no text. -/
abbrev Text := Option String

/-- A value. -/
inductive Value where
  | null
  | boolean (b : Bool)
  | number
  | text (text : Text)
  | array (items : List Value)
  /-- Members in the order in which they were written; names may repeat. -/
  | object (members : List (Text × Value))

end StakeOracle.Json
