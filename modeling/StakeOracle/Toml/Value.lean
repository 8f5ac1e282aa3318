/-!
# Values of a settings document

A document is a table of values. Dates and times are told apart from other values, and nothing
more is kept of them.
-/

namespace StakeOracle.Toml

/-- A value. -/
inductive Value where
  | text (text : String)
  | integer (n : Int)
  | float (x : Float)
  | boolean (b : Bool)
  | moment
  | array (items : List Value)
  | table (entries : List (String × Value))

end StakeOracle.Toml
