import StakeOracle.Json.Document
import StakeOracle.Numeric.Decimal
import StakeOracle.Numeric.Power

/-!
# Records in JSON

A record is an object that has each of its fields exactly once, whatever else it has, or an array
of the fields in their order and nothing more. Counters are written as decimal strings.
-/

namespace StakeOracle.Json

/-- A record's values, by name or by position. -/
inductive Record where
  | named (members : List (Text × Value))
  | ordered (items : List Value)

namespace Record

/-- The record of `size` fields that a value is. -/
def ofValue? (size : Nat) : Value → Option Record
  | .object members => if members.all (·.1.isSome) then some (named members) else none
  | .array items => if items.length = size then some (ordered items) else none
  | _ => none

/-- The value of a field. -/
def field? (record : Record) (position : Nat) (name : String) : Option Value :=
  match record with
  | named members =>
    match members.filter fun m => m.1 = some name with
    | [(_, v)] => some v
    | _ => none
  | ordered items => items[position]?

end Record

namespace Value

/-- A truth value. -/
def boolean? : Value → Option Bool
  | boolean b => some b
  | _ => none

/-- A string that denotes a text. -/
def text? : Value → Option String
  | text t => t
  | _ => none

/-- A text without the plus sign in front of it, if there is one. -/
def unsigned : List Char → List Char
  | '+' :: digits => digits
  | digits => digits

/-- A 64-bit counter in a string of decimal digits, a plus sign in front or not. -/
def counter? (v : Value) : Option UInt64 := do
  let n ← Decimal.read? (unsigned (← v.text?).toList)
  if n < 2 ^ 64 then some (UInt64.ofNat n) else none

/-- A choice: a string with its name, or an object whose only member has the name and the value
null. -/
def choice? (named : String → Option α) : Value → Option α
  | text (some name) => named name
  | object [(some name, null)] => named name
  | _ => none

/-- The items of an array. -/
def items? : Value → Option (List Value)
  | array items => some items
  | _ => none

end Value

end StakeOracle.Json
