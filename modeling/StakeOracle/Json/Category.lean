import StakeOracle.Category
import StakeOracle.Json.Record

/-!
# Categories in JSON

A category is written as a string.
-/

namespace StakeOracle.Category

/-- The category that a document holds. -/
def ofJson? (text : String) : Option Category :=
  (Json.read? text).bind (Json.Value.choice? ofName?)

/-- A category as a document. -/
def toJson (category : Category) : String := "\"" ++ category.name ++ "\""

end StakeOracle.Category
