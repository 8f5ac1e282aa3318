import StakeOracle.Toml.Value

/-!
# The tree of a settings document

A document is put together from entries and headed sections. A table takes entries under dotted
keys only from the place that opened it: a table with a header of its own is closed to dotted keys
from elsewhere, one that a dotted key opened cannot be given a header, and one that was only
passed on the way to a deeper header may still get its own, once. A path through an array of
tables leads into its last table.
-/

namespace StakeOracle.Toml

/-- How a table came to be. -/
inductive Origin where
  /-- By a header of its own. -/
  | header
  /-- On the way to a deeper header. -/
  | implied
  /-- By a dotted key. -/
  | dotted
  deriving DecidableEq, Repr

/-- A node of a tree that is being put together. -/
inductive Node where
  | value (value : Value)
  | table (origin : Origin) (entries : List (String × Node))
  | elements (tables : List (List (String × Node)))

/-- What a table holds. -/
abbrev Entries := List (String × Node)

/-- One entry of a document: a dotted key and its value. -/
structure Entry where
  path : List String
  value : Value

/-- A section of a document under a header. -/
structure Section where
  path : List String
  /-- Whether the header adds a table to an array of tables. -/
  isElement : Bool
  entries : List Entry

namespace Entries

/-- The entries with a key set to a node. -/
def put (key : String) (node : Node) (entries : Entries) : Entries :=
  entries.filter (·.1 ≠ key) ++ [(key, node)]

/-- Adds a value under a dotted key. `takes` tells whether this table takes values from where the
key starts. -/
def insert (value : Value) : Bool → List String → Entries → Option Entries
  | _, [], _ => none
  | takes, [key], entries =>
    if takes && (entries.lookup key).isNone then some (entries ++ [(key, .value value)]) else none
  | _, key :: rest, entries =>
    match entries.lookup key with
    | none => (insert value true rest []).map fun inner => entries.put key (.table .dotted inner)
    | some (.table origin inner) =>
      if origin = .header then none
      else (insert value (origin = .dotted) rest inner).map fun inner =>
        entries.put key (.table origin inner)
    | some (.elements tables) =>
      tables.getLast?.bind fun last => (insert value false rest last).map fun inner =>
        entries.put key (.elements (tables.dropLast ++ [inner]))
    | some (.value _) => none

/-- Adds entries one after another. -/
def insertAll (added : List Entry) (entries : Entries) : Option Entries :=
  added.foldlM (fun entries entry => entries.insert entry.value true entry.path) entries

/-- Adds the entries of a section under the last key of its path, here in the table that holds
that key. -/
def insertSection (added : List Entry) (isElement : Bool) (key : String) (entries : Entries) :
    Option Entries :=
  match isElement, entries.lookup key with
  | false, none => (insertAll added []).map fun inner => entries.put key (.table .header inner)
  | false, some (.table .implied inner) =>
    (insertAll added inner).map fun inner => entries.put key (.table .header inner)
  | true, none => (insertAll added []).map fun inner => entries.put key (.elements [inner])
  | true, some (.elements tables) =>
    (insertAll added []).map fun inner => entries.put key (.elements (tables ++ [inner]))
  | _, _ => none

/-- Adds a section at a path. -/
def place (added : List Entry) (isElement : Bool) : List String → Entries → Option Entries
  | [], _ => none
  | [key], entries => insertSection added isElement key entries
  | key :: rest, entries =>
    match entries.lookup key with
    | none => (place added isElement rest []).map fun inner =>
        entries.put key (.table .implied inner)
    | some (.table origin inner) => (place added isElement rest inner).map fun inner =>
        entries.put key (.table origin inner)
    | some (.elements tables) =>
      tables.getLast?.bind fun last => (place added isElement rest last).map fun inner =>
        entries.put key (.elements (tables.dropLast ++ [inner]))
    | some (.value _) => none

end Entries

mutual

/-- The value that a finished node stands for. -/
def Node.toValue : Node → Value
  | .value value => value
  | .table _ entries => .table (entryValues entries)
  | .elements tables => .array (tableValues tables)

/-- The values of a table's entries. -/
def entryValues : List (String × Node) → List (String × Value)
  | [] => []
  | (key, node) :: rest => (key, node.toValue) :: entryValues rest

/-- The values of an array of tables. -/
def tableValues : List (List (String × Node)) → List Value
  | [] => []
  | entries :: rest => .table (entryValues entries) :: tableValues rest

end

end StakeOracle.Toml
