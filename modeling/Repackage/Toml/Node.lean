import Repackage.Toml.Value

/-!
Tables that are being filled. A document adds to a table in several places, and how a
table came to be decides what may be added to it: a table of its own header may be
opened once, and one that dotted keys made takes only dotted keys.
-/

namespace Repackage
namespace Toml

/-- How a table came to be. -/
inductive Origin where
  /-- It has a header of its own, or it is the whole document or inline. -/
  | declared
  /-- A header names something below it. -/
  | implied
  /-- A dotted key names something below it. -/
  | dotted
  deriving DecidableEq, Repr

inductive Node where
  | value (value : Value)
  | table (origin : Origin) (entries : List (String × Node))
  /-- An array of tables. Only its last table is still open. -/
  | tables (closed : List Value) (entries : List (String × Node))

abbrev Entries := List (String × Node)

mutual

/-- The value of a node to which nothing more is added. -/
def Node.close : Node → Value
  | .value value => value
  | .table _ entries => .table (closeEntries entries)
  | .tables closed entries => .array (closed ++ [.table (closeEntries entries)])

def closeEntries : List (String × Node) → List (String × Value)
  | [] => []
  | (key, node) :: rest => (key, node.close) :: closeEntries rest

end

namespace Entries

/-- The entries with another node under a key that has one. -/
def replace (key : String) (node : Node) (entries : Entries) : Entries :=
  entries.map fun entry => if entry.1 = key then (key, node) else entry

def erase (key : String) (entries : Entries) : Entries :=
  entries.filter (·.1 ≠ key)

/-- Changes the table that a path leads to from a table of some origin. Tables that are
missing on the way are made, and are `made` in their origin. An array of tables leads on
to its last table. Dotted keys do not lead through tables that have a header. -/
def change (made : Origin) (edit : Origin → Entries → Option Entries) (entries : Entries) :
    List String → Origin → Option Entries
  | [], origin => edit origin entries
  | key :: rest, _ =>
      match entries.lookup key with
      | none => do
          let inner ← change made edit [] rest made
          return entries ++ [(key, .table made inner)]
      | some (.table origin inner) =>
          if made = .dotted && origin = .declared then none
          else do
            let inner ← change made edit inner rest origin
            return entries.replace key (.table origin inner)
      | some (.tables closed inner) => do
          let inner ← change made edit inner rest .declared
          return entries.replace key (.tables closed inner)
      | some (.value _) => none

/-- Adds a value under a key that is free. A table that dotted keys made takes values only
from dotted keys, and no other table does. -/
def addValue (key : String) (value : Value) (isDotted : Bool) (origin : Origin)
    (entries : Entries) : Option Entries :=
  if decide (origin = .dotted) = isDotted && (entries.lookup key).isNone then
    some (entries ++ [(key, .value value)])
  else none

end Entries

/-- A key and what it stands for. The path names the tables that dots lead through. -/
structure Pair where
  path : List String
  key : String
  value : Value

namespace Entries

def addPair (entries : Entries) (pair : Pair) : Option Entries :=
  entries.change .dotted (addValue pair.key pair.value (!pair.path.isEmpty)) pair.path .declared

def addPairs (entries : Entries) (pairs : List Pair) : Option Entries :=
  pairs.foldlM addPair entries

/-- Opens a table below its parent. Only a table that later headers implied can be there
already, and it moves to the end. -/
def openTable (key : String) (pairs : List Pair) (parent : Entries) : Option Entries :=
  match parent.lookup key with
  | none => do
      let entries ← addPairs [] pairs
      return parent ++ [(key, .table .declared entries)]
  | some (.table .implied entries) => do
      let entries ← addPairs entries pairs
      return parent.erase key ++ [(key, .table .declared entries)]
  | some _ => none

/-- Opens one more table of an array of tables below its parent. -/
def openElement (key : String) (pairs : List Pair) (parent : Entries) : Option Entries :=
  match parent.lookup key with
  | none => do
      let entries ← addPairs [] pairs
      return parent ++ [(key, .tables [] entries)]
  | some (.tables closed last) => do
      let entries ← addPairs [] pairs
      return parent.replace key
        (.tables (closed ++ [.table (closeEntries last)]) entries)
  | some _ => none

end Entries

/-- The table of an inline table's pairs. -/
def inlineTable? (pairs : List Pair) : Option Value := do
  let entries ← Entries.addPairs [] pairs
  return .table (closeEntries entries)

end Toml
end Repackage
