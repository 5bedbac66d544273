import Repackage.Toml.Moment
import Repackage.Toml.Node
import Repackage.Toml.Number
import Repackage.Toml.Quoted

/-!
Reading TOML documents. A document is a list of sections: the pairs in front of the
first header, and the pairs behind each header.
-/

namespace Repackage
namespace Toml

open Text (Reader expect oneOrMore)

/-- How deep arrays and inline tables may be nested, and how many keys a dotted key may
have. -/
def maxDepth : Nat := 79

def isBareKeyChar (c : Char) : Bool :=
  c.isAlphanum || c = '_' || c = '-'

def simpleKey : Reader String
  | '"' :: rest => singleLine ('"' :: rest)
  | '\'' :: rest => singleLine ('\'' :: rest)
  | s => do
      let (cs, rest) ← oneOrMore isBareKeyChar s
      return (String.ofList cs, rest)

/-- Reads keys with points between them and blanks around each. -/
def keysWithin : Nat → Reader (List String)
  | 0, _ => none
  | bound + 1, s => do
      let (key, s) ← simpleKey (skipBlanks s)
      match skipBlanks s with
      | '.' :: rest => do
          let (keys, rest) ← keysWithin bound rest
          return (key :: keys, rest)
      | rest => return ([key], rest)

/-- Reads a dotted key: the keys in front of its last point, and the one behind it. -/
def dottedKey : Reader (List String × String) := fun s => do
  let (keys, rest) ← keysWithin maxDepth s
  let last ← keys.getLast?
  return ((keys.dropLast, last), rest)

/-- Reads a pair whose value is read by `value`. -/
def pair (value : Reader Value) : Reader Pair := fun s => do
  let ((path, key), s) ← dottedKey s
  let ((), s) ← expect ['='] s
  let (value, s) ← value (skipBlanks s)
  return (⟨path, key, value⟩, s)

/-- Reads the items of an array behind its opening bracket or a comma, and its closing
bracket. Each item takes a character, and the bound is on the items. -/
def items (value : Reader Value) : Nat → Reader (List Value)
  | 0, _ => none
  | bound + 1, s =>
      match skipFill false s with
      | ']' :: rest => some ([], rest)
      | s => do
          let (item, s) ← value s
          match skipFill false s with
          | ']' :: rest => return ([item], rest)
          | ',' :: rest => do
              let (more, rest) ← items value bound rest
              return (item :: more, rest)
          | _ => none

/-- Reads the pairs of an inline table and its closing brace. -/
def inlinePairs (value : Reader Value) : Nat → Reader (List Pair)
  | 0, _ => none
  | bound + 1, s => do
      let (first, s) ← pair value s
      match skipBlanks s with
      | '\x7d' :: rest => return ([first], rest)
      | ',' :: rest => do
          let (more, rest) ← inlinePairs value bound rest
          return (first :: more, rest)
      | _ => none

/-- Reads an inline table behind its opening brace. -/
def inlineTable (value : Reader Value) : Reader Value := fun s =>
  match skipBlanks s with
  | '\x7d' :: rest => some (.table [], rest)
  | s => do
      let (pairs, rest) ← inlinePairs value (s.length + 1) s
      let table ← inlineTable? pairs
      return (table, rest)

/-- Reads a value that is no array or table. -/
def scalar : Reader Value := fun s =>
  match s with
  | '"' :: _ | '\'' :: _ => do
      let (text, rest) ← string s
      return (.string text, rest)
  | 't' :: _ => do
      let ((), rest) ← expect ['t', 'r', 'u', 'e'] s
      return (.boolean true, rest)
  | 'f' :: _ => do
      let ((), rest) ← expect ['f', 'a', 'l', 's', 'e'] s
      return (.boolean false, rest)
  | s =>
      match moment s with
      | some ((), rest) => some (.moment, rest)
      | none => number s

/-- Reads a value in which arrays and inline tables are nested no deeper than this. -/
def value : Nat → Reader Value
  | 0, s => scalar s
  | depth + 1, '[' :: rest => do
      let (items, rest) ← items (value depth) (rest.length + 1) rest
      return (.array items, rest)
  | depth + 1, '\x7b' :: rest => inlineTable (value depth) rest
  | _ + 1, s => scalar s

/-- A line that is not blank. -/
inductive Statement where
  | pair (pair : Pair)
  | table (path : List String) (key : String)
  | element (path : List String) (key : String)

def statement : Reader Statement
  | '[' :: '[' :: rest => do
      let ((path, key), rest) ← dottedKey rest
      let ((), rest) ← expect [']', ']'] rest
      return (.element path key, rest)
  | '[' :: rest => do
      let ((path, key), rest) ← dottedKey rest
      let ((), rest) ← expect [']'] rest
      return (.table path key, rest)
  | s => do
      let (pair, rest) ← pair (value maxDepth) s
      return (.pair pair, rest)

/-- The statements of a document. Each one takes a character, and the bound is on the
statements. -/
def statements : Nat → List Char → Option (List Statement)
  | 0, _ => none
  | bound + 1, s =>
      match skipFill false s with
      | [] => some []
      | s => do
          let (first, s) ← statement s
          let rest ← afterStatement? s
          let more ← statements bound rest
          return first :: more

/-- The pairs in front of the next header, and the statements from it on. -/
def leadingPairs : List Statement → List Pair × List Statement
  | .pair pair :: rest =>
      let (pairs, rest) := leadingPairs rest
      (pair :: pairs, rest)
  | rest => ([], rest)

/-- Changes the table that the path of a header leads to. -/
def atHeader (path : List String) (edit : Entries → Option Entries) (root : Entries) :
    Option Entries :=
  root.change .implied (fun _ => edit) path .declared

/-- Adds the sections that the statements start with their headers. The pairs of a section
are added with its header. -/
def addSections (root : Entries) : List Statement → Option Entries
  | [] => some root
  | .pair _ :: rest => addSections root rest
  | .table path key :: rest => do
      let root ← atHeader path (Entries.openTable key (leadingPairs rest).1) root
      addSections root rest
  | .element path key :: rest => do
      let root ← atHeader path (Entries.openElement key (leadingPairs rest).1) root
      addSections root rest

/-- The table that statements describe. -/
def tableOf? (statements : List Statement) : Option (List (String × Value)) := do
  let (pairs, rest) := leadingPairs statements
  let root ← Entries.addPairs [] pairs
  let root ← addSections root rest
  return closeEntries root

/-- The table that a document describes. A byte order mark may stand in front of it. -/
def parse? (document : String) : Option (List (String × Value)) := do
  let s :=
    match document.toList with
    | '\ufeff' :: rest => rest
    | s => s
  let statements ← statements (s.length + 1) s
  tableOf? statements

end Toml
end Repackage
