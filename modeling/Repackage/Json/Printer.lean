import Repackage.Json.Basic
import Repackage.Text.Hex

/-!
JSON text with one item or field a line, indented by two blanks a level. Control
characters, quotes and backslashes are escaped, and all other characters stand for
themselves.
-/

namespace Repackage
namespace Json

/-- A character inside a string literal. -/
def escape (c : Char) : List Char :=
  match c with
  | '"' => ['\\', '"']
  | '\\' => ['\\', '\\']
  | '\x08' => ['\\', 'b']
  | '\x0c' => ['\\', 'f']
  | '\n' => ['\\', 'n']
  | '\r' => ['\\', 'r']
  | '\t' => ['\\', 't']
  | c =>
      if c.toNat < 32 then
        ['\\', 'u', '0', '0', Text.hexDigit (c.toNat / 16), Text.hexDigit (c.toNat % 16)]
      else [c]

def quote (text : String) : String :=
  String.ofList ('"' :: text.toList.flatMap escape ++ ['"'])

/-- A line break and the indentation of a level. -/
def newLine (level : Nat) : String :=
  String.ofList ('\n' :: List.replicate (2 * level) ' ')

mutual

/-- The text of a value that stands at a level of indentation. -/
def renderAt (level : Nat) : Json → String
  | .null | .illFormed => "null"
  | .bool value => if value then "true" else "false"
  | .number digits => digits
  | .string text => quote text
  | .array [] => "[]"
  | .array items =>
      "[" ++ ",".intercalate (renderItems (level + 1) items) ++ newLine level ++ "]"
  | .object [] => "\x7b\x7d"
  | .object fields =>
      "\x7b" ++ ",".intercalate (renderFields (level + 1) fields) ++ newLine level ++ "\x7d"

def renderItems (level : Nat) : List Json → List String
  | [] => []
  | item :: rest => (newLine level ++ renderAt level item) :: renderItems level rest

def renderFields (level : Nat) : List (String × Json) → List String
  | [] => []
  | (key, value) :: rest =>
      (newLine level ++ quote key ++ ": " ++ renderAt level value) :: renderFields level rest

end

/-- The text of a value as a document of its own, with a line break at the end. -/
def render (value : Json) : String :=
  renderAt 0 value ++ "\n"

end Json
end Repackage
