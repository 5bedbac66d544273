import Repackage.Json.Basic
import Repackage.Text.Reader

/-!
Taking JSON values apart. A record may be written as an object, whose unknown fields
are ignored and whose known fields occur once each, or as an array of exactly its
fields in order.
-/

namespace Repackage
namespace Json

def text? : Json → Option String
  | .string text => some text
  | _ => none

/-- The largest count, the last number of 64 bits. -/
def maxCount : Nat := 18446744073709551615

/-- A whole number without sign, fraction or exponent. -/
def count? : Json → Option Nat
  | .number digits =>
      if digits.toList.all Char.isDigit then
        let n := Text.decimalValue digits.toList
        if n ≤ maxCount then some n else none
      else none
  | _ => none

def items? : Json → Option (List Json)
  | .array items => some items
  | _ => none

/-- The value of a field that occurs exactly once. -/
def field? (fields : List (String × Json)) (name : String) : Option Json :=
  match fields.filter (·.1 = name) with
  | [field] => some field.2
  | _ => none

/-- The values of the fields of a record with these field names. -/
def record? (names : List String) : Json → Option (List Json)
  | .object fields => names.mapM (field? fields)
  | .array items => if items.length = names.length then some items else none
  | _ => none

/-- The name of a choice without content: the name alone, or the one field of an object
that holds nothing. -/
def choice? : Json → Option String
  | .string name => some name
  | .object [(name, .null)] => some name
  | _ => none

end Json
end Repackage
