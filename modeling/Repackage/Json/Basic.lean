/-!
JSON values. The fields of an object keep their order, and a number keeps its
digits.
-/

namespace Repackage

inductive Json where
  | null
  | bool (value : Bool)
  | number (digits : String)
  | string (text : String)
  | array (items : List Json)
  | object (fields : List (String × Json))
  /-- A string, or an object with a key, whose escapes stand for no Unicode text. -/
  | illFormed

namespace Json

def ofNat (n : Nat) : Json :=
  .number (toString n)

/-- The fields whose value is there. -/
def objectOf (fields : List (String × Option Json)) : Json :=
  .object (fields.filterMap fun field => field.2.map (field.1, ·))

/-- The items, or nothing if there are none. -/
def nonEmpty (items : List Json) : Option Json :=
  if items.isEmpty then none else some (.array items)

end Json
end Repackage
