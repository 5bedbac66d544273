import Repackage.Binary64

/-!
TOML values. The entries of a table keep their order.
-/

namespace Repackage
namespace Toml

inductive Value where
  | string (text : String)
  | integer (value : Int)
  | float (value : Binary64)
  | boolean (value : Bool)
  /-- A date, a time or both. -/
  | moment
  | array (items : List Value)
  | table (entries : List (String × Value))

/-- The integers that a document can hold are those of 64 bits with a sign. -/
def leastInteger : Int := -9223372036854775808
def greatestInteger : Int := 9223372036854775807

end Toml
end Repackage
