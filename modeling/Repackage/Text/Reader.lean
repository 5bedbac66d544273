/-!
Readers. A reader takes something from the front of a text and gives the rest, or
finds that the text does not start as it must.
-/

namespace Repackage
namespace Text

abbrev Reader (α : Type) := List Char → Option (α × List Char)

/-- Reads this text. -/
def expect (text : List Char) : Reader Unit := fun s =>
  if text.isPrefixOf s then some ((), s.drop text.length) else none

/-- Reads one or more characters of a class. -/
def oneOrMore (isMember : Char → Bool) : Reader (List Char) := fun s =>
  match s.takeWhile isMember with
  | [] => none
  | cs => some (cs, s.dropWhile isMember)

/-- The number that decimal digits write. -/
def decimalValue (digits : List Char) : Nat :=
  digits.foldl (fun n c => 10 * n + (c.toNat - 48)) 0

end Text
end Repackage
