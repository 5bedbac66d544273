/-!
The lines of a text. A line ends at a line feed, one carriage return before that
line feed belongs to the line end, and a final line end opens no further line.
-/

namespace Repackage
namespace Text

def lines : List Char → List (List Char)
  | [] => []
  | '\n' :: s => [] :: lines s
  | '\r' :: '\n' :: s => [] :: lines s
  | c :: s =>
      match lines s with
      | [] => [[c]]
      | line :: rest => (c :: line) :: rest

example : lines ['a', '\r', '\n', '\n', 'b', '\r'] = [['a'], [], ['b', '\r']] := by decide

end Text
end Repackage
