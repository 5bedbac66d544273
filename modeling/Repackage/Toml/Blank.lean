import Repackage.Text.Reader

/-!
What separates the parts of a TOML document: blanks, line ends and comments. A line
ends in a line feed, with or without a carriage return in front.
-/

namespace Repackage
namespace Toml

/-- Characters that may stand in comments and strings: all but control characters other
than the tab. -/
def isTextChar (c : Char) : Bool :=
  c = '\t' || (' ' ≤ c && c ≠ '\x7f')

def isBlank (c : Char) : Bool :=
  c = ' ' || c = '\t'

def skipBlanks (s : List Char) : List Char :=
  s.dropWhile isBlank

/-- The text behind a line end, if it starts with one. -/
def afterLineEnd? : List Char → Option (List Char)
  | '\n' :: rest | '\r' :: '\n' :: rest => some rest
  | _ => none

/-- Skips blanks, line ends and comments. `inComment` holds from a `#` to the end of its
line. -/
def skipFill : Bool → List Char → List Char
  | _, [] => []
  | inComment, c :: rest =>
      if c = '\n' || (c = '\r' && rest.head? = some '\n') then skipFill false rest
      else if inComment then if isTextChar c then skipFill true rest else c :: rest
      else if c = '#' then skipFill true rest
      else if isBlank c then skipFill false rest
      else c :: rest

def skipComment : List Char → List Char
  | '#' :: rest => rest.dropWhile isTextChar
  | s => s

/-- The text behind the line whose statement is read, if nothing but a comment follows
on it. -/
def afterStatement? (s : List Char) : Option (List Char) :=
  match skipComment (skipBlanks s) with
  | [] => some []
  | rest => afterLineEnd? rest

end Toml
end Repackage
