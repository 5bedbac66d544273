/-!
Literal search and replacement. Occurrences are found from the left and never
overlap: after an occurrence the search goes on behind it. Both scans carry the
number of characters that the last occurrence still covers, so that they recurse
on the text itself.
-/

namespace Repackage
namespace Text

/-- Whether `p` stands somewhere in the text. -/
def occurs (p : List Char) : List Char → Bool
  | [] => p.isEmpty
  | c :: s => p.isPrefixOf (c :: s) || occurs p s

/-- The number of occurrences of `p`, when the first `covered` characters of the
text belong to an occurrence that is already counted. -/
def countFrom (p : List Char) : Nat → List Char → Nat
  | _, [] => 0
  | covered + 1, _ :: s => countFrom p covered s
  | 0, c :: s =>
      if p.isPrefixOf (c :: s) then countFrom p (p.length - 1) s + 1
      else countFrom p 0 s

/-- The number of leftmost occurrences of `p` that do not overlap. -/
def count (p s : List Char) : Nat :=
  countFrom p 0 s

/-- The text with `r` in place of each occurrence of `p`, when the first `covered`
characters belong to an occurrence that is already replaced. -/
def replaceFrom (p r : List Char) : Nat → List Char → List Char
  | _, [] => []
  | covered + 1, _ :: s => replaceFrom p r covered s
  | 0, c :: s =>
      if p.isPrefixOf (c :: s) then r ++ replaceFrom p r (p.length - 1) s
      else c :: replaceFrom p r 0 s

/-- The text with `r` in place of every leftmost occurrence of `p`. -/
def replace (p r s : List Char) : List Char :=
  replaceFrom p r 0 s

example : replace ['a', 'a'] ['b'] ['a', 'a', 'a', 'c'] = ['b', 'a', 'c'] := by decide

end Text
end Repackage
