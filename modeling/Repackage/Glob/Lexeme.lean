/-!
The parts of a glob: plain and escaped characters, and sets in brackets. The first
part that is broken ends the glob.
-/

namespace Repackage
namespace Glob

/-- What can be wrong with a glob. -/
inductive Fault where
  | unclosedSet
  | invalidRange (first last : Char)
  | unopenedGroup
  | unclosedGroup
  | danglingEscape
  deriving DecidableEq, Repr

def Fault.message : Fault → String
  | .unclosedSet => "unclosed character class; missing ']'"
  | .invalidRange first last => s!"invalid range; '{first}' > '{last}'"
  | .unopenedGroup =>
      "unopened alternate group; missing '\x7b' (maybe escape '\x7d' with '[\x7d]'?)"
  | .unclosedGroup =>
      "unclosed alternate group; missing '\x7d' (maybe escape '\x7b' with '[\x7b]'?)"
  | .danglingEscape => "dangling '\\'"

/-- Characters in some of the ranges, or in none of them. -/
structure CharSet where
  negated : Bool
  ranges : List (Char × Char)
  deriving DecidableEq, Repr

inductive Lexeme where
  /-- A character that may have a meaning of its own. -/
  | plain (c : Char)
  /-- A character that stands for itself. -/
  | escaped (c : Char)
  | set (set : CharSet)
  | broken (fault : Fault)
  deriving DecidableEq, Repr

/-- A set that is being read: its ranges, the last one first, and whether a hyphen waits
for the end of the last range. -/
structure OpenSet where
  negated : Bool
  ranges : List (Char × Char) := []
  hyphen : Bool := false

namespace OpenSet

/-- The set with a single character, which ends the last range if a hyphen waits. -/
def add (opened : OpenSet) (c : Char) : Except Fault OpenSet :=
  match opened.hyphen, opened.ranges with
  | true, (first, _) :: rest =>
      if c < first then .error (.invalidRange first c)
      else .ok { opened with ranges := (first, c) :: rest, hyphen := false }
  | _, ranges => .ok { opened with ranges := (c, c) :: ranges, hyphen := false }

/-- A hyphen that waits at the end of a set stands for itself. -/
def close (opened : OpenSet) : CharSet :=
  ⟨opened.negated, opened.ranges.reverse ++ if opened.hyphen then [('-', '-')] else []⟩

end OpenSet

mutual

/-- The parts of a glob. -/
def lexemes : List Char → List Lexeme
  | [] => []
  | ['\\'] => [.broken .danglingEscape]
  | '\\' :: c :: rest => .escaped c :: lexemes rest
  | '[' :: '!' :: rest => setLexemes ⟨true, [], false⟩ rest
  | '[' :: '^' :: rest => setLexemes ⟨true, [], false⟩ rest
  | '[' :: rest => setLexemes ⟨false, [], false⟩ rest
  | c :: rest => .plain c :: lexemes rest

/-- The parts of a glob from inside a set. A bracket or a hyphen in front stands for
itself. -/
def setLexemes (opened : OpenSet) : List Char → List Lexeme
  | [] => [.broken .unclosedSet]
  | c :: rest =>
      if c = ']' && !opened.ranges.isEmpty then .set opened.close :: lexemes rest
      else if c = '-' && !opened.ranges.isEmpty && !opened.hyphen then
        setLexemes { opened with hyphen := true } rest
      else
        match opened.add c with
        | .ok opened => setLexemes opened rest
        | .error fault => [.broken fault]

end

end Glob
end Repackage
