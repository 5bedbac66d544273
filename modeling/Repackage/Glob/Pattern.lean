import Repackage.Text.Utf8

/-!
Byte patterns and what they match. A pattern is read as moving marks over a text: the
marks stand between bytes, and a pattern takes the marks where it may start to the
marks where it may end. A text matches if a mark at its front is taken to its end.
-/

namespace Repackage
namespace Glob

/-- Bytes in some of the ranges, or in none of them. -/
structure ByteSet where
  negated : Bool
  ranges : List (UInt8 × UInt8)
  deriving DecidableEq, Repr

def ByteSet.contains (set : ByteSet) (byte : UInt8) : Bool :=
  (set.ranges.any fun range => range.1 ≤ byte && byte ≤ range.2) != set.negated

inductive Pattern where
  /-- The empty text. -/
  | nothing
  /-- One byte of a set. -/
  | byte (set : ByteSet)
  /-- Any text. -/
  | anything
  | seq (first second : Pattern)
  | either (first second : Pattern)
  deriving DecidableEq, Repr

/-- Marks every place at or behind a mark. -/
def spread (seen : Bool) : List Bool → List Bool
  | [] => []
  | mark :: rest => (seen || mark) :: spread (seen || mark) rest

namespace Pattern

/-- Takes the marks where the pattern may start to the marks where it may end. There
is one mark more than there are bytes. -/
def move (text : List UInt8) : Pattern → List Bool → List Bool
  | .nothing, marks => marks
  | .byte set, marks =>
      false :: List.zipWith (fun byte mark => mark && set.contains byte) text marks
  | .anything, marks => spread false marks
  | .seq first second, marks => second.move text (first.move text marks)
  | .either first second, marks =>
      List.zipWith (· || ·) (first.move text marks) (second.move text marks)

/-- Whether the pattern matches the whole text. -/
def isMatch (pattern : Pattern) (text : List UInt8) : Bool :=
  (pattern.move text (true :: text.map fun _ => false)).getLast?.getD false

/-- Whether the pattern matches the bytes of a path. -/
def includes (pattern : Pattern) (path : String) : Bool :=
  pattern.isMatch (Text.bytes path)

def sequence : List Pattern → Pattern
  | [] => .nothing
  | [pattern] => pattern
  | pattern :: rest => .seq pattern (sequence rest)

/-- Any one of the patterns; the empty text if there is none. -/
def choice : List Pattern → Pattern
  | [] => .nothing
  | [pattern] => pattern
  | pattern :: rest => .either pattern (choice rest)

def anyByte : Pattern :=
  .byte ⟨true, []⟩

/-- The bytes themselves. -/
def bytes (text : List UInt8) : Pattern :=
  sequence (text.map fun byte => .byte ⟨false, [(byte, byte)]⟩)

end Pattern
end Glob
end Repackage
