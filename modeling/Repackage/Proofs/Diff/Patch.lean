import Repackage.Diff
import Repackage.Text.Reader

/-!
Unified diffs from the side of those who read them. A text is read row by row: two rows name
the files, and each change has a row with its two ranges, then the rows that it takes away and
then those that it adds. A patch is applied strictly: a change has to find the lines that it
takes away behind as many lines as it says, and what it adds has to come to stand where it says.
-/

namespace Repackage

/-- Lines that give way to other lines, and how many lines stand before them on either side. -/
structure Patch.Change where
  oldStart : Nat
  newStart : Nat
  removed : List String
  added : List String
  deriving DecidableEq, Repr

structure Patch where
  /-- The file that is changed. There is none if the patch makes a new one. -/
  old : Option String
  new : String
  changes : List Patch.Change
  deriving DecidableEq, Repr

namespace Patch

section Reading

def number : Text.Reader Nat := fun s => do
  let (digits, s) ← Text.oneOrMore Char.isDigit s
  return (Text.decimalValue digits, s)

/-- How many lines stand before a range. An empty range names the line before it, and any other
one its own first line. -/
def linesBefore : Nat → Nat → Option Nat
  | line, 0 => some line
  | 0, _ + 1 => none
  | line + 1, _ + 1 => some line

/-- Reads a range, as the number of lines before it and its length. -/
def range : Text.Reader (Nat × Nat) := fun s => do
  let (line, s) ← number s
  let ((), s) ← Text.expect [','] s
  let (length, s) ← number s
  let start ← linesBefore line length
  return ((start, length), s)

/-- The two ranges in the row that starts a change. -/
def ranges (row : List Char) : Option ((Nat × Nat) × (Nat × Nat)) := do
  let ((), s) ← Text.expect "@@ -".toList row
  let (old, s) ← range s
  let ((), s) ← Text.expect " +".toList s
  let (new, s) ← range s
  if s = " @@".toList then some (old, new) else none

/-- Reads the rest of a change, of which `minus` lines to take away and `plus` lines to add are
still to come, and the changes behind it. The text ends behind a line feed. -/
def body : Nat → Nat → List (List Char) → Option (List String × List String × List Change)
  | 0, 0, [[]] => some ([], [], [])
  | 0, 0, row :: rows => do
      let ((oldStart, minus), (newStart, plus)) ← ranges row
      let (removed, added, more) ← body minus plus rows
      return ([], [], ⟨oldStart, newStart, removed, added⟩ :: more)
  | minus + 1, plus, ('-' :: line) :: rows => do
      let (removed, added, more) ← body minus plus rows
      return (String.ofList line :: removed, added, more)
  | 0, plus + 1, ('+' :: line) :: rows => do
      let (removed, added, more) ← body 0 plus rows
      return (removed, String.ofList line :: added, more)
  | _, _, _ => none

/-- The file that a patch changes, or that there is none. -/
def oldName (row : List Char) : Option (Option String) :=
  if row = "--- /dev/null".toList then some none
  else (Text.expect "--- a/".toList row).map fun ((), path) => some (String.ofList path)

def ofRows : List (List Char) → Option Patch
  | first :: second :: rows => do
      let old ← oldName first
      let ((), new) ← Text.expect "+++ b/".toList second
      let (_, _, changes) ← body 0 0 rows
      return ⟨old, String.ofList new, changes⟩
  | _ => none

/-- The rows of a text. Behind its last line feed stands an empty one. -/
def rows (text : String) : List (List Char) :=
  text.toList.splitOn '\n'

def read (text : String) : Option Patch :=
  ofRows (rows text)

end Reading

section Applying

/-- Makes the changes in lines that have `oldAt` lines before them, which became `newAt`. -/
def applyFrom (oldAt newAt : Nat) : List Change → List String → Option (List String)
  | [], lines => some lines
  | change :: more, lines =>
      let kept := change.oldStart - oldAt
      if oldAt ≤ change.oldStart ∧ kept ≤ lines.length ∧ change.newStart = newAt + kept ∧
          change.removed <+: lines.drop kept then
        (applyFrom (change.oldStart + change.removed.length)
          (change.newStart + change.added.length) more
          ((lines.drop kept).drop change.removed.length)).map
            fun others => lines.take kept ++ change.added ++ others
      else none

/-- The lines that the patch makes of these ones, if it fits them. -/
def apply (patch : Patch) (lines : List String) : Option (List String) :=
  applyFrom 0 0 patch.changes lines

/-- The lines that the patch adds. -/
def added (patch : Patch) : List String :=
  patch.changes.flatMap (·.added)

end Applying

example : (read "--- a/x\n+++ b/x\n@@ -2,1 +2,2 @@\n-b\n+c\n+d\n").bind
    (apply · ["a", "b", "e"]) = some ["a", "c", "d", "e"] := by decide

end Patch
end Repackage
