import Repackage.Text.Lines

/-!
Unified diffs without context lines. Texts with the same number of lines are
compared line by line, and each run of changed lines is a hunk. Otherwise the lines
between the longest common start and the longest common end are one hunk.
-/

namespace Repackage
namespace Diff

def linesOf (text : String) : List String :=
  (Text.lines text.toList).map String.ofList

/-- Lines that give way to other lines, behind `start` lines that stand on both sides. -/
structure Hunk where
  start : Nat
  removed : List String
  added : List String
  deriving DecidableEq, Repr

/-- The hunks of texts of the same length, given as pairs of lines behind `start`
lines. A changed pair joins the hunk that starts right behind it. -/
def runsFrom (start : Nat) : List (String × String) → List Hunk
  | [] => []
  | (old, new) :: rest =>
      if old = new then runsFrom (start + 1) rest
      else
        match runsFrom (start + 1) rest with
        | [] => [⟨start, [old], [new]⟩]
        | next :: more =>
            if next.start = start + 1 then
              ⟨start, old :: next.removed, new :: next.added⟩ :: more
            else ⟨start, [old], [new]⟩ :: next :: more

/-- The number of leading lines that agree. -/
def commonStart (old new : List String) : Nat :=
  ((old.zip new).takeWhile fun pair => pair.1 = pair.2).length

/-- The one hunk between the longest common start and, of what follows it, the
longest common end. -/
def middle (old new : List String) : Hunk :=
  let start := commonStart old new
  let old := old.drop start
  let new := new.drop start
  let rest := commonStart old.reverse new.reverse
  ⟨start, old.take (old.length - rest), new.take (new.length - rest)⟩

def hunks (old new : List String) : List Hunk :=
  if old.length = new.length then runsFrom 0 (old.zip new) else [middle old new]

/-- A range of lines behind `start` lines. An empty range names the line before it. -/
def range (start length : Nat) : String :=
  if length = 0 then s!"{start},0" else s!"{start + 1},{length}"

def marked (mark : String) (lines : List String) : String :=
  String.join (lines.map fun line => mark ++ line ++ "\n")

def Hunk.render (hunk : Hunk) : String :=
  s!"@@ -{range hunk.start hunk.removed.length} +{range hunk.start hunk.added.length} @@\n"
    ++ marked "-" hunk.removed ++ marked "+" hunk.added

/-- The diff of a file that does not exist yet. -/
def ofNew (path after : String) : String :=
  let new := linesOf after
  s!"--- /dev/null\n+++ b/{path}\n@@ -0,0 +1,{new.length} @@\n" ++ marked "+" new

/-- The diff of a file that exists; empty when its lines stay as they are. -/
def ofChange (path before after : String) : String :=
  match hunks (linesOf before) (linesOf after) with
  | [] => ""
  | hs => s!"--- a/{path}\n+++ b/{path}\n" ++ String.join (hs.map Hunk.render)

/-- The diff from `before`, or from nothing, to `after`. -/
def unified (path : String) (before : Option String) (after : String) : String :=
  match before with
  | none => ofNew path after
  | some before => ofChange path before after

end Diff

/-- The previewed change of a file. -/
structure FileDiff where
  path : String
  diff : String
  deriving DecidableEq, Repr

end Repackage
