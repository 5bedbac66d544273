import Repackage.Text.Blank

/-!
Tree paths: where a file stands below the root of a tree. A path is written with
`/` between its components. `Path.normalize` brings what a plan says into that
form, and refuses whatever could lead out of the tree.
-/

namespace Repackage
namespace Path

/-- Why a path is refused. -/
inductive Fault where
  | absolute
  | driveQualified
  | escapes
  | empty
  deriving DecidableEq, Repr

def Fault.message : Fault → String
  | .absolute => "absolute paths are not allowed"
  | .driveQualified => "drive-qualified paths are not allowed"
  | .escapes => "'..' escapes the tree root"
  | .empty => "path is empty"

/-- The text between slashes, empty pieces included. -/
def pieces (path : String) : List String :=
  (path.toList.splitOn '/').map String.ofList

/-- The pieces that name something: all but the empty ones. -/
def components (path : String) : List String :=
  (pieces path).filter (· ≠ "")

def ofComponents (names : List String) : String :=
  "/".intercalate names

/-- A letter and a colon in front name a drive. -/
def startsWithDrive : List Char → Bool
  | letter :: ':' :: _ => letter.isAlpha
  | _ => false

/-- Blanks around the path are dropped and backslashes read as slashes. -/
def unify (raw : String) : List Char :=
  (Text.trim raw.toList).map fun c => if c = '\\' then '/' else c

/-- The path in its normal form: `.` and empty components are dropped, and a path
that is absolute, names a drive, steps up or names nothing is refused. -/
def normalize (raw : String) : Except Fault String :=
  let unified := unify raw
  if unified.head? = some '/' then .error .absolute
  else if startsWithDrive unified then .error .driveQualified
  else
    let names := (components (String.ofList unified)).filter (· ≠ ".")
    if ".." ∈ names then .error .escapes
    else if names.isEmpty then .error .empty
    else .ok (ofComponents names)

/-- The text before the last slash, which names the directory that holds the path;
empty for a path at the top. -/
def parent (path : String) : String :=
  "/".intercalate (pieces path).dropLast

/-- The directory that holds the file at a path: the text before the last slash, without
slashes and `.` at its end, and `.` for a path without a slash. -/
def directory (path : String) : String :=
  match (pieces path).dropLast with
  | [] => "."
  | first :: rest =>
      let kept := (rest.reverse.dropWhile fun name => name = "" || name = ".").reverse
      if first = "" && kept.isEmpty then "/" else ofComponents (first :: kept)

/-- The path of `part` seen from `base`: an absolute one stands for itself. -/
def join (base part : String) : String :=
  if part.toList.head? = some '/' then part
  else if base.isEmpty || base.toList.getLast? = some '/' then base ++ part
  else base ++ "/" ++ part

end Path
end Repackage
