import Repackage.Glob.Basic
import Repackage.Rule
import Repackage.Tree.Walk

/-!
Residue: the files of a tree that still hold the patterns of a rule table. Files are
listed in the order of a walk. Only files whose path matches a glob are looked at, and
files that cannot be read as UTF-8 are passed over.
-/

namespace Repackage

/-- A pattern that a file still holds, with the first rule that has it. -/
structure ResidueMatch where
  index : Nat
  pattern : String
  occurrences : Nat
  deriving DecidableEq, Repr

/-- A file that still holds patterns. -/
structure Residue where
  path : String
  found : List ResidueMatch
  deriving DecidableEq, Repr

namespace Residue

/-- The files that a scan looks at unless it is told otherwise. -/
def defaultInclude : String := "**/*.java"

/-- The patterns of rules that are not inert, each once, with the index of its first
rule. `known` are the patterns of the rules before `index`. -/
def patternsFrom (index : Nat) (known : List String) : RuleTable → List (Nat × String)
  | [] => []
  | rule :: rest =>
      if rule.isInert || known.contains rule.pattern then patternsFrom (index + 1) known rest
      else (index, rule.pattern) :: patternsFrom (index + 1) (rule.pattern :: known) rest

def patterns (table : RuleTable) : List (Nat × String) :=
  patternsFrom 0 [] table

/-- The patterns that a text holds. -/
def matchesIn (patterns : List (Nat × String)) (text : String) : List ResidueMatch :=
  patterns.filterMap fun (index, pattern) =>
    let occurrences := Text.count pattern.toList text.toList
    if occurrences = 0 then none else some ⟨index, pattern, occurrences⟩

/-- The path that names make, as a text. -/
def shownPath (names : List FileName) : String :=
  Text.lossy (FileName.join names)

/-- What a scan says of one file. -/
def ofFile (includes : String → Bool) (patterns : List (Nat × String)) (file : WalkedFile) :
    Option Residue := do
  let path := shownPath file.names
  if includes path then
    let text ← String.fromUTF8? (← file.content.toOption)
    let found := matchesIn patterns text
    if found.isEmpty then none else some ⟨path, found⟩
  else none

/-- The residue of the table in the files at and below `root` whose path is included. -/
def among (disk : Disk) (root : String) (table : RuleTable) (includes : String → Bool) :
    Except Failure (List Residue) :=
  (disk.walk root).map fun files => files.filterMap (ofFile includes (patterns table))

/-- The residue in the files whose path the glob matches. -/
def scan (disk : Disk) (root : String) (table : RuleTable) (glob : String) :
    Except Failure (List Residue) :=
  match Glob.parse glob with
  | .error fault => .error (.invalidArguments (Glob.refusal glob fault))
  | .ok pattern => among disk root table pattern.includes

end Residue
end Repackage
