import Repackage.Text.Replace

/-!
Rewrite rules and rule tables. A rule replaces one literal text by another. A table
applies its rules one after the other to a whole text, each to what the rules before
it have made of the text, so the order of its rules is part of what a table means.
-/

namespace Repackage

/-- Replaces every occurrence of `pattern` by `replacement`. -/
structure Rule where
  pattern : String
  replacement : String
  deriving DecidableEq, Repr

namespace Rule

/-- Turns the declaration of package `old` into one of package `new`. -/
def declaration (old new : String) : Rule where
  pattern := "package " ++ old ++ ";"
  replacement := "package " ++ new ++ ";"

def isIdentity (rule : Rule) : Bool :=
  rule.pattern = rule.replacement

/-- An inert rule is never applied: it replaces a text by itself, or its pattern is
empty and has no place of its own in a text. -/
def isInert (rule : Rule) : Bool :=
  rule.pattern.isEmpty || rule.isIdentity

/-- How often the pattern occurs in the text, without overlaps. -/
def occurrences (rule : Rule) (text : String) : Nat :=
  Text.count rule.pattern.toList text.toList

def replaceIn (rule : Rule) (text : String) : String :=
  String.ofList (Text.replace rule.pattern.toList rule.replacement.toList text.toList)

/-- Whether the pattern contains that of `general`. -/
def refines (rule general : Rule) : Bool :=
  Text.occurs general.pattern.toList rule.pattern.toList

end Rule

/-- A rule that found its pattern: where it stands in its table, and how many
occurrences it replaced. -/
structure Hit where
  index : Nat
  pattern : String
  occurrences : Nat
  deriving DecidableEq, Repr

/-- Rules in the order in which they are applied. -/
abbrev RuleTable := List Rule

namespace RuleTable

/-- What the table makes of the text. -/
def apply (table : RuleTable) (text : String) : String :=
  (table.filter (!·.isInert)).foldl (fun text rule => rule.replaceIn text) text

/-- What the rules make of the text, and which of them hit, when the first of them
has the given index. -/
def traceFrom (index : Nat) (text : String) : RuleTable → String × List Hit
  | [] => (text, [])
  | rule :: rest =>
      if rule.isInert || rule.occurrences text = 0 then traceFrom (index + 1) text rest
      else
        let (result, hits) := traceFrom (index + 1) (rule.replaceIn text) rest
        (result, ⟨index, rule.pattern, rule.occurrences text⟩ :: hits)

/-- What the table makes of the text, and the rules that hit on the way. -/
def trace (table : RuleTable) (text : String) : String × List Hit :=
  traceFrom 0 text table

/-- A rule behind another one whose pattern its own pattern contains. -/
structure Shadowing where
  earlier : Nat
  later : Nat
  deriving DecidableEq, Repr

/-- The first rule before `later` that casts a shadow on `rule`. Inert rules do not. -/
def shadowOn (table : RuleTable) (later : Nat) (rule : Rule) : Option Shadowing :=
  if rule.isInert then none
  else
    ((table.take later).findIdx? fun prior => !prior.isInert && rule.refines prior).map
      fun earlier => ⟨earlier, later⟩

/-- The rules that an earlier rule shadows, each with the first one that does. -/
def shadowed (table : RuleTable) : List Shadowing :=
  table.zipIdx.filterMap fun (rule, later) => table.shadowOn later rule

end RuleTable
end Repackage
