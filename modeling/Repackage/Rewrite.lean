import Repackage.Entry
import Repackage.Digest

/-!
Rewriting the content of one entry. The result depends on the content, the entry and
the shared rules of its phase, and on nothing else.
-/

namespace Repackage

/-- What became of a content: the text before and after, and the rules that hit. -/
structure Rewritten where
  before : String
  after : String
  hits : List Hit
  deriving DecidableEq, Repr

namespace Rewritten

def changed (result : Rewritten) : Bool :=
  result.after ≠ result.before

def beforeDigest (result : Rewritten) : String :=
  Digest.ofText result.before

def afterDigest (result : Rewritten) : String :=
  Digest.ofText result.after

end Rewritten

namespace Entry

/-- The rules for the entry: the one that redeclares its package, if it has one, and
then the shared rules in their order. -/
def rules (entry : Entry) (shared : RuleTable) : RuleTable :=
  (entry.package.map PackageMove.declarationRule).toList ++ shared

def rewrite (entry : Entry) (shared : RuleTable) (content : String) : Rewritten :=
  let (after, hits) := (entry.rules shared).trace content
  ⟨content, after, hits⟩

end Entry
end Repackage
