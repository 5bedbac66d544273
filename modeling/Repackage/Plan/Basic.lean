import Repackage.Entry
import Repackage.Failure

/-!
Plans: the root of a tree and the phases to run on it, in order.
-/

namespace Repackage

/-- One pass over the tree: entries, and the rules that all of them share. -/
structure Phase where
  name : String
  description : Option String := none
  rules : RuleTable
  manifest : Manifest
  deriving DecidableEq, Repr

structure Plan where
  root : String
  phases : List Phase
  deriving DecidableEq, Repr

namespace Plan

def phase? (plan : Plan) (name : String) : Option Phase :=
  plan.phases.find? (·.name = name)

/-- The phases with these names in the order of the plan, or all of them if no name is
given. The first name that no phase has is an error. -/
def select (plan : Plan) (names : List String) : Except Failure (List Phase) :=
  if names.isEmpty then .ok plan.phases
  else
    match names.find? fun name => (plan.phase? name).isNone with
    | some unknown => .error (.invalidArguments s!"unknown phase '{unknown}'")
    | none => .ok (plan.phases.filter fun phase => names.contains phase.name)

end Plan
end Repackage
