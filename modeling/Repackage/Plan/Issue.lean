import Repackage.Plan.Basic

/-!
Checking a plan. A finding is a fact about one phase that makes a run unsafe,
surprising or idle, and an issue is a finding put into words.
-/

namespace Repackage

inductive Severity where
  | error
  | warning
  | info
  deriving DecidableEq, Repr

def Severity.label : Severity → String
  | .error => "error"
  | .warning => "warning"
  | .info => "info"

/-- Something to say about a phase of a plan. -/
structure Issue where
  severity : Severity
  phase : String
  message : String
  deriving DecidableEq, Repr

def Issue.render (issue : Issue) : String :=
  s!"{issue.severity.label} [{issue.phase}]: {issue.message}"

def hasErrors (issues : List Issue) : Bool :=
  issues.any (·.severity = .error)

/-- What checking a phase can find. Rules are named by their place in the table. -/
inductive Finding where
  /-- An earlier phase has the same name. -/
  | duplicateName
  | emptyPattern (index : Nat)
  | identityRule (index : Nat) (pattern : String)
  | shadowedRule (later : Nat) (pattern : String) (earlier : Nat) (general : String)
  | sharedDestination (path : String)
  | noEntries
  /-- There are only fixups, and no rule that could change them. -/
  | idle
  deriving DecidableEq, Repr

namespace Finding

def severity : Finding → Severity
  | .duplicateName | .emptyPattern _ | .sharedDestination _ => .error
  | .shadowedRule _ _ _ _ | .idle => .warning
  | .identityRule _ _ | .noEntries => .info

def message : Finding → String
  | .duplicateName => "duplicate phase name"
  | .emptyPattern index => s!"rule {index} has an empty pattern"
  | .identityRule index pattern => s!"rule {index} ('{pattern}') replaces text with itself"
  | .shadowedRule later pattern earlier general =>
      s!"rule {later} ('{pattern}') runs after rule {earlier} ('{general}')"
        ++ " and can only match text it reintroduces"
  | .sharedDestination path => s!"'{path}' is the destination of more than one entry"
  | .noEntries => "phase has no entries"
  | .idle => "phase has only fixup entries and no rules; it cannot change anything"

def toIssue (phase : String) (finding : Finding) : Issue :=
  ⟨finding.severity, phase, finding.message⟩

end Finding

namespace Rule

def findings (rule : Rule) (index : Nat) : List Finding :=
  if rule.pattern.isEmpty then [.emptyPattern index]
  else if rule.isIdentity then [.identityRule index rule.pattern]
  else []

end Rule

namespace RuleTable

def patternAt (table : RuleTable) (index : Nat) : String :=
  (table[index]?.map (·.pattern)).getD ""

def shadowFindings (table : RuleTable) : List Finding :=
  table.shadowed.map fun shadow =>
    .shadowedRule shadow.later (table.patternAt shadow.later)
      shadow.earlier (table.patternAt shadow.earlier)

end RuleTable

namespace Manifest

def workFindings (manifest : Manifest) (rules : RuleTable) : List Finding :=
  if manifest.isEmpty then [.noEntries]
  else if rules.isEmpty && manifest.countKind .relocation = 0 then [.idle]
  else []

end Manifest

namespace Phase

/-- What there is to find in a phase that follows phases with the given names. -/
def findings (earlier : List String) (phase : Phase) : List Finding :=
  (if earlier.contains phase.name then [.duplicateName] else [])
    ++ phase.rules.zipIdx.flatMap (fun (rule, index) => rule.findings index)
    ++ phase.rules.shadowFindings
    ++ phase.manifest.sharedDestinations.map .sharedDestination
    ++ phase.manifest.workFindings phase.rules

end Phase

namespace Plan

/-- The issues of phases that follow phases with the given names. -/
def issuesFrom (earlier : List String) : List Phase → List Issue
  | [] => []
  | phase :: rest =>
      (phase.findings earlier).map (Finding.toIssue phase.name)
        ++ issuesFrom (phase.name :: earlier) rest

def validate (plan : Plan) : List Issue :=
  issuesFrom [] plan.phases

end Plan
end Repackage
