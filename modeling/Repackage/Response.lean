import Repackage.Json.Printer
import Repackage.Json.Shape
import Repackage.Diff
import Repackage.Plan.Issue
import Repackage.Report
import Repackage.Residue

/-!
Responses: what the commands answer to a program, as JSON. Each one starts with its
status and the version of the schema. Empty lists of hits, previews and completed
passes are left out, and so are values that are not there.
-/

namespace Repackage

def schemaVersion : String := "1"

/-- A phase in the listing of a plan. -/
structure PhaseInfo where
  name : String
  description : Option String
  rules : Nat
  relocations : Nat
  fixups : Nat
  deriving DecidableEq, Repr

def PhaseInfo.of (phase : Phase) : PhaseInfo where
  name := phase.name
  description := phase.description
  rules := phase.rules.length
  relocations := phase.manifest.countKind .relocation
  fixups := phase.manifest.countKind .importFixup

def Rule.toJson (rule : Rule) : Json :=
  .object [("from", .string rule.pattern), ("to", .string rule.replacement)]

def Rule.ofJson? (json : Json) : Option Rule := do
  match ← json.record? ["from", "to"] with
  | [pattern, replacement] => return ⟨← pattern.text?, ← replacement.text?⟩
  | _ => none

def RuleTable.toJson (table : RuleTable) : Json :=
  .array (table.map Rule.toJson)

def RuleTable.ofJson? (json : Json) : Option RuleTable := do
  (← json.items?).mapM Rule.ofJson?

def Hit.toJson (hit : Hit) : Json :=
  .object [("index", .ofNat hit.index), ("pattern", .string hit.pattern),
    ("occurrences", .ofNat hit.occurrences)]

def Hit.ofJson? (json : Json) : Option Hit := do
  match ← json.record? ["index", "pattern", "occurrences"] with
  | [index, pattern, occurrences] =>
      return ⟨← index.count?, ← pattern.text?, ← occurrences.count?⟩
  | _ => none

def PackageMove.toJson (move : PackageMove) : Json :=
  .object [("old", .string move.old), ("new", .string move.new)]

def PackageMove.ofJson? (json : Json) : Option PackageMove := do
  match ← json.record? ["old", "new"] with
  | [old, new] => return ⟨← old.text?, ← new.text?⟩
  | _ => none

def Entry.toJson (entry : Entry) : Json :=
  .objectOf [("source_path", some (.string entry.source)),
    ("dest_path", some (.string entry.dest)), ("package", entry.package.map PackageMove.toJson)]

def Manifest.toJson (manifest : Manifest) : Json :=
  .array (manifest.map Entry.toJson)

def EntryKind.label : EntryKind → String
  | .relocation => "relocation"
  | .importFixup => "import_fixup"

def EntryKind.ofJson? (json : Json) : Option EntryKind := do
  let name ← json.choice?
  [EntryKind.relocation, .importFixup].find? (·.label = name)

def EntryOutcome.label : EntryOutcome → String
  | .created => "created"
  | .updated => "updated"
  | .unchanged => "unchanged"
  | .notFound => "not_found"

def SkipReason.label : SkipReason → String
  | .notFound => "not_found"

def SkipReason.ofJson? (json : Json) : Option SkipReason := do
  let name ← json.choice?
  [SkipReason.notFound].find? (·.label = name)

def Severity.ofJson? (json : Json) : Option Severity := do
  let name ← json.choice?
  [Severity.error, .warning, .info].find? (·.label = name)

def Issue.toJson (issue : Issue) : Json :=
  .object [("severity", .string issue.severity.label), ("phase", .string issue.phase),
    ("message", .string issue.message)]

def Issue.ofJson? (json : Json) : Option Issue := do
  match ← json.record? ["severity", "phase", "message"] with
  | [severity, phase, message] =>
      return ⟨← Severity.ofJson? severity, ← phase.text?, ← message.text?⟩
  | _ => none

def EntryReport.toJson (report : EntryReport) : Json :=
  .objectOf [("source", some (.string report.source)), ("dest", some (.string report.dest)),
    ("kind", some (.string report.kind.label)), ("outcome", some (.string report.outcome.label)),
    ("hits", Json.nonEmpty (report.hits.map Hit.toJson)),
    ("before_hash", report.beforeDigest.map Json.string),
    ("after_hash", report.afterDigest.map Json.string)]

def Summary.toJson (summary : Summary) : Json :=
  .object [("created", .ofNat summary.created), ("updated", .ofNat summary.updated),
    ("unchanged", .ofNat summary.unchanged), ("skipped", .ofNat summary.skipped)]

def PassReport.toJson (pass : PassReport) : Json :=
  .object [("phase", .string pass.phase),
    ("entries", .array (pass.entries.map EntryReport.toJson)),
    ("summary", pass.summary.toJson)]

def RunReport.toJson (report : RunReport) : Json :=
  .object [("passes", .array (report.passes.map PassReport.toJson)),
    ("summary", report.summary.toJson)]

def FileDiff.toJson (diff : FileDiff) : Json :=
  .object [("path", .string diff.path), ("diff", .string diff.diff)]

def ResidueMatch.toJson (residue : ResidueMatch) : Json :=
  .object [("index", .ofNat residue.index), ("pattern", .string residue.pattern),
    ("occurrences", .ofNat residue.occurrences)]

def Residue.toJson (residue : Residue) : Json :=
  .object [("path", .string residue.path),
    ("matches", .array (residue.found.map ResidueMatch.toJson))]

def PhaseInfo.toJson (info : PhaseInfo) : Json :=
  .objectOf [("name", some (.string info.name)), ("description", info.description.map Json.string),
    ("rules", some (.ofNat info.rules)), ("relocations", some (.ofNat info.relocations)),
    ("fixups", some (.ofNat info.fixups))]

/-- The answer to a command. -/
inductive Response where
  | run (report : RunReport) (dryRun : Bool) (diffs : List FileDiff)
  | check (issues : List Issue)
  | scan (files : List Residue)
  | phases (root : String) (infos : List PhaseInfo)
  /-- A failure, and the passes that were made before it. -/
  | failure (cause : Failure) (completed : List PassReport)

/-- What a failure says for itself. -/
def Failure.toJson (failure : Failure) : Json :=
  .objectOf [("code", some (.ofNat failure.exitCode.toNat)),
    ("message", some (.string failure.message)), ("path", failure.path?.map Json.string)]

namespace Response

/-- A run is incomplete if an entry lacked its source, and a check fails on an error. -/
def status : Response → String
  | .run report _ _ => if report.summary.isComplete then "ok" else "incomplete"
  | .check issues => if hasErrors issues then "error" else "ok"
  | .scan _ | .phases _ _ => "ok"
  | .failure _ _ => "error"

def body : Response → List (String × Option Json)
  | .run report dryRun diffs =>
      [("dry_run", some (.bool dryRun)),
       ("passes", some (.array (report.passes.map PassReport.toJson))),
       ("summary", some report.summary.toJson),
       ("diffs", Json.nonEmpty (diffs.map FileDiff.toJson))]
  | .check issues => [("issues", some (.array (issues.map Issue.toJson)))]
  | .scan files => [("files", some (.array (files.map Residue.toJson)))]
  | .phases root infos =>
      [("root", some (.string root)), ("phases", some (.array (infos.map PhaseInfo.toJson)))]
  | .failure cause completed =>
      [("error", some cause.toJson),
       ("completed", Json.nonEmpty (completed.map PassReport.toJson))]

def toJson (response : Response) : Json :=
  .objectOf (("status", some (.string response.status))
    :: ("schema_version", some (.string schemaVersion)) :: response.body)

def render (response : Response) : String :=
  response.toJson.render

end Response
end Repackage
