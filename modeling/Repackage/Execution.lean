import Repackage.Diff
import Repackage.Plan.Issue
import Repackage.Residue
import Repackage.Run
import Repackage.Tree.Overlay

/-!
Executing a plan on a disk. A plan with errors is refused before anything is read, and
so is one whose root is no directory. A dry run works on an overlay, and its previews
compare what is staged in the end with the disk.
-/

namespace Repackage

/-- The previews of what is staged, without those that show no change. A file that cannot
be read counts as new. -/
def Overlay.previews (overlay : Overlay) : List FileDiff :=
  overlay.staged.entries.filterMap fun (path, content) =>
    let before :=
      if overlay.base.isFile path then (overlay.base.readText path).toOption else none
    let diff := Diff.unified path before content
    if diff.isEmpty then none else some ⟨path, diff⟩

structure RunOptions where
  /-- The phases to run; all of them if there is none. -/
  phases : List String := []
  dryRun : Bool := false
  /-- Whether a dry run previews what it would write. -/
  diff : Bool := false
  deriving DecidableEq, Repr

/-- What a run came to. -/
structure RunOutcome where
  report : RunReport
  diffs : List FileDiff
  deriving DecidableEq, Repr

/-- A run that is over: its outcome, what an observer heard of, and the disk. -/
structure Execution where
  result : Except Failure RunOutcome
  events : List Event
  disk : Disk

namespace Plan

/-- Refuses a plan with errors, in the words of all of them. -/
def requireValid (plan : Plan) : Except Failure Unit :=
  let issues := plan.validate
  if hasErrors issues then
    let errors := issues.filter (·.severity = .error)
    .error (.invalidPlan ("; ".intercalate (errors.map Issue.render)))
  else .ok ()

def requireRoot (plan : Plan) (disk : Disk) : Except Failure Unit :=
  if disk.isDirectory plan.root then .ok ()
  else .error (.invalidArguments s!"tree root {plan.root} is not a directory")

def tree (plan : Plan) (disk : Disk) : DiskTree :=
  ⟨plan.root, disk⟩

/-- Runs phases on a tree, or refuses the plan before the tree is touched. -/
def launch {τ : Type} [SourceTree τ] (plan : Plan) (options : RunOptions) (disk : Disk)
    (tree : τ) : EStateM.Result Failure (Progress τ) RunReport :=
  match plan.requireValid, plan.requireRoot disk with
  | .error failure, _ => .error failure { tree }
  | .ok (), .error failure => .error failure { tree }
  | .ok (), .ok () => plan.run options.phases { tree }

/-- Runs phases over the disk without changing it. -/
def rehearse (plan : Plan) (options : RunOptions) (disk : Disk) : Execution :=
  match plan.launch options disk ({ base := plan.tree disk } : Overlay) with
  | .ok report progress =>
      let diffs := if options.diff then progress.tree.previews else []
      ⟨.ok ⟨report, diffs⟩, progress.events, disk⟩
  | .error failure progress => ⟨.error failure, progress.events, disk⟩

/-- Runs phases on the disk. What they wrote before a failure stays. -/
def perform (plan : Plan) (options : RunOptions) (disk : Disk) : Execution :=
  match plan.launch options disk (plan.tree disk) with
  | .ok report progress => ⟨.ok ⟨report, []⟩, progress.events, progress.tree.disk⟩
  | .error failure progress => ⟨.error failure, progress.events, progress.tree.disk⟩

def execute (plan : Plan) (options : RunOptions) (disk : Disk) : Execution :=
  if options.dryRun then plan.rehearse options disk else plan.perform options disk

/-- The residue of the rules of the phases with these names, or of all phases. -/
def scan (plan : Plan) (names : List String) (glob : String) (disk : Disk) :
    Except Failure (List Residue) := do
  let phases ← plan.select names
  plan.requireRoot disk
  Residue.scan disk plan.root (phases.flatMap (·.rules)) glob

end Plan
end Repackage
