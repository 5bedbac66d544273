import Repackage.Plan.Basic
import Repackage.Report

/-!
Running phases and plans. Each entry is read, rewritten and written before the next
one starts, and a pass sees what the passes before it have written. The first read
or write that fails ends the run. What the observer heard until then stays heard.
-/

namespace Repackage

/-- A tree under work, and what an observer has heard of so far. -/
structure Progress (τ : Type) where
  tree : τ
  events : List Event := []

abbrev RunM (τ α : Type) := EStateM Failure (Progress τ) α

namespace RunM

variable {τ α : Type}

/-- An activity on the tree of a run. -/
def onTree (activity : TreeM τ α) : RunM τ α := fun progress =>
  match activity progress.tree with
  | .ok answer tree => .ok answer { progress with tree }
  | .error failure tree => .error failure { progress with tree }

def tell (event : Event) : RunM τ Unit := fun progress =>
  .ok () { progress with events := progress.events ++ [event] }

end RunM

variable {τ : Type} [SourceTree τ]

def Entry.run (entry : Entry) (shared : RuleTable) : TreeM τ EntryReport := do
  let relocated ←
    match entry.kind with
    | .relocation => TreeM.relocate entry.source entry.dest (entry.rewrite shared)
    | .importFixup => TreeM.rewriteInPlace entry.source (entry.rewrite shared)
  return EntryReport.of entry relocated

namespace Phase

/-- Runs entries of the phase one after the other. -/
def runEntries (phase : Phase) : List Entry → RunM τ (List EntryReport)
  | [] => return []
  | entry :: rest => do
      let report ← RunM.onTree
        ((entry.run phase.rules).adaptExcept (.aborted phase.name entry.source))
      RunM.tell (.entry phase.name report)
      let reports ← phase.runEntries rest
      return report :: reports

def run (phase : Phase) : RunM τ PassReport := do
  let reports ← phase.runEntries phase.manifest
  let pass : PassReport := ⟨phase.name, reports, Summary.ofReports reports⟩
  RunM.tell (.passFinished pass)
  return pass

def runAll : List Phase → RunM τ (List PassReport)
  | [] => return []
  | phase :: rest => do
      let pass ← phase.run
      let passes ← runAll rest
      return pass :: passes

end Phase

namespace Plan

/-- Runs the phases with these names in the order of the plan, or all of them. -/
def run (plan : Plan) (names : List String) : RunM τ RunReport := do
  match plan.select names with
  | .error failure => throw failure
  | .ok phases =>
      let passes ← Phase.runAll phases
      return RunReport.ofPasses passes

end Plan
end Repackage
