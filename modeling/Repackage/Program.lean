import Repackage.CommandLine.Invocation
import Repackage.Console
import Repackage.Plan.File

/-!
A run of the whole program: from arguments, a disk and an output to an exit code, what
was printed, and the disk as the program leaves it. Failures are printed as responses in
either format.
-/

namespace Repackage

open CommandLine (Format Invocation Task)

/-- How the program ends. -/
structure Ending where
  /-- No code stands for success. -/
  code : Option ExitCode
  output : Sink
  disk : Disk

def Ending.exitCode (ending : Ending) : Nat :=
  (ending.code.map ExitCode.toNat).getD 0

def Failure.ofOutput (cause : FileError) : Failure :=
  .internal s!"failed to write output: {cause.message}"

namespace Program

def versionText : String := "pkgshift 0.1.0\n"

def helpText : String :=
  "Usage: pkgshift [--root DIR] [--format text|json] [--log-level LEVEL] COMMAND\n\n"
    ++ "  run PLAN [--phase NAME]... [--dry-run [--diff]] [--strict]\n"
    ++ "  check PLAN\n"
    ++ "  scan PLAN [--phase NAME]... [--include GLOB]\n"
    ++ "  phases PLAN\n"

/-- What a task leaves: its exit code or the failure that is still to be printed. -/
structure TaskEnding where
  result : Except Failure (Option ExitCode)
  output : Sink
  disk : Disk

/-- Prints the answer of a task that succeeded. -/
def answer (output : Sink) (disk : Disk) (text : String) (code : Option ExitCode) :
    TaskEnding :=
  match output.write text with
  | (.ok (), output) => ⟨.ok code, output, disk⟩
  | (.error cause, output) => ⟨.error (.ofOutput cause), output, disk⟩

/-- The exit code of a run that was not cut short. -/
def runCode (strict : Bool) (report : RunReport) : Option ExitCode :=
  if strict && !report.summary.isComplete then some .incomplete else none

/-- Prints a run line by line, and closes it if it was not cut short. -/
def printRun (options : RunOptions) (strict : Bool) (execution : Execution) (output : Sink) :
    TaskEnding :=
  let console := ({ sink := output } : Console).hearAll execution.events
  match execution.result with
  | .error failure => ⟨.error failure, console.sink, execution.disk⟩
  | .ok outcome =>
      match console.finish with
      | .error cause => ⟨.error (.ofOutput cause), console.sink, execution.disk⟩
      | .ok () =>
          let footer := footerText outcome.report.passes.length outcome.report.summary
            options.dryRun outcome.diffs
          answer console.sink execution.disk footer (runCode strict outcome.report)

/-- Prints the response to a run. One that was cut short answers with what it completed. -/
def respondRun (options : RunOptions) (strict : Bool) (execution : Execution) (output : Sink) :
    TaskEnding :=
  match execution.result with
  | .error failure =>
      let completed := (({} : Collector).hearAll execution.events).passes
      answer output execution.disk (Response.failure failure completed).render failure.exitCode
  | .ok outcome =>
      answer output execution.disk
        (Response.run outcome.report options.dryRun outcome.diffs).render
        (runCode strict outcome.report)

def checkCode (issues : List Issue) : Option ExitCode :=
  if hasErrors issues then some .invalidArguments else none

/-- Carries out a task on a plan that is loaded. -/
def carryOut (plan : Plan) (task : Task) (format : Format) (disk : Disk) (output : Sink) :
    TaskEnding :=
  match task with
  | .run options strict =>
      let execution := plan.execute options disk
      match format with
      | .text => printRun options strict execution output
      | .json => respondRun options strict execution output
  | .check =>
      let issues := plan.validate
      let text :=
        match format with
        | .text => checkText issues
        | .json => (Response.check issues).render
      answer output disk text (checkCode issues)
  | .scan names glob =>
      match plan.scan names glob disk with
      | .error failure => ⟨.error failure, output, disk⟩
      | .ok files =>
          let text :=
            match format with
            | .text => scanText files
            | .json => (Response.scan files).render
          answer output disk text none
  | .phases =>
      let infos := plan.phases.map PhaseInfo.of
      let text :=
        match format with
        | .text => phasesText plan.root infos
        | .json => (Response.phases plan.root infos).render
      answer output disk text none

def invoke (invocation : Invocation) (disk : Disk) (output : Sink) : TaskEnding :=
  match Plan.load disk invocation.plan invocation.root with
  | .error failure => ⟨.error failure, output, disk⟩
  | .ok plan => carryOut plan invocation.task invocation.format disk output

/-- Prints what is still to be printed. The output that refuses a failure changes nothing
about its exit code. -/
def finish (ending : TaskEnding) : Ending :=
  match ending.result with
  | .ok code => ⟨code, ending.output, ending.disk⟩
  | .error failure =>
      let (_, output) := ending.output.write (Response.failure failure []).render
      ⟨some failure.exitCode, output, ending.disk⟩

def run (arguments : List String) (disk : Disk) (output : Sink) : Ending :=
  match CommandLine.parse arguments with
  | .error .refused => ⟨some .invalidArguments, output, disk⟩
  | .error .help => ⟨none, (output.write helpText).2, disk⟩
  | .error .version => ⟨none, (output.write versionText).2, disk⟩
  | .ok invocation => finish (invoke invocation disk output)

end Program
end Repackage
