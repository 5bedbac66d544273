import Repackage.CommandLine.Grammar
import Repackage.Execution

/-!
What a command line asks for. The root and the format of the output may be given before
or behind the command, and what is given behind it counts.
-/

namespace Repackage
namespace CommandLine

inductive Format where
  | text
  | json
  deriving DecidableEq, Repr

/-- The command that is to be run, on the plan file at a path. -/
inductive Task where
  | run (options : RunOptions) (strict : Bool)
  | check
  | scan (phases : List String) (glob : String)
  | phases
  deriving DecidableEq, Repr

structure Invocation where
  plan : String
  task : Task
  root : Option String := none
  format : Format := .text
  deriving DecidableEq, Repr

def isPath (text : String) : Bool :=
  !text.isEmpty

def formatNames : List (String × Format) :=
  [("text", .text), ("json", .json)]

def logLevelNames : List String :=
  ["trace", "debug", "info", "warn", "error"]

/-- The options that may stand on either level. -/
def globalOptions : List OptionForm :=
  [{ name := "root", takesValue := true, accepts := isPath },
   { name := "log-level", takesValue := true, accepts := logLevelNames.contains },
   { name := "format", takesValue := true, accepts := (formatNames.map (·.1)).contains }]

def planOperand : OptionForm :=
  { name := "plan", takesValue := true, accepts := isPath }

def phaseOption : OptionForm :=
  { name := "phase", takesValue := true, repeats := true }

def flag (name : String) : OptionForm :=
  { name, takesValue := false }

/-- The options of each command, next to the ones for all of them. -/
def commandOptions : List (String × List OptionForm) :=
  [("run", [phaseOption, flag "dry-run", flag "diff", flag "strict"]),
   ("check", []),
   ("scan", [phaseOption, { name := "include", takesValue := true }]),
   ("phases", [])]

def commandNames : List String :=
  commandOptions.map (·.1)

def topForm : LevelForm where
  options := globalOptions
  commands := commandNames ++ ["help"]
  hasVersion := true

def commandForm (options : List OptionForm) : LevelForm where
  options := globalOptions ++ options
  operands := [planOperand]

/-- The task that a level asks for. Previews need a dry run. -/
def taskOf (command : String) (level : Level) : Except Stop Task :=
  let phases := level.values "phase"
  match command with
  | "run" =>
      let dryRun := level.has "dry-run"
      let diff := level.has "diff"
      if diff && !dryRun then .error .refused
      else .ok (.run { phases, dryRun, diff } (level.has "strict"))
  | "check" => .ok .check
  | "scan" => .ok (.scan phases ((level.value? "include").getD Residue.defaultInclude))
  | _ => .ok .phases

/-- Help is given for no command or for one that there is. -/
def helpOn : List String → Stop
  | [] => .help
  | [name] => if topForm.commands.contains name then .help else .refused
  | _ => .refused

/-- Reads the arguments of a command. What is given on the top level is checked last. -/
def readCommand (top : Level) (command : String) (arguments : List String) :
    Except Stop Invocation := do
  let options := (commandOptions.lookup command).getD []
  let (level, _) ← (commandForm options).read arguments
  let level ← level.settle
  let some plan := level.value? "plan" | throw .refused
  let task ← taskOf command level
  let top ← top.settle
  let given (name : String) : Option String := (level.value? name).or (top.value? name)
  let format := ((given "format").bind fun name => formatNames.lookup name).getD .text
  return { plan, task, root := given "root", format }

def parse (arguments : List String) : Except Stop Invocation := do
  match ← topForm.read arguments with
  | (_, none) => throw .refused
  | (_, some ("help", names)) => throw (helpOn names)
  | (top, some (command, rest)) => readCommand top command rest

end CommandLine
end Repackage
