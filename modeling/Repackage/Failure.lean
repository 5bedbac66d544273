/-!
What can go wrong, and the exit code that stands for it. A missing source file is
an outcome of an entry and none of these.
-/

namespace Repackage

/-- Why an operation on a file failed. -/
inductive FileError where
  | notFound
  | alreadyExists
  | notADirectory
  | isADirectory
  | nameTooLong
  | noSpace
  | notText
  | nulInName
  /-- A failure met while a tree was walked, with the path it was met at. -/
  | walking (path : String) (cause : FileError)
  /-- A failure of a store that has its own words for it. -/
  | other (message : String)
  deriving DecidableEq, Repr

def FileError.message : FileError → String
  | .notFound => "No such file or directory (os error 2)"
  | .alreadyExists => "File exists (os error 17)"
  | .notADirectory => "Not a directory (os error 20)"
  | .isADirectory => "Is a directory (os error 21)"
  | .nameTooLong => "File name too long (os error 36)"
  | .noSpace => "No space left on device (os error 28)"
  | .notText => "stream did not contain valid UTF-8"
  | .nulInName => "file name contained an unexpected NUL byte"
  | .walking path cause => s!"IO error for operation on {path}: {cause.message}"
  | .other message => message

/-- Why a command, a run or one of its entries failed. -/
inductive Failure where
  | invalidArguments (message : String)
  | invalidPlan (message : String)
  | unsafePath (path reason : String)
  | readFailure (path : String) (cause : FileError)
  | writeFailure (path : String) (cause : FileError)
  /-- A pass that stopped at an entry, named by its source path. -/
  | aborted (phase entry : String) (cause : Failure)
  | internal (message : String)
  deriving DecidableEq, Repr

/-- The exit codes other than success. -/
inductive ExitCode where
  | invalidArguments
  | incomplete
  | applyError
  | internalError
  deriving DecidableEq, Repr

def ExitCode.toNat : ExitCode → Nat
  | .invalidArguments => 2
  | .incomplete => 3
  | .applyError => 4
  | .internalError => 10

namespace Failure

def message : Failure → String
  | .invalidArguments text => s!"invalid arguments: {text}"
  | .invalidPlan text => s!"invalid plan: {text}"
  | .unsafePath path reason => s!"unsafe path '{path}': {reason}"
  | .readFailure path cause => s!"failed to read {path}: {cause.message}"
  | .writeFailure path cause => s!"failed to write {path}: {cause.message}"
  | .aborted phase entry cause => s!"phase '{phase}' aborted at {entry}: {cause.message}"
  | .internal text => s!"internal error: {text}"

/-- An aborted pass has the exit code of its cause. -/
def exitCode : Failure → ExitCode
  | .invalidArguments _ | .invalidPlan _ | .unsafePath _ _ => .invalidArguments
  | .readFailure _ _ | .writeFailure _ _ => .applyError
  | .aborted _ _ cause => cause.exitCode
  | .internal _ => .internalError

/-- The path that the failure is about, if it is about one. -/
def path? : Failure → Option String
  | .readFailure path _ | .writeFailure path _ | .unsafePath path _ => some path
  | .aborted _ _ cause => cause.path?
  | _ => none

end Failure
end Repackage
