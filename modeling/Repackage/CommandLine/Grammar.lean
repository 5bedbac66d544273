/-!
The grammar of command lines. A command line has levels: arguments up to the name of a
command, and arguments behind it. On a level stand options, whose names start with two
hyphens, and operands. An option may have its value behind an equals sign or in the next
argument. A value is checked when the next option, the next operand or the end of the
level is met, and asking for help or for the version ends the reading at once.
-/

namespace Repackage
namespace CommandLine

/-- An option, or an operand under the name it is known by. -/
structure OptionForm where
  name : String
  takesValue : Bool
  /-- Whether it may be given more than once. -/
  repeats : Bool := false
  accepts : String → Bool := fun _ => true

/-- What may stand on a level. -/
structure LevelForm where
  options : List OptionForm
  operands : List OptionForm := []
  commands : List String := []
  hasVersion : Bool := false

/-- Why the reading of a command line ends early. -/
inductive Stop where
  | refused
  | help
  | version
  deriving DecidableEq, Repr

/-- A level while it is read. -/
structure Level where
  /-- The operands that may still come. -/
  operands : List OptionForm
  /-- What was given, in order; a flag has an empty value. -/
  given : List (String × String) := []
  /-- What was given last, and is still to be checked. An option waits for its value. -/
  pending : Option (OptionForm × Option String) := none

namespace Level

def has (level : Level) (name : String) : Bool :=
  level.given.any (·.1 = name)

/-- The values given under a name. -/
def values (level : Level) (name : String) : List String :=
  (level.given.filter (·.1 = name)).map (·.2)

def value? (level : Level) (name : String) : Option String :=
  level.given.lookup name

def isWaiting (level : Level) : Bool :=
  level.pending.any (·.2.isNone)

/-- Makes an option or operand the pending one. -/
def hold (level : Level) (form : OptionForm) (value : Option String) : Level :=
  { level with pending := some (form, value) }

/-- Checks and takes up what is pending. -/
def settle (level : Level) : Except Stop Level :=
  match level.pending with
  | none => .ok level
  | some (_, none) => .error .refused
  | some (form, some value) =>
      if form.accepts value && (form.repeats || !level.has form.name) then
        .ok { level with given := level.given ++ [(form.name, value)], pending := none }
      else .error .refused

/-- Ends the reading, unless what is pending is refused. -/
def stop (level : Level) (stop : Stop) : Except Stop Level := do
  let _ ← level.settle
  throw stop

def operand (level : Level) (text : String) : Except Stop Level :=
  match level.operands with
  | [] => .error .refused
  | form :: rest => do
      let level ← level.settle
      return { level with operands := rest }.hold form (some text)

/-- A name behind two hyphens, with the value behind its equals sign if there is one. -/
def option (form : LevelForm) (level : Level) (name : String) (attached : Option String) :
    Except Stop Level :=
  if name = "help" && attached.isNone then level.stop .help
  else if name = "version" && form.hasVersion && attached.isNone then level.stop .version
  else
    match form.options.find? (·.name = name) with
    | none => .error .refused
    | some option => do
        let level ← level.settle
        match option.takesValue, attached with
        | true, some value => (level.hold option (some value)).settle
        | true, none => return level.hold option none
        | false, none => (level.hold option (some "")).settle
        | false, some _ => throw .refused

/-- Letters behind one hyphen, of which the first one decides. -/
def letters (form : LevelForm) (level : Level) : List Char → Except Stop Level
  | 'h' :: _ => level.stop .help
  | 'V' :: _ => if form.hasVersion then level.stop .version else .error .refused
  | _ => .error .refused

/-- The parts of an option before and behind its first equals sign. -/
def splitOption (text : List Char) : String × Option String :=
  let name := String.ofList (text.takeWhile (· ≠ '='))
  match text.dropWhile (· ≠ '=') with
  | [] => (name, none)
  | _ :: value => (name, some (String.ofList value))

/-- An argument that names no command. -/
def argument (form : LevelForm) (level : Level) (text : String) : Except Stop Level :=
  match text.toList with
  | '-' :: '-' :: rest =>
      let (name, attached) := splitOption rest
      level.option form name attached
  | '-' :: c :: rest => level.letters form (c :: rest)
  | _ =>
      match level.pending with
      | some (option, none) => .ok (level.hold option (some text))
      | _ => level.operand text

/-- Reads the arguments of a level, and gives the command that ends it with the arguments
behind it. All arguments behind `--` are operands. -/
def read (form : LevelForm) (level : Level) :
    List String → Except Stop (Level × Option (String × List String))
  | [] => .ok (level, none)
  | text :: rest =>
      if form.commands.contains text && !level.isWaiting then .ok (level, some (text, rest))
      else if text = "--" then do
        let level ← rest.foldlM operand level
        return (level, none)
      else do
        let level ← level.argument form text
        level.read form rest

end Level

/-- Reads the arguments of a level with this form. -/
def LevelForm.read (form : LevelForm) (arguments : List String) :
    Except Stop (Level × Option (String × List String)) :=
  Level.read form { operands := form.operands } arguments

end CommandLine
end Repackage
