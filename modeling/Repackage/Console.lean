import Repackage.Response

/-!
Text for people: one line for each entry as it is processed, one for each pass, and
the closing lines of each command. Text goes to a sink, which may refuse to take it.
-/

namespace Repackage

/-- Where bytes are written to. It takes as many as it has room for, and any number of
them if no room is given. -/
structure Sink where
  written : ByteArray := .empty
  room : Option Nat := none
  /-- The failure of a write that finds no room. -/
  full : FileError := .noSpace
  /-- The failure of a flush, if it fails. -/
  badFlush : Option FileError := none

namespace Sink

/-- Writes a text as UTF-8. A text that has no room is written as far as it has. -/
def write (sink : Sink) (text : String) : Except FileError Unit × Sink :=
  let bytes := text.toUTF8
  match sink.room with
  | none => (.ok (), { sink with written := sink.written ++ bytes })
  | some room =>
      let taken := { sink with
        written := sink.written ++ bytes.extract 0 room
        room := some (room - bytes.size) }
      (if bytes.size ≤ room then .ok () else .error sink.full, taken)

def flush (sink : Sink) : Except FileError Unit :=
  match sink.badFlush with
  | none => .ok ()
  | some cause => .error cause

end Sink

/-- The line of an entry. -/
def EntryReport.line (report : EntryReport) : String :=
  match report.outcome with
  | .created => s!"✓ Created: {report.dest}"
  | .updated => s!"✓ Updated: {report.dest}"
  | .unchanged => s!"- No changes: {report.dest}"
  | .notFound => s!"✗ Source not found: {report.source}"

def Summary.text (summary : Summary) : String :=
  s!"{summary.created} created, {summary.updated} updated, "
    ++ s!"{summary.unchanged} unchanged, {summary.skipped} not found"

/-- What is printed for an event. A blank line follows a finished pass. -/
def Event.text : Event → String
  | .entry _ report => report.line ++ "\n"
  | .passFinished pass => s!"Pass '{pass.phase}': {pass.summary.text}\n\n"

/-- Prints events as they come. The first failure is held to the end, and what comes
after it is dropped. -/
structure Console where
  sink : Sink
  failure : Option FileError := none

namespace Console

def hear (console : Console) (event : Event) : Console :=
  match console.failure with
  | some _ => console
  | none =>
      match console.sink.write event.text with
      | (.ok (), sink) => { console with sink }
      | (.error cause, sink) => ⟨sink, some cause⟩

def hearAll (console : Console) (events : List Event) : Console :=
  events.foldl hear console

/-- The first failure, or that of the flush. -/
def finish (console : Console) : Except FileError Unit :=
  match console.failure with
  | some cause => .error cause
  | none => console.sink.flush

end Console

def passNoun (passes : Nat) : String :=
  if passes = 1 then "pass" else "passes"

/-- The closing lines of a run, behind the previews if there are any. -/
def footerText (passes : Nat) (summary : Summary) (dryRun : Bool) (diffs : List FileDiff) :
    String :=
  String.join (diffs.map (·.diff))
    ++ (if diffs.isEmpty then "" else "\n")
    ++ s!"Done: {passes} {passNoun passes}, {summary.text}\n"
    ++ (if dryRun then "Dry run: no files were written.\n" else "")

def countSeverity (issues : List Issue) (severity : Severity) : Nat :=
  issues.countP (·.severity = severity)

def checkText (issues : List Issue) : String :=
  String.join (issues.map fun issue => issue.render ++ "\n")
    ++ s!"{countSeverity issues .error} errors, {countSeverity issues .warning} warnings\n"

def ResidueMatch.line (residue : ResidueMatch) : String :=
  s!"    rule {residue.index} '{residue.pattern}' x{residue.occurrences}\n"

def Residue.lines (residue : Residue) : String :=
  residue.path ++ "\n" ++ String.join (residue.found.map ResidueMatch.line)

def scanText (files : List Residue) : String :=
  String.join (files.map Residue.lines) ++ s!"{files.length} files with residual references\n"

def PhaseInfo.line (info : PhaseInfo) : String :=
  s!"{info.name}: {info.rules} rules, {info.relocations} relocations, {info.fixups} fixups"
    ++ (match info.description with
      | some description => s!" ({description})\n"
      | none => "\n")

def phasesText (root : String) (infos : List PhaseInfo) : String :=
  s!"root: {root}\n" ++ String.join (infos.map PhaseInfo.line)

end Repackage
