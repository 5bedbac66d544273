import Repackage.Program

/-!
The program itself. It takes in what a plan can reach of the disk, runs on that, and
carries over to the disk what the run created or changed.
-/

namespace Repackage

/-- The location of a path seen from a directory. -/
def locate (working : Location) (path : String) : Location :=
  (Path.components path).foldl
    (fun location name =>
      if name = "." then location
      else if name = ".." then location.dropLast
      else location ++ [name])
    (if Disk.isAbsolute path then [] else working)

/-- The path of a location. -/
def pathOf (location : Location) : String :=
  "/" ++ Path.ofComponents location

/-- Takes in what stands at a location, a directory without what it holds. -/
def takeInNode (disk : Disk) (location : Location) : IO Disk := do
  let path := (← IO.currentDir) / pathOf location
  if (disk.node? location).isSome then return disk
  else if ← path.isDir then return disk.put location (.folder .empty)
  else if ← path.pathExists then
    return disk.put location (.file (← IO.FS.readBinFile path))
  else return disk

/-- Takes in what a path leads to, and the directories on the way. -/
def takeInPath (disk : Disk) (path : String) : IO Disk := do
  let names := Path.components path
  let start := if Disk.isAbsolute path then "/" else ""
  (List.range (names.length + 1)).foldlM
    (fun disk count =>
      takeInNode disk (locate disk.working (start ++ Path.ofComponents (names.take count))))
    disk

/-- Takes in what stands at a location, a directory with all that it holds. -/
partial def takeInAll (disk : Disk) (location : Location) : IO Disk := do
  let disk ← takeInNode disk location
  let path := (← IO.currentDir) / pathOf location
  if ← path.isDir then
    (← path.readDir).foldlM (fun disk entry => takeInAll disk (location ++ [entry.fileName])) disk
  else return disk

/-- The paths that a run of the plan reads or writes. -/
def entryPaths (plan : Plan) (disk : Disk) : List String :=
  plan.phases.flatMap fun phase =>
    phase.manifest.flatMap fun entry =>
      [entry.source, entry.dest].map (plan.tree disk).resolve

/-- What a command line can reach: its plan file, and what the task needs of the tree. -/
def reachable (arguments : List String) : IO Disk := do
  let working := Path.components (← IO.currentDir).toString
  let disk : Disk := Disk.put ⟨.empty, working⟩ working (.folder .empty)
  match CommandLine.parse arguments with
  | .error _ => return disk
  | .ok invocation =>
      let disk ← takeInPath disk invocation.plan
      match Plan.load disk invocation.plan invocation.root, invocation.task with
      | .ok plan, .run _ _ =>
          let disk ← takeInPath disk plan.root
          (entryPaths plan disk).foldlM takeInPath disk
      | .ok plan, .scan _ _ =>
          let disk ← takeInPath disk plan.root
          takeInAll disk (locate working plan.root)
      | _, _ => return disk

/-- Creates on the disk what a run created, and writes what it wrote. -/
def carryOver (before after : Disk) : IO Unit := do
  for location in after.top.folders do
    if (before.node? location).isNone then
      IO.FS.createDirAll (pathOf location)
  for (location, content) in after.top.files do
    let same :=
      match before.node? location with
      | some (.file old) => old == content
      | _ => false
    unless same do
      IO.FS.writeBinFile (pathOf location) content

/-- Prints to standard output; whether all could be printed. -/
def tryPrint (text : ByteArray) : IO Bool := do
  let output ← IO.getStdout
  try
    output.write text
    output.flush
    return true
  catch _ => return false

end Repackage

open Repackage in
def main (arguments : List String) : IO UInt32 := do
  let disk ← reachable arguments
  let ending := Program.run arguments disk {}
  carryOver disk ending.disk
  let ending :=
    if ← tryPrint ending.output.written then ending
    else Program.run arguments disk { room := some 0 }
  return UInt32.ofNat ending.exitCode
