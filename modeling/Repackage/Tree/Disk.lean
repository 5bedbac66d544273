import Repackage.Failure
import Repackage.Path
import Repackage.Tree.Listing

/-!
A disk: one directory tree and the working directory that relative paths start from.
A path is followed step by step, and every step must start in a directory. Links and
permissions do not occur.
-/

namespace Repackage

structure Disk where
  top : Listing
  /-- Where the working directory stands. -/
  working : Location

namespace Disk

/-- The longest name, and the longest path, in bytes. -/
def maxName : Nat := 255
def maxPath : Nat := 4095

def node? (disk : Disk) (location : Location) : Option Node :=
  Node.at? (location.map .ofText) (.folder disk.top)

/-- Puts a node at a location, and makes the folders that are missing above it. -/
def put (disk : Disk) (location : Location) (node : Node) : Disk :=
  match Node.put node (location.map .ofText) (.folder disk.top) with
  | .folder top => { disk with top }
  | .file _ => disk

def remove (disk : Disk) (location : Location) : Disk :=
  match Node.remove (location.map .ofText) (.folder disk.top) with
  | .folder top => { disk with top }
  | .file _ => disk

def isAbsolute (path : String) : Bool :=
  path.toList.head? = some '/'

def endsWithSlash (path : String) : Bool :=
  path.toList.getLast? = some '/'

/-- Where the steps of a path start. -/
def start (disk : Disk) (path : String) : Location :=
  if isAbsolute path then [] else disk.working

/-- Refuses a path that can name nothing. -/
def checkName (path : String) : Except FileError Unit :=
  if '\x00' ∈ path.toList then .error .nulInName
  else if maxPath < path.utf8ByteSize then .error .nameTooLong
  else if path.isEmpty then .error .notFound
  else .ok ()

/-- Follows names from a directory. `.` stays where it is and `..` steps up, from the
top to the top itself. -/
def follow (disk : Disk) (location : Location) : List String → Except FileError Location
  | [] => .ok location
  | name :: rest =>
      if name = "." then disk.follow location rest
      else if name = ".." then disk.follow location.dropLast rest
      else if maxName < name.utf8ByteSize then .error .nameTooLong
      else
        match disk.node? (location ++ [name]) with
        | none => .error .notFound
        | some (.file _) =>
            if rest.isEmpty then .ok (location ++ [name]) else .error .notADirectory
        | some (.folder _) => disk.follow (location ++ [name]) rest

/-- The steps of a path. A slash at the end asks for a directory, as one more step
that stays there. -/
def steps (path : String) : List String :=
  if endsWithSlash path then Path.components path ++ ["."] else Path.components path

/-- What a path names. -/
def lookup (disk : Disk) (path : String) : Except FileError Node := do
  checkName path
  let location ← disk.follow (disk.start path) (steps path)
  match disk.node? location with
  | none => .error .notFound
  | some node => .ok node

def isFile (disk : Disk) (path : String) : Bool :=
  match disk.lookup path with
  | .ok (.file _) => true
  | _ => false

def isDirectory (disk : Disk) (path : String) : Bool :=
  match disk.lookup path with
  | .ok (.folder _) => true
  | _ => false

def readBytes (disk : Disk) (path : String) : Except FileError ByteArray := do
  match ← disk.lookup path with
  | .file content => .ok content
  | .folder _ => .error .isADirectory

/-- The content of a file, which must be UTF-8. -/
def readText (disk : Disk) (path : String) : Except FileError String := do
  match String.fromUTF8? (← disk.readBytes path) with
  | some text => .ok text
  | none => .error .notText

/-- The location that a file is written to: a name in a directory that exists, which
does not stand for a directory itself. -/
def target (disk : Disk) (path : String) : Except FileError Location := do
  checkName path
  let names := Path.components path
  let directory ← disk.follow (disk.start path) names.dropLast
  match disk.node? directory, names.getLast? with
  | none, _ => .error .notFound
  | some (.file _), _ => .error .notADirectory
  | some (.folder _), none => .error .isADirectory
  | some (.folder _), some name =>
      if name = "." || name = ".." || endsWithSlash path then .error .isADirectory
      else if maxName < name.utf8ByteSize then .error .nameTooLong
      else
        match disk.node? (directory ++ [name]) with
        | some (.folder _) => .error .isADirectory
        | _ => .ok (directory ++ [name])

/-- Creates a file, or replaces its content. -/
def write (disk : Disk) (path content : String) : Except FileError Disk := do
  return disk.put (← disk.target path) (.file content.toUTF8)

/-- Follows names from a directory and makes those that are missing. What is made
before a failure stays. `made` holds once a directory was missing: from then on each
directory is asked for on its own, and a file in its place exists already, while before
that a file in front of other names is no directory. -/
def makeFrom (disk : Disk) (made : Bool) (location : Location) :
    List String → Except FileError Unit × Disk
  | [] => (.ok (), disk)
  | name :: rest =>
      if name = "." then disk.makeFrom made location rest
      else if name = ".." then disk.makeFrom made location.dropLast rest
      else if maxName < name.utf8ByteSize then (.error .nameTooLong, disk)
      else
        match disk.node? (location ++ [name]) with
        | none =>
            (disk.put (location ++ [name]) (.folder .empty)).makeFrom true
              (location ++ [name]) rest
        | some (.file _) =>
            (.error (if made || rest.isEmpty then .alreadyExists else .notADirectory), disk)
        | some (.folder _) => disk.makeFrom made (location ++ [name]) rest

/-- Makes what a path that ends in `.` names. Only the directories above it can be made,
and it must be there when they are. -/
def makeAbove (disk : Disk) (location : Location) (names : List String) :
    Except FileError Unit × Disk :=
  match disk.follow location names with
  | .ok _ => (.ok (), disk)
  | .error .notFound =>
      let above := ((names.reverse.dropWhile (· = ".")).drop 1).reverse
      match disk.makeFrom false location above with
      | (.error cause, disk) => (.error cause, disk)
      | (.ok (), disk) => ((disk.follow location names).map fun _ => (), disk)
  | .error cause => (.error cause, disk)

/-- Makes the directory and the missing ones above it. -/
def createDirs (disk : Disk) (path : String) : Except FileError Unit × Disk :=
  let names := Path.components path
  if path.isEmpty then (.ok (), disk)
  else
    match checkName path with
    | .error cause => (.error cause, disk)
    | .ok () =>
        if names.getLast? = some "." then disk.makeAbove (disk.start path) names
        else disk.makeFrom false (disk.start path) names

end Disk
end Repackage
