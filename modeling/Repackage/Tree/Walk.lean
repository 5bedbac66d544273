import Repackage.Tree.Disk

/-!
A walk over a directory tree: depth first, each directory by its names, and the files as
they come. The path of what it comes by is the path that the walk was given, and a slash
and a name for each step down. A directory whose path is too long cannot be opened, and
ends the walk; a file whose path is too long cannot be read.
-/

namespace Repackage

/-- A file that a walk comes by: the names that lead to it from where the walk starts, and
what reading it gives. -/
structure WalkedFile where
  names : List FileName
  content : Except FileError ByteArray

/-- A walk that ends at a path. -/
def walkFailure (path : String) (cause : FileError) : Failure :=
  .readFailure path (.walking path cause)

namespace Disk

/-- Refuses a path that is too long for the system. -/
def checkLength (path : List UInt8) : Except FileError Unit :=
  if maxPath < path.length then .error .nameTooLong else .ok ()

/-- What stands in front of the names in the directory at a path. -/
def front (path : String) : List UInt8 :=
  if endsWithSlash path then Text.bytes path else Text.bytes path ++ [FileName.slash]

end Disk

namespace Listing

/-- Walks what a directory holds; `front` stands in front of the names in it. -/
def walk (front : List UInt8) : Listing → Except Failure (List WalkedFile)
  | .empty => .ok []
  | .file name content rest => do
      let read := (Disk.checkLength (front ++ name.bytes)).map fun _ => content
      let others ← rest.walk front
      return ⟨[name], read⟩ :: others
  | .folder name inside rest => do
      let path := front ++ name.bytes
      (Disk.checkLength path).mapError (walkFailure (Text.lossy path))
      let within ← inside.walk (path ++ [FileName.slash])
      let others ← rest.walk front
      return within.map (fun file => { file with names := name :: file.names }) ++ others

end Listing

/-- The files at and below a path. -/
def Disk.walk (disk : Disk) (path : String) : Except Failure (List WalkedFile) :=
  match disk.lookup path with
  | .error cause => .error (walkFailure path cause)
  | .ok (.file content) => .ok [⟨[], .ok content⟩]
  | .ok (.folder inside) => inside.walk (front path)

end Repackage
