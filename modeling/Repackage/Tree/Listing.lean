import Repackage.Tree.FileName

/-!
Directory trees. A listing is what a directory holds: files with their bytes and
folders with listings of their own, in the order of their names.
-/

namespace Repackage

inductive Listing where
  | empty
  | file (name : FileName) (content : ByteArray) (rest : Listing)
  | folder (name : FileName) (inside : Listing) (rest : Listing)

/-- What a name stands for. -/
inductive Node where
  | file (content : ByteArray)
  | folder (inside : Listing)

/-- The names that lead from a directory to something in it, all of them texts. -/
abbrev Location := List String

namespace Listing

/-- The listing with one more entry in front. -/
def cons (name : FileName) : Node → Listing → Listing
  | .file content, rest => .file name content rest
  | .folder inside, rest => .folder name inside rest

def find? (name : FileName) : Listing → Option Node
  | .empty => none
  | .file n content rest => if n = name then some (.file content) else rest.find? name
  | .folder n inside rest => if n = name then some (.folder inside) else rest.find? name

/-- Gives the name a node, in place of the one it stands for or where its name
belongs. -/
def insert (name : FileName) (node : Node) : Listing → Listing
  | .empty => cons name node .empty
  | .file n content rest =>
      if n = name then cons name node rest
      else if name < n then cons name node (.file n content rest)
      else .file n content (rest.insert name node)
  | .folder n inside rest =>
      if n = name then cons name node rest
      else if name < n then cons name node (.folder n inside rest)
      else .folder n inside (rest.insert name node)

def erase (name : FileName) : Listing → Listing
  | .empty => .empty
  | .file n content rest => if n = name then rest else .file n content (rest.erase name)
  | .folder n inside rest => if n = name then rest else .folder n inside (rest.erase name)

/-- The files below a directory, depth first, each directory by its names. -/
def contents : Listing → List (List FileName × ByteArray)
  | .empty => []
  | .file name content rest => ([name], content) :: rest.contents
  | .folder name inside rest =>
      (inside.contents.map fun file => (name :: file.1, file.2)) ++ rest.contents

/-- The folders below a directory, each before the folders in it. -/
def directories : Listing → List (List FileName)
  | .empty => []
  | .file _ _ rest => rest.directories
  | .folder name inside rest =>
      [name] :: inside.directories.map (name :: ·) ++ rest.directories

/-- The files that have a location. -/
def files (listing : Listing) : List (Location × ByteArray) :=
  listing.contents.filterMap fun file =>
    (file.1.mapM FileName.text?).map fun location => (location, file.2)

/-- The folders that have a location. -/
def folders (listing : Listing) : List Location :=
  listing.directories.filterMap fun names => names.mapM FileName.text?

end Listing

namespace Node

/-- What the names lead to. -/
def at? : List FileName → Node → Option Node
  | [], node => some node
  | _ :: _, .file _ => none
  | name :: rest, .folder inside =>
      match inside.find? name with
      | none => none
      | some node => at? rest node

/-- Puts a node where the names lead. Folders that are missing on the way are made, and
nothing changes if a file stands in the way. -/
def put (new : Node) : List FileName → Node → Node
  | [], _ => new
  | _ :: _, .file content => .file content
  | name :: rest, .folder inside =>
      .folder (inside.insert name (put new rest ((inside.find? name).getD (.folder .empty))))

/-- Removes what the names lead to. -/
def remove : List FileName → Node → Node
  | [], node => node
  | _ :: _, .file content => .file content
  | [name], .folder inside => .folder (inside.erase name)
  | name :: next :: rest, .folder inside =>
      match inside.find? name with
      | none => .folder inside
      | some node => .folder (inside.insert name (remove (next :: rest) node))

end Node
end Repackage
