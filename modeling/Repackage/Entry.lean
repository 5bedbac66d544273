import Repackage.Path
import Repackage.Rule

/-!
Entries and manifests. An entry names one file to process: a relocation copies it
and redeclares its package, a fixup repairs it where it stands. A manifest lists
the entries of one pass in the order in which they are processed.
-/

namespace Repackage

/-- The package of a relocated file before and after the move. -/
structure PackageMove where
  old : String
  new : String
  deriving DecidableEq, Repr

def PackageMove.declarationRule (move : PackageMove) : Rule :=
  Rule.declaration move.old move.new

inductive EntryKind where
  | relocation
  | importFixup
  deriving DecidableEq, Repr

/-- One file to process. A fixup has no package move and equal paths. -/
structure Entry where
  source : String
  dest : String
  package : Option PackageMove
  deriving DecidableEq, Repr

/-- A path that an entry may not name. -/
structure UnsafePath where
  path : String
  fault : Path.Fault
  deriving DecidableEq, Repr

namespace Entry

/-- The normal form of a path that an entry names. -/
def checkPath (raw : String) : Except UnsafePath String :=
  (Path.normalize raw).mapError (⟨raw, ·⟩)

def relocation (source dest old new : String) : Except UnsafePath Entry := do
  let source ← checkPath source
  let dest ← checkPath dest
  return ⟨source, dest, some ⟨old, new⟩⟩

def fixup (path : String) : Except UnsafePath Entry := do
  let path ← checkPath path
  return ⟨path, path, none⟩

def kind (entry : Entry) : EntryKind :=
  if entry.package.isSome then .relocation else .importFixup

/-- Whether the entry writes back to the file that it reads. -/
def isInPlace (entry : Entry) : Bool :=
  entry.source = entry.dest

end Entry

abbrev Manifest := List Entry

namespace Manifest

/-- The number of entries of one kind. -/
def countKind (manifest : Manifest) (kind : EntryKind) : Nat :=
  manifest.countP (·.kind = kind)

def destinations (manifest : Manifest) : List String :=
  manifest.map (·.dest)

/-- The destinations of more than one entry, each once, in the order of the paths. -/
def sharedDestinations (manifest : Manifest) : List String :=
  let all := manifest.destinations
  ((all.filter (1 < all.count ·)).eraseDups).mergeSort fun a b => decide (a ≤ b)

end Manifest
end Repackage
