import Repackage.Failure

/-!
What a run asks of a tree of source files. Paths are relative to the root of the
tree and have `/` between their components.
-/

namespace Repackage

/-- One access to a tree: its answer, and the tree as the access leaves it. -/
abbrev Access (τ α : Type) := τ → α × τ

/-- The accesses that a run makes. -/
class SourceTree (τ : Type) where
  /-- Whether the path names a file. -/
  isFile (path : String) : Access τ Bool
  /-- The whole content of a file as text. -/
  read (path : String) : Access τ (Except FileError String)
  /-- Makes a directory and the missing ones above it. One that exists is left alone. -/
  createDirs (path : String) : Access τ (Except FileError Unit)
  /-- Creates a file with this content, or replaces the content of the file. -/
  write (path content : String) : Access τ (Except FileError Unit)

end Repackage
