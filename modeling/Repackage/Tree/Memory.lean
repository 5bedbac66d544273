import Repackage.PathMap
import Repackage.Tree.Basic

/-!
A tree in memory whose accesses can be made to fail, and trees that record the
accesses made to them.
-/

namespace Repackage

/-- Files by path, without directories. An access to a path that stands under its
failures fails with the error given there and changes nothing. -/
structure MemoryTree where
  files : PathMap String := {}
  badRead : PathMap FileError := {}
  badCreate : PathMap FileError := {}
  badWrite : PathMap FileError := {}

/-- The error for a file that a tree in memory does not have. -/
def MemoryTree.missing : FileError :=
  .other "no such file"

instance : SourceTree MemoryTree where
  isFile path tree := (tree.badRead.contains path || tree.files.contains path, tree)
  read path tree :=
    match tree.badRead.find? path, tree.files.find? path with
    | some cause, _ => (.error cause, tree)
    | none, some content => (.ok content, tree)
    | none, none => (.error MemoryTree.missing, tree)
  createDirs path tree :=
    match tree.badCreate.find? path with
    | some cause => (.error cause, tree)
    | none => (.ok (), tree)
  write path content tree :=
    match tree.badWrite.find? path with
    | some cause => (.error cause, tree)
    | none => (.ok (), { tree with files := tree.files.insert path content })

/-- An access and what it was asked. -/
inductive Call where
  | isFile (path : String)
  | read (path : String)
  | createDirs (path : String)
  | write (path content : String)
  deriving DecidableEq, Repr

/-- A tree and the calls made to it so far, the first one first. -/
structure Recorded (τ : Type) where
  tree : τ
  calls : List Call := []

namespace Recorded

variable {τ : Type}

/-- Notes the call and then makes it. -/
def record {α : Type} (call : Call) (access : Access τ α) : Access (Recorded τ) α :=
  fun recorded =>
    let (answer, tree) := access recorded.tree
    (answer, ⟨tree, recorded.calls ++ [call]⟩)

instance [SourceTree τ] : SourceTree (Recorded τ) where
  isFile path := record (.isFile path) (SourceTree.isFile path)
  read path := record (.read path) (SourceTree.read path)
  createDirs path := record (.createDirs path) (SourceTree.createDirs path)
  write path content := record (.write path content) (SourceTree.write path content)

end Recorded
end Repackage
