import Repackage.Rewrite
import Repackage.Tree.Basic

/-!
Moving content through a tree. Relocation copies: the source stays, so that a later
pass can read it. A missing source is an outcome and leaves the tree as it is.
-/

namespace Repackage

/-- Why nothing was done for an entry. -/
inductive SkipReason where
  | notFound
  deriving DecidableEq, Repr

/-- What was done for an entry. -/
inductive Relocated where
  /-- The content was written to the destination. -/
  | created (result : Rewritten)
  /-- The content changed and was written back. -/
  | updated (result : Rewritten)
  /-- The content stayed as it was, and nothing was written. -/
  | unchanged (result : Rewritten)
  | skipped (reason : SkipReason)
  deriving DecidableEq, Repr

def Relocated.result? : Relocated → Option Rewritten
  | .created result | .updated result | .unchanged result => some result
  | .skipped _ => none

/-- An activity on a tree. It may fail and then keeps what it did before. -/
abbrev TreeM (τ α : Type) := EStateM Failure τ α

namespace TreeM

variable {τ α : Type}

def ask (access : Access τ α) : TreeM τ α := fun tree =>
  match access tree with
  | (answer, tree) => .ok answer tree

/-- An access whose own failure is reported as `failure` says. -/
def attempt (failure : FileError → Failure) (access : Access τ (Except FileError α)) :
    TreeM τ α := fun tree =>
  match access tree with
  | (.ok answer, tree) => .ok answer tree
  | (.error cause, tree) => .error (failure cause) tree

variable [SourceTree τ]

/-- The content of a file, if there is one. -/
def load (path : String) : TreeM τ (Option String) := do
  if ← ask (SourceTree.isFile path) then
    let content ← attempt (.readFailure path) (SourceTree.read path)
    return some content
  else return none

/-- Writes a file after making the directory that holds it. -/
def persist (path content : String) : TreeM τ Unit := do
  let parent := Path.parent path
  if !parent.isEmpty then
    attempt (.writeFailure parent) (SourceTree.createDirs parent)
  attempt (.writeFailure path) (SourceTree.write path content)

/-- Writes what becomes of the source to the destination, also when nothing changed. -/
def relocate (source dest : String) (rewrite : String → Rewritten) : TreeM τ Relocated := do
  match ← load source with
  | none => return .skipped .notFound
  | some content =>
      let result := rewrite content
      persist dest result.after
      return .created result

/-- Writes what becomes of the file back to it, if it changed. -/
def rewriteInPlace (path : String) (rewrite : String → Rewritten) : TreeM τ Relocated := do
  match ← load path with
  | none => return .skipped .notFound
  | some content =>
      let result := rewrite content
      if result.changed then
        persist path result.after
        return .updated result
      else return .unchanged result

end TreeM
end Repackage
