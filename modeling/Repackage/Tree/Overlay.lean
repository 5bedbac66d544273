import Repackage.PathMap
import Repackage.Tree.DiskTree

/-!
A tree for dry runs. Reads see what was written to it before, and otherwise the disk;
writes are staged in memory and the disk is never changed.
-/

namespace Repackage

structure Overlay where
  base : DiskTree
  staged : PathMap String := {}
  /-- The directories that were asked for and that the disk does not have. -/
  made : PathMap Unit := {}

namespace Overlay

def createdDirs (overlay : Overlay) : List String :=
  overlay.made.keys

instance : SourceTree Overlay where
  isFile path overlay := (overlay.staged.contains path || overlay.base.isFile path, overlay)
  read path overlay :=
    match overlay.staged.find? path with
    | some content => (.ok content, overlay)
    | none => (overlay.base.readText path, overlay)
  createDirs path overlay :=
    if overlay.base.isDirectory path then (.ok (), overlay)
    else (.ok (), { overlay with made := overlay.made.insert path () })
  write path content overlay :=
    (.ok (), { overlay with staged := overlay.staged.insert path content })

end Overlay
end Repackage
