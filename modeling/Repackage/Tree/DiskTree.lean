import Repackage.Tree.Basic
import Repackage.Tree.Disk

/-!
The tree below a directory of a disk.
-/

namespace Repackage

/-- The files of `disk` below the directory that the path `root` names. -/
structure DiskTree where
  root : String
  disk : Disk

namespace DiskTree

/-- The disk path of a tree path: the root and then the components that name something. -/
def resolve (tree : DiskTree) (path : String) : String :=
  (Path.components path).foldl Path.join tree.root

def isFile (tree : DiskTree) (path : String) : Bool :=
  tree.disk.isFile (tree.resolve path)

def isDirectory (tree : DiskTree) (path : String) : Bool :=
  tree.disk.isDirectory (tree.resolve path)

def readText (tree : DiskTree) (path : String) : Except FileError String :=
  tree.disk.readText (tree.resolve path)

instance : SourceTree DiskTree where
  isFile path tree := (tree.isFile path, tree)
  read path tree := (tree.readText path, tree)
  createDirs path tree :=
    let (result, disk) := tree.disk.createDirs (tree.resolve path)
    (result, { tree with disk })
  write path content tree :=
    match tree.disk.write (tree.resolve path) content with
    | .ok disk => (.ok (), { tree with disk })
    | .error cause => (.error cause, tree)

end DiskTree
end Repackage
