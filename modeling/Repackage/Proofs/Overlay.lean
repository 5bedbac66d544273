import Repackage.Proofs.Disk.Tree
import Repackage.Proofs.PathMap
import Repackage.Proofs.Trace
import Repackage.Tree.Overlay

/-!
The files that an overlay shows. Making directories changes none of them, a write changes
the one it names, neither is ever refused, and the disk below stays as it is.
-/

namespace Repackage

/-- The bytes that are seen at a path: those staged there, or else those on the disk. -/
def Overlay.file? (overlay : Overlay) (path : String) : Option ByteArray :=
  match overlay.staged.find? path with
  | some text => some text.toUTF8
  | none => overlay.base.file? path

namespace Overlay

theorem isFile_eq (overlay : Overlay) (path : String) :
    SourceTree.isFile path overlay = ((overlay.file? path).isSome, overlay) := by
  simp only [SourceTree.isFile, PathMap.contains, file?, DiskTree.isFile_eq]
  cases overlay.staged.find? path <;> rfl

theorem read_of_file? {overlay : Overlay} {path : String} {content : ByteArray}
    (h : overlay.file? path = some content) :
    SourceTree.read path overlay = (DiskTree.textOf content, overlay) := by
  simp only [SourceTree.read]
  cases hs : overlay.staged.find? path with
  | some text =>
      simp only [file?, hs, Option.some.injEq] at h
      subst h
      rw [DiskTree.textOf_toUTF8]
  | none =>
      simp only [file?, hs] at h
      simp only [DiskTree.readText_of_file? h]

theorem file?_of_base {overlay : Overlay} {base : DiskTree} (h : overlay.base = base)
    (path : String) :
    overlay.file? path =
      match overlay.staged.find? path with
      | some text => some text.toUTF8
      | none => base.file? path := by
  subst h
  rfl

theorem createDirs_eq (overlay : Overlay) (path : String) :
    ∃ overlay', SourceTree.createDirs path overlay = (.ok (), overlay') ∧
      ∀ query, overlay'.file? query = overlay.file? query := by
  simp only [SourceTree.createDirs]
  split
  · exact ⟨overlay, rfl, fun _ => rfl⟩
  · exact ⟨_, rfl, fun _ => rfl⟩

theorem write_eq (overlay : Overlay) (path content : String) :
    ∃ overlay', SourceTree.write path content overlay = (.ok (), overlay') ∧
      ∀ query, overlay'.file? query =
        if query = path then some content.toUTF8 else overlay.file? query := by
  refine ⟨_, rfl, ?_⟩
  intro query
  simp only [file?, PathMap.find?_insert]
  by_cases same : query = path <;> simp [same]

theorem exists_prepared (overlay : Overlay) (path : String) :
    ∃ overlay', Prepared path overlay overlay' ∧
      ∀ query, overlay'.file? query = overlay.file? query := by
  by_cases top : Path.parent path = ""
  · exact ⟨overlay, .atTop top, fun _ => rfl⟩
  · obtain ⟨overlay', made, same⟩ := overlay.createDirs_eq (Path.parent path)
    exact ⟨overlay', .made top made, same⟩

theorem closed_base (base : DiskTree) :
    Closed fun overlay : Overlay => overlay.base = base where
  isFile _ h := h
  read path h := by
    simp only [SourceTree.read]
    split <;> exact h
  createDirs path h := by
    simp only [SourceTree.createDirs]
    split <;> exact h
  write _ _ h := h

end Overlay
end Repackage
