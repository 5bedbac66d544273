import Repackage.Proofs.Disk.Tree
import Repackage.Proofs.PathMap
import Repackage.Proofs.Trace
import Repackage.Tree.Memory

/-!
File stores: trees in which an access that fails changes no file. What holds of runs over
them is said of the text files alone, however often and in whatever order accesses fail.
Trees in memory and disk trees are file stores. The laws speak of normal paths, since a disk
knows no others apart.
-/

namespace Repackage

/-- A tree with text files, which only a write that succeeds changes. -/
class FileStore (τ : Type) [SourceTree τ] where
  files : τ → String → Option String
  files_isFile {tree tree' : τ} {path : String} {found : Bool} (normal : Path.IsNormal path)
    (h : SourceTree.isFile path tree = (found, tree')) : files tree' = files tree
  /-- What is not found is not there. -/
  absent {tree tree' : τ} {path : String} (normal : Path.IsNormal path)
    (h : SourceTree.isFile path tree = (false, tree')) : files tree path = none
  files_read {tree tree' : τ} {path : String} {answer : Except FileError String}
    (normal : Path.IsNormal path) (h : SourceTree.read path tree = (answer, tree')) :
    files tree' = files tree
  /-- What is read is there. -/
  present {tree tree' : τ} {path content : String} (normal : Path.IsNormal path)
    (h : SourceTree.read path tree = (.ok content, tree')) : files tree path = some content
  /-- A directory is made only after a file has been read. -/
  files_createDirs {tree tree' : τ} {path dir content : String}
    {answer : Except FileError Unit} (pathNormal : Path.IsNormal path)
    (held : files tree path = some content) (normal : Path.IsNormal dir)
    (h : SourceTree.createDirs dir tree = (answer, tree')) : files tree' = files tree
  files_write {tree tree' : τ} {path content : String} (normal : Path.IsNormal path)
    (h : SourceTree.write path content tree = (.ok (), tree')) (query : String) :
    files tree' query = if query = path then some content else files tree query
  files_write_error {tree tree' : τ} {path content : String} {cause : FileError}
    (normal : Path.IsNormal path) (h : SourceTree.write path content tree = (.error cause, tree')) :
    files tree' = files tree

instance : FileStore MemoryTree where
  files tree := tree.files.find?
  files_isFile _ h := by
    obtain ⟨-, rfl⟩ := Prod.mk.inj h
    rfl
  absent {tree _ path} _ h := by
    have none := congrArg Prod.fst h
    simp only [SourceTree.isFile, PathMap.contains, Bool.or_eq_false_iff] at none
    simpa using none.2
  files_read _ h := by
    simp only [SourceTree.read] at h
    split at h <;> (obtain ⟨-, rfl⟩ := Prod.mk.inj h; rfl)
  present {tree _ path content} _ h := by
    simp only [SourceTree.read] at h
    split at h
    · cases h
    · rename_i held
      obtain ⟨same, -⟩ := Prod.mk.inj h
      rw [held, Except.ok.inj same]
    · cases h
  files_createDirs _ _ _ h := by
    simp only [SourceTree.createDirs] at h
    split at h <;> (obtain ⟨-, rfl⟩ := Prod.mk.inj h; rfl)
  files_write {_ _ path content} _ h query := by
    simp only [SourceTree.write] at h
    split at h
    · cases h
    · obtain ⟨-, rfl⟩ := Prod.mk.inj h
      exact PathMap.find?_insert _ path query content
  files_write_error _ h := by
    simp only [SourceTree.write] at h
    split at h
    · obtain ⟨-, rfl⟩ := Prod.mk.inj h
      rfl
    · cases h

namespace DiskTree

/-- The files of a disk tree that hold text and have a normal path. -/
def text? (tree : DiskTree) (path : String) : Option String :=
  if Path.IsNormal path then (tree.file? path).bind (textOf · |>.toOption) else none

theorem text?_of_isNormal (tree : DiskTree) {path : String} (normal : Path.IsNormal path) :
    tree.text? path = (tree.file? path).bind (textOf · |>.toOption) :=
  if_pos normal

theorem text?_eq_some_iff {tree : DiskTree} {path text : String} (normal : Path.IsNormal path) :
    tree.text? path = some text ↔
      ∃ content, tree.file? path = some content ∧ String.fromUTF8? content = some text := by
  rw [text?_of_isNormal tree normal, Option.bind_eq_some_iff]
  simp only [← textOf_eq_ok_iff]
  refine exists_congr fun content => and_congr_right fun _ => ?_
  cases textOf content <;> simp [Except.toOption]

theorem text?_congr {tree tree' : DiskTree}
    (h : ∀ path, Path.IsNormal path → tree'.file? path = tree.file? path) :
    tree'.text? = tree.text? := by
  funext path
  simp only [text?]
  split
  · rename_i normal
    rw [h path normal]
  · rfl

instance : FileStore DiskTree where
  files := text?
  files_isFile _ h := by
    obtain ⟨-, rfl⟩ := Prod.mk.inj h
    rfl
  absent {tree _ path} normal h := by
    have none := congrArg Prod.fst h
    simp only [SourceTree.isFile, tree.isFile_eq, Option.isSome_eq_false_iff,
      Option.isNone_iff_eq_none] at none
    rw [tree.text?_of_isNormal normal, none]
    rfl
  files_read _ h := by
    obtain ⟨-, rfl⟩ := Prod.mk.inj h
    rfl
  present {tree _ path content} normal h := by
    have readText : tree.readText path = .ok content := congrArg Prod.fst h
    obtain ⟨bytes, there, text⟩ := file?_of_readText readText
    rw [tree.text?_of_isNormal normal, there, Option.bind_some, text]
    rfl
  files_createDirs {tree _ path _ content _} pathNormal held normal h := by
    rw [tree.text?_of_isNormal pathNormal] at held
    obtain ⟨bytes, there, -⟩ := Option.bind_eq_some_iff.mp held
    obtain ⟨root, rooted⟩ := RootedAt.of_file? pathNormal there
    exact text?_congr fun query hq => file?_createDirs rooted normal h hq
  files_write {tree tree' path content} normal h query := by
    simp only [text?]
    split
    · rename_i hq
      rw [file?_write normal h hq]
      split
      · rw [Option.bind_some, textOf_toUTF8]
        rfl
      · rfl
    · rename_i hq
      rw [if_neg]
      rintro rfl
      exact hq normal
  files_write_error _ h := by
    rw [write_error h]

end DiskTree

theorem DiskTree.loaded {tree : DiskTree} {path text : String} (normal : Path.IsNormal path)
    (held : FileStore.files tree path = some text) : Loaded path tree text tree := by
  obtain ⟨content, there, isText⟩ := (text?_eq_some_iff normal).mp held
  have found : SourceTree.isFile path tree = (true, tree) := by
    simp only [SourceTree.isFile, tree.isFile_eq, there, Option.isSome_some]
  have read : SourceTree.read path tree = (.ok text, tree) := by
    simp only [SourceTree.read, readText_of_file? there, textOf_eq_ok_iff.mpr isText]
  exact ⟨found, read⟩

section NeverFails

variable {τ : Type} [SourceTree τ]

/-- Trees on which every access succeeds, and that no access leaves. -/
structure Faultless (P : τ → Prop) : Prop extends Closed P where
  reads : ∀ {tree asked : τ} {path : String}, P tree →
    SourceTree.isFile path tree = (true, asked) →
    ∃ content tree', SourceTree.read path asked = (.ok content, tree')
  makes : ∀ {tree : τ} (path : String), P tree →
    ∃ tree', SourceTree.createDirs path tree = (.ok (), tree')
  stores : ∀ {tree : τ} (path content : String), P tree →
    ∃ tree', SourceTree.write path content tree = (.ok (), tree')

def NeverFails (tree : τ) : Prop :=
  ∃ P : τ → Prop, Faultless P ∧ P tree

theorem Faultless.turn {P : τ → Prop} (faultless : Faultless P) {tree tree' : τ} (h : P tree)
    {entry : Entry} {rules : RuleTable} {failure : Failure} :
    ¬ Turn entry rules tree (.error failure tree') := by
  intro turn
  cases turn with
  | unreadable found unread =>
      obtain ⟨_, _, read⟩ := faultless.reads h found
      rw [unread] at read
      cases read
  | unprepared loaded _ _ unmade =>
      obtain ⟨_, made⟩ :=
        faultless.makes (Path.parent entry.output) (faultless.loaded h loaded)
      rw [unmade] at made
      cases made
  | @unwritten _ _ _ content _ loaded _ prepared refused =>
      have ready := faultless.prepared (faultless.loaded h loaded) prepared
      obtain ⟨_, stored⟩ :=
        faultless.stores entry.output (entry.rewrite rules content).after ready
      rw [refused] at stored
      cases stored

theorem Phase.run_of_neverFails (phase : Phase) {tree : τ} (h : NeverFails tree) :
    ∃ visits tree', Course tree visits tree' ∧ visits.map Visit.stop = phase.stops ∧
      phase.run { tree } = .ok (Leg.pass ⟨phase, visits⟩) ⟨tree', Leg.events ⟨phase, visits⟩⟩ := by
  obtain ⟨P, faultless, h⟩ := h
  have ended := phase.run_ended tree []
  generalize phase.run { tree } = result at ended
  cases ended with
  | finished course stops => exact ⟨_, _, course, stops, rfl⟩
  | aborted course _ turn => exact absurd turn (faultless.turn (faultless.course h course))

end NeverFails

namespace MemoryTree

theorem faultless : Faultless fun tree : MemoryTree => ∃ files, tree = { files } where
  isFile _ h := h
  read _ h := by
    simp only [SourceTree.read]
    split <;> exact h
  createDirs _ h := by
    simp only [SourceTree.createDirs]
    split <;> exact h
  write path content h := by
    obtain ⟨files, rfl⟩ := h
    exact ⟨files.insert path content, rfl⟩
  reads {_ _ path} h found := by
    obtain ⟨files, rfl⟩ := h
    obtain ⟨there, rfl⟩ := Prod.mk.inj found
    have held : (files.find? path).isSome = true := there
    obtain ⟨content, held⟩ := Option.isSome_iff_exists.mp held
    refine ⟨content, { files }, ?_⟩
    simp only [SourceTree.read, held]
    rfl
  makes path h := by
    obtain ⟨files, rfl⟩ := h
    exact ⟨{ files }, rfl⟩
  stores path content h := by
    obtain ⟨files, rfl⟩ := h
    exact ⟨{ files := files.insert path content }, rfl⟩

theorem neverFails (files : PathMap String) : NeverFails ({ files } : MemoryTree) :=
  ⟨_, faultless, files, rfl⟩

end MemoryTree
end Repackage
