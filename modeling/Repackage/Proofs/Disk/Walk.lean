import Repackage.Proofs.Disk.Tree
import Repackage.Tree.Walk

/-!
A walk over a directory tree. A walk that is not cut short comes by every file below the
directory, and by each with what reading it by its path gives. That it comes by nothing else is
not claimed, since a listing may hold a name twice.
-/

namespace Repackage

namespace Listing

theorem mem_contents_of_find? {listing : Listing} {name : FileName} {node : Node}
    {rest : List FileName} {content : ByteArray} (found : listing.find? name = some node)
    (there : node.fileAt? rest = some content)
    (below : ∀ inside, node = .folder inside → (rest, content) ∈ inside.contents) :
    (name :: rest, content) ∈ listing.contents := by
  induction listing with
  | empty => simp [find?] at found
  | file n bytes others ih =>
      rw [find?] at found
      split at found
      · rename_i same
        obtain rfl := Option.some.inj found
        cases rest with
        | nil =>
            obtain rfl : bytes = content := Option.some.inj there
            simp [contents, same]
        | cons next rest => simp [Node.fileAt?, Node.at?] at there
      · exact List.mem_cons_of_mem _ (ih found)
  | folder n inside others _ ih =>
      rw [find?] at found
      rw [contents, List.mem_append]
      split at found
      · rename_i same
        subst same
        obtain rfl := Option.some.inj found
        exact .inl (List.mem_map.mpr ⟨_, below inside rfl, rfl⟩)
      · exact .inr (ih found)

end Listing

theorem Node.mem_contents_of_fileAt? {inside : Listing} {names : List FileName}
    {content : ByteArray} (h : (folder inside).fileAt? names = some content) :
    (names, content) ∈ inside.contents := by
  induction names generalizing inside with
  | nil => simp [fileAt?, at?] at h
  | cons name rest ih =>
      rw [fileAt?_folder_cons] at h
      obtain ⟨node, found, there⟩ := Option.bind_eq_some_iff.mp h
      refine Listing.mem_contents_of_find? found there ?_
      rintro inside rfl
      exact ih there

namespace Listing

/-- The names that a directory holds itself. -/
def names : Listing → List FileName
  | .empty => []
  | .file name _ rest => name :: rest.names
  | .folder name _ rest => name :: rest.names

theorem exists_name_of_mem_contents {listing : Listing} {names : List FileName}
    {content : ByteArray} (h : (names, content) ∈ listing.contents) :
    ∃ name rest, names = name :: rest ∧ name ∈ listing.names := by
  induction listing with
  | empty => cases h
  | file n bytes others ih =>
      rcases List.mem_cons.mp h with here | later
      · cases here
        exact ⟨n, [], rfl, List.mem_cons_self⟩
      · obtain ⟨name, rest, rfl, there⟩ := ih later
        exact ⟨name, rest, rfl, List.mem_cons_of_mem n there⟩
  | folder n inside others _ ih =>
      rcases List.mem_append.mp h with below | later
      · obtain ⟨file, -, same⟩ := List.mem_map.mp below
        cases same
        exact ⟨n, file.1, rfl, List.mem_cons_self⟩
      · obtain ⟨name, rest, rfl, there⟩ := ih later
        exact ⟨name, rest, rfl, List.mem_cons_of_mem n there⟩

end Listing

/-- What reading a file by its path gives. -/
def Disk.readAt (path : List UInt8) (content : ByteArray) : Except FileError ByteArray :=
  (checkLength path).map fun _ => content

theorem Disk.readAt_eq_ok_iff {path : List UInt8} {content read : ByteArray} :
    readAt path content = .ok read ↔ path.length ≤ maxPath ∧ content = read := by
  rw [readAt, checkLength]
  split <;> simp_all [Except.map]

/-- A walk that is not cut short comes by the files in their order. -/
theorem Listing.files_of_walk {listing : Listing} {front : List UInt8} {files : List WalkedFile}
    (walked : listing.walk front = .ok files) :
    files = listing.contents.map fun file =>
      ⟨file.1, Disk.readAt (front ++ FileName.join file.1) file.2⟩ := by
  induction listing generalizing front files with
  | empty =>
      cases walked
      rfl
  | file name content rest ih =>
      simp only [walk, bind_eq_ok_iff] at walked
      obtain ⟨others, onward, made⟩ := walked
      cases made
      rw [contents, List.map_cons, ← ih onward]
      rfl
  | folder name inside rest below ih =>
      simp only [walk, bind_eq_ok_iff] at walked
      obtain ⟨_, -, within, inner, others, onward, made⟩ := walked
      cases made
      rw [contents, List.map_append, ← ih onward, below inner, List.map_map, List.map_map]
      refine congrArg (· ++ others) (List.map_congr_left fun file there => ?_)
      obtain ⟨first, more, named, -⟩ := exists_name_of_mem_contents there
      simp [named, FileName.join_cons]

namespace DiskTree

/-- A walk from the root is one over the folder there. -/
theorem RootedAt.walk_eq {tree : DiskTree} {root : Location} (rooted : tree.RootedAt root)
    {inside : Listing} (there : tree.disk.node? root = some (.folder inside))
    (checked : Disk.checkName tree.root = .ok ()) :
    tree.disk.walk tree.root = inside.walk (Disk.front tree.root) := by
  have reached : tree.disk.follow (tree.disk.start tree.root) (Disk.steps tree.root)
      = .ok root := by
    rw [Disk.steps]
    split
    · -- a slash at the end of the root is one more step, which stays
      rw [Disk.follow_append_of_folder rooted.walk rooted.folder]
      exact Disk.follow_of_step .stay []
    · exact rooted.walk
  rw [Disk.walk, Disk.lookup_eq_ok_iff.mpr ⟨checked, root, reached, there⟩]

end DiskTree

namespace Disk

theorem checkName_eq_ok_iff {path : String} : checkName path = .ok () ↔
    '\x00' ∉ path.toList ∧ (Text.bytes path).length ≤ maxPath ∧ path ≠ "" := by
  rw [checkName, Text.length_bytes]
  split
  · simp_all
  · split
    · rename_i long
      simp [Nat.not_le.mpr long]
    · rename_i short
      split <;> simp_all [String.isEmpty_iff]

/-- The path of what names lead to from the directory at a path. -/
def below (path : String) (names : List FileName) : List UInt8 :=
  if names.isEmpty then Text.bytes path else front path ++ FileName.join names

theorem below_of_ne_nil {names : List FileName} (some : names ≠ []) (path : String) :
    below path names = front path ++ FileName.join names := by
  rw [below, if_neg (by simpa using some)]

end Disk

namespace DiskTree

end DiskTree
end Repackage
