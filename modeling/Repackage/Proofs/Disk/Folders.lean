import Repackage.Proofs.Disk.Tree

/-!
The folders of a disk tree, by the names that lead to them from its place. The walk to a path
passes certain locations, and making the directory of the path makes folders of just those that
are missing, also above the tree and on a way that steps up again. Below a root that is there
they are the missing directories above the path and the path itself.
-/

namespace Repackage

namespace Disk

/-- Where a name leads: `.` stays where it is and `..` steps up. -/
def stride (location : Location) (name : String) : Location :=
  if name = "." then location
  else if name = ".." then location.dropLast
  else location ++ [name]

/-- The locations that a walk passes, those of its start and of its end included. -/
def passed (location : Location) : List String → List Location
  | [] => [location]
  | name :: rest => location :: passed (stride location name) rest

theorem start_mem_passed (location : Location) (names : List String) :
    location ∈ passed location names := by
  cases names <;> exact List.mem_cons_self

theorem mem_passed_append {location query : Location} {before names : List String} :
    query ∈ passed location (before ++ names) ↔
      query ∈ passed location before ∨ query ∈ passed (before.foldl stride location) names := by
  induction before generalizing location with
  | nil =>
      refine ⟨.inr, ?_⟩
      rintro (here | further)
      · rw [List.mem_singleton.mp here]
        exact start_mem_passed location names
      · exact further
  | cons name before ih =>
      simp only [List.cons_append, passed, List.mem_cons, ih, or_assoc, List.foldl_cons]

theorem stride_of_name {name : String} (plain : Path.IsName name) (location : Location) :
    stride location name = location ++ [name] := by
  rw [stride, if_neg plain.2.1, if_neg plain.2.2.1]

theorem mem_passed_names {location query : Location} {names : List String}
    (plain : ∀ name ∈ names, Path.IsName name) :
    query ∈ passed location names ↔ ∃ front, front <+: names ∧ query = location ++ front := by
  induction names generalizing location with
  | nil => simp [passed]
  | cons name rest ih =>
      obtain ⟨first, others⟩ := List.forall_mem_cons.mp plain
      rw [passed, List.mem_cons, stride_of_name first, ih others]
      constructor
      · rintro (rfl | ⟨front, above, rfl⟩)
        · exact ⟨[], List.nil_prefix, (List.append_nil _).symm⟩
        · exact ⟨name :: front, List.cons_prefix_cons.mpr ⟨rfl, above⟩, by simp⟩
      · rintro ⟨front, above, rfl⟩
        rcases List.prefix_cons_iff.mp above with rfl | ⟨front', rfl, above'⟩
        · exact .inl (List.append_nil _)
        · exact .inr ⟨front', above', by simp⟩

theorem Step.eq_stride {disk : Disk} {location next : Location} {name : String}
    (h : disk.Step location name next) : next = stride location name := by
  cases h with
  | stay => simp [stride]
  | up => simp [stride]
  | down notHere notUp _ _ => rw [stride, if_neg notHere, if_neg notUp]

theorem Step.isFolderAt {disk : Disk} {location next : Location} {name : String}
    (h : disk.Step location name next) (folder : disk.IsFolderAt location) :
    disk.IsFolderAt next := by
  cases h with
  | stay => exact folder
  | up => exact folder.dropLast
  | down _ _ _ there => exact there

/-- A walk that reaches a folder ends where its names lead, and passes folders only. -/
theorem passed_of_follow {disk : Disk} {location reached : Location} {names : List String}
    (h : disk.follow location names = .ok reached) (folder : disk.IsFolderAt reached)
    (start : disk.IsFolderAt location) :
    reached = names.foldl stride location ∧
      ∀ query ∈ passed location names, disk.IsFolderAt query := by
  induction names generalizing location with
  | nil =>
      cases h
      simpa [passed] using start
  | cons name rest ih =>
      rcases follow_cons_ok h with ⟨next, step, onward⟩ | ⟨-, rfl, -, file⟩
      · obtain ⟨ends, folders⟩ := ih onward (step.isFolderAt start)
        obtain rfl := step.eq_stride
        exact ⟨ends, List.forall_mem_cons.mpr ⟨start, folders⟩⟩
      · exact absurd folder (not_isFolderAt_of_file file)

/-- The directories that can all be made are then the folders that the walk passes, and no
other folder is made. -/
theorem isFolderAt_makeFrom_iff {disk disk' : Disk} {made : Bool} {location : Location}
    {names : List String} (folder : disk.IsFolderAt location)
    (done : disk.makeFrom made location names = (.ok (), disk')) (query : Location) :
    disk'.IsFolderAt query ↔ disk.IsFolderAt query ∨ query ∈ passed location names := by
  induction names generalizing disk made location with
  | nil =>
      cases done
      exact (or_iff_left_of_imp fun here => List.mem_singleton.mp here ▸ folder).symm
  | cons name rest ih =>
      -- the start of the walk is there already, so that what comes after it decides
      have here : query = location → disk.IsFolderAt query ∨
          query ∈ passed (stride location name) rest := fun same => .inl (same ▸ folder)
      rw [passed, List.mem_cons, or_left_comm, or_iff_right_of_imp here]
      rw [makeFrom] at done
      split at done
      · rename_i same
        rw [stride, if_pos same]
        exact ih folder done
      · rename_i notHere
        split at done
        · rename_i same
          rw [stride, if_neg notHere, if_pos same]
          exact ih folder.dropLast done
        · rename_i notUp
          rw [stride, if_neg notHere, if_neg notUp]
          split at done
          · cases done
          · split at done
            · rename_i absent
              have put := isFolderAt_put_folder_iff folder (not_isFolderAt_of_node?_none absent)
              refine (ih ((put _).mpr (.inr rfl)) done).trans ?_
              rw [put, or_assoc]
              exact or_congr_right (or_iff_right_of_imp fun same => same ▸ start_mem_passed _ _)
            · cases done
            · rename_i inside there
              exact ih ⟨inside, there⟩ done

end Disk

namespace DiskTree

/-- Where the path of the root leads, whether anything is there or not. -/
def place (tree : DiskTree) : Location :=
  (Path.components tree.root).foldl Disk.stride (tree.disk.start tree.root)

/-- The names lead to a folder from the place of the tree. -/
def HasFolder (tree : DiskTree) (names : List String) : Prop :=
  tree.disk.IsFolderAt (tree.place ++ names)

instance (tree : DiskTree) (names : List String) : Decidable (tree.HasFolder names) :=
  inferInstanceAs (Decidable (tree.disk.IsFolderAt (tree.place ++ names)))

/-- The locations that the walk to a path passes, through the root and on. -/
def way (tree : DiskTree) (path : String) : List Location :=
  Disk.passed (tree.disk.start tree.root)
    (Path.components tree.root ++ Path.components path)

variable {tree tree' : DiskTree} {path : String}

theorem place_of_keeps {disk' : Disk} (keeps : tree.disk.Keeps disk') :
    place { tree with disk := disk' } = tree.place := by
  simp only [place, keeps.start]

theorem way_of_keeps {disk' : Disk} (keeps : tree.disk.Keeps disk') (path : String) :
    way { tree with disk := disk' } path = tree.way path := by
  simp only [way, keeps.start]

theorem mem_way_iff (normal : Path.IsNormal path) {names : List String} :
    tree.place ++ names ∈ tree.way path ↔
      tree.place ++ names ∈ Disk.passed (tree.disk.start tree.root) (Path.components tree.root) ∨
        names <+: Path.components path := by
  have plain : ∀ name ∈ Path.components path, Path.IsName name := fun _ hn =>
    (name_of_mem_components normal hn).1
  rw [way, Disk.mem_passed_append, Disk.mem_passed_names plain]
  refine or_congr_right ?_
  constructor
  · rintro ⟨front, above, same⟩
    rwa [List.append_cancel_left same]
  · exact fun above => ⟨names, above, rfl⟩

theorem components_mem_way (normal : Path.IsNormal path) :
    tree.place ++ Path.components path ∈ tree.way path :=
  (mem_way_iff normal).mpr (.inr (List.prefix_refl _))

section Rooted

variable {root : Location} (start : tree.disk.IsFolderAt (tree.disk.start tree.root))

include start

theorem RootedAt.eq_place (rooted : tree.RootedAt root) : root = tree.place :=
  (Disk.passed_of_follow rooted.walk rooted.folder start).1

/-- On the way to a path below a root that is there, only what is above the path or the path
itself can be missing. -/
theorem RootedAt.mem_way_iff (rooted : tree.RootedAt root) (normal : Path.IsNormal path)
    {names : List String} (missing : ¬ tree.HasFolder names) :
    tree.place ++ names ∈ tree.way path ↔ names <+: Path.components path := by
  rw [DiskTree.mem_way_iff normal]
  refine or_iff_right ?_
  intro before
  exact missing ((Disk.passed_of_follow rooted.walk rooted.folder start).2 _ before)

theorem hasFolder_of_isDirectory (normal : Path.IsNormal path)
    (seen : tree.isDirectory path = true) : tree.HasFolder (Path.components path) := by
  obtain ⟨-, root, rooted, there⟩ := (isDirectory_iff normal).mp seen
  rwa [rooted.eq_place start] at there

theorem RootedAt.isDirectory_of_hasFolder (rooted : tree.RootedAt root)
    (normal : Path.IsNormal path) (admits : tree.Admits path)
    (there : tree.HasFolder (Path.components path)) : tree.isDirectory path = true := by
  rw [HasFolder, ← rooted.eq_place start] at there
  exact (isDirectory_iff normal).mpr ⟨admits, root, rooted, there⟩

/-- Making the directory of a path makes folders of what the way to it passes. -/
theorem isFolderAt_createDirs (normal : Path.IsNormal path)
    (h : SourceTree.createDirs path tree = (.ok (), tree')) (location : Location) :
    tree'.disk.IsFolderAt location ↔
      tree.disk.IsFolderAt location ∨ location ∈ tree.way path := by
  obtain ⟨disk', rfl, -⟩ := createDirs_keeps normal h
  exact Disk.isFolderAt_makeFrom_iff start (createDirs_made normal h).2 location

end Rooted

end DiskTree
end Repackage
