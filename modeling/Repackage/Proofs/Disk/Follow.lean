import Repackage.Proofs.Answers
import Repackage.Proofs.Disk.Node
import Repackage.Proofs.NormalPath

/-!
Following names from a directory. A walk down plain names ends where the names lead, a walk
that reaches a folder goes on from there, and it still reaches that folder after whatever
keeps folders. Making directories keeps folders and changes no file, also when it fails.
-/

namespace Repackage
namespace Disk

def Fit (names : List String) : Prop :=
  ∀ name ∈ names, name.utf8ByteSize ≤ maxName

instance (names : List String) : Decidable (Fit names) :=
  inferInstanceAs (Decidable (∀ name ∈ names, name.utf8ByteSize ≤ maxName))

theorem fit_cons {name : String} {names : List String} :
    Fit (name :: names) ↔ name.utf8ByteSize ≤ maxName ∧ Fit names :=
  List.forall_mem_cons

/-- One step of a walk that may go on: `.`, `..`, or down into a folder. -/
inductive Step (disk : Disk) (location : Location) : String → Location → Prop
  | stay : Step disk location "." location
  | up : Step disk location ".." location.dropLast
  | down {name : String} (notHere : name ≠ ".") (notUp : name ≠ "..")
      (short : name.utf8ByteSize ≤ maxName) (folder : disk.IsFolderAt (location ++ [name])) :
      Step disk location name (location ++ [name])

theorem follow_of_step {disk : Disk} {location next : Location} {name : String}
    (h : disk.Step location name next) (rest : List String) :
    disk.follow location (name :: rest) = disk.follow next rest := by
  cases h with
  | stay => simp [follow]
  | up => simp [follow]
  | down notHere notUp short folder =>
      obtain ⟨inside, hf⟩ := folder
      rw [← node?] at hf
      rw [follow, if_neg notHere, if_neg notUp, if_neg (Nat.not_lt.mpr short), hf]

/-- A walk that ends well takes a step and goes on, or was to end at a file. -/
theorem follow_cons_ok {disk : Disk} {location reached : Location} {name : String}
    {rest : List String} (h : disk.follow location (name :: rest) = .ok reached) :
    (∃ next, disk.Step location name next ∧ disk.follow next rest = .ok reached) ∨
      (rest = [] ∧ reached = location ++ [name] ∧ name.utf8ByteSize ≤ maxName ∧
        ∃ content, disk.node? reached = some (.file content)) := by
  rw [follow] at h
  split at h
  · rename_i same
    subst same
    exact .inl ⟨_, .stay, h⟩
  · rename_i notHere
    split at h
    · rename_i same
      subst same
      exact .inl ⟨_, .up, h⟩
    · rename_i notUp
      split at h
      · cases h
      · rename_i short
        split at h
        · cases h
        · rename_i content hn
          split at h
          · rename_i empty
            cases h
            exact .inr ⟨List.isEmpty_iff.mp empty, rfl, Nat.not_lt.mp short, content, hn⟩
          · cases h
        · rename_i inside hn
          exact .inl ⟨_, .down notHere notUp (Nat.not_lt.mp short) ⟨inside, hn⟩, h⟩

theorem Step.of_keeps {disk disk' : Disk} (keeps : disk.Keeps disk') {location next : Location}
    {name : String} (h : disk.Step location name next) : disk'.Step location name next := by
  cases h with
  | stay => exact .stay
  | up => exact .up
  | down notHere notUp short folder => exact .down notHere notUp short (keeps.folders _ folder)

theorem Step.of_name {disk : Disk} {location next : Location} {name : String}
    (plain : Path.IsName name) (h : disk.Step location name next) :
    next = location ++ [name] ∧ name.utf8ByteSize ≤ maxName := by
  cases h with
  | stay => exact absurd rfl plain.2.1
  | up => exact absurd rfl plain.2.2.1
  | down _ _ short _ => exact ⟨rfl, short⟩

theorem not_isFolderAt_of_file {disk : Disk} {location : Location}
    (h : ∃ content, disk.node? location = some (.file content)) : ¬ disk.IsFolderAt location := by
  rintro ⟨inside, hf⟩
  obtain ⟨content, hn⟩ := h
  rw [← node?, hn] at hf
  cases hf

theorem follow_names {disk : Disk} {location reached : Location} {names : List String}
    (plain : ∀ name ∈ names, Path.IsName name) (h : disk.follow location names = .ok reached) :
    reached = location ++ names ∧ Fit names := by
  induction names generalizing location with
  | nil =>
      cases h
      exact ⟨(List.append_nil _).symm, fun _ hn => absurd hn List.not_mem_nil⟩
  | cons name rest ih =>
      obtain ⟨first, others⟩ := List.forall_mem_cons.mp plain
      rcases follow_cons_ok h with ⟨next, step, onward⟩ | ⟨rfl, rfl, short, -⟩
      · obtain ⟨rfl, short⟩ := step.of_name first
        obtain ⟨rfl, fit⟩ := ih others onward
        exact ⟨by simp, fit_cons.mpr ⟨short, fit⟩⟩
      · exact ⟨rfl, fit_cons.mpr ⟨short, fun _ hn => absurd hn List.not_mem_nil⟩⟩

theorem follow_of_node? {disk : Disk} {location : Location} {names : List String} {node : Node}
    (plain : ∀ name ∈ names, Path.IsName name) (fit : Fit names)
    (h : disk.node? (location ++ names) = some node) :
    disk.follow location names = .ok (location ++ names) := by
  induction names generalizing location with
  | nil => simp [follow]
  | cons name rest ih =>
      obtain ⟨first, others⟩ := List.forall_mem_cons.mp plain
      obtain ⟨short, fit⟩ := fit_cons.mp fit
      cases rest with
      | nil =>
          cases node <;> simp [follow, first.2.1, first.2.2.1, Nat.not_lt.mpr short, h]
      | cons next rest =>
          have onward :
              location ++ name :: next :: rest = (location ++ [name]) ++ next :: rest := by
            simp
          rw [onward] at h ⊢
          have folder : disk.IsFolderAt (location ++ [name]) := isFolderAt_of_node?_append h
          rw [follow_of_step (.down first.2.1 first.2.2.1 short folder)]
          exact ih others fit h

/-- A walk that goes on by plain names to something that is there has a folder on its way. -/
theorem follow_append_names {disk : Disk} {location reached : Location}
    {before names : List String} (plain : ∀ name ∈ names, Path.IsName name)
    (h : disk.follow location (before ++ names) = .ok reached)
    (there : (disk.node? reached).isSome) (folder : names = [] → disk.IsFolderAt reached) :
    ∃ root, disk.follow location before = .ok root ∧ disk.IsFolderAt root ∧
      reached = root ++ names ∧ Fit names := by
  induction before generalizing location with
  | nil =>
      obtain ⟨rfl, fit⟩ := follow_names plain h
      refine ⟨location, rfl, ?_, rfl, fit⟩
      cases names with
      | nil => simpa using folder rfl
      | cons name rest =>
          obtain ⟨found, hf⟩ := Option.isSome_iff_exists.mp there
          exact isFolderAt_of_node?_append hf
  | cons name before ih =>
      rcases follow_cons_ok h with ⟨next, step, onward⟩ | ⟨none, rfl, -, file⟩
      · rw [follow_of_step step]
        exact ih onward
      · -- the walk ends at a file, but nothing goes on from there
        exact absurd (folder (List.append_eq_nil_iff.mp none).2) (not_isFolderAt_of_file file)

theorem follow_append_of_folder {disk : Disk} {location root : Location} {before : List String}
    (h : disk.follow location before = .ok root) (folder : disk.IsFolderAt root)
    (names : List String) :
    disk.follow location (before ++ names) = disk.follow root names := by
  induction before generalizing location with
  | nil =>
      cases h
      rfl
  | cons name before ih =>
      rcases follow_cons_ok h with ⟨next, step, onward⟩ | ⟨-, rfl, -, file⟩
      · rw [List.cons_append, follow_of_step step]
        exact ih onward
      · exact absurd folder (not_isFolderAt_of_file file)

/-- A slash at the end of a path is a step more, and one that stays. -/
theorem follow_of_append_stay {disk : Disk} {location reached : Location} {names : List String}
    (h : disk.follow location (names ++ ["."]) = .ok reached) :
    disk.follow location names = .ok reached := by
  induction names generalizing location with
  | nil => rwa [List.nil_append, follow_of_step .stay] at h
  | cons name names ih =>
      rcases follow_cons_ok h with ⟨next, step, onward⟩ | ⟨none, -⟩
      · rw [follow_of_step step]
        exact ih onward
      · exact absurd none (by simp)

theorem follow_of_keeps {disk disk' : Disk} (keeps : disk.Keeps disk')
    {location root : Location} {names : List String}
    (h : disk.follow location names = .ok root) (folder : disk.IsFolderAt root) :
    disk'.follow location names = .ok root := by
  induction names generalizing location with
  | nil => exact h
  | cons name names ih =>
      rcases follow_cons_ok h with ⟨next, step, onward⟩ | ⟨-, rfl, -, file⟩
      · rw [follow_of_step (step.of_keeps keeps)]
        exact ih onward
      · exact absurd folder (not_isFolderAt_of_file file)

/-- Making directories keeps folders and changes no file, whether it succeeds or not. -/
theorem makeFrom_keeps (disk : Disk) (made : Bool) (location : Location) (names : List String) :
    disk.Keeps (disk.makeFrom made location names).2 ∧
      ∀ query, (disk.makeFrom made location names).2.fileAt? query = disk.fileAt? query := by
  induction names generalizing disk made location with
  | nil => exact ⟨.refl disk, fun _ => rfl⟩
  | cons name rest ih =>
      rw [makeFrom]
      split
      · exact ih disk made location
      · split
        · exact ih disk made location.dropLast
        · split
          · exact ⟨.refl disk, fun _ => rfl⟩
          · split
            · rename_i absent
              obtain ⟨keeps, files⟩ := ih (disk.put (location ++ [name]) (.folder .empty)) true
                (location ++ [name])
              refine ⟨(keeps_put (not_isFolderAt_of_node?_none absent)).trans keeps, ?_⟩
              intro query
              rw [files, fileAt?_put_folder absent]
            · exact ⟨.refl disk, fun _ => rfl⟩
            · exact ih disk made (location ++ [name])

/-- The directories that were made can be followed to a folder, all the way. -/
theorem follow_of_makeFrom {disk disk' : Disk} {made : Bool} {location : Location}
    {names : List String} (folder : disk.IsFolderAt location)
    (done : disk.makeFrom made location names = (.ok (), disk')) :
    ∃ reached, disk'.follow location names = .ok reached ∧ disk'.IsFolderAt reached := by
  induction names generalizing disk made location with
  | nil =>
      cases done
      exact ⟨location, rfl, folder⟩
  | cons name rest ih =>
      have keeps := (makeFrom_keeps disk made location (name :: rest)).1
      rw [done] at keeps
      rw [makeFrom] at done
      split at done
      · rename_i same
        rw [same, follow_of_step .stay]
        exact ih folder done
      · rename_i notHere
        split at done
        · rename_i same
          rw [same, follow_of_step .up]
          exact ih folder.dropLast done
        · rename_i notUp
          split at done
          · cases done
          · rename_i short
            have down (there : disk'.IsFolderAt (location ++ [name])) :=
              follow_of_step (.down notHere notUp (Nat.not_lt.mp short) there) rest
            split at done
            · rename_i absent
              have here := (isFolderAt_put_folder_iff folder
                (not_isFolderAt_of_node?_none absent) _).mpr (.inr rfl)
              have kept := (makeFrom_keeps (disk.put (location ++ [name]) (.folder .empty)) true
                (location ++ [name]) rest).1
              rw [done] at kept
              rw [down (kept.folders _ here)]
              exact ih here done
            · cases done
            · rename_i inside there
              rw [down (keeps.folders _ ⟨inside, there⟩)]
              exact ih ⟨inside, there⟩ done

/-- Where a file may be written: at a name in a folder, and not in place of a folder. -/
theorem target_ok {disk : Disk} {path : String} {location : Location}
    {before above : List String} {last : String}
    (split : Path.components path = before ++ (above ++ [last]))
    (plain : ∀ name ∈ above, Path.IsName name) (h : disk.target path = .ok location) :
    checkName path = .ok () ∧ ∃ root, disk.follow (disk.start path) before = .ok root ∧
      disk.IsFolderAt root ∧ location = root ++ (above ++ [last]) ∧ Fit (above ++ [last]) ∧
      disk.IsFolderAt (root ++ above) ∧ ¬ disk.IsFolderAt location := by
  have directoryNames : (Path.components path).dropLast = before ++ above := by
    rw [split, ← List.append_assoc, List.dropLast_concat]
  have lastName : (Path.components path).getLast? = some last := by
    rw [split, ← List.append_assoc, List.getLast?_concat]
  simp only [target, bind_eq_ok_iff, directoryNames, lastName] at h
  obtain ⟨_, checked, directory, walked, h⟩ := h
  split at h
  · cases h
  · cases h
  · rename_i inside hd absent
    cases absent
  · rename_i inside name hd same
    cases same
    split at h
    · cases h
    · split at h
      · cases h
      · rename_i short
        have folder : disk.IsFolderAt directory := ⟨inside, hd⟩
        obtain ⟨root, toRoot, rootFolder, rfl, fit⟩ :=
          follow_append_names plain walked (by simp [hd]) fun _ => folder
        split at h
        · cases h
        · rename_i notFolder
          cases h
          refine ⟨checked, root, toRoot, rootFolder, by simp, ?_, folder, ?_⟩
          · intro name hn
            rcases List.mem_append.mp hn with hn | hn
            · exact fit name hn
            · rw [List.mem_singleton.mp hn]
              exact Nat.not_lt.mp short
          · rintro ⟨deeper, hf⟩
            exact notFolder deeper hf

theorem write_eq_ok_iff {disk disk' : Disk} {path content : String} :
    disk.write path content = .ok disk' ↔
      ∃ location, disk.target path = .ok location ∧
        disk.put location (.file content.toUTF8) = disk' := by
  simp only [write, bind_eq_ok_iff, pure, Except.pure, Except.ok.injEq]

/-- What a path names is found at the end of its walk. -/
theorem lookup_eq_ok_iff {disk : Disk} {path : String} {node : Node} :
    disk.lookup path = .ok node ↔ checkName path = .ok () ∧
      ∃ location, disk.follow (disk.start path) (steps path) = .ok location ∧
        disk.node? location = some node := by
  simp only [lookup, bind_eq_ok_iff]
  constructor
  · rintro ⟨_, checked, location, walked, found⟩
    split at found
    · cases found
    · rename_i held there
      cases found
      exact ⟨checked, location, walked, there⟩
  · rintro ⟨checked, location, walked, there⟩
    exact ⟨(), checked, location, walked, by rw [there]⟩

theorem isDirectory_iff {disk : Disk} {path : String} :
    disk.isDirectory path = true ↔ ∃ inside, disk.lookup path = .ok (.folder inside) := by
  rw [isDirectory]
  cases disk.lookup path with
  | error cause => simp
  | ok node => cases node <;> simp

theorem readBytes_eq_ok_iff {disk : Disk} {path : String} {content : ByteArray} :
    disk.readBytes path = .ok content ↔ disk.lookup path = .ok (.file content) := by
  simp only [readBytes, bind_eq_ok_iff]
  constructor
  · rintro ⟨node, seen, held⟩
    cases node with
    | file bytes =>
        cases held
        exact seen
    | folder inside => cases held
  · exact fun seen => ⟨_, seen, rfl⟩

end Disk
end Repackage
