import Repackage.Proofs.FileName
import Repackage.Tree.Disk

/-!
What a disk holds at a location, seen through two questions: which bytes a file there has,
and whether a folder is there. Putting a file into a folder changes the answer to the first
at one location only, and putting an empty folder where nothing was changes it nowhere. No
folder is lost by either.
-/

namespace Repackage

namespace Listing

theorem find?_cons (name query : FileName) (node : Node) (rest : Listing) :
    (cons name node rest).find? query = if name = query then some node else rest.find? query := by
  cases node <;> rfl

theorem find?_insert (name query : FileName) (node : Node) (listing : Listing) :
    (listing.insert name node).find? query =
      if name = query then some node else listing.find? query := by
  induction listing with
  | empty => simp [insert, find?_cons]
  | file n content rest ih | folder n inside rest _ ih =>
      simp only [insert]
      split
      · rename_i same
        subst same
        by_cases hq : n = query <;> simp [find?_cons, find?, hq]
      · split
        · simp [find?_cons]
        · rename_i other _
          by_cases hq : n = query
          · subst hq
            simp [find?, Ne.symm other]
          · simp [find?, hq, ih]

end Listing

namespace Node

def fileAt? (node : Node) (location : List FileName) : Option ByteArray :=
  match at? location node with
  | some (.file content) => some content
  | _ => none

def IsFolderAt (node : Node) (location : List FileName) : Prop :=
  ∃ inside, at? location node = some (.folder inside)

instance (node : Node) (location : List FileName) : Decidable (node.IsFolderAt location) :=
  match h : at? location node with
  | some (.folder inside) => .isTrue ⟨inside, h⟩
  | some (.file _) | none => .isFalse fun ⟨_, there⟩ => nomatch h.symm.trans there

theorem fileAt?_folder_cons (inside : Listing) (name : FileName) (rest : List FileName) :
    (folder inside).fileAt? (name :: rest) = (inside.find? name).bind (·.fileAt? rest) := by
  simp only [fileAt?, at?]
  cases inside.find? name <;> rfl

theorem isFolderAt_folder_cons (inside : Listing) (name : FileName) (rest : List FileName) :
    (folder inside).IsFolderAt (name :: rest) ↔
      ∃ node, inside.find? name = some node ∧ node.IsFolderAt rest := by
  simp only [IsFolderAt, at?]
  cases inside.find? name <;> simp

theorem not_isFolderAt_file (content : ByteArray) (location : List FileName) :
    ¬ (file content).IsFolderAt location := by
  rintro ⟨inside, h⟩
  cases location <;> simp [at?] at h

theorem at?_append (first second : List FileName) (node : Node) :
    at? (first ++ second) node = (at? first node).bind (at? second) := by
  induction first generalizing node with
  | nil => rfl
  | cons name first ih =>
      cases node with
      | file content => rfl
      | folder inside =>
          simp only [List.cons_append, at?]
          cases inside.find? name with
          | none => rfl
          | some next => exact ih next

theorem isFolderAt_of_at?_append {node found : Node} {location : List FileName} {name : FileName}
    {rest : List FileName} (h : at? (location ++ name :: rest) node = some found) :
    node.IsFolderAt location := by
  rw [at?_append] at h
  cases hd : at? location node with
  | none => simp [hd] at h
  | some holder =>
      cases holder with
      | file content => simp [hd, at?] at h
      | folder inside => exact ⟨inside, hd⟩

theorem fileAt?_put_file {node : Node} {location : List FileName} (content : ByteArray)
    (nonempty : location ≠ []) (dir : node.IsFolderAt location.dropLast)
    (free : ¬ node.IsFolderAt location) (query : List FileName) :
    (put (.file content) location node).fileAt? query =
      if query = location then some content else node.fileAt? query := by
  induction location generalizing node query with
  | nil => exact absurd rfl nonempty
  | cons name rest ih =>
      cases node with
      | file old => exact absurd dir (not_isFolderAt_file _ _)
      | folder inside =>
          cases query with
          | nil => simp [put, fileAt?, at?]
          | cons first query =>
              simp only [put, fileAt?_folder_cons, Listing.find?_insert]
              by_cases same : name = first
              · subst same
                simp only [if_true, Option.bind_some, List.cons.injEq, true_and]
                cases rest with
                | nil =>
                    -- the name was free or stood for a file, so nothing was below it
                    cases query with
                    | nil => rfl
                    | cons next query =>
                        cases hf : inside.find? name with
                        | none => rfl
                        | some found =>
                            cases found with
                            | file old => rfl
                            | folder deeper =>
                                exact absurd ⟨deeper, by simp [at?, hf]⟩ free
                | cons next rest =>
                    obtain ⟨found, hf, dir'⟩ := (isFolderAt_folder_cons _ _ _).mp dir
                    have free' : ¬ found.IsFolderAt (next :: rest) := fun h =>
                      free ((isFolderAt_folder_cons _ _ _).mpr ⟨found, hf, h⟩)
                    simp only [hf, Option.getD_some, Option.bind_some]
                    exact ih (by simp) dir' free' query
              · have other : ¬ first = name := fun h => same h.symm
                simp [same, other]

/-- A put that takes no folder away leaves every folder where it is. -/
theorem isFolderAt_put {node new : Node} {location query : List FileName}
    (free : ¬ node.IsFolderAt location) (h : node.IsFolderAt query) :
    (put new location node).IsFolderAt query := by
  induction location generalizing node query with
  | nil =>
      cases node with
      | file content => exact absurd h (not_isFolderAt_file _ _)
      | folder inside => exact absurd ⟨inside, rfl⟩ free
  | cons name rest ih =>
      cases node with
      | file content => exact absurd h (not_isFolderAt_file _ _)
      | folder inside =>
          cases query with
          | nil => exact ⟨_, rfl⟩
          | cons first query =>
              obtain ⟨found, hf, h'⟩ := (isFolderAt_folder_cons _ _ _).mp h
              simp only [put]
              apply (isFolderAt_folder_cons _ _ _).mpr
              rw [Listing.find?_insert]
              by_cases same : name = first
              · subst same
                have free' : ¬ found.IsFolderAt rest := fun h =>
                  free ((isFolderAt_folder_cons _ _ _).mpr ⟨found, hf, h⟩)
                exact ⟨_, if_pos rfl, by simpa [hf] using ih free' h'⟩
              · exact ⟨found, by rw [if_neg same, hf], h'⟩

/-- A put at a name in a folder adds the folders of what is put, and no others. -/
theorem isFolderAt_put_iff {node new : Node} {location : List FileName} (nonempty : location ≠ [])
    (dir : node.IsFolderAt location.dropLast) (free : ¬ node.IsFolderAt location)
    (query : List FileName) :
    (put new location node).IsFolderAt query ↔
      node.IsFolderAt query ∨ ∃ rest, query = location ++ rest ∧ new.IsFolderAt rest := by
  induction location generalizing node query with
  | nil => exact absurd rfl nonempty
  | cons name above ih =>
      cases node with
      | file content => exact absurd dir (not_isFolderAt_file _ _)
      | folder inside =>
          cases query with
          | nil => exact iff_of_true ⟨_, rfl⟩ (.inl ⟨inside, rfl⟩)
          | cons first query =>
              simp only [put, isFolderAt_folder_cons, Listing.find?_insert, List.cons_append,
                List.cons.injEq]
              by_cases same : name = first
              · subst same
                simp only [if_true, Option.some.injEq, exists_eq_left', true_and]
                cases above with
                | nil =>
                    -- the name was free or stood for a file, so no folder was below it
                    have none : ¬ ∃ node, inside.find? name = some node ∧
                        node.IsFolderAt query := by
                      rintro ⟨found, here, deeper⟩
                      cases found with
                      | file content => exact not_isFolderAt_file _ _ deeper
                      | folder within =>
                          exact free ((isFolderAt_folder_cons _ _ _).mpr ⟨_, here, within, rfl⟩)
                    simp [put, none]
                | cons next above =>
                    obtain ⟨found, here, dir'⟩ := (isFolderAt_folder_cons _ _ _).mp dir
                    have free' : ¬ found.IsFolderAt (next :: above) := fun h =>
                      free ((isFolderAt_folder_cons _ _ _).mpr ⟨found, here, h⟩)
                    simp only [here, Option.getD_some, Option.some.injEq, exists_eq_left']
                    exact ih (by simp) dir' free' query
              · have other : ¬ first = name := fun h => same h.symm
                simp [same, other]

private theorem fileAt?_put_folder_empty (location query : List FileName) :
    (put (.folder .empty) location (.folder .empty)).fileAt? query = none := by
  induction location generalizing query with
  | nil => cases query <;> rfl
  | cons name rest ih =>
      cases query with
      | nil => rfl
      | cons first query =>
          simp only [put, fileAt?_folder_cons, Listing.find?_insert, Listing.find?,
            Option.getD_none]
          split
          · exact ih query
          · rfl

theorem fileAt?_put_folder {node : Node} {location : List FileName}
    (absent : at? location node = none) (query : List FileName) :
    (put (.folder .empty) location node).fileAt? query = node.fileAt? query := by
  induction location generalizing node query with
  | nil => simp [at?] at absent
  | cons name rest ih =>
      cases node with
      | file content => rfl
      | folder inside =>
          cases query with
          | nil => rfl
          | cons first query =>
              simp only [put, fileAt?_folder_cons, Listing.find?_insert]
              split
              · rename_i same
                subst same
                simp only [at?] at absent
                cases hf : inside.find? name with
                | none => simpa [hf] using fileAt?_put_folder_empty rest query
                | some found =>
                    simp only [hf] at absent
                    simpa [hf] using ih absent query
              · rfl

end Node

namespace Disk

def fileAt? (disk : Disk) (location : Location) : Option ByteArray :=
  (Node.folder disk.top).fileAt? (location.map .ofText)

def IsFolderAt (disk : Disk) (location : Location) : Prop :=
  (Node.folder disk.top).IsFolderAt (location.map .ofText)

instance (disk : Disk) (location : Location) : Decidable (disk.IsFolderAt location) :=
  inferInstanceAs (Decidable ((Node.folder disk.top).IsFolderAt (location.map .ofText)))

/-- What may happen to a disk under which no path loses its way: folders stay, and so does
the working directory. -/
structure Keeps (disk disk' : Disk) : Prop where
  working : disk'.working = disk.working
  folders : ∀ location, disk.IsFolderAt location → disk'.IsFolderAt location

theorem Keeps.refl (disk : Disk) : disk.Keeps disk :=
  ⟨rfl, fun _ h => h⟩

theorem Keeps.trans {disk₁ disk₂ disk₃ : Disk} (h : disk₁.Keeps disk₂) (h' : disk₂.Keeps disk₃) :
    disk₁.Keeps disk₃ :=
  ⟨h'.working.trans h.working, fun location hl => h'.folders location (h.folders location hl)⟩

theorem Keeps.start {disk disk' : Disk} (keeps : disk.Keeps disk') (path : String) :
    disk'.start path = disk.start path := by
  rw [Disk.start, Disk.start, keeps.working]

theorem Keeps.isFolderAt_start {disk disk' : Disk} (keeps : disk.Keeps disk') {path : String}
    (there : disk.IsFolderAt (disk.start path)) : disk'.IsFolderAt (disk'.start path) := by
  rw [keeps.start]
  exact keeps.folders _ there

theorem not_isFolderAt_of_node?_none {disk : Disk} {location : Location}
    (h : disk.node? location = none) : ¬ disk.IsFolderAt location := by
  rintro ⟨inside, hf⟩
  rw [node?, hf] at h
  cases h

theorem keeps_put {disk : Disk} {location : Location} {node : Node}
    (free : ¬ disk.IsFolderAt location) : disk.Keeps (disk.put location node) := by
  have folders : ∀ query : Location, disk.IsFolderAt query →
      (Node.put node (location.map .ofText) (.folder disk.top)).IsFolderAt (query.map .ofText) :=
    fun query h => Node.isFolderAt_put free h
  rw [put]
  cases hp : Node.put node (location.map .ofText) (.folder disk.top) with
  | file content => exact Keeps.refl disk
  | folder top =>
      rw [hp] at folders
      exact ⟨rfl, folders⟩

private theorem fileAt?_put {disk : Disk} {location : Location} {node : Node}
    (nonempty : location ≠ []) (query : Location) :
    (disk.put location node).fileAt? query =
      (Node.put node (location.map .ofText) (.folder disk.top)).fileAt?
        (query.map .ofText) := by
  cases location with
  | nil => exact absurd rfl nonempty
  | cons name rest => rfl

theorem fileAt?_put_file {disk : Disk} {location : Location} (content : ByteArray)
    (nonempty : location ≠ []) (dir : disk.IsFolderAt location.dropLast)
    (free : ¬ disk.IsFolderAt location) (query : Location) :
    (disk.put location (.file content)).fileAt? query =
      if query = location then some content else disk.fileAt? query := by
  rw [IsFolderAt, List.map_dropLast] at dir
  rw [fileAt?_put nonempty, Node.fileAt?_put_file content (by simpa) dir free]
  simp only [FileName.map_ofText_inj]
  rfl

theorem fileAt?_put_folder {disk : Disk} {location : Location}
    (absent : disk.node? location = none) (query : Location) :
    (disk.put location (.folder .empty)).fileAt? query = disk.fileAt? query := by
  have nonempty : location ≠ [] := by
    rintro rfl
    simp [node?, Node.at?] at absent
  rw [fileAt?_put nonempty, Node.fileAt?_put_folder absent]
  rfl

private theorem isFolderAt_put_iff {disk : Disk} {location : Location} {new : Node}
    (nonempty : location ≠ []) (dir : disk.IsFolderAt location.dropLast)
    (free : ¬ disk.IsFolderAt location) (query : Location) :
    (disk.put location new).IsFolderAt query ↔ disk.IsFolderAt query ∨
      ∃ rest, query.map .ofText = location.map .ofText ++ rest ∧ new.IsFolderAt rest := by
  rw [IsFolderAt, List.map_dropLast] at dir
  cases location with
  | nil => exact absurd rfl nonempty
  | cons name rest => exact Node.isFolderAt_put_iff (by simp) dir free (query.map .ofText)

theorem isFolderAt_put_file_iff {disk : Disk} {location : Location} (content : ByteArray)
    (nonempty : location ≠ []) (dir : disk.IsFolderAt location.dropLast)
    (free : ¬ disk.IsFolderAt location) (query : Location) :
    (disk.put location (.file content)).IsFolderAt query ↔ disk.IsFolderAt query := by
  simp [isFolderAt_put_iff nonempty dir free, Node.not_isFolderAt_file]

theorem isFolderAt_put_folder_iff {disk : Disk} {location : Location}
    (dir : disk.IsFolderAt location) {name : String}
    (free : ¬ disk.IsFolderAt (location ++ [name])) (query : Location) :
    (disk.put (location ++ [name]) (.folder .empty)).IsFolderAt query ↔
      disk.IsFolderAt query ∨ query = location ++ [name] := by
  have alone (rest : List FileName) : (Node.folder .empty).IsFolderAt rest ↔ rest = [] := by
    cases rest with
    | nil => exact iff_of_true ⟨_, rfl⟩ rfl
    | cons first rest => simp [Node.isFolderAt_folder_cons, Listing.find?]
  rw [isFolderAt_put_iff (by simp) (by rwa [List.dropLast_concat]) free]
  simp only [alone, exists_eq_right, List.append_nil, FileName.map_ofText_inj]

/-- What stands behind a name stands in a folder. -/
theorem isFolderAt_of_node?_append {disk : Disk} {location rest : Location} {name : String}
    {found : Node} (h : disk.node? (location ++ name :: rest) = some found) :
    disk.IsFolderAt location := by
  rw [node?, List.map_append] at h
  exact Node.isFolderAt_of_at?_append h

theorem IsFolderAt.dropLast {disk : Disk} {location : Location}
    (folder : disk.IsFolderAt location) : disk.IsFolderAt location.dropLast := by
  rcases List.eq_nil_or_concat location with rfl | ⟨above, last, rfl⟩
  · exact folder
  · obtain ⟨inside, there⟩ := folder
    rw [List.concat_eq_append] at there ⊢
    rw [List.dropLast_concat]
    exact isFolderAt_of_node?_append there

end Disk
end Repackage
