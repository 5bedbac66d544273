import Repackage.Proofs.Disk.Walk

/-!
Ordered directory trees: every directory has each of its names once, in increasing order. A walk
over an ordered tree opens the folders in the order of the lists of names that lead to them, and
ends at the first whose path is too long. If there is none it comes by every file once and by
nothing else, in that order.
-/

namespace Repackage

/-- What a directory can hold something under. -/
def FileName.IsValid (name : FileName) : Prop :=
  name.bytes ≠ [] ∧ slash ∉ name.bytes

instance : DecidablePred FileName.IsValid :=
  fun name => inferInstanceAs (Decidable (name.bytes ≠ [] ∧ FileName.slash ∉ name.bytes))

namespace Listing

/-- Every directory has its names once and in increasing order. -/
def Ordered : Listing → Prop
  | .empty => True
  | .file name _ rest => name.IsValid ∧ (∀ later ∈ rest.names, name < later) ∧ rest.Ordered
  | .folder name inside rest =>
      name.IsValid ∧ (∀ later ∈ rest.names, name < later) ∧ inside.Ordered ∧ rest.Ordered

instance decidableOrdered : DecidablePred Ordered
  | .empty => isTrue trivial
  | .file name _ rest =>
      have := decidableOrdered rest
      inferInstanceAs (Decidable
        (name.IsValid ∧ (∀ later ∈ rest.names, name < later) ∧ rest.Ordered))
  | .folder name inside rest =>
      have := decidableOrdered inside
      have := decidableOrdered rest
      inferInstanceAs (Decidable
        (name.IsValid ∧ (∀ later ∈ rest.names, name < later) ∧ inside.Ordered ∧ rest.Ordered))

end Listing

def Node.Ordered : Node → Prop
  | .file _ => True
  | .folder inside => inside.Ordered

theorem Listing.Ordered.find? {listing : Listing} (h : listing.Ordered) {name : FileName}
    {node : Node} (found : listing.find? name = some node) : node.Ordered := by
  induction listing with
  | empty => simp [Listing.find?] at found
  | file n content rest ih =>
      rw [Listing.find?] at found
      split at found
      · cases found
        trivial
      · exact ih h.2.2 found
  | folder n inside rest _ ih =>
      rw [Listing.find?] at found
      split at found
      · cases found
        exact h.2.2.1
      · exact ih h.2.2.2 found

theorem Node.Ordered.at? {node found : Node} {names : List FileName} (h : node.Ordered)
    (there : Node.at? names node = some found) : found.Ordered := by
  induction names generalizing node with
  | nil => exact Option.some.inj there ▸ h
  | cons name rest ih =>
      cases node with
      | file content => cases there
      | folder inside =>
          rw [Node.at?] at there
          split at there
          · cases there
          · rename_i next here
            exact ih (Listing.Ordered.find? h here) there

namespace Listing

theorem mem_names_of_find? {listing : Listing} {name : FileName} {node : Node}
    (found : listing.find? name = some node) : name ∈ listing.names := by
  induction listing with
  | empty => simp [find?] at found
  | file n content rest ih | folder n inside rest _ ih =>
      rw [find?] at found
      split at found
      · rename_i same
        exact same ▸ List.mem_cons_self
      · exact List.mem_cons_of_mem n (ih found)

/-- Of the names of an ordered directory the first is not found further on. -/
theorem find?_of_least {listing : Listing} {name : FileName}
    (least : ∀ later ∈ listing.names, name < later) : listing.find? name = none := by
  rw [Option.eq_none_iff_forall_ne_some]
  intro node found
  exact name.lt_irrefl (least name (mem_names_of_find? found))

section Files

/-- What a walk comes by further on is not under the first name. -/
private theorem fileAt?_later {n : FileName} (node : Node) {others : Listing}
    (least : ∀ later ∈ others.names, n < later) {names : List FileName} {content : ByteArray}
    (later : (names, content) ∈ others.contents) :
    (Node.folder (cons n node others)).fileAt? names = (Node.folder others).fileAt? names := by
  obtain ⟨name, rest, rfl, there⟩ := exists_name_of_mem_contents later
  have other : n ≠ name := by
    rintro rfl
    exact n.lt_irrefl (least n there)
  rw [Node.fileAt?_folder_cons, Node.fileAt?_folder_cons, find?_cons, if_neg other]

theorem fileAt?_of_mem_contents {listing : Listing} (ordered : listing.Ordered)
    {names : List FileName} {content : ByteArray} (h : (names, content) ∈ listing.contents) :
    (Node.folder listing).fileAt? names = some content := by
  induction listing generalizing names with
  | empty => cases h
  | file n bytes others ih =>
      rcases List.mem_cons.mp h with here | later
      · cases here
        simp [Node.fileAt?, Node.at?, find?]
      · exact (fileAt?_later (.file bytes) ordered.2.1 later).trans (ih ordered.2.2 later)
  | folder n inside others below ih =>
      rcases List.mem_append.mp h with within | later
      · obtain ⟨⟨rest, _⟩, there, same⟩ := List.mem_map.mp within
        cases same
        rw [Node.fileAt?_folder_cons, find?, if_pos rfl]
        exact below ordered.2.2.1 there
      · exact (fileAt?_later (.folder inside) ordered.2.1 later).trans
          (ih ordered.2.2.2 later)

theorem mem_contents_iff {listing : Listing} (ordered : listing.Ordered) {names : List FileName}
    {content : ByteArray} : (names, content) ∈ listing.contents ↔
      (Node.folder listing).fileAt? names = some content :=
  ⟨fileAt?_of_mem_contents ordered, Node.mem_contents_of_fileAt?⟩

theorem pairwise_contents {listing : Listing} (ordered : listing.Ordered) :
    listing.contents.Pairwise fun file later => file.1 < later.1 := by
  induction listing with
  | empty => exact .nil
  | file n bytes others ih =>
      refine List.pairwise_cons.mpr ⟨fun later there => ?_, ih ordered.2.2⟩
      obtain ⟨name, rest, named, listed⟩ := exists_name_of_mem_contents there
      rw [named]
      exact List.Lex.rel (ordered.2.1 name listed)
  | folder n inside others below ih =>
      refine List.pairwise_append.mpr ⟨?_, ih ordered.2.2.2, fun file there later after => ?_⟩
      · exact List.pairwise_map.mpr ((below ordered.2.2.1).imp fun before => List.Lex.cons before)
      · obtain ⟨inner, -, rfl⟩ := List.mem_map.mp there
        obtain ⟨name, rest, named, listed⟩ := exists_name_of_mem_contents after
        rw [named]
        exact List.Lex.rel (ordered.2.1 name listed)

theorem isValid_of_mem_contents {listing : Listing} (ordered : listing.Ordered)
    {names : List FileName} {content : ByteArray} (h : (names, content) ∈ listing.contents) :
    ∀ name ∈ names, name.IsValid := by
  induction listing generalizing names with
  | empty => cases h
  | file n bytes others ih =>
      rcases List.mem_cons.mp h with here | later
      · cases here
        simpa using ordered.1
      · exact ih ordered.2.2 later
  | folder n inside others below ih =>
      rcases List.mem_append.mp h with within | later
      · obtain ⟨⟨rest, _⟩, there, same⟩ := List.mem_map.mp within
        cases same
        exact List.forall_mem_cons.mpr ⟨ordered.1, below ordered.2.2.1 there⟩
      · exact ih ordered.2.2.2 later

end Files

section Folders

/-- A folder below a directory that cannot be opened, since its path is too long. -/
structure Unopenable (listing : Listing) (front : List UInt8) (names : List FileName) : Prop where
  below : names ≠ []
  folder : (Node.folder listing).IsFolderAt names
  tooLong : Disk.maxPath < (front ++ FileName.join names).length

variable {n : FileName} {others : Listing} {front : List UInt8} {names : List FileName}

theorem Unopenable.exists_cons {listing : Listing} (h : listing.Unopenable front names) :
    ∃ name rest, names = name :: rest ∧ name ∈ listing.names := by
  cases names with
  | nil => exact absurd rfl h.below
  | cons name rest =>
      obtain ⟨node, found, -⟩ := (Node.isFolderAt_folder_cons _ _ _).mp h.folder
      exact ⟨name, rest, rfl, mem_names_of_find? found⟩

/-- Where a file is in front, the folders are further on. -/
theorem unopenable_file_iff (content : ByteArray)
    (least : ∀ later ∈ others.names, n < later) :
    (Listing.file n content others).Unopenable front names ↔ others.Unopenable front names := by
  have same : (Node.folder (.file n content others)).IsFolderAt names ↔
      (Node.folder others).IsFolderAt names := by
    cases names with
    | nil => exact iff_of_true ⟨_, rfl⟩ ⟨_, rfl⟩
    | cons name rest =>
        rw [Node.isFolderAt_folder_cons, Node.isFolderAt_folder_cons, find?]
        split
        · rename_i here
          rw [← here, find?_of_least least]
          simp [Node.not_isFolderAt_file]
        · rfl
  exact ⟨fun h => ⟨h.below, same.mp h.folder, h.tooLong⟩,
    fun h => ⟨h.below, same.mpr h.folder, h.tooLong⟩⟩

/-- A folder in front cannot be opened itself, or something below it cannot; the other folders are
further on. -/
theorem unopenable_folder_iff (inside : Listing) (least : ∀ later ∈ others.names, n < later) :
    (Listing.folder n inside others).Unopenable front names ↔
      (names = [n] ∧ Disk.maxPath < (front ++ n.bytes).length) ∨
        (∃ rest, names = n :: rest ∧
          inside.Unopenable (front ++ n.bytes ++ [FileName.slash]) rest) ∨
        others.Unopenable front names := by
  constructor
  · intro h
    obtain ⟨name, rest, rfl, -⟩ := h.exists_cons
    obtain ⟨node, found, there⟩ := (Node.isFolderAt_folder_cons _ _ _).mp h.folder
    rw [find?] at found
    split at found
    · rename_i same
      subst same
      obtain rfl := Option.some.inj found
      cases rest with
      | nil => exact .inl ⟨rfl, h.tooLong⟩
      | cons next rest =>
          refine .inr (.inl ⟨_, rfl, List.cons_ne_nil next rest, there, ?_⟩)
          simpa [FileName.join_cons] using h.tooLong
    · exact .inr (.inr ⟨h.below, (Node.isFolderAt_folder_cons _ _ _).mpr ⟨node, found, there⟩,
        h.tooLong⟩)
  · rintro (⟨rfl, tooLong⟩ | ⟨rest, rfl, below, there, tooLong⟩ | h)
    · exact ⟨List.cons_ne_nil n [], ⟨inside, by simp [Node.at?, find?]⟩, tooLong⟩
    · refine ⟨List.cons_ne_nil n rest,
        (Node.isFolderAt_folder_cons _ _ _).mpr ⟨_, if_pos rfl, there⟩, ?_⟩
      simpa [FileName.join_cons below] using tooLong
    · obtain ⟨name, rest, rfl, listed⟩ := h.exists_cons
      obtain ⟨node, found, there⟩ := (Node.isFolderAt_folder_cons _ _ _).mp h.folder
      have other : n ≠ name := by
        rintro rfl
        exact n.lt_irrefl (least n listed)
      exact ⟨h.below, (Node.isFolderAt_folder_cons _ _ _).mpr
        ⟨node, (if_neg other).trans found, there⟩, h.tooLong⟩

/-- The names lead to the first of the folders that cannot be opened. -/
def FirstUnopenable (listing : Listing) (front : List UInt8) (names : List FileName) : Prop :=
  listing.Unopenable front names ∧ ∀ other, listing.Unopenable front other → ¬ other < names

theorem FirstUnopenable.folder_self {inside : Listing}
    (least : ∀ later ∈ others.names, n < later)
    (tooLong : Disk.maxPath < (front ++ n.bytes).length) :
    (Listing.folder n inside others).FirstUnopenable front [n] := by
  refine ⟨(unopenable_folder_iff inside least).mpr (.inl ⟨rfl, tooLong⟩), fun other h => ?_⟩
  rcases (unopenable_folder_iff inside least).mp h with ⟨rfl, -⟩ | ⟨rest, rfl, -⟩ | later
  · rw [FileName.cons_lt_cons_iff]
    exact List.not_lt_nil []
  · rw [FileName.cons_lt_cons_iff]
    exact List.not_lt_nil rest
  · obtain ⟨name, rest, rfl, listed⟩ := later.exists_cons
    exact FileName.not_cons_lt_of_lt (least name listed) [] rest

theorem FirstUnopenable.folder_inside {inside : Listing}
    (least : ∀ later ∈ others.names, n < later)
    (fits : ¬ Disk.maxPath < (front ++ n.bytes).length)
    (first : inside.FirstUnopenable (front ++ n.bytes ++ [FileName.slash]) names) :
    (Listing.folder n inside others).FirstUnopenable front (n :: names) := by
  refine ⟨(unopenable_folder_iff inside least).mpr (.inr (.inl ⟨names, rfl, first.1⟩)),
    fun other h => ?_⟩
  rcases (unopenable_folder_iff inside least).mp h with ⟨-, long⟩ | ⟨rest, rfl, within⟩ | later
  · exact absurd long fits
  · rw [FileName.cons_lt_cons_iff]
    exact first.2 rest within
  · obtain ⟨name, rest, rfl, listed⟩ := later.exists_cons
    exact FileName.not_cons_lt_of_lt (least name listed) names rest

/-- A walk may end when it has opened every folder, or at the first that it cannot open. -/
def Ends {α : Type} (listing : Listing) (front : List UInt8) : Except Failure α → Prop
  | .ok _ => ∀ names, ¬ listing.Unopenable front names
  | .error failure => ∃ names, listing.FirstUnopenable front names ∧
      failure = walkFailure (Text.lossy (front ++ FileName.join names)) .nameTooLong

/-- What a walk adds to the rest of a walk, without opening a folder, does not change the end. -/
theorem Ends.of_rest {α β : Type} {listing rest : Listing} {result : Except Failure α}
    (ends : rest.Ends front result)
    (same : ∀ names, listing.Unopenable front names ↔ rest.Unopenable front names) (f : α → β) :
    listing.Ends front (result >>= fun a => pure (f a)) := by
  cases result with
  | ok a => exact fun names h => ends names ((same names).mp h)
  | error failure =>
      obtain ⟨names, ⟨first, least⟩, rfl⟩ := ends
      exact ⟨names, ⟨(same names).mpr first, fun other h => least other ((same other).mp h)⟩, rfl⟩

theorem walk_ends {listing : Listing} (ordered : listing.Ordered) (front : List UInt8) :
    listing.Ends front (listing.walk front) := by
  induction listing generalizing front with
  | empty =>
      intro names h
      obtain ⟨name, -, -, listed⟩ := h.exists_cons
      cases listed
  | file n content others ih =>
      obtain ⟨-, least, later⟩ := ordered
      exact (ih later front).of_rest (fun _ => unopenable_file_iff content least) _
  | folder n inside others below ih =>
      obtain ⟨-, least, within, later⟩ := ordered
      have inner := below within (front ++ n.bytes ++ [FileName.slash])
      rw [walk, Disk.checkLength]
      by_cases long : Disk.maxPath < (front ++ n.bytes).length
      · rw [if_pos long]
        exact ⟨[n], .folder_self least long, rfl⟩
      · rw [if_neg long]
        cases walked : inside.walk (front ++ n.bytes ++ [FileName.slash]) with
        | error failure =>
            rw [walked] at inner
            obtain ⟨names, first, rfl⟩ := inner
            refine ⟨n :: names, .folder_inside least long first, ?_⟩
            simp [FileName.join_cons first.1.below]
        | ok files =>
            rw [walked] at inner
            refine (ih later front).of_rest (fun names => ?_) _
            rw [unopenable_folder_iff inside least, or_iff_right fun self => long self.2,
              or_iff_right]
            rintro ⟨rest, -, deeper⟩
            exact inner rest deeper

end Folders

end Listing
end Repackage
