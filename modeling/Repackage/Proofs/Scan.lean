import Repackage.Proofs.Disk.Order
import Repackage.Proofs.Matches
import Repackage.Proofs.Residue

/-!
What a scan lists of an ordered tree, if it can open every directory there: the files that it can
read, whose path is included and whose text holds a pattern of a rule that is not inert, all of
them and nothing else, in the order of their lists of names. The paths that it lists are in this
order too where names are texts. Other names can show one path for two files.
-/

namespace Repackage

namespace Path

/-- Component by component, and each component byte by byte. -/
def Before (path later : String) : Prop :=
  (components path).map Text.bytes < (components later).map Text.bytes

instance : DecidableRel Before :=
  fun path later => inferInstanceAs
    (Decidable ((components path).map Text.bytes < (components later).map Text.bytes))

theorem components_ofComponents {names : List String} (nonempty : names ≠ [])
    (valid : ∀ name ∈ names, (FileName.ofText name).IsValid) :
    components (ofComponents names) = names := by
  have noSlash : ∀ name ∈ names, '/' ∉ name.toList := by
    intro name there slash
    refine (valid name there).2 ?_
    rw [FileName.ofText, Text.bytes_eq]
    exact List.mem_flatMap.mpr ⟨'/', slash, by decide⟩
  rw [components, pieces_ofComponents nonempty noSlash]
  refine List.filter_eq_self.mpr fun name there => decide_eq_true ?_
  rintro rfl
  exact (valid "" there).1 rfl

/-- Names that are texts show paths in the order of the names. -/
theorem before_of_lt {location later : Location} (nonempty : location ≠ [] ∧ later ≠ [])
    (valid : ∀ name ∈ location.map FileName.ofText, name.IsValid)
    (validLater : ∀ name ∈ later.map FileName.ofText, name.IsValid)
    (less : location.map FileName.ofText < later.map FileName.ofText) :
    Before (ofComponents location) (ofComponents later) := by
  have named := components_ofComponents nonempty.1 (List.forall_mem_map.mp valid)
  have namedLater := components_ofComponents nonempty.2 (List.forall_mem_map.mp validLater)
  have bytesLess := FileName.map_bytes_lt less
  rw [List.map_map, List.map_map] at bytesLess
  rwa [Before, named, namedLater]

end Path

namespace DiskTree

/-- The names lead from the root to a folder whose path is too long. -/
def Unopenable (tree : DiskTree) (root : Location) (names : List FileName) : Prop :=
  (Node.folder tree.disk.top).IsFolderAt (root.map .ofText ++ names) ∧
    Disk.maxPath < (Disk.below tree.root names).length

/-- The names lead from the root to a file that holds this text and whose path is not too long. -/
def HoldsText (tree : DiskTree) (root : Location) (names : List FileName) (text : String) : Prop :=
  (Disk.below tree.root names).length ≤ Disk.maxPath ∧
    ∃ content, (Node.folder tree.disk.top).fileAt? (root.map .ofText ++ names) = some content ∧
      String.fromUTF8? content = some text

section Root

variable {tree : DiskTree} {root : Location} {inside : Listing}
  (folder : tree.disk.node? root = some (.folder inside))

include folder

theorem fileAt?_inside (names : List FileName) :
    (Node.folder inside).fileAt? names
      = (Node.folder tree.disk.top).fileAt? (root.map .ofText ++ names) := by
  rw [Disk.node?] at folder
  rw [Node.fileAt?, Node.fileAt?, Node.at?_append, folder, Option.bind_some]

theorem unopenable_iff (checked : Disk.checkName tree.root = .ok ()) (names : List FileName) :
    tree.Unopenable root names ↔ inside.Unopenable (Disk.front tree.root) names := by
  rw [Disk.node?] at folder
  have same : (Node.folder tree.disk.top).IsFolderAt (root.map .ofText ++ names) ↔
      (Node.folder inside).IsFolderAt names := by
    rw [Node.IsFolderAt, Node.IsFolderAt, Node.at?_append, folder, Option.bind_some]
  constructor
  · rintro ⟨there, tooLong⟩
    have below : names ≠ [] := by
      rintro rfl
      exact Nat.not_le_of_lt tooLong (Disk.checkName_eq_ok_iff.mp checked).2.1
    exact ⟨below, same.mp there, by rwa [← Disk.below_of_ne_nil below]⟩
  · rintro ⟨below, there, tooLong⟩
    exact ⟨same.mpr there, by rwa [Disk.below_of_ne_nil below]⟩

end Root
end DiskTree

namespace Residue

/-- The names and the text of a file that a scan lists. -/
def held (includes : String → Bool) (patterns : List (Nat × String)) (file : WalkedFile) :
    Option (List FileName × String) := do
  if includes (shownPath file.names) then
    let text ← String.fromUTF8? (← file.content.toOption)
    if (matchesIn patterns text).isEmpty then none else some (file.names, text)
  else none

theorem held_eq_some_iff {includes : String → Bool} {patterns : List (Nat × String)}
    {file : WalkedFile} {names : List FileName} {text : String} :
    held includes patterns file = some (names, text) ↔
      file.names = names ∧ includes (shownPath names) = true ∧
        (∃ content, file.content = .ok content ∧ String.fromUTF8? content = some text) ∧
        matchesIn patterns text ≠ [] := by
  simp only [held, Option.bind_eq_bind, Option.ite_none_right_eq_some, Option.bind_eq_some_iff,
    toOption_eq_some_iff, List.isEmpty_iff, Option.ite_none_left_eq_some, Option.some.injEq,
    Prod.mk.injEq]
  constructor
  · rintro ⟨included, content, read, text, isText, found, rfl, rfl⟩
    exact ⟨rfl, included, ⟨content, read, isText⟩, found⟩
  · rintro ⟨rfl, included, ⟨content, read, isText⟩, found⟩
    exact ⟨included, content, read, text, isText, found, rfl, rfl⟩

theorem ofFile_eq_map_held (includes : String → Bool) (patterns : List (Nat × String))
    (file : WalkedFile) : ofFile includes patterns file = (held includes patterns file).map
      fun held => ⟨shownPath held.1, matchesIn patterns held.2⟩ := by
  apply Option.ext
  intro residue
  rw [ofFile_eq_some_iff, Option.map_eq_some_iff, Prod.exists]
  simp only [held_eq_some_iff]
  constructor
  · rintro ⟨included, content, text, read, isText, found, rfl⟩
    exact ⟨file.names, text, ⟨rfl, included, ⟨content, read, isText⟩, found⟩, rfl⟩
  · rintro ⟨_, text, ⟨rfl, included, ⟨content, read, isText⟩, found⟩, rfl⟩
    exact ⟨included, content, text, read, isText, found, rfl⟩

/-- The residues tell of these files, each with its names and its text: all that the scan includes,
can read and finds a pattern in, each once and in the order of their names. -/
structure TellsOf (tree : DiskTree) (root : Location) (table : RuleTable)
    (includes : String → Bool) (files : List (List FileName × String)) (listed : List Residue) :
    Prop where
  mem_iff : ∀ names text, (names, text) ∈ files ↔ tree.HoldsText root names text ∧
    includes (shownPath names) = true ∧ ∃ rule ∈ table, rule.Fires text
  increasing : files.Pairwise fun file later => file.1 < later.1
  /-- Where names are texts the paths are in order too. -/
  paths : files.Pairwise fun file later => ∀ location location' : Location,
    file.1 = location.map .ofText → later.1 = location'.map .ofText →
      Path.Before (shownPath file.1) (shownPath later.1)
  each : List.Forall₂ (fun file residue => residue.path = shownPath file.1 ∧
    Complete table file.2 residue.found) files listed

section Walked

variable {tree : DiskTree} {root : Location} {inside : Listing} {files : List WalkedFile}
  (ordered : inside.Ordered) (walked : inside.walk (Disk.front tree.root) = .ok files)

include ordered walked

theorem pairwise_names : files.Pairwise fun file later => file.names < later.names := by
  obtain rfl := Listing.files_of_walk walked
  exact List.pairwise_map.mpr (Listing.pairwise_contents ordered)

theorem names_of_mem_walk {file : WalkedFile} (there : file ∈ files) :
    file.names ≠ [] ∧ ∀ name ∈ file.names, name.IsValid := by
  obtain rfl := Listing.files_of_walk walked
  obtain ⟨⟨names, content⟩, contained, rfl⟩ := List.mem_map.mp there
  obtain ⟨name, rest, rfl, -⟩ := Listing.exists_name_of_mem_contents contained
  exact ⟨List.cons_ne_nil name rest, Listing.isValid_of_mem_contents ordered contained⟩

theorem pairwise_paths : files.Pairwise fun file later => ∀ location location' : Location,
    file.names = location.map .ofText → later.names = location'.map .ofText →
      Path.Before (shownPath file.names) (shownPath later.names) := by
  refine (pairwise_names ordered walked).imp_of_mem ?_
  intro file later there there' less location location' named named'
  obtain ⟨some, valid⟩ := names_of_mem_walk ordered walked there
  obtain ⟨some', valid'⟩ := names_of_mem_walk ordered walked there'
  rw [named] at less some valid
  rw [named'] at less some' valid'
  rw [named, named', shownPath, shownPath, FileName.lossy_join_map_ofText,
    FileName.lossy_join_map_ofText]
  exact Path.before_of_lt ⟨by simpa using some, by simpa using some'⟩ valid valid' less

section Folder

variable (folder : tree.disk.node? root = some (.folder inside))

include folder

/-- A walk that is not cut short comes by the files below the root, and reads those whose path is
not too long. -/
theorem read_iff {names : List FileName} {text : String} :
    (∃ file ∈ files, file.names = names ∧
        ∃ content, file.content = .ok content ∧ String.fromUTF8? content = some text) ↔
      tree.HoldsText root names text := by
  obtain rfl := Listing.files_of_walk walked
  simp only [List.mem_map, Prod.exists, DiskTree.HoldsText, ← DiskTree.fileAt?_inside folder,
    ← Listing.mem_contents_iff ordered]
  constructor
  · rintro ⟨_, ⟨_, content, there, rfl⟩, rfl, _, read, isText⟩
    obtain ⟨name, rest, rfl, -⟩ := Listing.exists_name_of_mem_contents there
    obtain ⟨short, rfl⟩ := Disk.readAt_eq_ok_iff.mp read
    rw [Disk.below_of_ne_nil (List.cons_ne_nil name rest)]
    exact ⟨short, content, there, isText⟩
  · rintro ⟨short, content, there, isText⟩
    obtain ⟨name, rest, rfl, -⟩ := Listing.exists_name_of_mem_contents there
    rw [Disk.below_of_ne_nil (List.cons_ne_nil name rest)] at short
    exact ⟨_, ⟨_, content, there, rfl⟩, rfl, content, Disk.readAt_eq_ok_iff.mpr ⟨short, rfl⟩,
      isText⟩

theorem mem_held_iff {table : RuleTable} {includes : String → Bool} {names : List FileName}
    {text : String} : (names, text) ∈ files.filterMap (held includes (patterns table)) ↔
      tree.HoldsText root names text ∧ includes (shownPath names) = true ∧
        ∃ rule ∈ table, rule.Fires text := by
  rw [← read_iff ordered walked folder, ← (complete_matchesIn table text).ne_nil_iff]
  simp only [List.mem_filterMap, held_eq_some_iff]
  constructor
  · rintro ⟨file, there, named, included, read, found⟩
    exact ⟨⟨file, there, named, read⟩, included, found⟩
  · rintro ⟨⟨file, there, named, read⟩, included, found⟩
    exact ⟨file, there, named, included, read, found⟩

theorem tellsOf_walk (table : RuleTable) (includes : String → Bool) :
    TellsOf tree root table includes (files.filterMap (held includes (patterns table)))
      (files.filterMap (ofFile includes (patterns table))) where
  mem_iff _ _ := mem_held_iff ordered walked folder
  increasing := by
    refine List.pairwise_filterMap.mpr ((pairwise_names ordered walked).imp ?_)
    rintro file later less ⟨names, text⟩ made ⟨names', text'⟩ made'
    obtain ⟨rfl, -⟩ := held_eq_some_iff.mp made
    obtain ⟨rfl, -⟩ := held_eq_some_iff.mp made'
    exact less
  paths := by
    refine List.pairwise_filterMap.mpr ((pairwise_paths ordered walked).imp ?_)
    rintro file later before ⟨names, text⟩ made ⟨names', text'⟩ made'
    obtain ⟨rfl, -⟩ := held_eq_some_iff.mp made
    obtain ⟨rfl, -⟩ := held_eq_some_iff.mp made'
    exact before
  each := by
    have mapped : files.filterMap (ofFile includes (patterns table))
        = (files.filterMap (held includes (patterns table))).map
          fun held => ⟨shownPath held.1, matchesIn (patterns table) held.2⟩ := by
      rw [List.map_filterMap]
      exact congrArg (files.filterMap ·) (funext (ofFile_eq_map_held includes (patterns table)))
    rw [mapped, List.forall₂_map_right_iff, List.forall₂_same]
    exact fun held _ => ⟨rfl, complete_matchesIn table held.2⟩

end Folder

end Walked

section Ended

variable {tree : DiskTree} {root : Location} {inside : Listing} (rooted : tree.RootedAt root)
  (checked : Disk.checkName tree.root = .ok ()) (ordered : inside.Ordered)
  (folder : tree.disk.node? root = some (.folder inside))

include rooted checked ordered folder

theorem among_eq_ok_iff_openable (table : RuleTable) (includes : String → Bool) :
    (∃ listed, among tree.disk tree.root table includes = .ok listed) ↔
      ∀ names, ¬ tree.Unopenable root names := by
  have ends := Listing.walk_ends ordered (Disk.front tree.root)
  simp only [among_eq_ok_iff, rooted.walk_eq folder checked,
    DiskTree.unopenable_iff folder checked]
  cases walked : inside.walk (Disk.front tree.root) with
  | ok files =>
      rw [walked] at ends
      exact iff_of_true ⟨_, files, rfl, rfl⟩ ends
  | error failure =>
      rw [walked] at ends
      obtain ⟨names, first, -⟩ := ends
      refine iff_of_false ?_ fun none => none names first.1
      rintro ⟨_, _, impossible, -⟩
      cases impossible

theorem unopenable_of_among_error {table : RuleTable} {includes : String → Bool}
    {failure : Failure} (failed : among tree.disk tree.root table includes = .error failure) :
    ∃ names, tree.Unopenable root names ∧
      (∀ other, tree.Unopenable root other → ¬ other < names) ∧
      failure = walkFailure (Text.lossy (Disk.below tree.root names)) .nameTooLong := by
  have ends := Listing.walk_ends ordered (Disk.front tree.root)
  rw [among, rooted.walk_eq folder checked] at failed
  cases walked : inside.walk (Disk.front tree.root) with
  | ok files => simp [walked, Except.map] at failed
  | error cause =>
      rw [walked] at ends failed
      obtain ⟨names, ⟨first, least⟩, rfl⟩ := ends
      obtain rfl := Except.error.inj failed
      simp only [DiskTree.unopenable_iff folder checked]
      refine ⟨names, first, least, ?_⟩
      rw [Disk.below_of_ne_nil first.below]

end Ended

/-- A scan of an ordered tree succeeds if it can open every directory, and fails otherwise at the
first that it cannot open. What it lists are the files that it can read, whose path is included and
whose text holds the pattern of a rule that is not inert. It lists each of them once, in the order
of the bytes of their names, and says of it all that there is to say. -/
theorem scan_exact (tree : DiskTree) (directory : tree.disk.isDirectory tree.root = true)
    (ordered : tree.disk.top.Ordered) (table : RuleTable) (includes : String → Bool) :
    ∃ root, tree.RootedAt root ∧
      ((∃ listed, among tree.disk tree.root table includes = .ok listed) ↔
        ∀ names, ¬ tree.Unopenable root names) ∧
      (∀ failure, among tree.disk tree.root table includes = .error failure →
        ∃ names, tree.Unopenable root names ∧
          (∀ other, tree.Unopenable root other → ¬ other < names) ∧
          failure = walkFailure (Text.lossy (Disk.below tree.root names)) .nameTooLong) ∧
      (∀ listed, among tree.disk tree.root table includes = .ok listed →
        ∃ files, TellsOf tree root table includes files listed) ∧
      ∀ (glob : String) (pattern : Glob.Pattern), Glob.parse glob = .ok pattern →
        scan tree.disk tree.root table glob
          = among tree.disk tree.root table pattern.includes := by
  obtain ⟨root, rooted⟩ := DiskTree.exists_rootedAt directory
  obtain ⟨inside, folder⟩ := rooted.folder
  obtain ⟨_, seen⟩ := Disk.isDirectory_iff.mp directory
  have checked : Disk.checkName tree.root = .ok () := (Disk.lookup_eq_ok_iff.mp seen).1
  have top : (Node.folder tree.disk.top).Ordered := ordered
  have inOrder : inside.Ordered := top.at? folder
  refine ⟨root, rooted, among_eq_ok_iff_openable rooted checked inOrder folder table includes,
    fun failure => unopenable_of_among_error rooted checked inOrder folder, ?_,
    fun glob pattern parsed => scan_eq_among parsed _ _ _⟩
  intro listed scanned
  obtain ⟨files, walked, rfl⟩ := among_eq_ok_iff.mp scanned
  rw [rooted.walk_eq folder checked] at walked
  exact ⟨_, tellsOf_walk inOrder walked folder table includes⟩

/-- By their texts the paths of this tree would stand the other way round. -/
def neighbours : DiskTree where
  root := "."
  disk :=
    { top :=
        .folder "a" (.file "y.java" "import old.Y; import old.Z;".toUTF8 .empty)
          (.folder "a-b" (.file "x.java" "import old.X;".toUTF8 .empty) .empty)
      working := [] }

/-- An inert rule, and two rules with one pattern. -/
def movedTwice : RuleTable := [⟨"old.", "old."⟩, ⟨"old.", "new."⟩, ⟨"old.", "other."⟩]

theorem scan_exact_neighbours :
    neighbours.disk.isDirectory neighbours.root = true ∧ neighbours.disk.top.Ordered ∧
      ∃ pattern, Glob.parse "**/*.java" = .ok pattern ∧
        ∃ listed, scan neighbours.disk neighbours.root movedTwice "**/*.java" = .ok listed ∧
          listed = [⟨"a/y.java", [⟨1, "old.", 2⟩]⟩, ⟨"a-b/x.java", [⟨1, "old.", 1⟩]⟩] ∧
          ∃ root files, neighbours.RootedAt root ∧
            TellsOf neighbours root movedTwice pattern.includes files listed := by
  have directory : neighbours.disk.isDirectory neighbours.root = true := by decide +kernel
  have ordered : neighbours.disk.top.Ordered := by decide +kernel
  have valid : (Glob.parse "**/*.java").isOk = true := by decide +kernel
  have lists : scan neighbours.disk neighbours.root movedTwice "**/*.java"
      = .ok [⟨"a/y.java", [⟨1, "old.", 2⟩]⟩, ⟨"a-b/x.java", [⟨1, "old.", 1⟩]⟩] := by
    decide +kernel
  refine ⟨directory, ordered, ?_⟩
  cases parsed : Glob.parse "**/*.java" with
  | error fault =>
      rw [parsed] at valid
      cases valid
  | ok pattern =>
      obtain ⟨root, rooted, -, -, tells, onGlob⟩ :=
        scan_exact neighbours directory ordered movedTwice pattern.includes
      obtain ⟨files, told⟩ := tells _ ((onGlob _ _ parsed).symm.trans lists)
      exact ⟨pattern, rfl, _, lists, rfl, root, files, rooted, told⟩

end Residue

namespace DiskTree

/-- The name of a directory, with slashes behind it. -/
def padded (slashes : Nat) : String :=
  String.ofList ('t' :: List.replicate slashes '/')

theorem padded_succ (slashes : Nat) : padded (slashes + 1) = padded slashes ++ "/" ++ "" := by
  apply String.toList_injective
  simp [padded, List.replicate_succ']

theorem components_padded (slashes : Nat) : Path.components (padded slashes) = ["t"] := by
  induction slashes with
  | zero => exact Path.components_of_noSlash (by decide) (by decide)
  | succ slashes ih =>
      rw [padded_succ, Path.components_append_slash, ih, Path.components_empty, List.append_nil]

theorem length_bytes_padded (slashes : Nat) :
    (Text.bytes (padded slashes)).length = slashes + 1 := by
  induction slashes with
  | zero => rfl
  | succ slashes ih =>
      rw [padded_succ, Text.bytes_append, Text.bytes_append, List.length_append,
        List.length_append, ih]
      rfl

theorem front_padded_succ (slashes : Nat) :
    Disk.front (padded (slashes + 1)) = Text.bytes (padded (slashes + 1)) := by
  have ends : Disk.endsWithSlash (padded (slashes + 1)) = true := by
    rw [padded_succ]
    simp [Disk.endsWithSlash]
  rw [Disk.front, if_pos ends]

/-- The tree below a directory whose path has so many slashes. -/
def behindSlashes (slashes : Nat) (inside : Listing) : DiskTree :=
  ⟨padded slashes, ⟨.folder "t" inside .empty, []⟩⟩

/-- However many slashes there are, the walk is the one over the directory. -/
theorem walk_behindSlashes (slashes : Nat) (fits : slashes + 1 < Disk.maxPath) (inside : Listing) :
    (behindSlashes (slashes + 1) inside).disk.walk (padded (slashes + 1))
      = inside.walk (Text.bytes (padded (slashes + 1))) := by
  have checked : Disk.checkName (padded (slashes + 1)) = .ok () := by
    have named : padded (slashes + 1) ≠ "" := by simp [padded, ← String.toList_inj]
    refine Disk.checkName_eq_ok_iff.mpr ⟨by simp [padded], ?_, named⟩
    rw [length_bytes_padded]
    exact fits
  have rooted : (behindSlashes (slashes + 1) inside).RootedAt ["t"] := by
    have start : (behindSlashes (slashes + 1) inside).disk.start (padded (slashes + 1)) = [] := by
      simp [behindSlashes, padded, Disk.start, Disk.isAbsolute]
    refine ⟨?_, inside, rfl⟩
    rw [behindSlashes] at start ⊢
    rw [components_padded, start]
    rfl
  rw [← front_padded_succ]
  exact rooted.walk_eq rfl checked

end DiskTree

namespace Residue

open DiskTree (behindSlashes)

/-- A file whose path has 4101 bytes. -/
def unread : DiskTree :=
  behindSlashes 4094 (.file "A.java" "a".toUTF8 .empty)

/-- A file whose path is short enough, and a directory whose path has 4097 bytes. -/
def unopened : DiskTree :=
  behindSlashes 4088 (.file "A" "a".toUTF8 (.folder "sub.java" .empty .empty))

/-- A name that is a text, and two that are none. -/
def undecoded : DiskTree where
  root := "."
  disk :=
    { top := .file "𐀀" "a".toUTF8
        (.file ⟨[0xFE]⟩ "a".toUTF8 (.file ⟨[0xFF]⟩ "a".toUTF8 .empty))
      working := [] }

def aToB : RuleTable := [⟨"a", "b"⟩]

/-- A file that holds a pattern is not listed if its path is too long, nor is any file if the path
of a directory is. Names that are no texts can show one path twice, and that out of order. -/
theorem scan_not_complete :
    (unread.disk.fileAt? ["t", "A.java"] = some "a".toUTF8 ∧
      among unread.disk unread.root aToB (fun _ => true) = .ok []) ∧
    (unopened.HoldsText ["t"] ["A"] "a" ∧
      among unopened.disk unopened.root aToB (fun _ => true)
        = .error (walkFailure (unopened.root ++ "sub.java") .nameTooLong)) ∧
    ∃ listed, among undecoded.disk undecoded.root aToB (fun _ => true) = .ok listed ∧
      listed.map (·.path) = ["𐀀", "\uFFFD", "\uFFFD"] ∧ ¬ Path.Before "𐀀" "\uFFFD" := by
  have length (name : String) (slashes : Nat) :
      (Text.bytes (DiskTree.padded slashes) ++ (FileName.ofText name).bytes).length
        = slashes + 1 + name.utf8ByteSize := by
    rw [List.length_append, DiskTree.length_bytes_padded]
    rfl
  refine ⟨⟨rfl, ?_⟩, ⟨?_, ?_⟩, ?_⟩
  · have walked : unread.disk.walk unread.root
        = .ok [⟨["A.java"], .error .nameTooLong⟩] := by
      refine (DiskTree.walk_behindSlashes 4093 (by decide) _).trans ?_
      rw [Listing.walk, Disk.checkLength, length, if_pos (by decide)]
      rfl
    rw [among, walked]
    rfl
  · refine ⟨?_, "a".toUTF8, rfl, DiskTree.textOf_eq_ok_iff.mp (DiskTree.textOf_toUTF8 "a")⟩
    have front : Disk.front unopened.root = Text.bytes unopened.root :=
      DiskTree.front_padded_succ 4087
    rw [Disk.below_of_ne_nil (List.cons_ne_nil _ _), front]
    refine (length "A" 4088).trans_le (by decide)
  · have walked : unopened.disk.walk unopened.root
        = .error (walkFailure (unopened.root ++ "sub.java") .nameTooLong) := by
      refine (DiskTree.walk_behindSlashes 4087 (by decide) _).trans ?_
      rw [Listing.walk, Listing.walk, Disk.checkLength, Disk.checkLength, length "A",
        length "sub.java", if_pos (by decide), if_neg (by decide), FileName.ofText,
        ← Text.bytes_append, Text.lossy_bytes]
      rfl
    rw [among, walked]
    rfl
  · have lists : among undecoded.disk undecoded.root aToB (fun _ => true)
        = .ok [⟨"𐀀", [⟨0, "a", 1⟩]⟩, ⟨"\uFFFD", [⟨0, "a", 1⟩]⟩, ⟨"\uFFFD", [⟨0, "a", 1⟩]⟩] := by
      decide +kernel
    have notBefore : ¬ Path.Before "𐀀" "\uFFFD" := by decide +kernel
    exact ⟨_, lists, rfl, notBefore⟩

end Residue
end Repackage
