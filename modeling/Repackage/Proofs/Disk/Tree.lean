import Mathlib.Data.List.Induction
import Repackage.Proofs.Disk.Follow
import Repackage.Tree.DiskTree

/-!
The files of a disk tree at normal paths. Making directories below a root that exists
changes none of them, and a write that succeeds changes the one it names. Reading and
asking for a file depend on nothing else of the disk.
-/

namespace Repackage

namespace Path

theorem pieces_append_slash (a b : String) : pieces (a ++ "/" ++ b) = pieces a ++ pieces b := by
  have text : (a ++ "/" ++ b).toList = a.toList ++ '/' :: b.toList := by simp
  simp only [pieces, text, List.splitOn_append_cons_self, List.map_append]

theorem pieces_of_noSlash {name : String} (noSlash : '/' ∉ name.toList) :
    pieces name = [name] := by
  simp [pieces, List.splitOn_eq_singleton noSlash]

theorem pieces_empty : pieces "" = [""] :=
  pieces_of_noSlash (by simp)

theorem components_append_slash (a b : String) :
    components (a ++ "/" ++ b) = components a ++ components b := by
  simp only [components, pieces_append_slash, List.filter_append]

theorem components_of_noSlash {name : String} (nonempty : name ≠ "")
    (noSlash : '/' ∉ name.toList) : components name = [name] := by
  simp [components, pieces_of_noSlash noSlash, nonempty]

theorem components_empty : components "" = [] := by
  simp [components, pieces_empty]

theorem head?_ne_slash {name : String} (noSlash : '/' ∉ name.toList) :
    name.toList.head? ≠ some '/' := by
  intro h
  exact noSlash (List.mem_of_head? h)

/-- What is joined stands alone, behind the slash that is there, or behind a new one. -/
theorem join_cases {name : String} (noSlash : '/' ∉ name.toList) (base : String) :
    (base = "" ∧ join base name = name) ∨
      (∃ before, base = before ++ "/" ++ "" ∧ join base name = before ++ "/" ++ name) ∨
      join base name = base ++ "/" ++ name := by
  rw [join, if_neg (head?_ne_slash noSlash)]
  split
  · rename_i h
    rcases (Bool.or_eq_true _ _).mp h with empty | slash
    · obtain rfl := String.isEmpty_iff.mp empty
      exact .inl ⟨rfl, by simp⟩
    · obtain ⟨front, hf⟩ := List.getLast?_eq_some_iff.mp (by simpa using slash)
      have split : base = String.ofList front ++ "/" ++ "" := by
        apply String.toList_injective
        simp [hf]
      refine .inr (.inl ⟨String.ofList front, split, ?_⟩)
      rw [split]
      apply String.toList_injective
      simp
  · exact .inr (.inr rfl)

theorem components_join {name : String} (nonempty : name ≠ "") (noSlash : '/' ∉ name.toList)
    (base : String) : components (join base name) = components base ++ [name] := by
  have one := components_of_noSlash nonempty noSlash
  rcases join_cases noSlash base with ⟨rfl, joined⟩ | ⟨before, rfl, joined⟩ | joined
  · rw [joined, one, components_empty, List.nil_append]
  · rw [joined, components_append_slash, components_append_slash, components_empty, one,
      List.append_nil]
  · rw [joined, components_append_slash, one]

end Path

namespace Disk

theorem isAbsolute_join {name : String} (noSlash : '/' ∉ name.toList) (base : String) :
    isAbsolute (Path.join base name) = isAbsolute base := by
  have head := Path.head?_ne_slash noSlash
  rw [Path.join, if_neg head]
  cases hb : base.toList with
  | nil =>
      have : base = "" := String.toList_eq_nil_iff.mp hb
      subst this
      simpa [isAbsolute] using head
  | cons c rest =>
      split <;> simp [isAbsolute, hb]

theorem endsWithSlash_join {name : String} (nonempty : name ≠ "") (noSlash : '/' ∉ name.toList)
    (base : String) : endsWithSlash (Path.join base name) = false := by
  obtain ⟨front, last, hl⟩ := List.eq_nil_or_concat name.toList |>.resolve_left
    (fun h => nonempty (String.toList_eq_nil_iff.mp h))
  have notSlash : last ≠ '/' := by
    rintro rfl
    exact noSlash (by simp [hl])
  rw [Path.join, if_neg (Path.head?_ne_slash noSlash)]
  split <;> simp [endsWithSlash, hl, notSlash, List.getLast?_cons]

end Disk

namespace DiskTree

open Disk (Fit)

/-- The bytes of the file at a path, if there is a file. -/
def file? (tree : DiskTree) (path : String) : Option ByteArray :=
  (tree.disk.readBytes (tree.resolve path)).toOption

/-- The root of the tree is the folder at this location. -/
structure RootedAt (tree : DiskTree) (root : Location) : Prop where
  walk : tree.disk.follow (tree.disk.start tree.root) (Path.components tree.root) = .ok root
  folder : tree.disk.IsFolderAt root

/-- The path and its names are short enough, and hold no NUL. -/
def Admits (tree : DiskTree) (path : String) : Prop :=
  Disk.checkName (tree.resolve path) = .ok () ∧ Fit (Path.components path)

theorem resolve_of_names {names : List String} (root : String)
    (plain : ∀ name ∈ names, name ≠ "" ∧ '/' ∉ name.toList) :
    Path.components (names.foldl Path.join root) = Path.components root ++ names ∧
      Disk.isAbsolute (names.foldl Path.join root) = Disk.isAbsolute root ∧
      (names ≠ [] → Disk.endsWithSlash (names.foldl Path.join root) = false) := by
  induction names using List.reverseRecOn with
  | nil => simp
  | append_singleton names name ih =>
      obtain ⟨nonempty, noSlash⟩ := plain name (by simp)
      obtain ⟨split, absolute, -⟩ := ih fun n hn => plain n (by simp [hn])
      simp only [List.foldl_append, List.foldl_cons, List.foldl_nil]
      refine ⟨?_, ?_, fun _ => Disk.endsWithSlash_join nonempty noSlash _⟩
      · rw [Path.components_join nonempty noSlash, split, List.append_assoc]
      · rw [Disk.isAbsolute_join noSlash, absolute]

theorem name_of_mem_components {path name : String} (h : Path.IsNormal path)
    (hn : name ∈ Path.components path) : Path.IsName name ∧ '/' ∉ name.toList := by
  rw [Path.components_of_isNormal h] at hn
  exact ⟨h name hn, fun hs => (Path.mem_of_mem_pieces hn hs).2 rfl⟩

theorem components_ne_nil {path : String} (h : Path.IsNormal path) :
    Path.components path ≠ [] := by
  rw [Path.components_of_isNormal h]
  exact Path.pieces_ne_nil path

/-- A normal path is followed from the start of the root, first to the root and then on. -/
theorem resolve_of_isNormal (tree : DiskTree) {path : String} (h : Path.IsNormal path) :
    Path.components (tree.resolve path)
        = Path.components tree.root ++ Path.components path ∧
      tree.disk.start (tree.resolve path) = tree.disk.start tree.root ∧
      Disk.endsWithSlash (tree.resolve path) = false := by
  have plain : ∀ name ∈ Path.components path, name ≠ "" ∧ '/' ∉ name.toList := fun name hn =>
    ⟨(name_of_mem_components h hn).1.1, (name_of_mem_components h hn).2⟩
  obtain ⟨split, absolute, slash⟩ := resolve_of_names tree.root plain
  refine ⟨split, ?_, slash (components_ne_nil h)⟩
  rw [Disk.start, Disk.start, resolve, absolute]

theorem RootedAt.unique {tree : DiskTree} {root root' : Location} (h : tree.RootedAt root)
    (h' : tree.RootedAt root') : root = root' :=
  Except.ok.inj (h.walk.symm.trans h'.walk)

theorem exists_rootedAt {tree : DiskTree} (h : tree.disk.isDirectory tree.root = true) :
    ∃ root, tree.RootedAt root := by
  obtain ⟨inside, seen⟩ := Disk.isDirectory_iff.mp h
  obtain ⟨-, root, walked, found⟩ := Disk.lookup_eq_ok_iff.mp seen
  refine ⟨root, ?_, ⟨inside, found⟩⟩
  rw [Disk.steps] at walked
  split at walked
  · exact Disk.follow_of_append_stay walked
  · exact walked

theorem RootedAt.of_keeps {tree : DiskTree} {root : Location} {disk' : Disk}
    (h : tree.RootedAt root) (keeps : tree.disk.Keeps disk') :
    RootedAt { tree with disk := disk' } root where
  walk := by
    rw [keeps.start]
    exact Disk.follow_of_keeps keeps h.walk h.folder
  folder := keeps.folders root h.folder

/-- Something is found at a normal path when the root is a folder and holds it there. -/
theorem lookup_eq_ok_iff {tree : DiskTree} {path : String} (h : Path.IsNormal path)
    {node : Node} : tree.disk.lookup (tree.resolve path) = .ok node ↔
      tree.Admits path ∧ ∃ root, tree.RootedAt root ∧
        tree.disk.node? (root ++ Path.components path) = some node := by
  obtain ⟨split, start, slash⟩ := tree.resolve_of_isNormal h
  have plain : ∀ name ∈ Path.components path, Path.IsName name := fun _ hn =>
    (name_of_mem_components h hn).1
  have steps : Disk.steps (tree.resolve path)
      = Path.components tree.root ++ Path.components path := by
    rw [Disk.steps, slash, split]
    rfl
  rw [Disk.lookup_eq_ok_iff, steps, start]
  constructor
  · rintro ⟨checked, reached, walked, found⟩
    obtain ⟨root, toRoot, folder, rfl, fit⟩ :=
      Disk.follow_append_names plain walked (by simp [found])
        fun none => absurd none (components_ne_nil h)
    exact ⟨⟨checked, fit⟩, root, ⟨toRoot, folder⟩, found⟩
  · rintro ⟨⟨checked, fit⟩, root, rooted, there⟩
    refine ⟨checked, root ++ Path.components path, ?_, there⟩
    rw [Disk.follow_append_of_folder rooted.walk rooted.folder]
    exact Disk.follow_of_node? plain fit there

theorem file?_eq_some_iff {tree : DiskTree} {path : String} (h : Path.IsNormal path)
    {content : ByteArray} : tree.file? path = some content ↔
      tree.Admits path ∧ ∃ root, tree.RootedAt root ∧
        tree.disk.fileAt? (root ++ Path.components path) = some content := by
  have seen : tree.file? path = some content ↔
      tree.disk.lookup (tree.resolve path) = .ok (.file content) :=
    toOption_eq_some_iff.trans Disk.readBytes_eq_ok_iff
  have held (location : Location) : tree.disk.fileAt? location = some content ↔
      tree.disk.node? location = some (.file content) := by
    simp only [Disk.fileAt?, Node.fileAt?, Disk.node?]
    split <;> simp_all
  simp only [seen, lookup_eq_ok_iff h, held]

theorem isDirectory_iff {tree : DiskTree} {path : String} (h : Path.IsNormal path) :
    tree.isDirectory path = true ↔ tree.Admits path ∧ ∃ root, tree.RootedAt root ∧
      tree.disk.IsFolderAt (root ++ Path.components path) := by
  rw [isDirectory, Disk.isDirectory_iff]
  simp only [lookup_eq_ok_iff h]
  constructor
  · rintro ⟨inside, admits, root, rooted, there⟩
    exact ⟨admits, root, rooted, inside, there⟩
  · rintro ⟨admits, root, rooted, inside, there⟩
    exact ⟨inside, admits, root, rooted, there⟩

theorem RootedAt.file?_eq_some_iff {tree : DiskTree} {root : Location} (rooted : tree.RootedAt root)
    {path : String} (h : Path.IsNormal path) {content : ByteArray} :
    tree.file? path = some content ↔
      tree.Admits path ∧ tree.disk.fileAt? (root ++ Path.components path) = some content := by
  rw [DiskTree.file?_eq_some_iff h]
  constructor
  · rintro ⟨admits, root', rooted', there⟩
    rw [rooted.unique rooted']
    exact ⟨admits, there⟩
  · rintro ⟨admits, there⟩
    exact ⟨admits, root, rooted, there⟩

theorem RootedAt.file?_eq {tree : DiskTree} {root : Location} (rooted : tree.RootedAt root)
    {path : String} (h : Path.IsNormal path) (admits : tree.Admits path) :
    tree.file? path = tree.disk.fileAt? (root ++ Path.components path) := by
  apply Option.ext
  intro content
  rw [rooted.file?_eq_some_iff h]
  exact and_iff_right admits

theorem isFile_eq (tree : DiskTree) (path : String) :
    tree.isFile path = (tree.file? path).isSome := by
  simp only [isFile, file?, Disk.isFile, Disk.readBytes, bind, Except.bind]
  cases tree.disk.lookup (tree.resolve path) with
  | error cause => rfl
  | ok node => cases node <;> rfl

def textOf (content : ByteArray) : Except FileError String :=
  match String.fromUTF8? content with
  | some text => .ok text
  | none => .error .notText

theorem textOf_eq_ok_iff {content : ByteArray} {text : String} :
    textOf content = .ok text ↔ String.fromUTF8? content = some text := by
  rw [textOf]
  cases String.fromUTF8? content <;> simp

theorem textOf_toUTF8 (text : String) : textOf text.toUTF8 = .ok text := by
  have back : String.fromUTF8? text.toUTF8 = some text := by
    simp [String.fromUTF8?, String.fromUTF8, text.isValidUTF8]
  simp only [textOf, back]

theorem file?_of_readText {tree : DiskTree} {path text : String}
    (h : tree.readText path = .ok text) :
    ∃ content, tree.file? path = some content ∧ textOf content = .ok text := by
  simp only [readText, Disk.readText, bind_eq_ok_iff] at h
  obtain ⟨content, read, isText⟩ := h
  exact ⟨content, toOption_eq_some_iff.mpr read, isText⟩

theorem readText_of_file? {tree : DiskTree} {path : String} {content : ByteArray}
    (h : tree.file? path = some content) :
    tree.readText path = textOf content := by
  rw [readText, Disk.readText, toOption_eq_some_iff.mp h]
  rfl

theorem RootedAt.of_file? {tree : DiskTree} {path : String} {content : ByteArray}
    (hp : Path.IsNormal path) (h : tree.file? path = some content) :
    ∃ root, tree.RootedAt root := by
  obtain ⟨-, root, rooted, -⟩ := (DiskTree.file?_eq_some_iff hp).mp h
  exact ⟨root, rooted⟩

/-- What may happen to the disk below a root that is there, without a file being seen to
change. -/
theorem RootedAt.file?_of_keeps {tree : DiskTree} {root : Location} (rooted : tree.RootedAt root)
    {disk' : Disk} (keeps : tree.disk.Keeps disk')
    (files : ∀ location, disk'.fileAt? location = tree.disk.fileAt? location)
    {path : String} (hp : Path.IsNormal path) :
    file? { tree with disk := disk' } path = tree.file? path := by
  apply Option.ext
  intro content
  rw [(rooted.of_keeps keeps).file?_eq_some_iff hp, rooted.file?_eq_some_iff hp]
  simp only [files]
  rfl

/-- A normal path does not end in `.`, and so its directories are made from the start on. -/
theorem createDirs_eq (tree : DiskTree) {dir : String} (hd : Path.IsNormal dir) :
    tree.disk.createDirs (tree.resolve dir) =
      match Disk.checkName (tree.resolve dir) with
      | .error cause => (.error cause, tree.disk)
      | .ok () => tree.disk.makeFrom false (tree.disk.start tree.root)
          (Path.components tree.root ++ Path.components dir) := by
  obtain ⟨split, start, -⟩ := tree.resolve_of_isNormal hd
  have lastName : (Path.components (tree.resolve dir)).getLast? ≠ some "." := by
    obtain ⟨above, last, hl⟩ := (List.eq_nil_or_concat _).resolve_left (components_ne_nil hd)
    have plain : Path.IsName last := (name_of_mem_components hd (by simp [hl])).1
    rw [split, hl, List.concat_eq_append, ← List.append_assoc, List.getLast?_concat]
    exact fun same => plain.2.1 (Option.some.inj same)
  have nonempty : (tree.resolve dir).isEmpty = false := by
    rw [Bool.eq_false_iff]
    intro empty
    have none : Path.components (tree.resolve dir) = [] := by
      rw [String.isEmpty_iff.mp empty]
      exact Path.components_empty
    exact components_ne_nil hd (List.append_eq_nil_iff.mp (split.symm.trans none)).2
  rw [split] at lastName
  cases checked : Disk.checkName (tree.resolve dir) <;>
    simp only [Disk.createDirs, nonempty, checked, Bool.false_eq_true, if_false, split, start,
      lastName]

theorem createDirs_keeps {tree tree' : DiskTree} {dir : String}
    {answer : Except FileError Unit} (hd : Path.IsNormal dir)
    (h : SourceTree.createDirs dir tree = (answer, tree')) :
    ∃ disk', tree' = { tree with disk := disk' } ∧ tree.disk.Keeps disk' ∧
      ∀ location, disk'.fileAt? location = tree.disk.fileAt? location := by
  obtain rfl : { tree with disk := (tree.disk.createDirs (tree.resolve dir)).2 } = tree' :=
    congrArg Prod.snd h
  refine ⟨_, rfl, ?_⟩
  rw [createDirs_eq tree hd]
  split
  · exact ⟨.refl _, fun _ => rfl⟩
  · exact Disk.makeFrom_keeps _ _ _ _

theorem createDirs_made {tree : DiskTree} {disk' : Disk} {dir : String} (hd : Path.IsNormal dir)
    (h : SourceTree.createDirs dir tree = (.ok (), { tree with disk := disk' })) :
    Disk.checkName (tree.resolve dir) = .ok () ∧
      tree.disk.makeFrom false (tree.disk.start tree.root)
        (Path.components tree.root ++ Path.components dir) = (.ok (), disk') := by
  have made : tree.disk.createDirs (tree.resolve dir) = (.ok (), disk') := by
    simp only [SourceTree.createDirs, Prod.mk.injEq, DiskTree.mk.injEq, true_and] at h
    exact Prod.ext h.1 h.2
  rw [createDirs_eq tree hd] at made
  split at made
  · cases made
  · rename_i checked
    exact ⟨checked, made⟩

/-- Once the directory of a normal path could be made, the root is there and so is every
directory on the way from it. -/
theorem createDirs_makes {tree tree' : DiskTree} {dir : String} (hd : Path.IsNormal dir)
    (start : tree.disk.IsFolderAt (tree.disk.start tree.root))
    (h : SourceTree.createDirs dir tree = (.ok (), tree')) :
    tree.Admits dir ∧ ∃ root, tree'.RootedAt root ∧
      ∀ names, names <+: Path.components dir → tree'.disk.IsFolderAt (root ++ names) := by
  obtain ⟨disk', rfl, keeps, -⟩ := createDirs_keeps hd h
  obtain ⟨checked, made⟩ := createDirs_made hd h
  obtain ⟨reached, walked, folder⟩ := Disk.follow_of_makeFrom start made
  have there : (disk'.node? reached).isSome := by
    obtain ⟨inside, found⟩ := folder
    simp [Disk.node?, found]
  obtain ⟨root, toRoot, rootFolder, rfl, fit⟩ := Disk.follow_append_names
    (fun _ hn => (name_of_mem_components hd hn).1) walked there fun _ => folder
  refine ⟨⟨checked, fit⟩, root, ⟨keeps.start tree.root ▸ toRoot, rootFolder⟩, ?_⟩
  rintro names ⟨rest, onward⟩
  rw [← onward, ← List.append_assoc] at folder
  cases rest with
  | nil => simpa using folder
  | cons next rest =>
      obtain ⟨inside, found⟩ := folder
      exact Disk.isFolderAt_of_node?_append found

theorem file?_createDirs {tree tree' : DiskTree} {root : Location} (rooted : tree.RootedAt root)
    {dir : String} {answer : Except FileError Unit} (hd : Path.IsNormal dir)
    (h : SourceTree.createDirs dir tree = (answer, tree')) {path : String}
    (hp : Path.IsNormal path) : tree'.file? path = tree.file? path := by
  obtain ⟨disk', rfl, keeps, files⟩ := createDirs_keeps hd h
  exact rooted.file?_of_keeps keeps files hp

theorem write_error {tree tree' : DiskTree} {path content : String} {cause : FileError}
    (h : SourceTree.write path content tree = (.error cause, tree')) : tree' = tree := by
  simp only [SourceTree.write] at h
  split at h
  · cases h
  · exact (congrArg Prod.snd h).symm

/-- A write that succeeds puts the content at the names of the path below the root, in a folder
and not in place of one. -/
theorem write_puts {tree tree' : DiskTree} {path content : String} (hp : Path.IsNormal path)
    (h : SourceTree.write path content tree = (.ok (), tree')) :
    ∃ root, tree.RootedAt root ∧ tree.Admits path ∧
      tree' = ⟨tree.root, tree.disk.put (root ++ Path.components path) (.file content.toUTF8)⟩ ∧
      root ++ Path.components path ≠ [] ∧
      tree.disk.IsFolderAt (root ++ Path.components path).dropLast ∧
      ¬ tree.disk.IsFolderAt (root ++ Path.components path) := by
  simp only [SourceTree.write] at h
  split at h
  · rename_i disk' stored
    obtain ⟨location, target, rfl⟩ := Disk.write_eq_ok_iff.mp stored
    obtain rfl := congrArg Prod.snd h
    obtain ⟨split, start, -⟩ := tree.resolve_of_isNormal hp
    obtain ⟨above, last, hl⟩ :=
      (List.eq_nil_or_concat (Path.components path)).resolve_left (components_ne_nil hp)
    rw [List.concat_eq_append] at hl
    rw [hl] at split
    obtain ⟨checked, root, toRoot, rootFolder, rfl, fit, dir, free⟩ :=
      Disk.target_ok split
        (fun name hn => (name_of_mem_components hp (by simp [hl, hn])).1) target
    rw [start] at toRoot
    have inFolder : tree.disk.IsFolderAt (root ++ (above ++ [last])).dropLast := by
      rwa [← List.append_assoc, List.dropLast_concat]
    rw [hl]
    exact ⟨root, ⟨toRoot, rootFolder⟩, ⟨checked, hl ▸ fit⟩, rfl, by simp, inFolder, free⟩
  · cases h

theorem write_places {tree tree' : DiskTree} {path content : String} (hp : Path.IsNormal path)
    (h : SourceTree.write path content tree = (.ok (), tree')) :
    ∃ root disk', tree' = { tree with disk := disk' } ∧ tree.RootedAt root ∧ tree.Admits path ∧
      tree.disk.Keeps disk' ∧
      ∀ location, disk'.fileAt? location =
        if location = root ++ Path.components path then some content.toUTF8
        else tree.disk.fileAt? location := by
  obtain ⟨root, rooted, admits, rfl, nonempty, inFolder, free⟩ := write_puts hp h
  exact ⟨root, _, rfl, rooted, admits, Disk.keeps_put free,
    Disk.fileAt?_put_file content.toUTF8 nonempty inFolder free⟩

/-- A write makes no folder. -/
theorem isFolderAt_write {tree tree' : DiskTree} {path content : String} (hp : Path.IsNormal path)
    (h : SourceTree.write path content tree = (.ok (), tree')) (location : Location) :
    tree'.disk.IsFolderAt location ↔ tree.disk.IsFolderAt location := by
  obtain ⟨root, -, -, rfl, nonempty, inFolder, free⟩ := write_puts hp h
  exact Disk.isFolderAt_put_file_iff content.toUTF8 nonempty inFolder free location

theorem file?_write {tree tree' : DiskTree} {path content : String} (hp : Path.IsNormal path)
    (h : SourceTree.write path content tree = (.ok (), tree')) {query : String}
    (hq : Path.IsNormal query) :
    tree'.file? query = if query = path then some content.toUTF8 else tree.file? query := by
  obtain ⟨root, disk', rfl, rooted, admits, keeps, placed⟩ := write_places hp h
  apply Option.ext
  intro seen
  rw [(rooted.of_keeps keeps).file?_eq_some_iff hq]
  simp only [placed, List.append_cancel_left_eq]
  by_cases same : query = path
  · subst same
    simp only [if_true, Option.some.injEq]
    exact and_iff_right admits
  · have other : Path.components query ≠ Path.components path := fun same' =>
      same (Path.components_injective hq hp same')
    simp only [other, same, if_false, rooted.file?_eq_some_iff hq]
    rfl

end DiskTree
end Repackage
