import Mathlib.Data.List.Infix
import Repackage.Proofs.Disk.Folders
import Repackage.Proofs.Exchange
import Repackage.Proofs.Overlay

/-!
The directories that an overlay lists, and the folders that the same calls make on its disk.
A call makes every folder that the way to its path lacks, and the overlay lists the path alone.
So the list tells the new folders if each of them is asked for itself.
-/

namespace Repackage

namespace Exchange

/-- A directory is made or a file written, at a normal path and without a failure. -/
inductive Succeeds : Exchange → Prop
  | made {path : String} (normal : Path.IsNormal path) : Succeeds (.createDirs path (.ok ()))
  | stored {path content : String} (normal : Path.IsNormal path) :
      Succeeds (.write path content (.ok ()))

section Computed

variable {τ : Type} [SourceTree τ] {tree tree' : τ}

/-- The tree that a call leaves, if it makes a directory or writes a file and succeeds. -/
def succeed? (tree : τ) : Exchange → Option τ
  | .createDirs path (.ok ()) =>
      match SourceTree.createDirs path tree with
      | (.ok (), next) => some next
      | (.error _, _) => none
  | .write path content (.ok ()) =>
      match SourceTree.write path content tree with
      | (.ok (), next) => some next
      | (.error _, _) => none
  | _ => none

theorem happens_of_succeed? {exchange : Exchange} (h : exchange.succeed? tree = some tree') :
    exchange.Happens tree tree' := by
  simp only [succeed?] at h
  split at h
  · split at h
    · cases h
      assumption
    · cases h
  · split at h
    · cases h
      assumption
    · cases h
  · cases h

theorem replays_of_succeed? {exchanges : List Exchange}
    (h : exchanges.foldlM succeed? tree = some tree') : Replays tree exchanges tree' := by
  induction exchanges generalizing tree with
  | nil =>
      cases h
      exact .nil
  | cons exchange exchanges ih =>
      rw [List.foldlM_cons] at h
      obtain ⟨next, first, rest⟩ := Option.bind_eq_some_iff.mp h
      exact .cons (happens_of_succeed? first) (ih rest)

end Computed

/-- The directory at the path is asked for, and made. -/
def Asked (exchanges : List Exchange) (path : String) : Prop :=
  .createDirs path (.ok ()) ∈ exchanges

theorem asked_cons {first : Exchange} {exchanges : List Exchange} {path : String} :
    Asked (first :: exchanges) path ↔ first = .createDirs path (.ok ()) ∨ Asked exchanges path := by
  simp only [Asked, List.mem_cons, eq_comm]

theorem Asked.normal {exchanges : List Exchange} {path : String} (asked : Asked exchanges path)
    (succeed : ∀ exchange ∈ exchanges, exchange.Succeeds) : Path.IsNormal path := by
  cases succeed _ asked with
  | made normal => exact normal

end Exchange

open Exchange (Asked)

namespace Overlay

variable {exchange : Exchange} {exchanges : List Exchange}

/-- An overlay lists the directory that a call asks for, unless its disk has that already. -/
theorem exists_happens (succeeds : exchange.Succeeds) (overlay : Overlay) :
    ∃ next, exchange.Happens overlay next ∧ next.base = overlay.base ∧
      ∀ path, path ∈ next.createdDirs ↔
        path ∈ overlay.createdDirs ∨
          (exchange = .createDirs path (.ok ()) ∧ overlay.base.isDirectory path = false) := by
  cases succeeds with
  | @made dir normal =>
      cases there : overlay.base.isDirectory dir with
      | true =>
          refine ⟨overlay, ?_, rfl, fun path => ?_⟩
          · simp only [Exchange.Happens, SourceTree.createDirs, there, if_true]
          · refine (or_iff_left_of_imp ?_).symm
            rintro ⟨same, absent⟩
            cases same
            rw [there] at absent
            cases absent
      | false =>
          refine ⟨{ overlay with made := overlay.made.insert dir () }, ?_, rfl, fun path => ?_⟩
          · simp only [Exchange.Happens, SourceTree.createDirs, there, Bool.false_eq_true, if_false]
          · rw [createdDirs, PathMap.mem_keys_insert, or_comm, createdDirs]
            refine or_congr_right ?_
            constructor
            · rintro rfl
              exact ⟨rfl, there⟩
            · rintro ⟨same, -⟩
              cases same
              rfl
  | stored normal =>
      refine ⟨_, rfl, rfl, fun path => (or_iff_left_of_imp ?_).symm⟩
      rintro ⟨same, -⟩
      cases same

theorem exists_replays (succeed : ∀ exchange ∈ exchanges, exchange.Succeeds)
    (overlay : Overlay) :
    ∃ overlay', Replays overlay exchanges overlay' ∧
      ∀ path, path ∈ overlay'.createdDirs ↔
        path ∈ overlay.createdDirs ∨
          (Asked exchanges path ∧ overlay.base.isDirectory path = false) := by
  induction exchanges generalizing overlay with
  | nil => exact ⟨overlay, .nil, fun path => by simp [Asked]⟩
  | cons first exchanges ih =>
      obtain ⟨here, others⟩ := List.forall_mem_cons.mp succeed
      obtain ⟨next, happens, base, listed⟩ := exists_happens here overlay
      obtain ⟨overlay', replayed, further⟩ := ih others next
      refine ⟨overlay', .cons happens replayed, fun path => ?_⟩
      rw [further, listed, base, Exchange.asked_cons, or_and_right, or_assoc]

end Overlay

namespace DiskTree

variable {before after : DiskTree} {exchange : Exchange} {exchanges : List Exchange}

/-- A call that succeeds makes the folders that the way to its path lacks, and no file. -/
theorem folders_of_happens (succeeds : exchange.Succeeds)
    (start : before.disk.IsFolderAt (before.disk.start before.root))
    (h : exchange.Happens before after) :
    ∃ disk', after = { before with disk := disk' } ∧ before.disk.Keeps disk' ∧
      ∀ location, disk'.IsFolderAt location ↔ before.disk.IsFolderAt location ∨
        ∃ path, exchange = .createDirs path (.ok ()) ∧ location ∈ before.way path := by
  cases succeeds with
  | @made dir normal =>
      have done : SourceTree.createDirs dir before = (.ok (), after) := h
      obtain ⟨disk', rfl, keeps, -⟩ := createDirs_keeps normal done
      refine ⟨disk', rfl, keeps, fun location => ?_⟩
      rw [isFolderAt_createDirs start normal done]
      simp
  | @stored path content normal =>
      have done : SourceTree.write path content before = (.ok (), after) := h
      obtain ⟨-, disk', rfl, -, -, keeps, -⟩ := write_places normal done
      refine ⟨disk', rfl, keeps, fun location => ?_⟩
      rw [isFolderAt_write normal done]
      simp

theorem folders_of_replays (succeed : ∀ exchange ∈ exchanges, exchange.Succeeds)
    (start : before.disk.IsFolderAt (before.disk.start before.root))
    (done : Replays before exchanges after) :
    ∃ disk', after = { before with disk := disk' } ∧ before.disk.Keeps disk' ∧
      ∀ location, disk'.IsFolderAt location ↔ before.disk.IsFolderAt location ∨
        ∃ path, Asked exchanges path ∧ location ∈ before.way path := by
  induction done with
  | nil => exact ⟨_, rfl, .refl _, fun location => by simp [Asked]⟩
  | @cons before next after first exchanges happens _ ih =>
      obtain ⟨here, others⟩ := List.forall_mem_cons.mp succeed
      obtain ⟨disk, rfl, keeps, made⟩ := folders_of_happens here start happens
      obtain ⟨disk', rfl, keeps', further⟩ := ih others (keeps.isFolderAt_start start)
      refine ⟨disk', rfl, keeps.trans keeps', fun location => ?_⟩
      simp only [further, made, way_of_keeps keeps, Exchange.asked_cons, or_and_right, exists_or,
        or_assoc]

/-- The names lead to a folder below the place of the tree, and they did not before. -/
def NewFolder (before after : DiskTree) (names : List String) : Prop :=
  names ≠ [] ∧ after.HasFolder names ∧ ¬ before.HasFolder names

/-- What the way to a directory asked for lacks below the place of the tree is asked for itself,
and a directory asked for that is there is seen by the tree. -/
structure EachAsked (tree : DiskTree) (exchanges : List Exchange) : Prop where
  itself : ∀ path, Asked exchanges path → ∀ names, names ≠ [] →
    tree.place ++ names ∈ tree.way path → ¬ tree.HasFolder names →
      ∃ dir, Asked exchanges dir ∧ Path.components dir = names
  seen : ∀ path, Asked exchanges path → tree.HasFolder (Path.components path) →
    tree.isDirectory path = true

section Calls

variable (start : before.disk.IsFolderAt (before.disk.start before.root))
  (succeed : ∀ exchange ∈ exchanges, exchange.Succeeds) (done : Replays before exchanges after)

include start succeed done

theorem newFolder_iff (names : List String) :
    NewFolder before after names ↔ names ≠ [] ∧ ¬ before.HasFolder names ∧
      ∃ path, Asked exchanges path ∧ before.place ++ names ∈ before.way path := by
  obtain ⟨disk', rfl, keeps, folders⟩ := folders_of_replays succeed start done
  have made : HasFolder { before with disk := disk' } names ↔ before.HasFolder names ∨
      ∃ path, Asked exchanges path ∧ before.place ++ names ∈ before.way path := by
    rw [HasFolder, place_of_keeps keeps]
    exact folders _
  rw [NewFolder, made]
  refine and_congr_right fun _ => ?_
  rw [and_comm]
  exact and_congr_right or_iff_right

theorem admits_of_asked {path : String} (asked : Asked exchanges path) : before.Admits path := by
  obtain ⟨front, back, rfl⟩ := List.append_of_mem asked
  obtain ⟨between, fronted, rest⟩ := done.split
  have frontSucceeds : ∀ exchange ∈ front, exchange.Succeeds := fun exchange there =>
    succeed exchange (List.mem_append_left _ there)
  obtain ⟨disk, rfl, keeps, -⟩ := folders_of_replays frontSucceeds start fronted
  cases rest with
  | cons happens _ =>
      exact (createDirs_makes (asked.normal succeed) (keeps.isFolderAt_start start) happens).1

/-- Below a root that is there, what has to be asked for are the missing directories above. -/
theorem RootedAt.eachAsked_iff {root : Location} (rooted : before.RootedAt root) :
    before.EachAsked exchanges ↔ ∀ path, Asked exchanges path →
      ∀ names, names ≠ [] → names <+: Path.components path → ¬ before.HasFolder names →
        ∃ dir, Asked exchanges dir ∧ Path.components dir = names := by
  constructor
  · rintro ⟨itself, -⟩ path asked names nonempty above missing
    exact itself path asked names nonempty
      ((rooted.mem_way_iff start (asked.normal succeed) missing).mpr above) missing
  · intro above
    refine ⟨fun path asked names nonempty onWay missing => ?_, fun path asked there => ?_⟩
    · exact above path asked names nonempty
        ((rooted.mem_way_iff start (asked.normal succeed) missing).mp onWay) missing
    · exact rooted.isDirectory_of_hasFolder start (asked.normal succeed)
        (admits_of_asked start succeed done asked) there

end Calls

end DiskTree

namespace Overlay

open DiskTree

/-- Calls that succeed on a disk make the folders that the ways to the directories asked for
lack, and an overlay lists the directories asked for that it does not see on the disk. These are
the same below the root if and only if each of those folders is asked for itself. -/
theorem createdDirs_exact_iff {before after : DiskTree} {exchanges : List Exchange}
    (start : before.disk.IsFolderAt (before.disk.start before.root))
    (succeed : ∀ exchange ∈ exchanges, exchange.Succeeds)
    (done : Replays before exchanges after) :
    ∃ overlay, Replays ({ base := before } : Overlay) exchanges overlay ∧
      (∀ names, NewFolder before after names ↔ names ≠ [] ∧ ¬ before.HasFolder names ∧
        ∃ path, Asked exchanges path ∧ before.place ++ names ∈ before.way path) ∧
      (∀ path, path ∈ overlay.createdDirs ↔
        Asked exchanges path ∧ before.isDirectory path = false) ∧
      ((∀ names, NewFolder before after names ↔
          names ∈ overlay.createdDirs.map Path.components) ↔
        before.EachAsked exchanges) := by
  obtain ⟨overlay, replayed, further⟩ := exists_replays succeed { base := before }
  have listed (path : String) : path ∈ overlay.createdDirs ↔
      Asked exchanges path ∧ before.isDirectory path = false :=
    (further path).trans (or_iff_right List.not_mem_nil)
  have made := newFolder_iff start succeed done
  refine ⟨overlay, replayed, made, listed, ?_⟩
  simp only [List.mem_map]
  constructor
  · intro same
    refine ⟨fun path asked names nonempty onWay missing => ?_, fun path asked there => ?_⟩
    · obtain ⟨dir, inList, leads⟩ :=
        (same names).mp ((made names).mpr ⟨nonempty, missing, path, asked, onWay⟩)
      exact ⟨dir, ((listed dir).mp inList).1, leads⟩
    · by_contra unseen
      have inList := (listed path).mpr ⟨asked, Bool.eq_false_iff.mpr unseen⟩
      exact ((same _).mpr ⟨path, inList, rfl⟩).2.2 there
  · rintro ⟨itself, seen⟩ names
    constructor
    · intro new
      obtain ⟨nonempty, missing, path, asked, onWay⟩ := (made names).mp new
      obtain ⟨dir, asked', rfl⟩ := itself path asked names nonempty onWay missing
      have absent : before.isDirectory dir = false := Bool.eq_false_iff.mpr fun there =>
        missing (hasFolder_of_isDirectory start (asked'.normal succeed) there)
      exact ⟨dir, (listed dir).mpr ⟨asked', absent⟩, rfl⟩
    · rintro ⟨dir, inList, rfl⟩
      obtain ⟨asked, absent⟩ := (listed dir).mp inList
      have normal := asked.normal succeed
      refine (made _).mpr ⟨components_ne_nil normal, fun there => ?_, dir, asked,
        components_mem_way normal⟩
      rw [seen dir asked there] at absent
      cases absent

/-- A tree with one directory in it. -/
def started : DiskTree where
  root := "t"
  disk := ⟨.folder "t" (.folder "a" .empty .empty) .empty, []⟩

/-- Directories are made one below the other, and the first of them twice. -/
def deepening : List Exchange :=
  [.createDirs "a/b" (.ok ()), .write "a/b/x" "" (.ok ()), .createDirs "a/b/c" (.ok ()),
    .createDirs "a/b" (.ok ())]

theorem createdDirs_exact_iff_deepening :
    started.disk.IsFolderAt (started.disk.start started.root) ∧
      (∀ exchange ∈ deepening, exchange.Succeeds) ∧
      ∃ after overlay, Replays started deepening after ∧
        Replays ({ base := started } : Overlay) deepening overlay ∧
        (∀ path, path ∈ overlay.createdDirs ↔ path = "a/b" ∨ path = "a/b/c") ∧
        ∀ names, NewFolder started after names ↔ names = ["a", "b"] ∨ names = ["a", "b", "c"] := by
  have start : started.disk.IsFolderAt (started.disk.start started.root) := by decide +kernel
  have succeed : ∀ exchange ∈ deepening, exchange.Succeeds := by
    simp only [deepening, List.forall_mem_cons]
    exact ⟨.made (by decide), .stored (by decide), .made (by decide), .made (by decide), nofun⟩
  have goesWell : (deepening.foldlM Exchange.succeed? started).isSome := by decide +kernel
  obtain ⟨after, ends⟩ := Option.isSome_iff_exists.mp goesWell
  have done := Exchange.replays_of_succeed? ends
  obtain ⟨overlay, replayed, -, listed, exactly⟩ := createdDirs_exact_iff start succeed done
  have asked (path : String) : Asked deepening path ↔ path = "a/b" ∨ path = "a/b/c" := by
    simp [Asked, deepening, or_comm]
  have inList (path : String) :
      path ∈ overlay.createdDirs ↔ path = "a/b" ∨ path = "a/b/c" := by
    rw [listed, asked]
    refine and_iff_left_of_imp ?_
    rintro (rfl | rfl) <;> decide +kernel
  have leads : Path.components "a/b" = ["a", "b"] ∧ Path.components "a/b/c" = ["a", "b", "c"] := by
    decide +kernel
  refine ⟨start, succeed, after, overlay, done, replayed, inList, fun names => ?_⟩
  have each : started.EachAsked deepening := by
    have isThere : started.disk.isDirectory started.root = true := by decide +kernel
    obtain ⟨root, rooted⟩ := exists_rootedAt isThere
    have already : started.HasFolder ["a"] := by decide +kernel
    refine (rooted.eachAsked_iff start succeed done).mpr ?_
    intro path asks names nonempty above missing
    have onDeepest : names <+: ["a", "b", "c"] := by
      rcases (asked path).mp asks with rfl | rfl
      · exact above.trans (leads.1 ▸ ⟨["c"], rfl⟩)
      · exact leads.2 ▸ above
    rw [← List.mem_inits] at onDeepest
    simp only [List.inits, List.map_cons, List.map_nil, List.mem_cons, List.not_mem_nil,
      or_false] at onDeepest
    rcases onDeepest with rfl | rfl | rfl | rfl
    · exact absurd rfl nonempty
    · exact absurd already missing
    · exact ⟨"a/b", (asked _).mpr (.inl rfl), leads.1⟩
    · exact ⟨"a/b/c", (asked _).mpr (.inr rfl), leads.2⟩
  rw [exactly.mpr each]
  simp only [List.mem_map, inList, or_and_right, exists_or, exists_eq_left, leads, eq_comm]

/-- A tree with nothing in it. -/
def bare : DiskTree where
  root := "t"
  disk := ⟨.folder "t" .empty .empty, []⟩

/-- The directory above is made as well, and it is not listed. -/
theorem parent_not_listed :
    Path.IsNormal "a/b" ∧ ∃ after overlay,
      Replays bare [.createDirs "a/b" (.ok ())] after ∧
      Replays ({ base := bare } : Overlay) [.createDirs "a/b" (.ok ())] overlay ∧
      NewFolder bare after ["a"] ∧ ["a"] ∉ overlay.createdDirs.map Path.components := by
  have normal : Path.IsNormal "a/b" := by decide
  have succeed : ∀ exchange ∈ [Exchange.createDirs "a/b" (.ok ())], exchange.Succeeds :=
    List.forall_mem_singleton.mpr (.made normal)
  have goesWell : ([Exchange.createDirs "a/b" (.ok ())].foldlM Exchange.succeed? bare).isSome := by
    decide +kernel
  obtain ⟨after, ends⟩ := Option.isSome_iff_exists.mp goesWell
  have done := Exchange.replays_of_succeed? ends
  obtain ⟨overlay, replayed, listed⟩ := exists_replays succeed { base := bare }
  refine ⟨normal, after, overlay, done, replayed, ?_, ?_⟩
  · refine (newFolder_iff (by decide +kernel) succeed done _).mpr ⟨by decide, by decide +kernel, ?_⟩
    exact ⟨"a/b", List.mem_singleton_self _, by decide +kernel⟩
  · intro there
    obtain ⟨path, inList, leads⟩ := List.mem_map.mp there
    obtain ⟨asked, -⟩ := ((listed path).mp inList).resolve_left List.not_mem_nil
    cases List.mem_singleton.mp asked
    revert leads
    decide +kernel

end Overlay
end Repackage
