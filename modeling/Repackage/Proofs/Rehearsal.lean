import Repackage.Proofs.Overlay
import Repackage.Proofs.WellFormed

/-!
A dry run goes as the run that it rehearses. An overlay mirrors a disk tree if both show
the same files at normal paths. What a turn does to the disk, as long as nothing refuses
its writes, it does to the overlay, and they mirror each other again. Directories need not
agree: those that the disk makes show no file, and where one stands in the way the write
is refused.
-/

namespace Repackage

/-- The overlay shows the files that the disk tree has. -/
def Mirrors (tree : DiskTree) (overlay : Overlay) : Prop :=
  ∀ path, Path.IsNormal path → tree.file? path = overlay.file? path

namespace Mirrors

variable {tree tree' : DiskTree} {overlay : Overlay}

theorem isFile (mirrors : Mirrors tree overlay) {path : String} (normal : Path.IsNormal path)
    {found : Bool} (h : SourceTree.isFile path tree = (found, tree')) :
    tree' = tree ∧ found = (tree.file? path).isSome ∧
      SourceTree.isFile path overlay = (found, overlay) := by
  obtain ⟨rfl, rfl⟩ := Prod.mk.inj h
  refine ⟨rfl, tree.isFile_eq path, ?_⟩
  rw [overlay.isFile_eq, ← mirrors path normal, tree.isFile_eq]

theorem read (mirrors : Mirrors tree overlay) {path : String} (normal : Path.IsNormal path)
    (found : (tree.file? path).isSome) {answer : Except FileError String}
    (h : SourceTree.read path tree = (answer, tree')) :
    tree' = tree ∧ SourceTree.read path overlay = (answer, overlay) := by
  obtain ⟨rfl, rfl⟩ := Prod.mk.inj h
  obtain ⟨content, there⟩ := Option.isSome_iff_exists.mp found
  refine ⟨rfl, ?_⟩
  rw [overlay.read_of_file? ((mirrors path normal).symm.trans there),
    DiskTree.readText_of_file? there]

theorem loaded (mirrors : Mirrors tree overlay) {path content : String}
    (normal : Path.IsNormal path) (h : Loaded path tree content tree') :
    tree' = tree ∧ (tree.file? path).isSome ∧ Loaded path overlay content overlay := by
  obtain ⟨found, read⟩ := h
  obtain ⟨rfl, there, found'⟩ := mirrors.isFile normal found
  obtain ⟨rfl, read'⟩ := mirrors.read normal there.symm read
  exact ⟨rfl, there.symm, found', read'⟩

/-- A tree that shows some file has its root, and below a root that is there making
directories changes no file. -/
theorem prepared (mirrors : Mirrors tree overlay) {source path : String}
    (sourceNormal : Path.IsNormal source) (there : (tree.file? source).isSome)
    (normal : Path.IsNormal path) (h : Prepared path tree tree') :
    ∃ overlay', Prepared path overlay overlay' ∧ Mirrors tree' overlay' := by
  obtain ⟨overlay', prepared, same⟩ := overlay.exists_prepared path
  refine ⟨overlay', prepared, ?_⟩
  intro query hq
  rw [same, ← mirrors query hq]
  cases h with
  | atTop _ => rfl
  | made nested made =>
      obtain ⟨content, found⟩ := Option.isSome_iff_exists.mp there
      obtain ⟨root, rooted⟩ := DiskTree.RootedAt.of_file? sourceNormal found
      exact DiskTree.file?_createDirs rooted (Path.isNormal_parent normal nested) made hq

theorem write (mirrors : Mirrors tree overlay) {path content : String}
    (normal : Path.IsNormal path) (h : SourceTree.write path content tree = (.ok (), tree')) :
    ∃ overlay', SourceTree.write path content overlay = (.ok (), overlay') ∧
      Mirrors tree' overlay' := by
  obtain ⟨overlay', stored, files⟩ := overlay.write_eq path content
  refine ⟨overlay', stored, ?_⟩
  intro query hq
  rw [files, DiskTree.file?_write normal h hq, mirrors query hq]

end Mirrors

/-- How a turn on the disk and the same turn on the overlay compare. -/
inductive TurnsAgree : EStateM.Result Failure DiskTree Relocated →
    EStateM.Result Failure Overlay Relocated → Prop
  | done {relocated : Relocated} {tree : DiskTree} {overlay : Overlay}
      (mirrors : Mirrors tree overlay) :
      TurnsAgree (.ok relocated tree) (.ok relocated overlay)
  | unread {path : String} {cause : FileError} {tree : DiskTree} {overlay : Overlay}
      (mirrors : Mirrors tree overlay) :
      TurnsAgree (.error (.readFailure path cause) tree)
        (.error (.readFailure path cause) overlay)
  | unwritten {path : String} {cause : FileError} {relocated : Relocated} {tree : DiskTree}
      {overlay : Overlay} :
      TurnsAgree (.error (.writeFailure path cause) tree) (.ok relocated overlay)

theorem Mirrors.turn {tree : DiskTree} {overlay : Overlay} (mirrors : Mirrors tree overlay)
    {entry : Entry} (wellFormed : entry.WellFormed) {rules : RuleTable}
    {result : EStateM.Result Failure DiskTree Relocated} (h : Turn entry rules tree result) :
    ∃ result', Turn entry rules overlay result' ∧ TurnsAgree result result' := by
  have normal := wellFormed.source_normal
  have written : ∀ (overlay : Overlay) (content : String),
      Loaded entry.source overlay content overlay →
      entry.mustWrite (entry.rewrite rules content) = true →
      ∃ overlay', Turn entry rules overlay
        (.ok (entry.settled (entry.rewrite rules content)) overlay') := by
    intro overlay content loaded due
    obtain ⟨ready, prepared, -⟩ := overlay.exists_prepared entry.output
    obtain ⟨overlay', stored, -⟩ :=
      ready.write_eq entry.output (entry.rewrite rules content).after
    exact ⟨overlay', .written loaded due prepared stored⟩
  cases h with
  | missing absent =>
      obtain ⟨rfl, -, absent'⟩ := mirrors.isFile normal absent
      exact ⟨_, .missing absent', .done mirrors⟩
  | unreadable found unread =>
      obtain ⟨rfl, there, found'⟩ := mirrors.isFile normal found
      obtain ⟨rfl, unread'⟩ := mirrors.read normal there.symm unread
      exact ⟨_, .unreadable found' unread', .unread mirrors⟩
  | kept loaded idle =>
      obtain ⟨rfl, -, loaded'⟩ := mirrors.loaded normal loaded
      exact ⟨_, .kept loaded' idle, .done mirrors⟩
  | unprepared loaded due _ _ =>
      obtain ⟨rfl, -, loaded'⟩ := mirrors.loaded normal loaded
      obtain ⟨_, turn⟩ := written overlay _ loaded' due
      exact ⟨_, turn, .unwritten⟩
  | unwritten loaded due _ _ =>
      obtain ⟨rfl, -, loaded'⟩ := mirrors.loaded normal loaded
      obtain ⟨_, turn⟩ := written overlay _ loaded' due
      exact ⟨_, turn, .unwritten⟩
  | written loaded due prepared stored =>
      obtain ⟨rfl, there, loaded'⟩ := mirrors.loaded normal loaded
      obtain ⟨ready, prepared', mirrors'⟩ :=
        mirrors.prepared normal there wellFormed.output_normal prepared
      obtain ⟨overlay', stored', mirrors''⟩ := mirrors'.write wellFormed.output_normal stored
      exact ⟨_, .written loaded' due prepared' stored', .done mirrors''⟩

/-- How an activity on the disk and the same activity on an overlay compare. The disk may
refuse a write, and then the overlay goes on with at least the entry that was not written. -/
inductive Agrees {α : Type} : EStateM.Result Failure (Progress DiskTree) α →
    EStateM.Result Failure (Progress Overlay) α → Prop
  | done {value : α} {tree : DiskTree} {overlay : Overlay} {events : List Event}
      (mirrors : Mirrors tree overlay) :
      Agrees (.ok value ⟨tree, events⟩) (.ok value ⟨overlay, events⟩)
  | unread {phase entry path : String} {cause : FileError} {tree : DiskTree}
      {overlay : Overlay} {events : List Event} (mirrors : Mirrors tree overlay) :
      Agrees (.error (.aborted phase entry (.readFailure path cause)) ⟨tree, events⟩)
        (.error (.aborted phase entry (.readFailure path cause)) ⟨overlay, events⟩)
  | unwritten {phase entry path : String} {cause : FileError} {tree : DiskTree}
      {events : List Event} {result : EStateM.Result Failure (Progress Overlay) α}
      (further : ∃ report, events ++ [.entry phase report] <+: (Ending.state result).events) :
      Agrees (.error (.aborted phase entry (.writeFailure path cause)) ⟨tree, events⟩) result

/-- A write was refused, and the run stopped there. -/
def WriteRefused {α : Type} (answer : Except Failure α) : Prop :=
  ∃ phase entry path cause, answer = .error (.aborted phase entry (.writeFailure path cause))

def ReadRefused {α : Type} (answer : Except Failure α) : Prop :=
  ∃ phase entry path cause, answer = .error (.aborted phase entry (.readFailure path cause))

namespace Agrees

theorem map {α β : Type} {real : EStateM.Result Failure (Progress DiskTree) α}
    {dry : EStateM.Result Failure (Progress Overlay) α} (h : Agrees real dry) (f : α → β) :
    Agrees (Ending.map f real) (Ending.map f dry) := by
  cases h with
  | done mirrors => exact .done mirrors
  | unread mirrors => exact .unread mirrors
  | unwritten further => exact .unwritten (by simpa using further)

variable {α : Type} {real : EStateM.Result Failure (Progress DiskTree) α}
  {dry : EStateM.Result Failure (Progress Overlay) α}

theorem heard (h : Agrees real dry) : (Ending.state real).events <+: (Ending.state dry).events := by
  cases h with
  | done _ => exact List.prefix_rfl
  | unread _ => exact List.prefix_rfl
  | unwritten further =>
      obtain ⟨_, further⟩ := further
      exact (List.prefix_append _ _).trans further

theorem same (h : Agrees real dry) (stored : ¬ WriteRefused (Ending.answer real)) :
    Ending.answer dry = Ending.answer real ∧
      (Ending.state dry).events = (Ending.state real).events ∧
      Mirrors (Ending.state real).tree (Ending.state dry).tree := by
  cases h with
  | done mirrors => exact ⟨rfl, rfl, mirrors⟩
  | unread mirrors => exact ⟨rfl, rfl, mirrors⟩
  | unwritten _ => exact absurd ⟨_, _, _, _, rfl⟩ stored

theorem refused (h : Agrees real dry) {failure : Failure}
    (failed : Ending.answer real = .error failure) :
    ReadRefused (Ending.answer real) ∨ WriteRefused (Ending.answer real) := by
  cases h with
  | done _ => cases failed
  | unread _ => exact .inl ⟨_, _, _, _, rfl⟩
  | unwritten _ => exact .inr ⟨_, _, _, _, rfl⟩

theorem real_fails (h : Agrees real dry) {failure : Failure}
    (cut : Ending.answer dry = .error failure) :
    ∃ failure, Ending.answer real = .error failure := by
  cases h with
  | done _ => cases cut
  | unread _ => exact ⟨_, rfl⟩
  | unwritten _ => exact ⟨_, rfl⟩

end Agrees

namespace Phase

theorem runEntries_agrees (phase : Phase) {entries : List Entry}
    (wellFormed : ∀ entry ∈ entries, entry.WellFormed) {tree : DiskTree} {overlay : Overlay}
    (mirrors : Mirrors tree overlay) (events : List Event) :
    Agrees (phase.runEntries entries ⟨tree, events⟩)
      (phase.runEntries entries ⟨overlay, events⟩) := by
  induction entries generalizing tree overlay events with
  | nil => exact .done mirrors
  | cons entry rest ih =>
      obtain ⟨first, others⟩ := List.forall_mem_cons.mp wellFormed
      obtain ⟨result, turn, agree⟩ := mirrors.turn first (Entry.turn_iff.mpr rfl)
      generalize ended : entry.relocate phase.rules tree = real at agree
      have turn₀ := Entry.turn_iff.mpr ended
      cases agree with
      | done mirrors' =>
          rw [runEntries_of_ok turn₀, runEntries_of_ok turn]
          exact (ih others mirrors' _).map _
      | unread mirrors' =>
          rw [runEntries_of_error turn₀, runEntries_of_error turn]
          exact .unread mirrors'
      | @unwritten _ _ relocated =>
          rw [runEntries_of_error turn₀, runEntries_of_ok turn]
          refine .unwritten ⟨EntryReport.of entry relocated, ?_⟩
          rw [Ending.state_map]
          exact runEntries_heard phase rest ⟨_, _⟩

theorem run_agrees {phase : Phase} (wellFormed : phase.WellFormed) {tree : DiskTree}
    {overlay : Overlay} (mirrors : Mirrors tree overlay) (events : List Event) :
    Agrees (phase.run ⟨tree, events⟩) (phase.run ⟨overlay, events⟩) := by
  have entries := phase.runEntries_agrees wellFormed mirrors events
  simp only [run, bind, EStateM.bind]
  generalize phase.runEntries phase.manifest ⟨tree, events⟩ = real at entries
  generalize phase.runEntries phase.manifest ⟨overlay, events⟩ = dry at entries
  cases entries with
  | done mirrors' => exact .done mirrors'
  | unread mirrors' => exact .unread mirrors'
  | unwritten further =>
      obtain ⟨report, further⟩ := further
      refine .unwritten ⟨report, further.trans ?_⟩
      cases dry with
      | ok reports progress => exact List.prefix_append _ _
      | error failure progress => exact List.prefix_rfl

theorem runAll_agrees {phases : List Phase} (wellFormed : ∀ phase ∈ phases, phase.WellFormed)
    {tree : DiskTree} {overlay : Overlay} (mirrors : Mirrors tree overlay)
    (events : List Event) :
    Agrees (runAll phases ⟨tree, events⟩) (runAll phases ⟨overlay, events⟩) := by
  induction phases generalizing tree overlay events with
  | nil => exact .done mirrors
  | cons phase phases ih =>
      obtain ⟨first, others⟩ := List.forall_mem_cons.mp wellFormed
      have agree := run_agrees first mirrors events
      generalize ranReal : phase.run ⟨tree, events⟩ = real at agree
      generalize ranDry : phase.run ⟨overlay, events⟩ = dry at agree
      cases agree with
      | done mirrors' =>
          rw [runAll_of_ok ranReal, runAll_of_ok ranDry]
          exact (ih others mirrors' _).map _
      | unread mirrors' =>
          rw [runAll_of_error ranReal, runAll_of_error ranDry]
          exact .unread mirrors'
      | unwritten further =>
          obtain ⟨report, further⟩ := further
          rw [runAll_of_error ranReal]
          refine .unwritten ⟨report, ?_⟩
          cases dry with
          | ok pass progress =>
              rw [runAll_of_ok ranDry, Ending.state_map]
              exact further.trans (runAll_heard phases progress)
          | error failure progress =>
              rw [runAll_of_error ranDry]
              exact further

end Phase

namespace Plan

/-- A dry run tells what the run on the disk tells, up to the entry whose write the disk
refuses. If it refuses none, both answer the same and show the same files in the end; what
they may answer but a report is that no such phase is there or that a file could not be
read. A dry run leaves the disk as it is, and is not cut short before the run on the disk
is. -/
theorem rehearsal_agrees (plan : Plan) (wellFormed : plan.WellFormed) (names : List String)
    (tree : DiskTree) :
    let real := plan.run names ({ tree } : Progress DiskTree)
    let dry := plan.run names ({ tree := { base := tree } } : Progress Overlay)
    (Ending.state real).events <+: (Ending.state dry).events ∧
      (¬ WriteRefused (Ending.answer real) →
        Ending.answer dry = Ending.answer real ∧
          (∀ failure, Ending.answer real = .error failure →
            ReadRefused (Ending.answer real) ∨ plan.select names = .error failure) ∧
          (Ending.state dry).events = (Ending.state real).events ∧
          ∀ path, Path.IsNormal path → (Ending.state real).tree.file? path =
            match (Ending.state dry).tree.staged.find? path with
            | some text => some text.toUTF8
            | none => tree.file? path) ∧
      (Ending.state dry).tree.base = tree ∧
      ∀ index, plan.CutAt names dry index →
        ∃ earlier ≤ index, plan.CutAt names real earlier := by
  intro real dry
  have start : ({ base := tree } : Overlay).base = tree := rfl
  have base : (Ending.state dry).tree.base = tree :=
    (Overlay.closed_base tree).run start plan names
  cases hs : plan.select names with
  | error failure =>
      have real_eq : real = .error failure { tree } := run_of_refused hs _
      have dry_eq : dry = .error failure { tree := { base := tree } } := run_of_refused hs _
      rw [real_eq, dry_eq]
      refine ⟨List.prefix_rfl, fun _ => ⟨rfl, ?_, rfl, fun _ _ => rfl⟩, rfl, ?_⟩
      · intro _ refused
        cases refused
        exact .inr rfl
      · rintro index ⟨_, _, _, stop, -, -⟩
        simp [stops, hs] at stop
  | ok phases =>
      have mirrors : Mirrors tree { base := tree } := fun _ _ => rfl
      have agree : Agrees real dry := by
        have passes := Phase.runAll_agrees (selected_wellFormed wellFormed hs) mirrors []
        simpa only [real, dry, run_of_selected hs] using passes.map RunReport.ofPasses
      refine ⟨agree.heard, ?_, base, ?_⟩
      · intro stored
        obtain ⟨answers, events, mirrors'⟩ := agree.same stored
        refine ⟨answers, ?_, events, ?_⟩
        · intro failure failed
          exact .inl ((agree.refused failed).resolve_right stored)
        · intro path normal
          exact (mirrors' path normal).trans (Overlay.file?_of_base base path)
      · rintro index ⟨_, _, _, -, cut, heard⟩
        obtain ⟨failure, failed⟩ := agree.real_fails cut
        refine ⟨_, ?_, cutAt_of_error hs failed⟩
        rw [← heard]
        exact (agree.heard.sublist.filterMap _).length_le

def moving : Plan where
  root := "."
  phases := [{ name := "move", rules := [], manifest := [⟨"a", "b/a", some ⟨"p", "q"⟩⟩] }]

def onlyA : DiskTree :=
  ⟨".", ⟨.file "a" "package p;".toUTF8 .empty, []⟩⟩

theorem rehearsal_agrees_moving :
    moving.WellFormed ∧
      Ending.answer (moving.run [] ({ tree := { base := onlyA } } : Progress Overlay))
        = Ending.answer (moving.run [] ({ tree := onlyA } : Progress DiskTree)) := by
  have wellFormed : moving.WellFormed := by decide
  have finished :
      (Ending.answer (moving.run [] ({ tree := onlyA } : Progress DiskTree))).isOk = true := by
    decide +kernel
  obtain ⟨-, same, -, -⟩ := rehearsal_agrees moving wellFormed [] onlyA
  refine ⟨wellFormed, (same ?_).1⟩
  rintro ⟨_, _, _, _, refused⟩
  rw [refused] at finished
  cases finished

/-- With a file in place of the directory only the dry run goes through. -/
example :
    let tree : DiskTree := ⟨".", ⟨.file "a" .empty (.file "b" .empty .empty), []⟩⟩
    (Ending.answer (moving.run [] ({ tree } : Progress DiskTree))).isOk = false ∧
      (Ending.answer (moving.run [] ({ tree := { base := tree } } : Progress Overlay))).isOk
        = true := by
  decide +kernel

end Plan
end Repackage
