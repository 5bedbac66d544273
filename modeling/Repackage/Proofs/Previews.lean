import Repackage.Proofs.Confinement
import Repackage.Proofs.Diff.ReadBack
import Repackage.Proofs.Refusal
import Repackage.Proofs.Rehearsal

/-!
The previews of a dry run are the changes of the run that it rehearses. The overlay stages the
destinations of the entries that are visited, in the order of their paths, with the content that
the run leaves there. A preview is left out where that content has the lines of the file on the
disk, and what no preview names is at most written anew with the same lines.
-/

namespace Repackage

/-- What is staged are destinations of these entries, in the order of their paths. -/
structure Overlay.Stages (entries : Entry → Prop) (overlay : Overlay) : Prop where
  sorted : overlay.staged.Sorted
  dests : ∀ path content, overlay.staged.find? path = some content →
    ∃ entry, entries entry ∧ entry.dest = path

namespace Overlay

theorem Stages.closed {entries : Entry → Prop}
    (wellFormed : ∀ entry, entries entry → entry.WellFormed) :
    ClosedUnder (fun call => ∃ entry, entries entry ∧ entry.Asks call) (Stages entries) where
  isFile _ h := h
  read _ h := by
    simp only [SourceTree.read]
    split <;> exact h
  createDirs _ h := by
    simp only [SourceTree.createDirs]
    split
    · exact h
    · exact ⟨h.sorted, h.dests⟩
  write := by
    rintro overlay path content ⟨entry, allowed, asks⟩ h
    cases asks with
    | write _ =>
        refine ⟨h.sorted.insert _ _, fun query seen there => ?_⟩
        simp only [SourceTree.write, PathMap.find?_insert] at there
        split at there
        · rename_i same
          exact ⟨entry, allowed, ((wellFormed entry allowed).output_eq.symm.trans same.symm)⟩
        · exact h.dests query seen there

/-- The text that a preview starts from. -/
def before? (overlay : Overlay) (path : String) : Option String :=
  if overlay.base.isFile path then (overlay.base.readText path).toOption else none

/-- A preview of one path, unless it shows nothing. -/
def preview? (overlay : Overlay) (path content : String) : Option FileDiff :=
  let diff := Diff.unified path (overlay.before? path) content
  if diff.isEmpty then none else some ⟨path, diff⟩

theorem preview?_eq_some_iff {overlay : Overlay} {path content : String} {shown : FileDiff} :
    overlay.preview? path content = some shown ↔ shown.path = path ∧
      shown.diff = Diff.unified path (overlay.before? path) content ∧ shown.diff ≠ "" := by
  obtain ⟨named, diff⟩ := shown
  simp only [preview?]
  generalize Diff.unified path (overlay.before? path) content = made
  split
  · rename_i none
    rw [String.isEmpty_iff] at none
    simp [none]
  · rename_i nonempty
    rw [String.isEmpty_iff] at nonempty
    simp only [Option.some.injEq, FileDiff.mk.injEq]
    constructor
    · rintro ⟨rfl, rfl⟩
      exact ⟨rfl, rfl, nonempty⟩
    · rintro ⟨rfl, rfl, -⟩
      exact ⟨rfl, rfl⟩

theorem previews_eq (overlay : Overlay) : overlay.previews =
    overlay.staged.entries.filterMap fun staged => overlay.preview? staged.1 staged.2 :=
  rfl

theorem mem_previews_iff {overlay : Overlay} (sorted : overlay.staged.Sorted) {shown : FileDiff} :
    shown ∈ overlay.previews ↔ ∃ content, overlay.staged.find? shown.path = some content ∧
      overlay.preview? shown.path content = some shown := by
  simp only [previews_eq, List.mem_filterMap, Prod.exists, sorted.find?_eq_some_iff]
  constructor
  · rintro ⟨path, content, staged, seen⟩
    obtain ⟨rfl, -, -⟩ := preview?_eq_some_iff.mp seen
    exact ⟨content, staged, seen⟩
  · rintro ⟨content, staged, seen⟩
    exact ⟨shown.path, content, staged, seen⟩

theorem pairwise_previews {overlay : Overlay} (sorted : overlay.staged.Sorted) :
    (overlay.previews.map (·.path)).Pairwise (· < ·) := by
  rw [List.pairwise_map, previews_eq, List.pairwise_filterMap]
  refine (List.pairwise_map.mp sorted).imp ?_
  intro first second before shown seen shown' seen'
  rw [(preview?_eq_some_iff.mp seen).1, (preview?_eq_some_iff.mp seen').1]
  exact before

end Overlay

/-- A preview says what becomes of its file between two trees: read as a patch it adds the lines
of a file that is made, and makes the new lines of one that is there from the old ones. -/
inductive FileDiff.Shows (shown : FileDiff) (before after : DiskTree) : Prop
  | made {new : String} {patch : Patch} (absent : before.isFile shown.path = false)
      (left : after.readText shown.path = .ok new) (read : Patch.read shown.diff = some patch)
      (names : patch.old = none ∧ patch.new = shown.path)
      (added : patch.added = Diff.linesOf new)
  | changed {old new : String} {patch : Patch} (present : before.isFile shown.path = true)
      (held : before.readText shown.path = .ok old)
      (left : after.readText shown.path = .ok new) (read : Patch.read shown.diff = some patch)
      (names : patch.old = some shown.path ∧ patch.new = shown.path)
      (differ : Diff.linesOf old ≠ Diff.linesOf new)
      (applied : patch.apply (Diff.linesOf old) = some (Diff.linesOf new))

/-- The files are the same, or both are texts with the same lines. -/
inductive SameLines : Option ByteArray → Option ByteArray → Prop
  | same {file : Option ByteArray} : SameLines file file
  | rewritten {before after : ByteArray} {old new : String}
      (held : DiskTree.textOf before = .ok old) (left : DiskTree.textOf after = .ok new)
      (lines : Diff.linesOf old = Diff.linesOf new) : SameLines (some before) (some after)

namespace Overlay

variable {before after : DiskTree} {overlay : Overlay} {path content : String}

theorem before?_of_absent (base : overlay.base = before) (absent : before.isFile path = false) :
    overlay.before? path = none := by
  rw [before?, base, absent]
  rfl

theorem before?_of_text (base : overlay.base = before) (present : before.isFile path = true)
    {old : String} (held : before.readText path = .ok old) : overlay.before? path = some old := by
  rw [before?, base, if_pos present, held]
  rfl

/-- The run leaves at a path what is staged there. -/
theorem left_of_staged (mirrors : Mirrors after overlay) (normal : Path.IsNormal path)
    (staged : overlay.staged.find? path = some content) :
    after.file? path = some content.toUTF8 := by
  rw [mirrors path normal, file?, staged]

theorem shows_of_mem_previews (base : overlay.base = before) (mirrors : Mirrors after overlay)
    (sorted : overlay.staged.Sorted) {shown : FileDiff} (normal : Path.IsNormal shown.path)
    (plain : '\n' ∉ shown.path.toList)
    (text : before.isFile shown.path = true → ∃ old, before.readText shown.path = .ok old)
    (listed : shown ∈ overlay.previews) : shown.Shows before after := by
  obtain ⟨content, staged, seen⟩ := (mem_previews_iff sorted).mp listed
  obtain ⟨-, diff, nonempty⟩ := preview?_eq_some_iff.mp seen
  have left : after.readText shown.path = .ok content := by
    rw [DiskTree.readText_of_file? (left_of_staged mirrors normal staged),
      DiskTree.textOf_toUTF8]
  cases present : before.isFile shown.path with
  | false =>
      have new : shown.diff = Diff.ofNew shown.path content := by
        rw [diff, before?_of_absent base present, Diff.unified]
      obtain ⟨start, read⟩ := Patch.read_ofNew plain content
      rw [← new] at read
      exact .made present left read ⟨rfl, rfl⟩ (List.append_nil _)
  | true =>
      obtain ⟨old, held⟩ := text present
      have change : shown.diff = Diff.ofChange shown.path old content := by
        rw [diff, before?_of_text base present held, Diff.unified]
      have differ : Diff.linesOf old ≠ Diff.linesOf content := fun same =>
        nonempty (change.trans (Diff.ofChange_eq_empty_iff.mpr same))
      have read := Patch.read_ofChange plain differ
      rw [← change] at read
      exact .changed present held left read ⟨rfl, rfl⟩ differ (Diff.applyFrom_hunks _ _)

theorem sameLines_of_unlisted (base : overlay.base = before) (mirrors : Mirrors after overlay)
    (sorted : overlay.staged.Sorted) (normal : Path.IsNormal path)
    (text : before.isFile path = true → ∃ old, before.readText path = .ok old)
    (unlisted : ∀ shown ∈ overlay.previews, shown.path ≠ path) :
    SameLines (before.file? path) (after.file? path) := by
  cases staged : overlay.staged.find? path with
  | none =>
      rw [mirrors path normal, file?, staged, base]
      exact .same
  | some content =>
      have empty : Diff.unified path (overlay.before? path) content = "" := by
        generalize made : Diff.unified path (overlay.before? path) content = diff
        by_contra nonempty
        have seen : overlay.preview? path content = some ⟨path, diff⟩ :=
          preview?_eq_some_iff.mpr ⟨rfl, made.symm, nonempty⟩
        exact unlisted ⟨path, diff⟩ ((mem_previews_iff sorted).mpr ⟨content, staged, seen⟩) rfl
      cases present : before.isFile path with
      | false =>
          rw [before?_of_absent base present] at empty
          exact absurd empty (Diff.ofNew_ne_empty path content)
      | true =>
          obtain ⟨old, held⟩ := text present
          rw [before?_of_text base present held] at empty
          obtain ⟨bytes, there, isText⟩ := DiskTree.file?_of_readText held
          rw [there, left_of_staged mirrors normal staged]
          exact .rewritten isText (DiskTree.textOf_toUTF8 content)
            (Diff.ofChange_eq_empty_iff.mp empty)

end Overlay

namespace Plan

variable {plan : Plan} {names : List String} {disk : Disk}

theorem exists_run_of_execute {outcome : RunOutcome}
    (done : (plan.execute { phases := names } disk).result = .ok outcome) :
    ∃ phases progress, hasErrors plan.validate = false ∧ disk.isDirectory plan.root = true ∧
      plan.select names = .ok phases ∧
      plan.run names { tree := plan.tree disk } = .ok outcome.report progress ∧
      (plan.execute { phases := names } disk).disk = progress.tree.disk := by
  rcases plan.refusal_or_ready names disk with
    ⟨failure, refusal⟩ | ⟨valid, rooted, phases, selected⟩
  · have refused : plan.execute { phases := names } disk = ⟨.error failure, [], disk⟩ :=
      refusal.execute
    rw [refused] at done
    cases done
  · simp only [execute, perform, launch_of_ready valid rooted] at done ⊢
    cases ran : plan.run names { tree := plan.tree disk } with
    | error failure progress => simp [ran] at done
    | ok report progress =>
        simp only [ran, Bool.false_eq_true, if_false, Except.ok.injEq] at done
        subst done
        exact ⟨phases, progress, valid, rooted, selected, rfl, by simp⟩

theorem execute_dry_of_run (valid : hasErrors plan.validate = false)
    (rooted : disk.isDirectory plan.root = true) {report : RunReport}
    {progress : Progress Overlay}
    (ran : plan.run names { tree := { base := plan.tree disk } } = .ok report progress) :
    plan.execute { phases := names, dryRun := true, diff := true } disk
      = ⟨.ok ⟨report, progress.tree.previews⟩, progress.events, disk⟩ := by
  simp only [execute, rehearse, launch_of_ready valid rooted, ran, if_true]

/-- The dry run of a run that succeeds, and the overlay that it leaves. -/
theorem exists_dry_of_run (wellFormed : plan.WellFormed) {phases : List Phase}
    (selected : plan.select names = .ok phases) {tree : DiskTree} {report : RunReport}
    {progress : Progress DiskTree} (ran : plan.run names { tree } = .ok report progress) :
    ∃ overlay, plan.run names { tree := ({ base := tree } : Overlay) }
        = .ok report ⟨overlay, progress.events⟩ ∧
      overlay.base = tree ∧ Mirrors progress.tree overlay ∧
      overlay.Stages (plan.Visits names) := by
  have agree : Agrees (plan.run names { tree })
      (plan.run names { tree := ({ base := tree } : Overlay) }) := by
    have mirrors : Mirrors tree { base := tree } := fun _ _ => rfl
    have passes := Phase.runAll_agrees (selected_wellFormed wellFormed selected) mirrors []
    simpa only [run_of_selected selected] using passes.map RunReport.ofPasses
  have base := (Overlay.closed_base tree).run (rfl : ({ base := tree } : Overlay).base = tree)
    plan names
  have nothing : ({ base := tree } : Overlay).Stages (plan.Visits names) :=
    ⟨PathMap.sorted_empty, fun _ _ staged => nomatch staged⟩
  have stages := (Overlay.Stages.closed fun _ => wellFormed_of_visits wellFormed).run
    (fun phase entry stop _ asks => ⟨entry, ⟨phase, stop⟩, asks⟩) nothing
  rw [ran] at agree
  generalize plan.run names { tree := ({ base := tree } : Overlay) } = dry at agree base stages ⊢
  cases agree with
  | done mirrors => exact ⟨_, rfl, base, mirrors, stages⟩

/-- On a plan and a disk where the run succeeds, the dry run reports the same and leaves the disk
as it is, and its previews show what the run changes. Their paths increase strictly. Each says
what becomes of its file. A file that none of them names has the same lines after the run, or is
the same if it is no text. -/
theorem previews_show_run (plan : Plan) (wellFormed : plan.WellFormed) (names : List String)
    (disk : Disk) {outcome : RunOutcome}
    (done : (plan.execute { phases := names } disk).result = .ok outcome)
    (oneLine : ∀ entry, plan.Visits names entry → '\n' ∉ entry.dest.toList)
    (text : ∀ entry, plan.Visits names entry → (plan.tree disk).isFile entry.dest = true →
      ∃ old, (plan.tree disk).readText entry.dest = .ok old) :
    let before := plan.tree disk
    let after := plan.tree (plan.execute { phases := names } disk).disk
    let dry := plan.execute { phases := names, dryRun := true, diff := true } disk
    ∃ diffs, dry.result = .ok ⟨outcome.report, diffs⟩ ∧ dry.disk = disk ∧
      (diffs.map (·.path)).Pairwise (· < ·) ∧ (∀ shown ∈ diffs, shown.Shows before after) ∧
      ∀ location, (∃ root, ∃ shown ∈ diffs, before.RootedAt root ∧
          location = root ++ Path.components shown.path) ∨
        SameLines (before.disk.fileAt? location) (after.disk.fileAt? location) := by
  intro before after dry
  obtain ⟨phases, progress, valid, isRoot, selected, ran, left⟩ := exists_run_of_execute done
  obtain ⟨overlay, rehearsed, base, mirrors, stages⟩ := exists_dry_of_run wellFormed selected ran
  have framed := run_framed wellFormed names before
  rw [ran, Ending.state] at framed
  have ends : progress.tree = after := by
    have root : progress.tree.root = plan.root := framed.root
    obtain ⟨⟨_, _⟩, _⟩ := progress
    subst root left
    rfl
  rw [ends] at mirrors framed
  have ended := execute_dry_of_run valid isRoot rehearsed
  refine ⟨overlay.previews, congrArg Execution.result ended, congrArg Execution.disk ended,
    Overlay.pairwise_previews stages.sorted, ?_, ?_⟩
  · intro shown listed
    obtain ⟨content, staged, -⟩ := (Overlay.mem_previews_iff stages.sorted).mp listed
    obtain ⟨entry, visited, dest⟩ := stages.dests _ _ staged
    have normal := (wellFormed_of_visits wellFormed visited).dest_normal
    rw [dest] at normal
    exact Overlay.shows_of_mem_previews base mirrors stages.sorted normal
      (dest ▸ oneLine entry visited) (dest ▸ text entry visited) listed
  · intro location
    rcases framed.files location with same | ⟨root, entry, rooted, visited, admits, there⟩
    · rw [same]
      exact .inr .same
    · obtain ⟨root', rooted'⟩ := before.exists_rootedAt isRoot
      obtain rfl : root' = root := (rooted'.of_keeps framed.keeps).unique rooted
      have normal := (wellFormed_of_visits wellFormed visited).dest_normal
      by_cases listed : ∃ shown ∈ overlay.previews, shown.path = entry.dest
      · obtain ⟨shown, listed, dest⟩ := listed
        exact .inl ⟨root', shown, listed, rooted', dest ▸ there⟩
      · right
        have unlisted : ∀ shown ∈ overlay.previews, shown.path ≠ entry.dest :=
          fun shown hs dest => listed ⟨shown, hs, dest⟩
        have lines := Overlay.sameLines_of_unlisted base mirrors stages.sorted normal
          (text entry visited) unlisted
        rw [rooted'.file?_eq normal admits, rooted.file?_eq normal admits] at lines
        rw [there]
        exact lines

/-- A file that is moved and then changed where it is, and one that is only changed. -/
def moveAndFix : Plan where
  root := "."
  phases :=
    [{ name := "move", rules := [], manifest := [⟨"a", "b/a", some ⟨"p", "q"⟩⟩] },
      { name := "fix", rules := [⟨"p.A", "q.B"⟩, ⟨"class A", "class B"⟩],
        manifest := [⟨"b/a", "b/a", none⟩, ⟨"u", "u", none⟩] }]

def twoSources : Disk :=
  ⟨.file "a" "package p;\nclass A\n".toUTF8 (.file "u" "import p.A;\r\n\n".toUTF8 .empty), []⟩

theorem previews_show_run_moveAndFix :
    moveAndFix.WellFormed ∧ ∃ outcome diffs,
      (moveAndFix.execute {} twoSources).result = .ok outcome ∧
      (moveAndFix.execute { dryRun := true, diff := true } twoSources).result
        = .ok ⟨outcome.report, diffs⟩ ∧
      diffs.map (·.path) = ["b/a", "u"] ∧
      ∀ shown ∈ diffs, shown.Shows (moveAndFix.tree twoSources)
        (moveAndFix.tree (moveAndFix.execute {} twoSources).disk) := by
  have wellFormed : moveAndFix.WellFormed := by decide
  have succeeds : (moveAndFix.execute {} twoSources).result.isOk = true := by decide +kernel
  have oneLine : ∀ stop ∈ moveAndFix.stops [], '\n' ∉ stop.2.dest.toList := by decide +kernel
  have text : ∀ stop ∈ moveAndFix.stops [],
      (moveAndFix.tree twoSources).isFile stop.2.dest = true →
        ((moveAndFix.tree twoSources).readText stop.2.dest).isOk = true := by
    decide +kernel
  have paths : ((moveAndFix.execute { dryRun := true, diff := true } twoSources).result.toOption.map
      fun outcome => outcome.diffs.map (·.path)) = some ["b/a", "u"] := by
    decide +kernel
  cases done : (moveAndFix.execute {} twoSources).result with
  | error failure => cases (congrArg Except.isOk done).symm.trans succeeds
  | ok outcome =>
      obtain ⟨diffs, shown, -, -, shows, -⟩ := previews_show_run moveAndFix wellFormed []
        twoSources done (fun entry ⟨phase, stop⟩ => oneLine _ stop) (by
          rintro entry ⟨phase, stop⟩ present
          have isText := text _ stop present
          cases held : (moveAndFix.tree twoSources).readText entry.dest with
          | error cause => cases (congrArg Except.isOk held).symm.trans isText
          | ok old => exact ⟨old, rfl⟩)
      have named : diffs.map (·.path) = ["b/a", "u"] := by
        rw [shown] at paths
        exact Option.some.inj paths
      exact ⟨wellFormed, outcome, diffs, rfl, shown, named, shows⟩

end Plan
end Repackage
