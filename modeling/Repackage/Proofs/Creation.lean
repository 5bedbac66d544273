import Repackage.Proofs.Previews

/-!
Previews of new files. A preview shows its file as new if the text to start from could not be
read, and so for two reasons: there is no file on the disk, or there is one that is no text. Only
in the first case a file is made. In the second one the run replaces the file.
-/

namespace Repackage

/-- The preview starts as that of a file that is made. -/
def FileDiff.IsCreation (shown : FileDiff) : Prop :=
  "--- /dev/null".toList <+: shown.diff.toList

instance (shown : FileDiff) : Decidable shown.IsCreation :=
  inferInstanceAs (Decidable (_ <+: _))

theorem Diff.isPrefix_unified_iff {path after : String} {before : Option String} :
    "--- /dev/null".toList <+: (unified path before after).toList ↔ before = none := by
  cases before with
  | none =>
      refine iff_of_true ?_ rfl
      rw [unified, Patch.ofNew_eq_render, String.append_assoc, String.toList_append]
      exact List.prefix_append _ _
  | some before =>
      refine iff_of_false ?_ (Option.some_ne_none before)
      rw [unified]
      by_cases same : linesOf before = linesOf after
      · rw [ofChange_eq_empty_iff.mpr same]
        decide
      · rw [Patch.ofChange_eq_render same]
        simp

namespace DiskTree

/-- There is a file at the path that is no text. -/
def HoldsNoText (tree : DiskTree) (path : String) : Prop :=
  ∃ content, tree.file? path = some content ∧ String.fromUTF8? content = none

theorem HoldsNoText.isFile {tree : DiskTree} {path : String} (h : tree.HoldsNoText path) :
    tree.isFile path = true := by
  obtain ⟨content, there, -⟩ := h
  rw [isFile_eq, there]
  rfl

end DiskTree

theorem Overlay.before?_eq_none_iff {overlay : Overlay} {path : String} :
    overlay.before? path = none ↔
      overlay.base.isFile path = false ∨ overlay.base.HoldsNoText path := by
  cases there : overlay.base.file? path with
  | none =>
      have absent : overlay.base.isFile path = false := by
        rw [DiskTree.isFile_eq, there]
        rfl
      simp [before?_of_absent rfl absent, absent]
  | some content =>
      have present : overlay.base.isFile path = true := by
        rw [DiskTree.isFile_eq, there]
        rfl
      rw [before?, if_pos present, DiskTree.readText_of_file? there, DiskTree.textOf]
      cases text : String.fromUTF8? content <;>
        simp [present, DiskTree.HoldsNoText, there, text, Except.toOption]

namespace Plan

variable {plan : Plan} {options : RunOptions} {disk : Disk} {outcome : RunOutcome}

/-- Previews are those of an overlay over the disk. -/
theorem exists_overlay_of_mem_diffs {shown : FileDiff}
    (done : (plan.execute options disk).result = .ok outcome) (listed : shown ∈ outcome.diffs) :
    ∃ overlay : Overlay, overlay.base = plan.tree disk ∧ shown ∈ overlay.previews := by
  rcases plan.refusal_or_ready options.phases disk with
    ⟨failure, refusal⟩ | ⟨valid, rooted, -⟩
  · rw [refusal.execute] at done
    cases done
  · have base := (Overlay.closed_base (plan.tree disk)).run
      (rfl : ({ base := plan.tree disk } : Overlay).base = plan.tree disk) plan options.phases
    simp only [execute, rehearse, perform, launch_of_ready valid rooted] at done
    split at done
    · generalize plan.run options.phases { tree := ({ base := plan.tree disk } : Overlay) } = ran
        at done base
      cases ran with
      | error failure progress => cases done
      | ok report progress =>
          cases done
          simp only at listed
          split at listed
          · exact ⟨progress.tree, base, listed⟩
          · cases listed
    · generalize plan.run options.phases { tree := plan.tree disk } = ran at done
      cases ran with
      | error failure progress => cases done
      | ok report progress =>
          cases done
          cases listed

/-- A preview shows a creation exactly if there is no file at its path or one that is no text. So
exactly the previews of files that are no texts say of a file that it is made when it is there. -/
theorem creation_shown_iff (done : (plan.execute options disk).result = .ok outcome)
    {shown : FileDiff} (listed : shown ∈ outcome.diffs) :
    let tree := plan.tree disk
    (shown.IsCreation ↔ tree.isFile shown.path = false ∨ tree.HoldsNoText shown.path) ∧
      ((shown.IsCreation ↔ tree.isFile shown.path = false) ↔ ¬ tree.HoldsNoText shown.path) := by
  intro tree
  obtain ⟨overlay, base, seen⟩ := exists_overlay_of_mem_diffs done listed
  rw [Overlay.previews_eq] at seen
  obtain ⟨⟨path, content⟩, -, seen⟩ := List.mem_filterMap.mp seen
  obtain ⟨rfl, diff, -⟩ := Overlay.preview?_eq_some_iff.mp seen
  have creation : shown.IsCreation ↔
      tree.isFile shown.path = false ∨ tree.HoldsNoText shown.path := by
    rw [FileDiff.IsCreation, diff, Diff.isPrefix_unified_iff, Overlay.before?_eq_none_iff, base]
  refine ⟨creation, ?_⟩
  rw [creation]
  constructor
  · intro same replaced
    exact absurd (same.mp (.inr replaced)) (by simp [replaced.isFile])
  · intro text
    exact or_iff_left text

/-- A file that is copied over one that is no text, and to a place where none is. -/
def copyTwice : Plan where
  root := "."
  phases :=
    [{ name := "copy", rules := [],
       manifest := [⟨"a", "b", some ⟨"p", "q"⟩⟩, ⟨"a", "c", some ⟨"p", "q"⟩⟩] }]

def overBinary : Disk :=
  ⟨.file "a" "package p;".toUTF8 (.file "b" ⟨#[255]⟩ .empty), []⟩

def copyDiffs : List FileDiff :=
  [⟨"b", "--- /dev/null\n+++ b/b\n@@ -0,0 +1,1 @@\n+package q;\n"⟩,
    ⟨"c", "--- /dev/null\n+++ b/c\n@@ -0,0 +1,1 @@\n+package q;\n"⟩]

/-- A file that is there is shown as one that is made. -/
theorem overwriting_shown_as_creation :
    ((copyTwice.execute { dryRun := true, diff := true } overBinary).result.toOption.map
        (·.diffs)) = some copyDiffs ∧
      ∃ shown ∈ copyDiffs, (copyTwice.tree overBinary).isFile shown.path = true ∧
        shown.IsCreation := by
  decide +kernel

theorem creation_shown_iff_copyTwice :
    ∃ outcome, (copyTwice.execute { dryRun := true, diff := true } overBinary).result
        = .ok outcome ∧ outcome.diffs = copyDiffs ∧
      ∀ shown ∈ copyDiffs, (shown.IsCreation ↔
        (copyTwice.tree overBinary).isFile shown.path = false) ↔ shown.path = "c" := by
  have found : ((copyTwice.execute { dryRun := true, diff := true } overBinary).result.toOption.map
      (·.diffs)) = some copyDiffs := by
    decide +kernel
  obtain ⟨outcome, succeeds, diffs⟩ := Option.map_eq_some_iff.mp found
  have done := toOption_eq_some_iff.mp succeeds
  refine ⟨outcome, done, diffs, fun shown listed => ?_⟩
  obtain ⟨-, exactly⟩ := creation_shown_iff done (diffs ▸ listed)
  rw [exactly]
  have replaced : (copyTwice.tree overBinary).HoldsNoText "b" :=
    ⟨⟨#[255]⟩, by decide +kernel, by decide +kernel⟩
  have made : ¬ (copyTwice.tree overBinary).HoldsNoText "c" := fun there =>
    absurd there.isFile (by decide +kernel)
  simp only [copyDiffs, List.mem_cons, List.not_mem_nil, or_false] at listed
  rcases listed with rfl | rfl
  · exact iff_of_false (not_not_intro replaced) (by decide)
  · exact iff_of_true made rfl

end Plan
end Repackage
