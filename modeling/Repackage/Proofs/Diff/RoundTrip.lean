import Repackage.Proofs.Diff.ReadBack

/-!
Diffs there and back. A diff of two texts, read as a patch, makes the lines of the second text
of those of the first, and there is no diff exactly if the lines are the same. The texts need not
be: line ends and the end of the last line are not compared.
-/

namespace Repackage
namespace Diff

/-- The diff of two texts is empty exactly if their lines are the same. Any other diff reads as a
patch of the path: it takes away lines that stand in the old text where it says, adds lines that
stand in the new text where it says, and makes the new lines of the old ones. -/
theorem unified_readBack {path : String} (oneLine : '\n' ∉ path.toList) (before after : String) :
    let old := linesOf before
    let new := linesOf after
    let diff := unified path (some before) after
    (diff = "" ↔ old = new) ∧
      (diff ≠ "" → ∃ patch, Patch.read diff = some patch ∧ patch.old = some path ∧
        patch.new = path ∧ patch.apply old = some new ∧
        ∀ change ∈ patch.changes, change.removed <+: old.drop change.oldStart ∧
          change.added <+: new.drop change.newStart) := by
  intro old new diff
  have empty : diff = "" ↔ old = new := ofChange_eq_empty_iff
  refine ⟨empty, fun nonempty => ?_⟩
  have differ : old ≠ new := fun same => nonempty (empty.mpr same)
  have applied : Patch.applyFrom 0 0 ((hunks old new).map Hunk.change) old = some new :=
    applyFrom_hunks old new
  refine ⟨⟨some path, path, (hunks old new).map Hunk.change⟩,
    Patch.read_ofChange oneLine differ, rfl, rfl, applied, fun change listed => ?_⟩
  obtain ⟨-, -, removed, added⟩ := Patch.placed_of_applyFrom applied change listed
  exact ⟨removed, added⟩

/-- Lines that look like a change. -/
def seeming : String := "@@ -1,1 +1,1 @@\n-\n"

theorem unified_readBack_seeming :
    unified "A" (some seeming) ("+\n" ++ seeming) ≠ "" ∧
      ∃ patch, Patch.read (unified "A" (some seeming) ("+\n" ++ seeming)) = some patch ∧
        patch.apply ["@@ -1,1 +1,1 @@", "-"] = some ["+", "@@ -1,1 +1,1 @@", "-"] := by
  have oneLine : '\n' ∉ "A".toList := by decide
  obtain ⟨empty, readBack⟩ := unified_readBack oneLine seeming ("+\n" ++ seeming)
  have differ : unified "A" (some seeming) ("+\n" ++ seeming) ≠ "" :=
    fun none => absurd (empty.mp none) (by decide +kernel)
  have old : linesOf seeming = ["@@ -1,1 +1,1 @@", "-"] := by decide +kernel
  have new : linesOf ("+\n" ++ seeming) = ["+", "@@ -1,1 +1,1 @@", "-"] := by decide +kernel
  obtain ⟨patch, read, -, -, applied, -⟩ := readBack differ
  rw [old, new] at applied
  exact ⟨differ, patch, read, applied⟩

end Diff
end Repackage
