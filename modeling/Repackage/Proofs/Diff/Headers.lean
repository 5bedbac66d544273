import Repackage.Proofs.Diff.ReadBack

/-!
The headers of hunks. Every line of a diff stands behind a mark, so a row that starts with `@` is
a header, and the marked rows behind it are the lines of its hunk. A header says how many lines of
either side stand before the hunk and how many it has there. The one header that does not is that
of a new file without lines, whose empty hunk is said to start at the first line.
-/

namespace Repackage
namespace Patch

open Diff

section Reading

/-- Whether the row is a line that is taken away or added. -/
def isMarked (row : List Char) : Bool :=
  row.head? = some '-' || row.head? = some '+'

/-- The hunks in the rows of a diff, each as its header and the lines that follow. -/
def headed : List (List Char) → List (List Char × List (List Char))
  | [] => []
  | row :: rows =>
      if row.head? = some '@' then (row, rows.takeWhile isMarked) :: headed rows
      else headed rows

/-- The range of lines that have `before` lines in front of them. A range without lines names the
last one of these, and any other its own first line. -/
def conventional (before : Nat) (lines : List String) : String :=
  match lines with
  | [] => s!"{before},0"
  | _ :: _ => s!"{before + 1},{lines.length}"

/-- The header that says where the change stands on either side. -/
def Change.header (change : Change) : String :=
  let old := conventional change.oldStart change.removed
  let new := conventional change.newStart change.added
  s!"@@ -{old} +{new} @@"

theorem Change.row_eq_header (change : Change) : change.row = change.header := by
  have range_eq (before : Nat) (lines : List String) :
      Diff.range before lines.length = conventional before lines := by
    cases lines <;> rfl
  simp only [row, header, range_eq]

end Reading

section Hunks

theorem isMarked_of_mem_lines {change : Change} {row : List Char} (h : row ∈ change.lines) :
    isMarked row = true := by
  rcases List.mem_append.mp h with removed | added
  · obtain ⟨line, -, rfl⟩ := List.mem_map.mp removed
    rfl
  · obtain ⟨line, -, rfl⟩ := List.mem_map.mp added
    rfl

theorem headed_append_marked {front : List (List Char)}
    (marked : ∀ row ∈ front, isMarked row = true) (rows : List (List Char)) :
    headed (front ++ rows) = headed rows := by
  induction front with
  | nil => rfl
  | cons row front ih =>
      obtain ⟨first, others⟩ := List.forall_mem_cons.mp marked
      have noHeader : row.head? ≠ some '@' := by
        intro header
        rw [isMarked, header] at first
        exact absurd first (by decide)
      rw [List.cons_append, headed, if_neg noHeader, ih others]

/-- The rows of changes, up to the empty row behind the last line feed. -/
theorem rows_renders {changes : List Change} (ofLines : ∀ change ∈ changes, change.OfLines) :
    rows (String.join (changes.map Change.render))
      = changes.flatMap (fun change => change.row.toList :: change.lines) ++ [[]] := by
  induction changes with
  | nil => rfl
  | cons change changes ih =>
      obtain ⟨first, others⟩ := List.forall_mem_cons.mp ofLines
      rw [List.map_cons, String.join_cons, rows_render first, ih others, List.flatMap_cons]
      simp

theorem headed_rows (changes : List Change) :
    headed (changes.flatMap (fun change => change.row.toList :: change.lines) ++ [[]])
      = changes.map fun change => (change.row.toList, change.lines) := by
  induction changes with
  | nil => rfl
  | cons change changes ih =>
      generalize behind : changes.flatMap (fun change => change.row.toList :: change.lines)
        ++ [[]] = rest at ih
      have header (change : Change) : change.row.toList.head? = some '@' := by
        simp [Change.row, toString]
      have stops : rest.takeWhile isMarked = [] := by
        cases changes with
        | nil =>
            subst behind
            rfl
        | cons next _ =>
            subst behind
            simp [isMarked, header]
      have taken : (change.lines ++ rest).takeWhile isMarked = change.lines := by
        rw [List.takeWhile_append_of_pos fun row => isMarked_of_mem_lines, stops, List.append_nil]
      rw [List.flatMap_cons, List.append_assoc, behind, List.cons_append, headed,
        if_pos (header change), taken, headed_append_marked fun row => isMarked_of_mem_lines, ih,
        List.map_cons]

/-- The two rows with the names are no hunks. -/
theorem headed_named {first path : String} (firstPlain : '\n' ∉ first.toList)
    (pathPlain : '\n' ∉ path.toList) (marked : isMarked first.toList = true)
    {changes : List Change} (ofLines : ∀ change ∈ changes, change.OfLines) :
    headed (rows (first ++ "\n" ++ (s!"+++ b/{path}" ++ "\n"
        ++ String.join (changes.map Change.render))))
      = changes.map fun change => (change.row.toList, change.lines) := by
  have secondPlain : '\n' ∉ s!"+++ b/{path}".toList := by
    simp [toString, pathPlain]
  have names : ∀ row ∈ [first.toList, s!"+++ b/{path}".toList], isMarked row = true := by
    refine List.forall_mem_cons.mpr ⟨marked, List.forall_mem_singleton.mpr ?_⟩
    simp [isMarked, toString]
  rw [rows_append firstPlain, rows_append secondPlain, rows_renders ofLines, ← headed_rows]
  exact headed_append_marked names _

theorem headed_ofChange {path : String} (oneLine : '\n' ∉ path.toList) (before after : String) :
    headed (rows (ofChange path before after))
      = ((hunks (linesOf before) (linesOf after)).map Hunk.change).map
          fun change => (change.row.toList, change.lines) := by
  by_cases same : linesOf before = linesOf after
  · rw [ofChange_eq_empty_iff.mpr same, hunks_eq_nil_iff.mpr same]
    rfl
  · rw [ofChange_eq_render same]
    exact headed_named (by simp [oneLine]) oneLine (by simp [isMarked])
      (ofLines_hunks before after)

theorem headed_ofNew {path : String} (oneLine : '\n' ∉ path.toList) (after : String) :
    headed (rows (ofNew path after))
      = [((Change.row ⟨0, if linesOf after = [] then 1 else 0, [], linesOf after⟩).toList,
          Change.lines ⟨0, 0, [], linesOf after⟩)] := by
  rw [ofNew_eq_render]
  exact headed_named (by decide) oneLine (by decide) (ofLines_added _ after)

end Hunks
end Patch

namespace Diff

open Patch

/-- The hunks of a diff, read off its rows, are changes that make the new lines of the old ones.
Each has as its header the one that counts the lines before it and its own, on either side,
unless the file is new and without lines. -/
theorem headers_conventional_iff {path : String} (oneLine : '\n' ∉ path.toList)
    (before : Option String) (after : String) :
    let old := (before.map linesOf).getD []
    let new := linesOf after
    let hunks := headed (rows (unified path before after))
    ∃ changes : List Change, applyFrom 0 0 changes old = some new ∧
      hunks.map Prod.snd = changes.map Change.lines ∧
      (hunks.map Prod.fst = changes.map (·.header.toList) ↔ (before = none → new ≠ [])) := by
  intro old new hunks
  cases before with
  | some before =>
      have read : hunks = _ := headed_ofChange oneLine before after
      refine ⟨(Diff.hunks old new).map Hunk.change, applyFrom_hunks old new, ?_, ?_⟩
      · rw [read, List.map_map]
        rfl
      · refine iff_of_true ?_ nofun
        rw [read, List.map_map]
        exact List.map_congr_left fun change _ => congrArg String.toList change.row_eq_header
  | none =>
      have read : hunks = _ := headed_ofNew oneLine after
      have applied : applyFrom 0 0 [⟨0, 0, [], new⟩] [] = some new :=
        applyFrom_cons_eq_some_iff.mpr
          ⟨[], [], [], rfl, rfl, rfl, rfl, (List.append_nil new).symm⟩
      refine ⟨[⟨0, 0, [], new⟩], applied, by rw [read]; rfl, ?_⟩
      rw [read, List.map_singleton, List.map_singleton, List.singleton_inj, Change.row_eq_header]
      simp only [new]
      by_cases nothing : linesOf after = []
      · have other :
            (Change.header ⟨0, 1, [], []⟩).toList ≠ (Change.header ⟨0, 0, [], []⟩).toList := by
          decide
        simp [nothing, other]
      · simp [nothing]

/-- The diff of a new file without lines has one hunk, and no changes that make no lines of none
have its header. -/
theorem header_of_nothing :
    unified "A" none "" = "--- /dev/null\n+++ b/A\n@@ -0,0 +1,0 @@\n" ∧
      headed (rows (unified "A" none "")) = [("@@ -0,0 +1,0 @@".toList, [])] ∧
      ∀ changes : List Change, applyFrom 0 0 changes [] = some [] →
        changes.map (·.header) ≠ ["@@ -0,0 +1,0 @@"] := by
  refine ⟨by decide, by decide +kernel, ?_⟩
  intro changes applied same
  obtain ⟨⟨oldStart, newStart, removed, added⟩, rfl, header⟩ := List.map_eq_singleton_iff.mp same
  obtain ⟨kept, rest, others, oldAt, newAt, old, -, new⟩ := applyFrom_cons_eq_some_iff.mp applied
  simp only [List.nil_eq, List.append_eq_nil_iff] at old new
  obtain ⟨⟨rfl, rfl⟩, rfl⟩ := old
  obtain ⟨⟨-, rfl⟩, rfl⟩ := new
  obtain ⟨rfl, rfl⟩ : oldStart = 0 ∧ newStart = 0 := ⟨oldAt, newAt⟩
  exact absurd header (by decide)

/-- An added line that looks like a header. -/
theorem headers_conventional_iff_insertion :
    headed (rows (unified "A" (some "a\n") "a\n@@ -9,9 +9,9 @@\n"))
        = [("@@ -1,0 +2,1 @@".toList, ["+@@ -9,9 +9,9 @@".toList])] ∧
      ∃ changes : List Change, applyFrom 0 0 changes ["a"] = some ["a", "@@ -9,9 +9,9 @@"] ∧
        changes.map (·.header.toList) = ["@@ -1,0 +2,1 @@".toList] := by
  have read : headed (rows (unified "A" (some "a\n") "a\n@@ -9,9 +9,9 @@\n"))
      = [("@@ -1,0 +2,1 @@".toList, ["+@@ -9,9 +9,9 @@".toList])] := by
    decide +kernel
  obtain ⟨changes, applied, -, headers⟩ :=
    headers_conventional_iff (by decide : '\n' ∉ "A".toList) (some "a\n") "a\n@@ -9,9 +9,9 @@\n"
  have old : linesOf "a\n" = ["a"] := by decide +kernel
  have new : linesOf "a\n@@ -9,9 +9,9 @@\n" = ["a", "@@ -9,9 +9,9 @@"] := by decide +kernel
  rw [Option.map_some, Option.getD_some, old, new] at applied
  have same := headers.mpr nofun
  rw [read] at same
  exact ⟨read, changes, applied, same.symm⟩

end Diff
end Repackage
