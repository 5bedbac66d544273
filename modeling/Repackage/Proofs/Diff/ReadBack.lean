import Repackage.Proofs.Diff.Hunks

/-!
What a diff says when it is read back. The rows of a diff are the rows of its pieces, since no
line of a text holds a line feed. Each hunk reads as the change it was printed from, with as many
lines before it on either side, and a diff from nothing adds the lines of the new text.
-/

namespace Repackage

namespace Text

theorem expect_append (text rest : List Char) : expect text (text ++ rest) = some ((), rest) := by
  have fits : text.isPrefixOf (text ++ rest) = true :=
    List.isPrefixOf_iff_prefix.mpr (List.prefix_append text rest)
  rw [expect, if_pos fits, List.drop_left]

theorem oneOrMore_append {isMember : Char → Bool} {cs rest : List Char} {c : Char}
    (members : ∀ c ∈ cs, isMember c = true) (nonempty : cs ≠ []) (stop : isMember c = false) :
    oneOrMore isMember (cs ++ c :: rest) = some (cs, c :: rest) := by
  have taken : (cs ++ c :: rest).takeWhile isMember = cs := by
    rw [List.takeWhile_append_of_pos members, List.takeWhile_cons_of_neg (by simp [stop]),
      List.append_nil]
  have dropped : (cs ++ c :: rest).dropWhile isMember = c :: rest := by
    rw [List.dropWhile_append_of_pos members, List.dropWhile_cons_of_neg (by simp [stop])]
  rw [oneOrMore, taken, dropped]
  cases cs with
  | nil => exact absurd rfl nonempty
  | cons _ _ => rfl

theorem decimalValue_toDigits (n : Nat) : decimalValue (Nat.toDigits 10 n) = n :=
  Nat.ofDigitChars_ten_toDigits

theorem noLineFeed_of_mem_lines {text line : List Char} (h : line ∈ lines text) : '\n' ∉ line := by
  fun_induction lines text generalizing line with
  | case1 => cases h
  | case2 rest ih | case3 rest ih =>
      rcases List.mem_cons.mp h with rfl | h
      · exact List.not_mem_nil
      · exact ih h
  | case4 c _ other _ _ _ =>
      obtain rfl := List.mem_singleton.mp h
      exact fun feed => other (List.mem_singleton.mp feed).symm
  | case5 c _ other _ first others ended ih =>
      rw [ended] at ih
      rcases List.mem_cons.mp h with rfl | h
      · have plain := ih List.mem_cons_self
        exact fun feed => (List.mem_cons.mp feed).elim (fun same => other same.symm) plain
      · exact ih (List.mem_cons_of_mem _ h)

end Text

theorem Diff.noLineFeed_of_mem_linesOf {text line : String} (h : line ∈ linesOf text) :
    '\n' ∉ line.toList := by
  obtain ⟨chars, listed, rfl⟩ := List.mem_map.mp h
  rw [String.toList_ofList]
  exact Text.noLineFeed_of_mem_lines listed

namespace Patch

open Diff

section Ranges

theorem number_append (n : Nat) {c : Char} (other : c.isDigit = false) (rest : List Char) :
    number ((toString n).toList ++ c :: rest) = some (n, c :: rest) := by
  have digits : ∀ c ∈ Nat.toDigits 10 n, c.isDigit = true := fun c hc =>
    Nat.isDigit_of_mem_toDigits (by decide) (by decide) hc
  rw [Nat.toString_eq_ofList_toDigits, String.toList_ofList, number]
  simp only [Text.oneOrMore_append digits Nat.toDigits_ne_nil other, Text.decimalValue_toDigits,
    Option.bind_eq_bind, Option.bind_some, Option.pure_def]

theorem toList_range (start length : Nat) : ∃ line, linesBefore line length = some start ∧
    (Diff.range start length).toList
      = (toString line).toList ++ ',' :: (toString length).toList := by
  cases length with
  | zero => exact ⟨start, rfl, by simp [Diff.range, toString]⟩
  | succ length => exact ⟨start + 1, rfl, by simp [Diff.range, toString]⟩

theorem range_append (start length : Nat) {c : Char} (other : c.isDigit = false)
    (rest : List Char) :
    range ((Diff.range start length).toList ++ c :: rest) = some ((start, length), c :: rest) := by
  obtain ⟨line, names, printed⟩ := toList_range start length
  have comma := Text.expect_append [','] ((toString length).toList ++ c :: rest)
  rw [List.singleton_append] at comma
  rw [printed, List.append_assoc, List.cons_append]
  simp only [range, number_append line (by decide : ','.isDigit = false), comma,
    number_append length other, names, Option.bind_eq_bind, Option.bind_some, Option.pure_def]

theorem noLineFeed_toDigits (n : Nat) : '\n' ∉ Nat.toDigits 10 n := by
  intro feed
  have digit : '\n'.isDigit = true := Nat.isDigit_of_mem_toDigits (by decide) (by decide) feed
  exact absurd digit (by decide)

theorem noLineFeed_range (start length : Nat) : '\n' ∉ (Diff.range start length).toList := by
  obtain ⟨line, -, printed⟩ := toList_range start length
  simp [printed, noLineFeed_toDigits]

/-- The row that a change starts with. -/
def Change.row (change : Change) : String :=
  let old := Diff.range change.oldStart change.removed.length
  let new := Diff.range change.newStart change.added.length
  s!"@@ -{old} +{new} @@"

theorem ranges_row (change : Change) : ranges change.row.toList
    = some ((change.oldStart, change.removed.length), (change.newStart, change.added.length)) := by
  have row : change.row.toList = "@@ -".toList
      ++ ((Diff.range change.oldStart change.removed.length).toList ++ (" +".toList
        ++ ((Diff.range change.newStart change.added.length).toList ++ " @@".toList))) := by
    simp [Change.row, toString]
  have range_before (start length : Nat) (rest : List Char) :
      range ((Diff.range start length).toList ++ ' ' :: rest)
        = some ((start, length), ' ' :: rest) :=
    range_append start length (by decide) rest
  have between (rest : List Char) : " +".toList ++ rest = ' ' :: '+' :: rest := rfl
  have last : " @@".toList = [' ', '@', '@'] := rfl
  have plus (rest : List Char) : Text.expect " +".toList (' ' :: '+' :: rest) = some ((), rest) :=
    Text.expect_append " +".toList rest
  simp only [row, ranges, Text.expect_append, between, last, range_before, plus,
    Option.bind_eq_bind, Option.bind_some, if_true]

theorem noLineFeed_row (change : Change) : '\n' ∉ change.row.toList := by
  simp [Change.row, toString, noLineFeed_range]

end Ranges

section Rows

theorem rows_append {row : String} (plain : '\n' ∉ row.toList) (rest : String) :
    rows (row ++ "\n" ++ rest) = row.toList :: rows rest := by
  have text : (row ++ "\n" ++ rest).toList = row.toList ++ '\n' :: rest.toList := by simp
  rw [rows, text, List.splitOn_append_cons_self, List.splitOn_eq_singleton plain,
    List.singleton_append, rows]

theorem rows_marked {mark : String} (plain : '\n' ∉ mark.toList) {lines : List String}
    (noFeed : ∀ line ∈ lines, '\n' ∉ line.toList) (rest : String) :
    rows (marked mark lines ++ rest)
      = lines.map (fun line => mark.toList ++ line.toList) ++ rows rest := by
  induction lines with
  | nil => simp [marked]
  | cons line lines ih =>
      obtain ⟨first, others⟩ := List.forall_mem_cons.mp noFeed
      have together : marked mark (line :: lines) ++ rest
          = (mark ++ line) ++ "\n" ++ (marked mark lines ++ rest) := by
        simp only [marked, List.map_cons, String.join_cons, String.append_assoc]
      have row : '\n' ∉ (mark ++ line).toList := by
        rw [String.toList_append, List.mem_append]
        exact not_or.mpr ⟨plain, first⟩
      rw [together, rows_append row, ih others, String.toList_append]
      rfl

end Rows

section Body

theorem body_lines (removed added : List String) {rest : List (List Char)} {more : List Change}
    (h : body 0 0 rest = some ([], [], more)) :
    body removed.length added.length (removed.map (fun line => '-' :: line.toList)
      ++ (added.map (fun line => '+' :: line.toList) ++ rest)) = some (removed, added, more) := by
  induction removed with
  | nil =>
      induction added with
      | nil => exact h
      | cons line added ih =>
          simp only [List.length_cons, List.length_nil, List.map_nil, List.map_cons,
            List.nil_append, List.cons_append] at ih ⊢
          simp [body, ih]
  | cons line removed ih =>
      simp only [List.length_cons, List.map_cons, List.cons_append]
      simp [body, ih]

/-- The text of a change. -/
def Change.render (change : Change) : String :=
  change.row ++ "\n" ++ marked "-" change.removed ++ marked "+" change.added

/-- The lines of the change are lines of texts: none holds a line feed. -/
structure Change.OfLines (change : Change) : Prop where
  removed : ∀ line ∈ change.removed, '\n' ∉ line.toList
  added : ∀ line ∈ change.added, '\n' ∉ line.toList

/-- The rows of the lines that a change takes away and adds, with their marks. -/
def Change.lines (change : Change) : List (List Char) :=
  change.removed.map (fun line => '-' :: line.toList)
    ++ change.added.map (fun line => '+' :: line.toList)

theorem rows_render {change : Change} (ofLines : change.OfLines) (rest : String) :
    rows (change.render ++ rest) = change.row.toList :: (change.lines ++ rows rest) := by
  have text : change.render ++ rest = change.row ++ "\n"
      ++ (marked "-" change.removed ++ (marked "+" change.added ++ rest)) := by
    simp only [Change.render, String.append_assoc]
  rw [text, rows_append (noLineFeed_row change), rows_marked (by decide) ofLines.removed,
    rows_marked (by decide) ofLines.added, Change.lines, List.append_assoc]
  rfl

theorem body_render {change : Change} (ofLines : change.OfLines) {rest : String}
    {more : List Change} (h : body 0 0 (rows rest) = some ([], [], more)) :
    body 0 0 (rows (change.render ++ rest)) = some ([], [], change :: more) := by
  have lines := body_lines change.removed change.added h
  rw [← List.append_assoc, ← Change.lines] at lines
  rw [rows_render ofLines, body, ranges_row]
  · simp only [Option.bind_eq_bind, Option.bind_some, Option.pure_def, lines]
  · intro none
    have read := ranges_row change
    rw [none] at read
    cases read

theorem body_renders {changes : List Change} (ofLines : ∀ change ∈ changes, change.OfLines) :
    body 0 0 (rows (String.join (changes.map Change.render))) = some ([], [], changes) := by
  induction changes with
  | nil => rfl
  | cons change changes ih =>
      obtain ⟨first, others⟩ := List.forall_mem_cons.mp ofLines
      rw [List.map_cons, String.join_cons]
      exact body_render first (ih others)

end Body

section Names

theorem oldName_of_path (path : String) : oldName ("--- a/" ++ path).toList = some (some path) := by
  have named : ("--- a/" ++ path).toList ≠ "--- /dev/null".toList := by
    simp
  rw [oldName, if_neg named, String.toList_append, Text.expect_append]
  simp

/-- A patch is read off its two names and the text of its changes. -/
theorem read_named {first path : String} {old : Option String} (firstPlain : '\n' ∉ first.toList)
    (pathPlain : '\n' ∉ path.toList) (names : oldName first.toList = some old)
    {changes : List Change} (ofLines : ∀ change ∈ changes, change.OfLines) :
    read (first ++ "\n" ++ (s!"+++ b/{path}" ++ "\n" ++ String.join (changes.map Change.render)))
      = some ⟨old, path, changes⟩ := by
  have second : s!"+++ b/{path}".toList = "+++ b/".toList ++ path.toList := by
    simp [toString]
  have secondPlain : '\n' ∉ s!"+++ b/{path}".toList := by
    simp [second, pathPlain]
  rw [read, rows_append firstPlain, rows_append secondPlain, ofRows, names, second,
    Text.expect_append, body_renders ofLines]
  simp

end Names

section Diffs

theorem map_render (hunks : List Hunk) :
    hunks.map Hunk.render = (hunks.map Hunk.change).map Change.render := by
  have one (hunk : Hunk) : hunk.render = hunk.change.render := by
    simp [Hunk.render, Change.render, Change.row, Hunk.change, toString, String.append_assoc]
  rw [List.map_map]
  exact List.map_congr_left fun hunk _ => one hunk

/-- A diff of texts whose lines differ is two rows with the names, and then the hunks as changes. -/
theorem ofChange_eq_render {path before after : String}
    (differ : linesOf before ≠ linesOf after) : ofChange path before after
      = "--- a/" ++ path ++ "\n" ++ (s!"+++ b/{path}" ++ "\n" ++ String.join
          (((hunks (linesOf before) (linesOf after)).map Hunk.change).map Change.render)) := by
  rw [ofChange]
  split
  · rename_i none
    exact absurd (hunks_eq_nil_iff.mp none) differ
  · apply String.toList_injective
    simp [map_render, toString]

/-- The diff of a new file is two rows with the names, and then a change that adds its lines. For
a file without lines the row of that change still names a first one. -/
theorem ofNew_eq_render (path after : String) : ofNew path after
    = "--- /dev/null" ++ "\n" ++ (s!"+++ b/{path}" ++ "\n" ++ String.join
        ([⟨0, if linesOf after = [] then 1 else 0, [], linesOf after⟩].map Change.render)) := by
  have nothing : Diff.range 0 0 = "0,0" := by decide
  have printed : (Diff.range (if linesOf after = [] then 1 else 0) (linesOf after).length).toList
      = '1' :: ',' :: Nat.toDigits 10 (linesOf after).length := by
    cases linesOf after with
    | nil => decide
    | cons _ _ =>
        have one : Nat.toDigits 10 1 = ['1'] := by decide
        simp [Diff.range, one, toString]
  unfold ofNew
  rw [← String.toList_inj]
  simp [Change.render, Change.row, nothing, printed, marked, toString]

theorem ofLines_hunks (before after : String) :
    ∀ change ∈ (hunks (linesOf before) (linesOf after)).map Hunk.change, change.OfLines := by
  intro change listed
  obtain ⟨-, -, removed, added⟩ := placed_of_applyFrom (applyFrom_hunks _ _) change listed
  exact ⟨fun line hr => noLineFeed_of_mem_linesOf (List.drop_subset _ _ (removed.subset hr)),
    fun line ha => noLineFeed_of_mem_linesOf (List.drop_subset _ _ (added.subset ha))⟩

theorem ofLines_added (start : Nat) (after : String) :
    ∀ change ∈ [(⟨0, start, [], linesOf after⟩ : Change)], change.OfLines :=
  List.forall_mem_singleton.mpr
    ⟨List.forall_mem_nil _, fun _ ha => noLineFeed_of_mem_linesOf ha⟩

theorem read_ofChange {path before after : String} (plain : '\n' ∉ path.toList)
    (differ : linesOf before ≠ linesOf after) :
    read (ofChange path before after)
      = some ⟨some path, path, (hunks (linesOf before) (linesOf after)).map Hunk.change⟩ := by
  have firstPlain : '\n' ∉ ("--- a/" ++ path).toList := by
    simp [plain]
  rw [ofChange_eq_render differ]
  exact read_named firstPlain plain (oldName_of_path path) (ofLines_hunks before after)

/-- Where the added lines start is left open: for a new file without lines the diff still names
its first one. -/
theorem read_ofNew {path : String} (plain : '\n' ∉ path.toList) (after : String) :
    ∃ start, read (ofNew path after) = some ⟨none, path, [⟨0, start, [], linesOf after⟩]⟩ := by
  refine ⟨if linesOf after = [] then 1 else 0, ?_⟩
  rw [ofNew_eq_render]
  exact read_named (by decide) plain rfl (ofLines_added _ after)

end Diffs

end Patch
end Repackage
