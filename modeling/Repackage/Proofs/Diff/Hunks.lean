import Mathlib.Data.List.Basic
import Repackage.Proofs.Diff.Patch

/-!
The hunks of two texts, as changes, make the one of the other. What a list of changes makes of
some lines is said once, in terms of the lines that are kept in front of the first change; the
rest is an induction on how pairs of lines make hunks, and a look at what the longest common start
and end leave.
-/

namespace Repackage

/-- The hunk as a change: as many lines stand before it on either side. -/
def Diff.Hunk.change (hunk : Hunk) : Patch.Change :=
  ⟨hunk.start, hunk.start, hunk.removed, hunk.added⟩

namespace Patch

variable {oldAt newAt : Nat} {change : Change} {changes : List Change} {lines made : List String}

theorem applyFrom_cons_eq_some_iff :
    applyFrom oldAt newAt (change :: changes) lines = some made ↔
      ∃ kept rest others, change.oldStart = oldAt + kept.length ∧
        change.newStart = newAt + kept.length ∧ lines = kept ++ change.removed ++ rest ∧
        applyFrom (change.oldStart + change.removed.length)
          (change.newStart + change.added.length) changes rest = some others ∧
        made = kept ++ change.added ++ others := by
  simp only [applyFrom]
  constructor
  · intro h
    split at h
    · rename_i fits
      obtain ⟨behind, bound, moved, found⟩ := fits
      obtain ⟨others, applied, rfl⟩ := Option.map_eq_some_iff.mp h
      obtain ⟨rest, split⟩ := found
      have short : (lines.take (change.oldStart - oldAt)).length = change.oldStart - oldAt :=
        List.length_take_of_le bound
      refine ⟨_, rest, others, by omega, by omega, ?_, ?_, rfl⟩
      · rw [List.append_assoc, split, List.take_append_drop]
      · rwa [← split, List.drop_left] at applied
    · cases h
  · rintro ⟨kept, rest, others, oldStart, newStart, rfl, applied, rfl⟩
    have front : change.oldStart - oldAt = kept.length := by omega
    rw [front, List.append_assoc kept, List.drop_left, List.drop_left, List.take_left, applied,
      if_pos, Option.map_some]
    exact ⟨by omega, by simp, newStart, List.prefix_append _ _⟩

/-- A line that stands on both sides is kept. -/
theorem applyFrom_keep (line : String)
    (h : applyFrom (oldAt + 1) (newAt + 1) changes lines = some made) :
    applyFrom oldAt newAt changes (line :: lines) = some (line :: made) := by
  cases changes with
  | nil =>
      obtain rfl := Option.some.inj h
      rfl
  | cons change changes =>
      obtain ⟨kept, rest, others, oldStart, newStart, rfl, applied, rfl⟩ :=
        applyFrom_cons_eq_some_iff.mp h
      refine applyFrom_cons_eq_some_iff.mpr
        ⟨line :: kept, rest, others, ?_, ?_, rfl, applied, rfl⟩
      · rw [List.length_cons]
        omega
      · rw [List.length_cons]
        omega

/-- What a change takes away stands in the old lines, and what it adds in the new ones, each
where the change says. -/
theorem placed_of_applyFrom (h : applyFrom oldAt newAt changes lines = some made) :
    ∀ change ∈ changes, oldAt ≤ change.oldStart ∧ newAt ≤ change.newStart ∧
      change.removed <+: lines.drop (change.oldStart - oldAt) ∧
      change.added <+: made.drop (change.newStart - newAt) := by
  induction changes generalizing oldAt newAt lines made with
  | nil => exact List.forall_mem_nil _
  | cons change changes ih =>
      obtain ⟨kept, rest, others, oldStart, newStart, rfl, applied, rfl⟩ :=
        applyFrom_cons_eq_some_iff.mp h
      refine List.forall_mem_cons.mpr ⟨⟨by omega, by omega, ?_, ?_⟩, fun later hl => ?_⟩
      · rw [oldStart, Nat.add_sub_cancel_left, List.append_assoc, List.drop_left]
        exact List.prefix_append _ _
      · rw [newStart, Nat.add_sub_cancel_left, List.append_assoc, List.drop_left]
        exact List.prefix_append _ _
      · obtain ⟨oldBehind, newBehind, removed, added⟩ := ih applied later hl
        have oldMoved : later.oldStart - oldAt = (kept ++ change.removed).length
            + (later.oldStart - (change.oldStart + change.removed.length)) := by
          rw [List.length_append]
          omega
        have newMoved : later.newStart - newAt = (kept ++ change.added).length
            + (later.newStart - (change.newStart + change.added.length)) := by
          rw [List.length_append]
          omega
        rw [oldMoved, List.drop_length_add_append, newMoved, List.drop_length_add_append]
        exact ⟨by omega, by omega, removed, added⟩

end Patch

namespace Diff

open Patch

/-- A changed pair in front of a hunk that starts right behind it joins that hunk. -/
theorem applyFrom_join {start : Nat} {next : Hunk} {more : List Change} {olds news : List String}
    (joins : next.start = start + 1) (old new : String)
    (h : applyFrom (start + 1) (start + 1) (next.change :: more) olds = some news) :
    applyFrom start start
      (Hunk.change ⟨start, old :: next.removed, new :: next.added⟩ :: more) (old :: olds)
        = some (new :: news) := by
  obtain ⟨kept, rest, others, oldStart, -, rfl, applied, rfl⟩ := applyFrom_cons_eq_some_iff.mp h
  obtain rfl : kept = [] := by
    have here : next.start = start + 1 + kept.length := oldStart
    exact List.length_eq_zero_iff.mp (by omega)
  refine applyFrom_cons_eq_some_iff.mpr ⟨[], rest, others, rfl, rfl, rfl, ?_, rfl⟩
  simpa only [Hunk.change, joins, List.length_cons, Nat.add_assoc, Nat.add_comm 1] using applied

/-- How pairs of lines behind `start` lines make hunks, from the last pair to the first. A pair that
is the same adds nothing. A changed one joins the hunk that starts right behind it, and if none
does, it is a hunk of its own. -/
inductive Runs : Nat → List (String × String) → List Hunk → Prop
  | nil (start : Nat) : Runs start [] []
  | keep {start : Nat} {rest : List (String × String)} {found : List Hunk} (line : String)
      (behind : Runs (start + 1) rest found) : Runs start ((line, line) :: rest) found
  | join {start : Nat} {old new : String} {rest : List (String × String)} {next : Hunk}
      {more : List Hunk} (changed : old ≠ new) (joins : next.start = start + 1)
      (behind : Runs (start + 1) rest (next :: more)) :
      Runs start ((old, new) :: rest) (⟨start, old :: next.removed, new :: next.added⟩ :: more)
  | alone {start : Nat} {old new : String} {rest : List (String × String)} {found : List Hunk}
      (changed : old ≠ new) (apart : ∀ next ∈ found.head?, next.start ≠ start + 1)
      (behind : Runs (start + 1) rest found) :
      Runs start ((old, new) :: rest) (⟨start, [old], [new]⟩ :: found)

theorem runs_runsFrom (start : Nat) (pairs : List (String × String)) :
    Runs start pairs (runsFrom start pairs) := by
  induction pairs generalizing start with
  | nil => exact .nil start
  | cons pair rest ih =>
      obtain ⟨old, new⟩ := pair
      have behind := ih (start + 1)
      by_cases same : old = new
      · subst same
        rw [runsFrom, if_pos rfl]
        exact .keep old behind
      · rw [runsFrom, if_neg same]
        cases found : runsFrom (start + 1) rest with
        | nil => exact .alone same nofun (found ▸ behind)
        | cons next more =>
            rw [found] at behind
            by_cases joins : next.start = start + 1
            · simp only [joins, if_true]
              exact .join same joins behind
            · simp only [joins, if_false]
              exact .alone same (by simpa using joins) behind

theorem Runs.applyFrom_eq {start : Nat} {pairs : List (String × String)} {found : List Hunk}
    (runs : Runs start pairs found) :
    applyFrom start start (found.map Hunk.change) (pairs.map Prod.fst)
      = some (pairs.map Prod.snd) := by
  induction runs with
  | nil => rfl
  | keep line _ ih => exact applyFrom_keep line ih
  | join _ joins _ ih => exact applyFrom_join joins _ _ ih
  | alone _ _ _ ih =>
      exact applyFrom_cons_eq_some_iff.mpr ⟨[], _, _, rfl, rfl, rfl, ih, rfl⟩

/-- What the longest common start leaves of two lists. -/
theorem exists_commonStart (old new : List String) : ∃ front old' new',
    front.length = commonStart old new ∧ old = front ++ old' ∧ new = front ++ new' ∧
      (old' ≠ [] → new' ≠ [] → old'.head? ≠ new'.head?) := by
  induction old generalizing new with
  | nil => exact ⟨[], [], new, rfl, rfl, rfl, fun none => absurd rfl none⟩
  | cons o old ih =>
      cases new with
      | nil => exact ⟨[], o :: old, [], rfl, rfl, rfl, fun _ none => absurd rfl none⟩
      | cons n new =>
          by_cases same : o = n
          · subst same
            obtain ⟨front, old', new', length, rfl, rfl, differ⟩ := ih new
            refine ⟨o :: front, old', new', ?_, rfl, rfl, differ⟩
            rw [List.length_cons, length]
            simp [commonStart]
          · refine ⟨[], o :: old, n :: new, ?_, rfl, rfl, fun _ _ => by simpa using same⟩
            simp [commonStart, same]

/-- The number of trailing lines that agree, of those behind the longest common start. -/
def commonEnd (old new : List String) : Nat :=
  let start := commonStart old new
  commonStart (old.drop start).reverse (new.drop start).reverse

/-- The middle hunk lies between a common start and a common end, and neither of them could be
longer. -/
theorem exists_middle (old new : List String) : ∃ front removed added back,
    middle old new = ⟨front.length, removed, added⟩ ∧
      old = front ++ removed ++ back ∧ new = front ++ added ++ back ∧
      front.length = commonStart old new ∧ back.length = commonEnd old new ∧
      (removed ≠ [] → added ≠ [] →
        removed.head? ≠ added.head? ∧ removed.getLast? ≠ added.getLast?) := by
  obtain ⟨front, old', new', length, rfl, rfl, firstDiffer⟩ := exists_commonStart old new
  obtain ⟨back, removed, added, length', ho, hn, lastDiffer⟩ :=
    exists_commonStart old'.reverse new'.reverse
  obtain rfl : old' = removed.reverse ++ back.reverse := by
    rw [← List.reverse_append, ← ho, List.reverse_reverse]
  obtain rfl : new' = added.reverse ++ back.reverse := by
    rw [← List.reverse_append, ← hn, List.reverse_reverse]
  refine ⟨front, removed.reverse, added.reverse, back.reverse, ?_, ?_, ?_, length, ?_, ?_⟩
  · simp only [middle, ← length, List.drop_left, ← length']
    simp
  · rw [List.append_assoc]
  · rw [List.append_assoc]
  · simp only [commonEnd, ← length, List.drop_left, ← length', List.length_reverse]
  · intro someRemoved someAdded
    rw [List.head?_append_of_ne_nil _ someRemoved, List.head?_append_of_ne_nil _ someAdded]
      at firstDiffer
    rw [List.getLast?_reverse, List.getLast?_reverse]
    exact ⟨firstDiffer (List.append_ne_nil_of_left_ne_nil someRemoved _)
        (List.append_ne_nil_of_left_ne_nil someAdded _),
      lastDiffer (by simpa using someRemoved) (by simpa using someAdded)⟩

theorem applyFrom_middle (old new : List String) :
    applyFrom 0 0 [(middle old new).change] old = some new := by
  obtain ⟨front, removed, added, back, found, rfl, rfl, -⟩ := exists_middle old new
  rw [found]
  exact applyFrom_cons_eq_some_iff.mpr ⟨front, back, back, (Nat.zero_add _).symm,
    (Nat.zero_add _).symm, rfl, rfl, rfl⟩

theorem applyFrom_hunks (old new : List String) :
    applyFrom 0 0 ((hunks old new).map Hunk.change) old = some new := by
  rw [hunks]
  split
  · rename_i same
    have applied := (runs_runsFrom 0 (old.zip new)).applyFrom_eq
    rwa [List.map_fst_zip (Nat.le_of_eq same), List.map_snd_zip (Nat.le_of_eq same.symm)] at applied
  · exact applyFrom_middle old new

theorem runsFrom_self (start : Nat) (lines : List String) :
    runsFrom start (lines.zip lines) = [] := by
  induction lines generalizing start with
  | nil => rfl
  | cons line lines ih =>
      rw [List.zip_cons_cons, runsFrom, if_pos rfl, ih]

theorem hunks_eq_nil_iff {old new : List String} : hunks old new = [] ↔ old = new := by
  constructor
  · intro none
    have applied := applyFrom_hunks old new
    rw [none] at applied
    exact Option.some.inj applied
  · rintro rfl
    rw [hunks, if_pos rfl, runsFrom_self]

theorem ofChange_eq_empty_iff {path before after : String} :
    ofChange path before after = "" ↔ linesOf before = linesOf after := by
  rw [ofChange, ← hunks_eq_nil_iff]
  split
  · rename_i none
    simp [none]
  · rename_i changed
    exact iff_of_false (by simp [toString]) changed

theorem ofNew_ne_empty (path after : String) : ofNew path after ≠ "" := by
  unfold ofNew
  simp

end Diff
end Repackage
