import Mathlib.Data.List.Forall2
import Repackage.Proofs.Diff.Hunks

/-!
Hunks are tight. Where the texts have the same number of lines, the hunks span exactly the lines
that differ, and a line that does not lies between any two of them. Where they do not, the common
start and the common end leave the one hunk on either side without meeting, and what they leave
begins and ends with different lines.
-/

namespace Repackage
namespace Diff

/-- The old line right behind the hunk, counted from zero. -/
def Hunk.stop (hunk : Hunk) : Nat :=
  hunk.start + hunk.removed.length

/-- The hunk takes the old line away that has this number of lines before it. -/
def Hunk.Spans (hunk : Hunk) (line : Nat) : Prop :=
  hunk.start ≤ line ∧ line < hunk.stop

/-- The hunk has lines, as many on either side, and each gives way to another one. -/
def Hunk.IsRun (hunk : Hunk) : Prop :=
  hunk.removed ≠ [] ∧ List.Forall₂ (· ≠ ·) hunk.removed hunk.added

/-- The line, of pairs behind `start` lines, is not the same on both sides. -/
def ChangedAt (start : Nat) (pairs : List (String × String)) (line : Nat) : Prop :=
  ∃ i, ∃ pair ∈ pairs[i]?, line = start + i ∧ pair.1 ≠ pair.2

theorem changedAt_cons_iff {start line : Nat} {old new : String}
    {rest : List (String × String)} :
    ChangedAt start ((old, new) :: rest) line ↔
      (line = start ∧ old ≠ new) ∨ ChangedAt (start + 1) rest line := by
  constructor
  · rintro ⟨i, pair, there, rfl, differ⟩
    cases i with
    | zero =>
        obtain rfl := Option.some.inj there
        exact .inl ⟨rfl, differ⟩
    | succ i => exact .inr ⟨i, pair, there, by omega, differ⟩
  · rintro (⟨rfl, differ⟩ | ⟨i, pair, there, rfl, differ⟩)
    · exact ⟨0, (old, new), rfl, rfl, differ⟩
    · exact ⟨i + 1, pair, there, by omega, differ⟩

namespace Runs

variable {start : Nat} {pairs : List (String × String)} {found : List Hunk}

theorem isRun (runs : Runs start pairs found) : ∀ hunk ∈ found, hunk.IsRun := by
  induction runs with
  | nil => exact List.forall_mem_nil _
  | keep _ _ ih => exact ih
  | join changed _ _ ih =>
      obtain ⟨⟨-, paired⟩, others⟩ := List.forall_mem_cons.mp ih
      exact List.forall_mem_cons.mpr ⟨⟨List.cons_ne_nil _ _, .cons changed paired⟩, others⟩
  | alone changed _ _ ih =>
      exact List.forall_mem_cons.mpr ⟨⟨List.cons_ne_nil _ _, .cons changed .nil⟩, ih⟩

theorem start_le (runs : Runs start pairs found) : ∀ hunk ∈ found, start ≤ hunk.start := by
  induction runs with
  | nil => exact List.forall_mem_nil _
  | keep _ _ ih => exact fun hunk h => Nat.le_of_succ_le (ih hunk h)
  | join _ _ _ ih =>
      obtain ⟨-, others⟩ := List.forall_mem_cons.mp ih
      exact List.forall_mem_cons.mpr
        ⟨Nat.le_refl _, fun hunk h => Nat.le_of_succ_le (others hunk h)⟩
  | alone _ _ _ ih =>
      exact List.forall_mem_cons.mpr
        ⟨Nat.le_refl _, fun hunk h => Nat.le_of_succ_le (ih hunk h)⟩

theorem start_lt (runs : Runs start pairs found)
    (apart : ∀ next ∈ found.head?, next.start ≠ start) : ∀ hunk ∈ found, start < hunk.start := by
  cases runs with
  | nil => exact List.forall_mem_nil _
  | keep _ behind => exact behind.start_le
  | join | alone => exact absurd rfl (apart _ rfl)

/-- A line stands between the end of a hunk and the start of a later one. -/
theorem pairwise (runs : Runs start pairs found) :
    found.Pairwise fun earlier later => earlier.stop < later.start := by
  induction runs with
  | nil => exact List.Pairwise.nil
  | keep _ _ ih => exact ih
  | join _ joins _ ih =>
      obtain ⟨first, others⟩ := List.pairwise_cons.mp ih
      refine List.pairwise_cons.mpr ⟨fun later h => ?_, others⟩
      have gap := first later h
      simp only [Hunk.stop, List.length_cons] at gap ⊢
      omega
  | alone _ apart behind ih => exact List.pairwise_cons.mpr ⟨behind.start_lt apart, ih⟩

theorem spanned_iff (runs : Runs start pairs found) (line : Nat) :
    (∃ hunk ∈ found, hunk.Spans line) ↔ ChangedAt start pairs line := by
  induction runs with
  | nil => simp [ChangedAt]
  | keep _ _ ih => rw [changedAt_cons_iff, ← ih, or_iff_right (fun h => h.2 rfl)]
  | @join start old new _ next _ changed joins _ ih =>
      have joined : Hunk.Spans ⟨start, old :: next.removed, new :: next.added⟩ line
          ↔ line = start ∨ next.Spans line := by
        simp only [Hunk.Spans, Hunk.stop, List.length_cons, joins]
        omega
      rw [changedAt_cons_iff, ← ih, List.exists_mem_cons_iff, List.exists_mem_cons_iff, joined,
        and_iff_left changed, or_assoc]
  | @alone start old new _ _ changed _ _ ih =>
      have single : Hunk.Spans ⟨start, [old], [new]⟩ line ↔ line = start := by
        simp only [Hunk.Spans, Hunk.stop, List.length_singleton]
        omega
      rw [changedAt_cons_iff, ← ih, List.exists_mem_cons_iff, single, and_iff_left changed]

end Runs

section Separated

variable {found : List Hunk}
  (apart : found.Pairwise fun earlier later => earlier.stop < later.start)

include apart

/-- No hunk spans the line right behind one. -/
theorem not_spans_stop : ∀ hunk ∈ found, ∀ other ∈ found, ¬ other.Spans hunk.stop := by
  have own : ∀ hunk ∈ found, ¬ hunk.Spans hunk.stop := fun _ _ h => Nat.lt_irrefl _ h.2
  have later : found.Pairwise fun hunk other => ¬ other.Spans hunk.stop := by
    refine apart.imp fun {hunk other} gap h => ?_
    exact Nat.not_le_of_lt gap h.1
  have earlier : found.Pairwise (flip fun hunk other => ¬ other.Spans hunk.stop) := by
    refine apart.imp fun {before hunk} gap h => ?_
    have behind : before.stop < hunk.stop := Nat.lt_of_lt_of_le gap (Nat.le_add_right _ _)
    exact Nat.lt_asymm behind h.2
  exact fun hunk h other h' => List.Pairwise.forall_of_forall_of_flip own later earlier h h'

/-- A line that is spanned is spanned by one hunk only. -/
theorem existsUnique_spans {line : Nat} (spanned : ∃ hunk ∈ found, hunk.Spans line) :
    ∃! k : Nat, ∃ hunk, found[k]? = some hunk ∧ hunk.Spans line := by
  obtain ⟨hunk, h, spans⟩ := spanned
  obtain ⟨k, at_k⟩ := List.mem_iff_getElem?.mp h
  refine ⟨k, ⟨hunk, at_k, spans⟩, ?_⟩
  rintro j ⟨other, at_j, spans'⟩
  obtain ⟨kBound, rfl⟩ := List.getElem?_eq_some_iff.mp at_k
  obtain ⟨jBound, rfl⟩ := List.getElem?_eq_some_iff.mp at_j
  have ordered := List.pairwise_iff_getElem.mp apart
  obtain ⟨starts, stops⟩ := spans
  obtain ⟨starts', stops'⟩ := spans'
  rcases Nat.lt_trichotomy j k with before | same | behind
  · have gap := ordered j k jBound kBound before
    omega
  · exact same
  · have gap := ordered k j kBound jBound behind
    omega

end Separated

section Places

variable {old new : List String}

theorem eq_extract_of_prefix {part lines : List String} {start : Nat}
    (h : part <+: lines.drop start) : part = lines.extract start (start + part.length) := by
  rw [List.extract, Nat.add_sub_cancel_left]
  exact List.prefix_iff_eq_take.mp h

/-- What a hunk takes away and adds are parts of the texts. -/
theorem placed_of_mem_hunks {hunk : Hunk} (h : hunk ∈ hunks old new) :
    hunk.removed <+: old.drop hunk.start ∧ hunk.added <+: new.drop hunk.start := by
  obtain ⟨-, -, removed, added⟩ := Patch.placed_of_applyFrom (applyFrom_hunks old new)
    hunk.change (List.mem_map_of_mem h)
  exact ⟨removed, added⟩

theorem spanned_hunks_iff (same : old.length = new.length) (line : Nat) :
    (∃ hunk ∈ hunks old new, hunk.Spans line) ↔ old[line]? ≠ new[line]? := by
  rw [hunks, if_pos same, (runs_runsFrom 0 (old.zip new)).spanned_iff]
  simp only [ChangedAt, Nat.zero_add, Option.mem_def, Prod.exists, List.getElem?_zip_eq_some]
  by_cases inside : line < old.length
  · have inNew : line < new.length := same ▸ inside
    simp [inside, inNew]
  · have behind : ¬ line < new.length := same ▸ inside
    simp [inside, behind]

/-- The hunks of texts with the same number of lines, as the runs of lines that differ. -/
structure AreRuns (old new : List String) (found : List Hunk) : Prop where
  /-- A hunk has the lines of either text from one place to another, and none is like its
  counterpart. -/
  parts : ∀ hunk ∈ found, hunk.IsRun ∧ hunk.stop ≤ old.length ∧
    hunk.removed = old.extract hunk.start hunk.stop ∧
    hunk.added = new.extract hunk.start hunk.stop
  /-- Right behind a hunk, before the next one starts, stands a line that is the same. -/
  apart : found.Pairwise fun earlier later =>
    earlier.stop < later.start ∧ old[earlier.stop]? = new[earlier.stop]?
  /-- A line differs exactly if it lies in one hunk and in no other. -/
  spans_iff : ∀ line, old[line]? ≠ new[line]? ↔
    ∃! k : Nat, ∃ hunk, found[k]? = some hunk ∧ hunk.Spans line

theorem areRuns_hunks (same : old.length = new.length) : AreRuns old new (hunks old new) := by
  have runs : Runs 0 (old.zip new) (hunks old new) := by
    rw [hunks, if_pos same]
    exact runs_runsFrom 0 (old.zip new)
  have apart := runs.pairwise
  refine ⟨fun hunk h => ?_, ?_, fun line => ?_⟩
  · have isRun := runs.isRun hunk h
    obtain ⟨removed, added⟩ := placed_of_mem_hunks h
    have sides : hunk.stop = hunk.start + hunk.added.length := by
      rw [Hunk.stop, isRun.2.length_eq]
    refine ⟨isRun, ?_, eq_extract_of_prefix removed, sides ▸ eq_extract_of_prefix added⟩
    have nonempty := List.length_pos_iff.mpr isRun.1
    have short := removed.length_le
    rw [List.length_drop] at short
    rw [Hunk.stop]
    omega
  · refine apart.imp_of_mem fun {earlier later} h _ gap => ⟨gap, ?_⟩
    by_contra differ
    obtain ⟨other, h', spans⟩ := (spanned_hunks_iff same _).mpr differ
    exact not_spans_stop apart earlier h other h' spans
  · rw [← spanned_hunks_iff same]
    refine ⟨existsUnique_spans apart, ?_⟩
    rintro ⟨k, ⟨hunk, at_k, spans⟩, -⟩
    exact ⟨hunk, List.mem_of_getElem? at_k, spans⟩

end Places

section Middle

/-- The hunk between the `front` first lines and the `back` last ones. -/
structure Hunk.IsMiddle (hunk : Hunk) (old new : List String) (front back : Nat) : Prop where
  /-- The first lines and the last ones have room beside each other in either text. -/
  room : front + back ≤ min old.length new.length
  start : hunk.start = front
  removed : hunk.removed = old.extract front (old.length - back)
  added : hunk.added = new.extract front (new.length - back)
  /-- If there are lines on both sides, the first ones differ, and so do the last ones. -/
  tight : hunk.removed ≠ [] → hunk.added ≠ [] →
    hunk.removed.head? ≠ hunk.added.head? ∧ hunk.removed.getLast? ≠ hunk.added.getLast?

theorem isMiddle_middle (old new : List String) :
    (middle old new).IsMiddle old new (commonStart old new) (commonEnd old new) := by
  obtain ⟨front, removed, added, back, found, oldSplit, newSplit, atFront, atBack, tight⟩ :=
    exists_middle old new
  have oldLength : old.length = front.length + removed.length + back.length := by
    rw [oldSplit, List.length_append, List.length_append]
  have newLength : new.length = front.length + added.length + back.length := by
    rw [newSplit, List.length_append, List.length_append]
  have between (part : List String) :
      part = (front ++ part ++ back).extract front.length
        (front.length + part.length + back.length - back.length) := by
    rw [Nat.add_sub_cancel, List.append_assoc]
    apply eq_extract_of_prefix
    rw [List.drop_left]
    exact List.prefix_append _ _
  rw [found, ← atFront, ← atBack]
  refine ⟨by omega, rfl, ?_, ?_, tight⟩
  · rw [oldLength, oldSplit]
    exact between removed
  · rw [newLength, newSplit]
    exact between added

end Middle

/-- In texts with different numbers of lines, the one hunk is what the longest common start and the
longest common end leave, and these have room beside each other. In texts with the same number of
lines, the hunks are the runs of lines that differ. -/
theorem hunks_tight (before after : String) :
    ((linesOf before).length ≠ (linesOf after).length →
      ∃ hunk, hunks (linesOf before) (linesOf after) = [hunk] ∧
        hunk.IsMiddle (linesOf before) (linesOf after)
          (commonStart (linesOf before) (linesOf after))
          (commonEnd (linesOf before) (linesOf after))) ∧
    ((linesOf before).length = (linesOf after).length →
      AreRuns (linesOf before) (linesOf after) (hunks (linesOf before) (linesOf after))) := by
  refine ⟨fun differ => ⟨_, ?_, isMiddle_middle _ _⟩, areRuns_hunks⟩
  rw [hunks, if_neg differ]

/-- Lines that repeat around the hunk, and two runs of changed lines. -/
theorem hunks_tight_repeating :
    (∃ hunk, hunks (linesOf "a\na\nb\na\n") (linesOf "a\na\nc\nd\na\na\n") = [hunk] ∧
        hunk.start = 2 ∧ hunk.removed = ["b"] ∧ hunk.added.getLast? ≠ some "b") ∧
      ∃! k : Nat, ∃ hunk,
        (hunks (linesOf "a\nb\nc\nd\n") (linesOf "x\nb\ny\nz\n"))[k]? = some hunk ∧
          hunk.Spans 3 := by
  obtain ⟨longer, -⟩ := hunks_tight "a\na\nb\na\n" "a\na\nc\nd\na\na\n"
  obtain ⟨hunk, alone, isMiddle⟩ := longer (by decide +kernel)
  obtain ⟨-, asLong⟩ := hunks_tight "a\nb\nc\nd\n" "x\nb\ny\nz\n"
  have areRuns := asLong (by decide +kernel)
  have made : hunks (linesOf "a\na\nb\na\n") (linesOf "a\na\nc\nd\na\na\n")
      = [⟨2, ["b"], ["c", "d", "a"]⟩] := by
    decide +kernel
  obtain rfl := List.singleton_inj.mp (alone.symm.trans made)
  obtain ⟨-, last⟩ := isMiddle.tight (List.cons_ne_nil _ _) (List.cons_ne_nil _ _)
  exact ⟨⟨_, alone, rfl, rfl, last.symm⟩, (areRuns.spans_iff 3).mp (by decide +kernel)⟩

end Diff
end Repackage
