import Mathlib.Data.List.Infix
import Repackage.Text.Replace

/-!
The leftmost occurrences of a pattern. They do not overlap, and they cut the text into pieces:
every piece but the last one ends where the pattern is found next. What counting counts are
these cuts, and what replacing does is to join the pieces by another text. A replacement that
is not the pattern itself therefore changes every text in which the pattern occurs.
-/

namespace Repackage
namespace Text

variable {p r gap rest s : List Char} {pieces : List (List Char)}

section Search

theorem countFrom_eq (p : List Char) (covered : Nat) (s : List Char) :
    countFrom p covered s = count p (s.drop covered) := by
  induction s generalizing covered with
  | nil => rw [countFrom, List.drop_nil, count, countFrom]
  | cons c s ih =>
      cases covered with
      | zero => rfl
      | succ covered => exact ih covered

theorem replaceFrom_eq (p r : List Char) (covered : Nat) (s : List Char) :
    replaceFrom p r covered s = replace p r (s.drop covered) := by
  induction s generalizing covered with
  | nil => rw [replaceFrom, List.drop_nil, replace, replaceFrom]
  | cons c s ih =>
      cases covered with
      | zero => rfl
      | succ covered => exact ih covered

theorem occurs_iff : occurs p s = true ↔ p <:+: s := by
  induction s with
  | nil => simp [occurs]
  | cons c s ih =>
      rw [occurs, Bool.or_eq_true, List.isPrefixOf_iff_prefix, ih, List.infix_cons_iff]

theorem count_eq_zero_iff (nonempty : p ≠ []) : count p s = 0 ↔ ¬ p <:+: s := by
  rw [count]
  induction s with
  | nil => simpa [countFrom] using nonempty
  | cons c s ih =>
      simp only [countFrom, List.infix_cons_iff, not_or]
      split
      · rename_i starts
        simpa using fun h => absurd (List.isPrefixOf_iff_prefix.mp starts) h
      · rename_i starts
        rw [ih]
        exact (and_iff_right fun h => starts (List.isPrefixOf_iff_prefix.mpr h)).symm

theorem replace_of_absent (absent : ¬ p <:+: s) : replace p r s = s := by
  rw [replace]
  induction s with
  | nil => rfl
  | cons c s ih =>
      rw [List.infix_cons_iff, not_or] at absent
      have starts : ¬ p.isPrefixOf (c :: s) = true := fun h =>
        absent.1 (List.isPrefixOf_iff_prefix.mp h)
      rw [replaceFrom, if_neg starts, ih absent.2]

end Search

section First

/-- In the text of `gap`, `p` and `rest`, no occurrence of `p` starts within `gap`. -/
def IsFirst (p gap rest : List Char) : Prop :=
  ∀ front back, gap ++ (p ++ rest) = front ++ (p ++ back) → gap.length ≤ front.length

theorem isFirst_nil (p rest : List Char) : IsFirst p [] rest :=
  fun _ _ _ => Nat.zero_le _

theorem exists_first (occurs : p <:+: s) :
    ∃ gap rest, s = gap ++ (p ++ rest) ∧ IsFirst p gap rest := by
  induction s with
  | nil =>
      obtain rfl := List.infix_nil.mp occurs
      exact ⟨[], [], rfl, isFirst_nil [] []⟩
  | cons c s ih =>
      by_cases starts : p <+: c :: s
      · obtain ⟨rest, whole⟩ := starts
        exact ⟨[], rest, whole.symm, isFirst_nil p rest⟩
      · have later : p <:+: s := (List.infix_cons_iff.mp occurs).resolve_left starts
        obtain ⟨gap, rest, rfl, first⟩ := ih later
        refine ⟨c :: gap, rest, rfl, fun front back h => ?_⟩
        cases front with
        | nil => exact absurd ⟨back, h.symm⟩ starts
        | cons _ front => exact Nat.succ_le_succ (first front back (List.cons.inj h).2)

namespace IsFirst

theorem not_infix (nonempty : p ≠ []) (first : IsFirst p gap rest) : ¬ p <:+: gap := by
  rintro ⟨front, back, rfl⟩
  have before := first front (back ++ (p ++ rest)) (by simp only [List.append_assoc])
  have := List.length_pos_iff.mpr nonempty
  simp only [List.length_append] at before
  omega

variable {c : Char} (first : IsFirst p (c :: gap) rest)

include first

theorem not_prefix : ¬ p <+: c :: (gap ++ (p ++ rest)) := by
  rintro ⟨back, h⟩
  exact absurd (first [] back h.symm) (Nat.not_succ_le_zero _)

theorem tail : IsFirst p gap rest := fun front back h =>
  Nat.le_of_succ_le_succ (first (c :: front) back (congrArg (c :: ·) h))

end IsFirst

/-- Whether an occurrence is the first one does not depend on what follows it. -/
theorem isFirst_iff (nonempty : p ≠ []) : IsFirst p gap rest ↔ ¬ p <:+: gap ++ p.dropLast := by
  have long := List.length_pos_iff.mpr nonempty
  constructor
  · rintro first ⟨front, back, h⟩
    have whole : gap ++ (p ++ rest)
        = front ++ (p ++ (back ++ ([p.getLast nonempty] ++ rest))) := by
      calc gap ++ (p ++ rest)
          = gap ++ p.dropLast ++ ([p.getLast nonempty] ++ rest) := by
            rw [List.append_assoc, ← List.append_assoc p.dropLast,
              List.dropLast_append_getLast]
        _ = _ := by simp only [← h, List.append_assoc]
    have before := first _ _ whole
    have lengths := congrArg List.length h
    simp only [List.length_append, List.length_dropLast] at lengths
    omega
  · intro absent front back h
    by_contra earlier
    have inWhole : front ++ p <+: gap ++ (p ++ rest) := ⟨back, by rw [h, List.append_assoc]⟩
    have start : gap ++ p.dropLast <+: gap ++ (p ++ rest) :=
      (List.prefix_append_right_inj gap).mpr
        ((List.dropLast_prefix p).trans (List.prefix_append p rest))
    have inStart : front ++ p <+: gap ++ p.dropLast := by
      apply List.prefix_of_prefix_length_le inWhole start
      simp only [List.length_append, List.length_dropLast]
      omega
    exact absent ((List.suffix_append front p).isInfix.trans inStart.isInfix)

theorem IsFirst.before {rest' : List Char} (nonempty : p ≠ []) (first : IsFirst p gap rest) :
    IsFirst p gap rest' :=
  (isFirst_iff nonempty).mpr ((isFirst_iff nonempty).mp first)

theorem count_of_first (nonempty : p ≠ []) (first : IsFirst p gap rest) :
    count p (gap ++ (p ++ rest)) = count p rest + 1 := by
  induction gap with
  | nil =>
      obtain ⟨c, p', rfl⟩ := List.exists_cons_of_ne_nil nonempty
      have starts : (c :: p').isPrefixOf (c :: (p' ++ rest)) = true :=
        List.isPrefixOf_iff_prefix.mpr (List.prefix_append _ rest)
      rw [List.nil_append, List.cons_append, count, countFrom, if_pos starts, countFrom_eq,
        List.length_cons, Nat.add_sub_cancel, List.drop_left]
  | cons c gap ih =>
      have starts : ¬ p.isPrefixOf (c :: (gap ++ (p ++ rest))) = true := fun h =>
        first.not_prefix (List.isPrefixOf_iff_prefix.mp h)
      rw [List.cons_append, count, countFrom, if_neg starts]
      exact ih first.tail

theorem count_self (nonempty : p ≠ []) : count p p = 1 := by
  have alone := count_of_first nonempty (isFirst_nil p [])
  rwa [List.nil_append, List.append_nil] at alone

theorem replace_of_first (nonempty : p ≠ []) (r : List Char) (first : IsFirst p gap rest) :
    replace p r (gap ++ (p ++ rest)) = gap ++ (r ++ replace p r rest) := by
  induction gap with
  | nil =>
      obtain ⟨c, p', rfl⟩ := List.exists_cons_of_ne_nil nonempty
      have starts : (c :: p').isPrefixOf (c :: (p' ++ rest)) = true :=
        List.isPrefixOf_iff_prefix.mpr (List.prefix_append _ rest)
      rw [List.nil_append, List.nil_append, List.cons_append, replace, replaceFrom,
        if_pos starts, replaceFrom_eq, List.length_cons, Nat.add_sub_cancel, List.drop_left]
  | cons c gap ih =>
      have starts : ¬ p.isPrefixOf (c :: (gap ++ (p ++ rest))) = true := fun h =>
        first.not_prefix (List.isPrefixOf_iff_prefix.mp h)
      rw [List.cons_append, replace, replaceFrom, if_neg starts]
      exact congrArg (c :: ·) (ih first.tail)

end First

section Cuts

/-- The leftmost occurrences of `p` cut the text into these pieces. -/
inductive Cuts (p : List Char) : List Char → List (List Char) → Prop
  | whole {s : List Char} (absent : ¬ p <:+: s) : Cuts p s [s]
  | next {gap rest : List Char} {pieces : List (List Char)} (first : IsFirst p gap rest)
      (others : Cuts p rest pieces) : Cuts p (gap ++ (p ++ rest)) (gap :: pieces)

theorem exists_cuts (nonempty : p ≠ []) (s : List Char) : ∃ pieces, Cuts p s pieces := by
  by_cases occurs : p <:+: s
  · obtain ⟨gap, rest, rfl, first⟩ := exists_first occurs
    have shorter : rest.length < (gap ++ (p ++ rest)).length := by
      have := List.length_pos_iff.mpr nonempty
      simp only [List.length_append]
      omega
    obtain ⟨pieces, others⟩ := exists_cuts nonempty rest
    exact ⟨gap :: pieces, .next first others⟩
  · exact ⟨[s], .whole occurs⟩
termination_by s.length

namespace Cuts

theorem ne_nil (cuts : Cuts p s pieces) : pieces ≠ [] := by
  cases cuts <;> exact List.cons_ne_nil _ _

theorem count_eq (nonempty : p ≠ []) (cuts : Cuts p s pieces) :
    count p s + 1 = pieces.length := by
  induction cuts with
  | whole absent => rw [(count_eq_zero_iff nonempty).mpr absent, List.length_singleton]
  | next first others ih => rw [count_of_first nonempty first, ih, List.length_cons]

theorem replace_eq (nonempty : p ≠ []) (r : List Char) (cuts : Cuts p s pieces) :
    replace p r s = r.intercalate pieces := by
  induction cuts with
  | whole absent => rw [replace_of_absent absent, List.intercalate_singleton]
  | next first others ih =>
      rw [replace_of_first nonempty r first, ih, List.intercalate_cons_of_ne_nil others.ne_nil,
        List.append_assoc]

theorem intercalate_eq (cuts : Cuts p s pieces) : p.intercalate pieces = s := by
  induction cuts with
  | whole absent => exact List.intercalate_singleton
  | next first others ih =>
      rw [List.intercalate_cons_of_ne_nil others.ne_nil, ih, List.append_assoc]

/-- No other way to cut a text at occurrences of the pattern makes more pieces. -/
theorem length_le (cuts : Cuts p s pieces) {others : List (List Char)}
    (whole : s = p.intercalate others) : others.length ≤ pieces.length := by
  induction cuts generalizing others with
  | whole absent =>
      match others with
      | [] | [_] => simp
      | front :: second :: more =>
          rw [List.intercalate_cons_of_ne_nil (List.cons_ne_nil _ _)] at whole
          exact absurd ⟨front, _, whole.symm⟩ absent
  | @next gap rest pieces first _ ih =>
      match others with
      | [] | [_] => simp
      | front :: second :: more =>
          rw [List.intercalate_cons_of_ne_nil (List.cons_ne_nil _ _), List.append_assoc] at whole
          -- the first occurrence ends no later than the one behind `front`
          have early := first _ _ whole
          rw [← List.append_assoc, ← List.append_assoc front] at whole
          have inFront : gap ++ p <+: front ++ p := by
            apply List.prefix_of_prefix_length_le ⟨rest, rfl⟩ ⟨_, whole.symm⟩
            simpa using early
          obtain ⟨between, front_eq⟩ := inFront
          rw [← front_eq, List.append_assoc (gap ++ p)] at whole
          have others_eq : rest = p.intercalate ((between ++ second) :: more) := by
            rw [List.append_cancel_left whole]
            cases more <;> simp [List.intercalate_cons_of_ne_nil]
          simpa using ih others_eq

end Cuts

/-- Each occurrence gives up the size of the pattern for that of the replacement. What counts as
size may be anything that adds up over the parts of a text. -/
theorem size_replace (size : List Char → Nat) (adds : ∀ s t, size (s ++ t) = size s + size t)
    (nonempty : p ≠ []) (r s : List Char) :
    size (replace p r s) + count p s * size p = size s + count p s * size r := by
  obtain ⟨pieces, cuts⟩ := exists_cuts nonempty s
  induction cuts with
  | whole absent =>
      rw [replace_of_absent absent, (count_eq_zero_iff nonempty).mpr absent, Nat.zero_mul,
        Nat.zero_mul]
  | next first others ih =>
      rw [replace_of_first nonempty r first, count_of_first nonempty first, Nat.add_mul,
        Nat.add_mul]
      simp only [adds]
      omega

theorem replace_eq_self_iff (nonempty : p ≠ []) (differ : p ≠ r) :
    replace p r s = s ↔ ¬ p <:+: s := by
  refine ⟨fun same occurs => ?_, replace_of_absent⟩
  -- the lengths agree, so the first occurrence is replaced by a text of its own length
  have lengths : p.length = r.length := by
    have balance := size_replace List.length (fun _ _ => List.length_append) nonempty r s
    rw [same] at balance
    have counted : count p s ≠ 0 := fun none => (count_eq_zero_iff nonempty).mp none occurs
    exact Nat.eq_of_mul_eq_mul_left (Nat.pos_of_ne_zero counted) (Nat.add_left_cancel balance)
  obtain ⟨gap, rest, rfl, first⟩ := exists_first occurs
  rw [replace_of_first nonempty r first] at same
  have behind := List.append_cancel_left same
  exact differ (List.append_inj_left behind lengths.symm).symm

end Cuts

end Text
end Repackage
