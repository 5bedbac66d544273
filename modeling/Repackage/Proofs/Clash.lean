import Repackage.Proofs.Occurrences

/-!
When replacing leaves no pattern behind. A pattern clashes with a replacement if an
occurrence of the pattern can reach into the replacement from outside it, lie within it, or
cover it. Where they do not clash, every occurrence in the new text lies in a piece of the
old one, so a replacement makes no occurrence of such a pattern, its own one included.
-/

namespace Repackage
namespace Text

/-- A part of `s` that is not empty ends it and starts `t`. -/
def Overlaps (s t : List Char) : Prop :=
  ∃ shared, shared ≠ [] ∧ shared <:+ s ∧ shared <+: t

def Clashes (p r : List Char) : Prop :=
  r = [] ∨ p <:+: r ∨ r <:+: p ∨ Overlaps p r ∨ Overlaps r p

instance (s t : List Char) : Decidable (Overlaps s t) :=
  decidable_of_iff (∃ shared ∈ s.tails, shared ≠ [] ∧ shared <+: t) <| by
    simp only [List.mem_tails]
    exact ⟨fun ⟨o, hs, hne, ht⟩ => ⟨o, hne, hs, ht⟩, fun ⟨o, hne, hs, ht⟩ => ⟨o, hs, hne, ht⟩⟩

instance (p r : List Char) : Decidable (Clashes p r) :=
  inferInstanceAs (Decidable (_ ∨ _ ∨ _ ∨ _ ∨ _))

/-- An occurrence next to a replacement that it does not clash with lies before the
replacement or behind it. -/
theorem infix_of_infix_append {p r before after : List Char} (free : ¬ Clashes p r)
    (h : p <:+: before ++ (r ++ after)) : p <:+: before ∨ p <:+: after := by
  simp only [Clashes, not_or] at free
  obtain ⟨-, notInside, notAround, noStart, noEnd⟩ := free
  obtain ⟨front, back, h⟩ := h
  rw [List.append_assoc, List.append_eq_append_iff] at h
  rcases h with ⟨gap, rfl, h⟩ | ⟨gap, rfl, h⟩
  · -- the occurrence starts before the replacement
    rcases List.append_eq_append_iff.mp h with ⟨rest, rfl, -⟩ | ⟨tail, rfl, inner⟩
    · exact .inl ⟨front, rest, by simp⟩
    · rcases List.append_eq_append_iff.mp inner with ⟨rest, rfl, rfl⟩ | ⟨rest, rfl, rfl⟩
      · exact absurd ⟨gap, rest, by simp⟩ notAround
      · by_cases empty : tail = []
        · subst empty
          exact .inl ⟨front, [], by simp⟩
        · exact absurd ⟨tail, empty, List.suffix_append _ _, List.prefix_append _ _⟩ noStart
  · rcases List.append_eq_append_iff.mp h with ⟨rest, rfl, rfl⟩ | ⟨tail, rfl, inner⟩
    · exact .inr ⟨rest, back, by simp⟩
    · rcases List.append_eq_append_iff.mp inner with ⟨rest, rfl, rfl⟩ | ⟨rest, rfl, rfl⟩
      · exact absurd ⟨gap, rest, by simp⟩ notInside
      · by_cases empty : tail = []
        · subst empty
          exact .inr ⟨[], back, by simp⟩
        · exact absurd ⟨tail, empty, List.suffix_append _ _, List.prefix_append _ _⟩ noEnd

theorem ne_nil_of_not_clashes {p r : List Char} (free : ¬ Clashes p r) : p ≠ [] := by
  rintro rfl
  exact free (.inr (.inl List.nil_infix))

theorem not_clashes_symm {p r : List Char} (free : ¬ Clashes p r) : ¬ Clashes r p := by
  have nonempty := ne_nil_of_not_clashes free
  simp only [Clashes, not_or] at free ⊢
  obtain ⟨-, notInside, notAround, noStart, noEnd⟩ := free
  exact ⟨nonempty, notAround, notInside, noEnd, noStart⟩

/-- What does not occur in a text does not occur in it after replacements that it does not
clash with, whatever follows the text. -/
theorem replace_append_keeps_absent {p q r s behind : List Char} (nonempty : p ≠ [])
    (free : ¬ Clashes q r) (absent : ¬ q <:+: s ++ behind) :
    ¬ q <:+: replace p r s ++ behind := by
  obtain ⟨pieces, cuts⟩ := exists_cuts nonempty s
  induction cuts with
  | whole missing => rwa [replace_of_absent missing]
  | @next gap rest _ first others ih =>
      rw [replace_of_first nonempty r first, List.append_assoc, List.append_assoc]
      simp only [List.append_assoc] at absent
      intro h
      rcases infix_of_infix_append free h with inGap | inRest
      · exact absent (inGap.trans (List.prefix_append gap _).isInfix)
      · refine ih (fun later => absent ?_) inRest
        exact later.trans (List.suffix_append_of_suffix (List.suffix_append p _)).isInfix

theorem replace_keeps_absent {p q r s : List Char} (nonempty : p ≠ []) (free : ¬ Clashes q r)
    (absent : ¬ q <:+: s) : ¬ q <:+: replace p r s := by
  rw [← List.append_nil s] at absent
  have kept := replace_append_keeps_absent nonempty free absent
  rwa [List.append_nil] at kept

/-- The pattern itself is gone: the text between two of its leftmost occurrences holds none. -/
theorem replace_absent {p r s : List Char} (nonempty : p ≠ []) (free : ¬ Clashes p r) :
    ¬ p <:+: replace p r s := by
  obtain ⟨pieces, cuts⟩ := exists_cuts nonempty s
  induction cuts with
  | whole missing => rwa [replace_of_absent missing]
  | next first others ih =>
      rw [replace_of_first nonempty r first]
      intro h
      rcases infix_of_infix_append free h with inGap | inRest
      · exact first.not_infix nonempty inGap
      · exact ih inRest

/-- A text that the pattern does not clash with stays where it is, between what becomes of its
two sides. -/
theorem replace_around {p d : List Char} (free : ¬ Clashes p d) (r before after : List Char) :
    replace p r (before ++ (d ++ after)) = replace p r before ++ (d ++ replace p r after) := by
  have nonempty := ne_nil_of_not_clashes free
  obtain ⟨pieces, cuts⟩ := exists_cuts nonempty before
  induction cuts with
  | @whole before absent =>
      rw [replace_of_absent absent]
      by_cases occurs : p <:+: after
      · obtain ⟨gap, rest, rfl, first⟩ := exists_first occurs
        have first' : IsFirst p (before ++ (d ++ gap)) rest := by
          rw [isFirst_iff nonempty, List.append_assoc, List.append_assoc]
          intro h
          rcases infix_of_infix_append free h with inBefore | behind
          · exact absent inBefore
          · exact (isFirst_iff nonempty).mp first behind
        have whole := replace_of_first nonempty r first'
        rw [replace_of_first nonempty r first]
        simpa only [List.append_assoc] using whole
      · have nowhere : ¬ p <:+: before ++ (d ++ after) := fun h =>
          (infix_of_infix_append free h).elim absent occurs
        rw [replace_of_absent nowhere, replace_of_absent occurs]
  | @next gap rest _ first _ ih =>
      simp only [List.append_assoc]
      rw [replace_of_first nonempty r (first.before nonempty),
        replace_of_first nonempty r first, ih]
      simp only [List.append_assoc]

theorem replace_intercalate {p d : List Char} (free : ¬ Clashes p d) (r : List Char)
    (pieces : List (List Char)) :
    replace p r (d.intercalate pieces) = d.intercalate (pieces.map (replace p r)) := by
  induction pieces with
  | nil => rfl
  | cons piece pieces ih =>
      cases pieces with
      | nil => simp
      | cons next more =>
          have others : (next :: more).map (replace p r) ≠ [] := by simp
          calc replace p r (d.intercalate (piece :: next :: more))
              = replace p r (piece ++ (d ++ d.intercalate (next :: more))) := by
                rw [List.intercalate_cons_of_ne_nil (List.cons_ne_nil _ _), List.append_assoc]
            _ = replace p r piece ++ d ++ d.intercalate ((next :: more).map (replace p r)) := by
                rw [replace_around free, ih, List.append_assoc]
            _ = d.intercalate ((piece :: next :: more).map (replace p r)) :=
                (List.intercalate_cons_of_ne_nil others).symm

end Text
end Repackage
