import Repackage.Proofs.HitTrace

/-!
Independent rules. Two rules are independent if neither can touch, make or break an occurrence
of the other's pattern, neither in the text nor in what the other one writes. Their order does
not matter then, although each still takes its own leftmost occurrences first. Other rules may
make another text in the other order.
-/

namespace Repackage

namespace Text

variable {p q r s : List Char}

/-- Replacements before an occurrence leave it the first one, if the pattern does not clash with
what they write. -/
theorem IsFirst.replace {gap rest rest' : List Char} (first : IsFirst p gap rest)
    (free : ¬ Clashes p s) (nonempty : q ≠ []) : IsFirst p (Text.replace q s gap) rest' := by
  have searched := ne_nil_of_not_clashes free
  rw [isFirst_iff searched] at first ⊢
  exact replace_append_keeps_absent nonempty free first

theorem replace_comm (apart : ¬ Clashes p q) (kept : ¬ Clashes q r) (kept' : ¬ Clashes p s)
    (text : List Char) : replace q s (replace p r text) = replace p r (replace q s text) := by
  have nonempty := ne_nil_of_not_clashes apart
  have nonempty' := ne_nil_of_not_clashes kept
  obtain ⟨pieces, cuts⟩ := exists_cuts nonempty text
  induction cuts with
  | whole absent =>
      rw [replace_of_absent absent,
        replace_of_absent (replace_keeps_absent nonempty' kept' absent)]
  | @next gap rest _ first _ ih =>
      calc replace q s (replace p r (gap ++ (p ++ rest)))
          = replace q s (gap ++ (r ++ replace p r rest)) := by
            rw [replace_of_first nonempty r first]
        _ = replace q s gap ++ (r ++ replace q s (replace p r rest)) :=
            replace_around kept s gap _
        _ = replace q s gap ++ (r ++ replace p r (replace q s rest)) := by rw [ih]
        _ = replace p r (replace q s gap ++ (p ++ replace q s rest)) :=
            (replace_of_first nonempty r (first.replace kept' nonempty')).symm
        _ = replace p r (replace q s (gap ++ (p ++ rest))) := by
            rw [replace_around (not_clashes_symm apart) s gap rest]

end Text

/-- The patterns clash neither with each other nor with the other rule's replacement. -/
def Rule.Independent (first second : Rule) : Prop :=
  ¬ Text.Clashes first.pattern.toList second.pattern.toList ∧
    ¬ Text.Clashes second.pattern.toList first.replacement.toList ∧
    ¬ Text.Clashes first.pattern.toList second.replacement.toList

instance (first second : Rule) : Decidable (first.Independent second) :=
  inferInstanceAs (Decidable (_ ∧ _ ∧ _))

theorem Rule.Independent.replaceIn_comm {first second : Rule} (h : first.Independent second)
    (text : String) :
    second.replaceIn (first.replaceIn text) = first.replaceIn (second.replaceIn text) := by
  obtain ⟨apart, kept, kept'⟩ := h
  simp only [replaceIn, String.toList_ofList, Text.replace_comm apart kept kept']

namespace RuleTable

theorem apply_swap {first second : Rule} (h : first.Independent second) (back : RuleTable)
    (text : String) :
    apply (first :: second :: back) text = apply (second :: first :: back) text := by
  cases active : first.isInert with
  | true =>
      rw [apply_inert active]
      cases active' : second.isInert with
      | true => rw [apply_inert active', apply_inert active', apply_inert active]
      | false => rw [apply_active active', apply_active active', apply_inert active]
  | false =>
      rw [apply_active active]
      cases active' : second.isInert with
      | true => rw [apply_inert active', apply_inert active', apply_active active]
      | false =>
          rw [apply_active active', apply_active active', apply_active active,
            h.replaceIn_comm]

/-- Neighbouring rules that are independent can change places anywhere in a table, whether the
table is applied or traced. -/
theorem independent_neighbours {first second : Rule} (h : first.Independent second)
    (front back : RuleTable) (text : String) :
    apply (front ++ first :: second :: back) text
        = apply (front ++ second :: first :: back) text ∧
      (trace (front ++ first :: second :: back) text).1
        = (trace (front ++ second :: first :: back) text).1 := by
  have same : apply (front ++ first :: second :: back) text
      = apply (front ++ second :: first :: back) text := by
    rw [apply_append, apply_append, apply_swap h]
  exact ⟨same, by rw [trace_text, trace_text, same]⟩

def doubledA : Rule := ⟨"aa", "cd"⟩
def doubledB : Rule := ⟨"bb", "dc"⟩

/-- Both patterns overlap themselves, the rule in front makes occurrences of both, and the rule
behind them takes up what the two have written next to each other. -/
theorem independent_neighbours_doubled :
    doubledA.Independent doubledB ∧
      (trace [⟨"x", "aab"⟩, doubledA, doubledB, ⟨"dd", "!"⟩] "xbbaaa").1 = "c!cbcda" ∧
      (trace [⟨"x", "aab"⟩, doubledB, doubledA, ⟨"dd", "!"⟩] "xbbaaa").1 = "c!cbcda" := by
  have independent : doubledA.Independent doubledB := by decide +kernel
  have inOrder : (trace [⟨"x", "aab"⟩, doubledA, doubledB, ⟨"dd", "!"⟩] "xbbaaa").1
      = "c!cbcda" := by
    decide +kernel
  obtain ⟨-, swapped⟩ := independent_neighbours independent [⟨"x", "aab"⟩] [⟨"dd", "!"⟩] "xbbaaa"
  exact ⟨independent, inOrder, swapped.symm.trans inOrder⟩

end RuleTable
end Repackage
