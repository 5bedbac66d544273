import Mathlib.Data.Fintype.Basic
import Repackage.Proofs.Clash
import Repackage.Rule

/-!
What a rule table leaves of its patterns. A table is free of clashes if no pattern clashes
with the replacement of its own rule or of a later one. Such a table leaves a text in which
none of its patterns occurs, and therefore does nothing when it is applied again.
-/

namespace Repackage

namespace Rule

theorem pattern_ne_nil {rule : Rule} (active : rule.isInert = false) :
    rule.pattern.toList ≠ [] := by
  simp only [isInert, Bool.or_eq_false_iff] at active
  simpa using active.1

theorem occurrences_eq_zero_iff {rule : Rule} (active : rule.isInert = false) {text : String} :
    rule.occurrences text = 0 ↔ ¬ rule.pattern.toList <:+: text.toList :=
  Text.count_eq_zero_iff (pattern_ne_nil active)

theorem replaceIn_of_absent {rule : Rule} {text : String}
    (absent : ¬ rule.pattern.toList <:+: text.toList) : rule.replaceIn text = text := by
  rw [replaceIn, Text.replace_of_absent absent, String.ofList_toList]

end Rule

namespace RuleTable

/-- No pattern clashes with the replacement of its rule or of one after it. Inert rules do
not count. -/
def ClashFree (table : RuleTable) : Prop :=
  ∀ i j : Fin table.length, i ≤ j → table[i].isInert = false → table[j].isInert = false →
    ¬ Text.Clashes table[i].pattern.toList table[j].replacement.toList

instance (table : RuleTable) : Decidable table.ClashFree :=
  inferInstanceAs (Decidable (∀ _ _ : Fin table.length, _))

namespace ClashFree

variable {rule : Rule} {rest : RuleTable}

theorem tail (h : ClashFree (rule :: rest)) : ClashFree rest :=
  fun i j le => h i.succ j.succ (Fin.succ_le_succ_iff.mpr le)

theorem own (h : ClashFree (rule :: rest)) (active : rule.isInert = false) :
    ¬ Text.Clashes rule.pattern.toList rule.replacement.toList :=
  h ⟨0, Nat.zero_lt_succ _⟩ ⟨0, Nat.zero_lt_succ _⟩ (Nat.le_refl 0) active active

theorem later (h : ClashFree (rule :: rest)) (active : rule.isInert = false) :
    ∀ later ∈ rest, later.isInert = false →
      ¬ Text.Clashes rule.pattern.toList later.replacement.toList := by
  intro later hl active'
  obtain ⟨j, hj, rfl⟩ := List.getElem_of_mem hl
  exact h ⟨0, Nat.zero_lt_succ _⟩ (Fin.succ ⟨j, hj⟩) (Nat.zero_le _) active active'

end ClashFree

theorem traceFrom_inert {rule : Rule} (inert : rule.isInert = true) (index : Nat) (text : String)
    (rest : RuleTable) :
    traceFrom index text (rule :: rest) = traceFrom (index + 1) text rest := by
  simp [traceFrom, inert]

theorem traceFrom_absent {rule : Rule} (active : rule.isInert = false) {text : String}
    (absent : ¬ rule.pattern.toList <:+: text.toList) (index : Nat) (rest : RuleTable) :
    traceFrom index text (rule :: rest) = traceFrom (index + 1) text rest := by
  simp [traceFrom, (Rule.occurrences_eq_zero_iff active).mpr absent]

/-- A rule that is applied replaces its pattern, whether it hits or not. -/
theorem traceFrom_active {rule : Rule} (active : rule.isInert = false) (index : Nat)
    (text : String) (rest : RuleTable) :
    (traceFrom index text (rule :: rest)).1
      = (traceFrom (index + 1) (rule.replaceIn text) rest).1 := by
  by_cases occurs : rule.pattern.toList <:+: text.toList
  · have hit : rule.occurrences text ≠ 0 := fun none =>
      (Rule.occurrences_eq_zero_iff active).mp none occurs
    simp [traceFrom, active, hit]
  · rw [traceFrom_absent active occurs, Rule.replaceIn_of_absent occurs]

theorem traceFrom_keeps_absent {pattern : List Char} {table : RuleTable}
    (free : ∀ rule ∈ table, rule.isInert = false →
      ¬ Text.Clashes pattern rule.replacement.toList)
    (index : Nat) {text : String} (absent : ¬ pattern <:+: text.toList) :
    ¬ pattern <:+: (traceFrom index text table).1.toList := by
  induction table generalizing index text with
  | nil => exact absent
  | cons rule rest ih =>
      obtain ⟨first, others⟩ := List.forall_mem_cons.mp free
      cases active : rule.isInert with
      | true =>
          rw [traceFrom_inert active]
          exact ih others _ absent
      | false =>
          rw [traceFrom_active active]
          apply ih others
          rw [Rule.replaceIn, String.toList_ofList]
          exact Text.replace_keeps_absent (Rule.pattern_ne_nil active) (first active) absent

theorem absent_traceFrom {table : RuleTable} (free : table.ClashFree) (index : Nat)
    (text : String) :
    ∀ rule ∈ table, rule.isInert = false →
      ¬ rule.pattern.toList <:+: (traceFrom index text table).1.toList := by
  induction table generalizing index text with
  | nil => simp
  | cons first rest ih =>
      intro rule hr active
      rcases List.mem_cons.mp hr with rfl | hr
      · rw [traceFrom_active active]
        apply traceFrom_keeps_absent (free.later active)
        rw [Rule.replaceIn, String.toList_ofList]
        exact Text.replace_absent (Rule.pattern_ne_nil active) (free.own active)
      · cases first_active : first.isInert with
        | true =>
            rw [traceFrom_inert first_active]
            exact ih free.tail _ _ rule hr active
        | false =>
            rw [traceFrom_active first_active]
            exact ih free.tail _ _ rule hr active

theorem traceFrom_of_absent {table : RuleTable} {text : String}
    (absent : ∀ rule ∈ table, rule.isInert = false → ¬ rule.pattern.toList <:+: text.toList)
    (index : Nat) : traceFrom index text table = (text, []) := by
  induction table generalizing index with
  | nil => rfl
  | cons rule rest ih =>
      obtain ⟨first, others⟩ := List.forall_mem_cons.mp absent
      cases active : rule.isInert with
      | true => rw [traceFrom_inert active, ih others]
      | false => rw [traceFrom_absent active (first active), ih others]

theorem trace_trace {table : RuleTable} (free : table.ClashFree) (text : String) :
    table.trace (table.trace text).1 = ((table.trace text).1, []) :=
  traceFrom_of_absent (absent_traceFrom free 0 text) 0

end RuleTable
end Repackage
