import Repackage.Proofs.RuleTable

/-!
The hits of a rule table, split at one of its rules. A hit bears the place of its rule, so
the hits before a rule, its own one and those behind it are told apart by their indices.
Whether a rule hits is decided by the text that the rules before it have left.
-/

namespace Repackage

/-- The rule is not inert, and finds its pattern in the text. -/
def Rule.Fires (rule : Rule) (text : String) : Prop :=
  rule.isInert = false ∧ rule.pattern.toList <:+: text.toList

namespace RuleTable

theorem traceFrom_fires {rule : Rule} {text : String} (fires : rule.Fires text) (index : Nat)
    (rest : RuleTable) :
    traceFrom index text (rule :: rest)
      = ((traceFrom (index + 1) (rule.replaceIn text) rest).1,
        ⟨index, rule.pattern, rule.occurrences text⟩
          :: (traceFrom (index + 1) (rule.replaceIn text) rest).2) := by
  obtain ⟨active, occurs⟩ := fires
  have hit : rule.occurrences text ≠ 0 := fun none =>
    (Rule.occurrences_eq_zero_iff active).mp none occurs
  simp [traceFrom, active, hit]

theorem traceFrom_idle {rule : Rule} {text : String} (idle : ¬ rule.Fires text) (index : Nat)
    (rest : RuleTable) :
    traceFrom index text (rule :: rest) = traceFrom (index + 1) text rest := by
  cases active : rule.isInert with
  | true => exact traceFrom_inert active index text rest
  | false => exact traceFrom_absent active (fun occurs => idle ⟨active, occurs⟩) index rest

theorem traceFrom_append (first second : RuleTable) (index : Nat) (text : String) :
    traceFrom index text (first ++ second)
      = ((traceFrom (index + first.length) (traceFrom index text first).1 second).1,
        (traceFrom index text first).2
          ++ (traceFrom (index + first.length) (traceFrom index text first).1 second).2) := by
  induction first generalizing index text with
  | nil => rfl
  | cons rule rest ih =>
      have next : index + (rule :: rest).length = index + 1 + rest.length := by
        rw [List.length_cons]
        omega
      rw [List.cons_append, next]
      by_cases fires : rule.Fires text
      · rw [traceFrom_fires fires, traceFrom_fires fires, ih]
        rfl
      · rw [traceFrom_idle fires, traceFrom_idle fires, ih]

theorem traceFrom_of_no_hit {table : RuleTable} {index : Nat} {text : String}
    (h : (traceFrom index text table).2 = []) : traceFrom index text table = (text, []) := by
  induction table generalizing index with
  | nil => rfl
  | cons rule rest ih =>
      by_cases fires : rule.Fires text
      · simp [traceFrom_fires fires] at h
      · rw [traceFrom_idle fires] at h ⊢
        exact ih h

/-- A hit stands at the place of its rule. -/
theorem index_of_mem_traceFrom {table : RuleTable} {index : Nat} {text : String} {hit : Hit}
    (h : hit ∈ (traceFrom index text table).2) :
    index ≤ hit.index ∧ hit.index < index + table.length := by
  induction table generalizing index text with
  | nil => simp [traceFrom] at h
  | cons rule rest ih =>
      have later : ∀ {text' : String}, hit ∈ (traceFrom (index + 1) text' rest).2 →
          index ≤ hit.index ∧ hit.index < index + (rule :: rest).length := by
        intro text' h
        have bounds := ih h
        rw [List.length_cons]
        omega
      by_cases fires : rule.Fires text
      · rw [traceFrom_fires fires] at h
        rcases List.mem_cons.mp h with rfl | h
        · simp
        · exact later h
      · rw [traceFrom_idle fires] at h
        exact later h

/-- The table before a rule, and the table from it on. -/
theorem trace_split {table : RuleTable} {index : Nat} {rule : Rule}
    (listed : table[index]? = some rule) (text : String) :
    table.trace text =
      ((traceFrom index (trace (table.take index) text).1
          (rule :: table.drop (index + 1))).1,
        (trace (table.take index) text).2
          ++ (traceFrom index (trace (table.take index) text).1
            (rule :: table.drop (index + 1))).2) := by
  obtain ⟨bound, here⟩ := List.getElem?_eq_some_iff.mp listed
  have split : table = table.take index ++ rule :: table.drop (index + 1) := by
    rw [← here, List.getElem_cons_drop, List.take_append_drop]
  have before : (table.take index).length = index := by
    rw [List.length_take]
    omega
  have whole := traceFrom_append (table.take index) (rule :: table.drop (index + 1)) 0 text
  rwa [Nat.zero_add, before, ← split] at whole

/-- A rule that hits fires on what the rules before it have left. -/
theorem fires_of_hit {table : RuleTable} {rule : Rule} {text : String} {hit : Hit}
    (h : hit ∈ (table.trace text).2) (listed : table[hit.index]? = some rule) :
    rule.Fires (trace (table.take hit.index) text).1 := by
  by_contra idle
  rw [trace_split listed, traceFrom_idle idle] at h
  rcases List.mem_append.mp h with h | h
  · have bounds := index_of_mem_traceFrom h
    rw [List.length_take] at bounds
    omega
  · have bounds := index_of_mem_traceFrom h
    omega

end RuleTable
end Repackage
