import Repackage.Proofs.Hits
import Repackage.Rewrite

/-!
What the hits of a table say. A table applied with its hits traced makes the same text as one
that is just applied, and its hits are those of its rules that change the text which the rules
before them have left, in their order, each with the number of its leftmost occurrences there.
-/

namespace Repackage

namespace RuleTable

section Apply

theorem apply_append (first second : RuleTable) (text : String) :
    apply (first ++ second) text = apply second (apply first text) := by
  simp only [apply, List.filter_append, List.foldl_append]

theorem apply_inert {rule : Rule} (inert : rule.isInert = true) (text : String)
    (rest : RuleTable) : apply (rule :: rest) text = apply rest text := by
  simp [apply, inert]

theorem apply_active {rule : Rule} (active : rule.isInert = false) (text : String)
    (rest : RuleTable) : apply (rule :: rest) text = apply rest (rule.replaceIn text) := by
  simp [apply, active]

theorem apply_take_succ {table : RuleTable} {index : Nat} {rule : Rule}
    (listed : table[index]? = some rule) (text : String) :
    apply (table.take (index + 1)) text = apply [rule] (apply (table.take index) text) := by
  rw [List.take_add_one, listed, Option.toList_some, apply_append]

/-- A rule that fires is a rule that changes the text. -/
theorem apply_singleton_ne_iff {rule : Rule} {text : String} :
    apply [rule] text ≠ text ↔ rule.Fires text := by
  cases active : rule.isInert with
  | true =>
      rw [apply_inert active]
      simp [apply, Rule.Fires, active]
  | false =>
      have differ : rule.pattern.toList ≠ rule.replacement.toList := by
        have notIdentity := (Bool.or_eq_false_iff.mp active).2
        exact String.toList_inj.ne.mpr (by simpa [Rule.isIdentity] using notIdentity)
      have kept := Text.replace_eq_self_iff (s := text.toList) (Rule.pattern_ne_nil active) differ
      rw [apply_active active, ← String.toList_inj.ne]
      simp [apply, Rule.replaceIn, Rule.Fires, active, kept]

theorem traceFrom_text (index : Nat) (text : String) (table : RuleTable) :
    (traceFrom index text table).1 = table.apply text := by
  induction table generalizing index text with
  | nil => rfl
  | cons rule rest ih =>
      cases active : rule.isInert with
      | true => rw [traceFrom_inert active, apply_inert active, ih]
      | false => rw [traceFrom_active active, apply_active active, ih]

theorem trace_text (table : RuleTable) (text : String) :
    (table.trace text).1 = table.apply text :=
  traceFrom_text 0 text table

end Apply

section Hits

variable {table : RuleTable} {text : String}

theorem pairwise_traceFrom (index : Nat) (text : String) (table : RuleTable) :
    ((traceFrom index text table).2.map (·.index)).Pairwise (· < ·) := by
  induction table generalizing index text with
  | nil => exact List.Pairwise.nil
  | cons rule rest ih =>
      by_cases fires : rule.Fires text
      · rw [traceFrom_fires fires, List.map_cons, List.pairwise_cons]
        refine ⟨fun later hl => ?_, ih _ _⟩
        obtain ⟨hit, behind, rfl⟩ := List.mem_map.mp hl
        exact (index_of_mem_traceFrom behind).1
      · rw [traceFrom_idle fires]
        exact ih _ _

theorem exists_hit_iff {index : Nat} {rule : Rule} (listed : table[index]? = some rule) :
    (∃ hit ∈ (table.trace text).2, hit.index = index)
      ↔ rule.Fires (apply (table.take index) text) := by
  rw [← trace_text]
  constructor
  · rintro ⟨hit, h, rfl⟩
    exact fires_of_hit h listed
  · intro fires
    rw [trace_split listed, traceFrom_fires fires]
    exact ⟨_, List.mem_append_right _ List.mem_cons_self, rfl⟩

theorem listed_of_hit {hit : Hit} (h : hit ∈ (table.trace text).2) :
    ∃ rule, table[hit.index]? = some rule := by
  have bound := (index_of_mem_traceFrom h).2
  rw [Nat.zero_add] at bound
  exact ⟨_, List.getElem?_eq_getElem bound⟩

/-- A hit says how often the pattern of its rule stands in what the rules before it have left. -/
theorem hit_eq {rule : Rule} {hit : Hit} (h : hit ∈ (table.trace text).2)
    (listed : table[hit.index]? = some rule) :
    hit = ⟨hit.index, rule.pattern, rule.occurrences (apply (table.take hit.index) text)⟩ := by
  have fires := fires_of_hit h listed
  rw [← trace_text]
  rw [trace_split listed, traceFrom_fires fires] at h
  rcases List.mem_append.mp h with before | behind
  · have bounds := index_of_mem_traceFrom before
    rw [List.length_take] at bounds
    omega
  · rcases List.mem_cons.mp behind with here | behind
    · exact here
    · have bounds := index_of_mem_traceFrom behind
      omega

/-- The leftmost occurrences that a hit counts cut the text into one piece more, and the rule
joins the pieces by its replacement. -/
theorem cuts_of_hit {hit : Hit} (h : hit ∈ (table.trace text).2) :
    ∃ rule pieces, table[hit.index]? = some rule ∧ hit.pattern = rule.pattern ∧
      Text.Cuts rule.pattern.toList (apply (table.take hit.index) text).toList pieces ∧
      pieces.length = hit.occurrences + 1 ∧
      (apply (table.take (hit.index + 1)) text).toList
        = rule.replacement.toList.intercalate pieces := by
  obtain ⟨rule, listed⟩ := listed_of_hit h
  have said := hit_eq h listed
  have active : rule.isInert = false := ((exists_hit_iff listed).mp ⟨hit, h, rfl⟩).1
  have nonempty := Rule.pattern_ne_nil active
  obtain ⟨pieces, cuts⟩ :=
    Text.exists_cuts nonempty (apply (table.take hit.index) text).toList
  refine ⟨rule, pieces, listed, congrArg Hit.pattern said, cuts, ?_, ?_⟩
  · rw [congrArg Hit.occurrences said, ← cuts.count_eq nonempty]
    rfl
  · rw [apply_take_succ listed, apply_active active, ← cuts.replace_eq nonempty]
    exact String.toList_ofList

end Hits

end RuleTable

theorem Entry.rewrite_of_no_hit {entry : Entry} {shared : RuleTable} {content : String}
    (none : (entry.rewrite shared content).hits = []) :
    entry.rewrite shared content = ⟨content, content, []⟩ := by
  have idle : (entry.rules shared).trace content = (content, []) :=
    RuleTable.traceFrom_of_no_hit none
  simp only [rewrite, idle]

namespace RuleTable

/-- The traced text is the applied one, and the hits stand in the order of the rules. A rule is
among them exactly if it is not inert and its pattern occurs in what the rules before it have
left, which is exactly if it changes that text. It hits once for each leftmost occurrence: they
cut the text into one piece more, and its replacement joins the pieces again. Without a hit an
entry with these rules leaves its content as it is. -/
theorem trace_exact (table : RuleTable) (text : String) :
    let left (count : Nat) := apply (table.take count) text
    let hits := (table.trace text).2
    (table.trace text).1 = left table.length ∧ (table.trace text).1 = table.apply text ∧
      (hits.map (·.index)).Pairwise (· < ·) ∧
      (∀ index rule, table[index]? = some rule →
        ((∃ hit ∈ hits, hit.index = index) ↔ rule.Fires (left index)) ∧
        (rule.Fires (left index) ↔ left (index + 1) ≠ left index)) ∧
      (∀ hit ∈ hits, ∃ rule pieces, table[hit.index]? = some rule ∧
        hit.pattern = rule.pattern ∧
        Text.Cuts rule.pattern.toList (left hit.index).toList pieces ∧
        pieces.length = hit.occurrences + 1 ∧
        (left (hit.index + 1)).toList = rule.replacement.toList.intercalate pieces) ∧
      ∀ (entry : Entry) (shared : RuleTable), entry.rules shared = table →
        let result := entry.rewrite shared text
        (result.hits = [] → result.after = text) ∧ (result.changed = true → result.hits ≠ []) := by
  intro left hits
  have whole : left table.length = table.apply text := congrArg (apply · text) List.take_length
  refine ⟨(trace_text table text).trans whole.symm, trace_text table text,
    pairwise_traceFrom 0 text table, ?_, fun hit h => cuts_of_hit h, ?_⟩
  · intro index rule listed
    have next : left (index + 1) = apply [rule] (left index) := apply_take_succ listed text
    rw [next]
    exact ⟨exists_hit_iff listed, apply_singleton_ne_iff.symm⟩
  · rintro entry shared rfl result
    constructor
    · intro none
      exact congrArg Rewritten.after (Entry.rewrite_of_no_hit none)
    · intro changed none
      have idle : result = ⟨text, text, []⟩ := Entry.rewrite_of_no_hit none
      rw [idle] at changed
      simp [Rewritten.changed] at changed

/-- The second rule takes up what the first one has left, the third one is inert, and the last
one finds its pattern only in what the second has made. -/
def cascade : RuleTable := [⟨"aa", "a"⟩, ⟨"ba", "ab"⟩, ⟨"x", "x"⟩, ⟨"aa", "b"⟩]

theorem trace_exact_cascade :
    (cascade.trace "aaabaax").1 = "babx" ∧
      (∃ hit ∈ (cascade.trace "aaabaax").2, hit.index = 3) ∧
      (¬ ∃ hit ∈ (cascade.trace "aaabaax").2, hit.index = 2) ∧
      ∃ rule pieces, cascade[0]? = some rule ∧
        Text.Cuts rule.pattern.toList "aaabaax".toList pieces ∧ pieces.length = 3 := by
  obtain ⟨-, applied, -, rules, hits, -⟩ := trace_exact cascade "aaabaax"
  have first : ⟨0, "aa", 2⟩ ∈ (cascade.trace "aaabaax").2 := by decide +kernel
  obtain ⟨rule, pieces, listed, -, cuts, length, -⟩ := hits _ first
  obtain ⟨hitsLast, firesLast⟩ := rules 3 ⟨"aa", "b"⟩ rfl
  obtain ⟨hitsInert, -⟩ := rules 2 ⟨"x", "x"⟩ rfl
  refine ⟨applied.trans (by decide +kernel), ?_, ?_, rule, pieces, listed, cuts, length⟩
  · exact hitsLast.mpr (firesLast.mpr (by decide +kernel))
  · exact fun h => absurd (hitsInert.mp h).1 (by decide +kernel)

end RuleTable
end Repackage
