import Repackage.Proofs.Hits
import Repackage.Residue

/-!
What a scan says of a text: every pattern of a rule that is not inert and that occurs, once, by the
first rule that has it, and with the number of its occurrences from left to right.
-/

namespace Repackage

namespace RuleTable

/-- The first of the rules that look for the pattern stands at this index. -/
structure FirstAt (table : RuleTable) (pattern : String) (index : Nat) : Prop where
  active : ∃ rule, table[index]? = some rule ∧ rule.isInert = false ∧ rule.pattern = pattern
  least : ∀ other rule, table[other]? = some rule → rule.isInert = false →
    rule.pattern = pattern → index ≤ other

theorem not_firstAt_nil (pattern : String) (index : Nat) : ¬ FirstAt [] pattern index := by
  rintro ⟨⟨rule, listed, -⟩, -⟩
  cases listed

theorem firstAt_cons_of_seeks {rule : Rule} (active : rule.isInert = false) (rest : RuleTable)
    {index : Nat} : FirstAt (rule :: rest) rule.pattern index ↔ index = 0 := by
  constructor
  · intro first
    exact Nat.le_zero.mp (first.least 0 rule rfl active rfl)
  · rintro rfl
    exact ⟨⟨rule, rfl, active, rfl⟩, fun other _ _ _ _ => Nat.zero_le other⟩

theorem firstAt_cons_of_not_seeks {rule : Rule} {pattern : String}
    (other : ¬ (rule.isInert = false ∧ rule.pattern = pattern)) (rest : RuleTable) {index : Nat} :
    FirstAt (rule :: rest) pattern index ↔
      ∃ later, index = later + 1 ∧ FirstAt rest pattern later := by
  constructor
  · rintro ⟨⟨found, listed, seeks⟩, least⟩
    cases index with
    | zero =>
        cases listed
        exact absurd seeks other
    | succ later =>
        refine ⟨later, rfl, ⟨found, listed, seeks⟩, fun next rule listed active same => ?_⟩
        exact Nat.le_of_succ_le_succ (least (next + 1) rule listed active same)
  · rintro ⟨later, rfl, ⟨found, listed, seeks⟩, least⟩
    refine ⟨⟨found, listed, seeks⟩, fun next rule listed active same => ?_⟩
    cases next with
    | zero =>
        cases listed
        exact absurd ⟨active, same⟩ other
    | succ next => exact Nat.succ_le_succ (least next rule listed active same)

theorem exists_firstAt {table : RuleTable} {rule : Rule} (listed : rule ∈ table)
    (active : rule.isInert = false) : ∃ index, table.FirstAt rule.pattern index := by
  induction table with
  | nil => cases listed
  | cons first rest ih =>
      by_cases seeks : first.isInert = false ∧ first.pattern = rule.pattern
      · exact ⟨0, seeks.2 ▸ (firstAt_cons_of_seeks seeks.1 rest).mpr rfl⟩
      · rcases List.mem_cons.mp listed with rfl | later
        · exact absurd ⟨active, rfl⟩ seeks
        · obtain ⟨index, found⟩ := ih later
          exact ⟨index + 1, (firstAt_cons_of_not_seeks seeks rest).mpr ⟨index, rfl, found⟩⟩

theorem FirstAt.unique {table : RuleTable} {pattern : String} {index other : Nat}
    (h : table.FirstAt pattern index) (h' : table.FirstAt pattern other) : index = other := by
  obtain ⟨rule, listed, active, same⟩ := h.active
  obtain ⟨rule', listed', active', same'⟩ := h'.active
  exact Nat.le_antisymm (h.least other rule' listed' active' same')
    (h'.least index rule listed active same)

end RuleTable

/-- The pattern of a rule that is not inert, by the first rule that has it, and all its leftmost
occurrences: they cut the text into one piece more. -/
structure ResidueMatch.FoundIn (found : ResidueMatch) (table : RuleTable) (text : String) :
    Prop where
  first : table.FirstAt found.pattern found.index
  occurs : found.pattern.toList <:+: text.toList
  counted : ∃ pieces, Text.Cuts found.pattern.toList text.toList pieces ∧
    pieces.length = found.occurrences + 1

namespace Residue

theorem mem_patternsFrom_iff {table : RuleTable} {start index : Nat} {known : List String}
    {pattern : String} : (index, pattern) ∈ patternsFrom start known table ↔
      pattern ∉ known ∧ ∃ offset, index = start + offset ∧ table.FirstAt pattern offset := by
  induction table generalizing start known with
  | nil => simp [patternsFrom, RuleTable.not_firstAt_nil]
  | cons rule rest ih =>
      rw [patternsFrom]
      split
      · rename_i passedOver
        rw [ih]
        refine and_congr_right fun new => ?_
        have other : ¬ (rule.isInert = false ∧ rule.pattern = pattern) := by
          rintro ⟨active, rfl⟩
          exact new (by simpa [active] using passedOver)
        constructor
        · rintro ⟨offset, rfl, first⟩
          exact ⟨offset + 1, by omega,
            (RuleTable.firstAt_cons_of_not_seeks other rest).mpr ⟨offset, rfl, first⟩⟩
        · rintro ⟨offset, rfl, here⟩
          obtain ⟨later, rfl, first⟩ := (RuleTable.firstAt_cons_of_not_seeks other rest).mp here
          exact ⟨later, by omega, first⟩
      · rename_i due
        simp only [Bool.or_eq_true, not_or, Bool.not_eq_true, List.contains_eq_mem,
          decide_eq_false_iff_not] at due
        obtain ⟨active, new⟩ := due
        rw [List.mem_cons, ih, Prod.mk.injEq]
        by_cases same : rule.pattern = pattern
        · subst same
          simp [RuleTable.firstAt_cons_of_seeks active, new]
        · have other : ¬ (rule.isInert = false ∧ rule.pattern = pattern) :=
            fun seeks => same seeks.2
          simp only [RuleTable.firstAt_cons_of_not_seeks other rest, List.mem_cons, Ne.symm same,
            and_false, false_or]
          refine and_congr_right fun _ => ⟨?_, ?_⟩
          · rintro ⟨offset, rfl, first⟩
            exact ⟨offset + 1, by omega, offset, rfl, first⟩
          · rintro ⟨_, rfl, offset, rfl, first⟩
            exact ⟨offset, by omega, first⟩

theorem mem_patterns_iff {table : RuleTable} {index : Nat} {pattern : String} :
    (index, pattern) ∈ patterns table ↔ table.FirstAt pattern index := by
  simp [patterns, mem_patternsFrom_iff]

theorem pairwise_patternsFrom (start : Nat) (known : List String) (table : RuleTable) :
    (patternsFrom start known table).Pairwise fun earlier later => earlier.1 < later.1 := by
  induction table generalizing start known with
  | nil => exact .nil
  | cons rule rest ih =>
      rw [patternsFrom]
      split
      · exact ih _ _
      · refine List.pairwise_cons.mpr ⟨fun later there => ?_, ih _ _⟩
        obtain ⟨-, offset, same, -⟩ := mem_patternsFrom_iff.mp there
        omega

theorem mem_matchesIn_iff {table : RuleTable} {text : String} {found : ResidueMatch} :
    found ∈ matchesIn (patterns table) text ↔ found.FoundIn table text := by
  simp only [matchesIn, List.mem_filterMap, Prod.exists, mem_patterns_iff,
    Option.ite_none_left_eq_some, Option.some.injEq]
  constructor
  · rintro ⟨index, pattern, first, occurs, rfl⟩
    obtain ⟨rule, -, active, rfl⟩ := first.active
    have nonempty := Rule.pattern_ne_nil active
    obtain ⟨pieces, cuts⟩ := Text.exists_cuts nonempty text.toList
    refine ⟨first, ?_, pieces, cuts, (cuts.count_eq nonempty).symm⟩
    exact not_not.mp fun absent => occurs ((Text.count_eq_zero_iff nonempty).mpr absent)
  · rintro ⟨first, occurs, pieces, cuts, counted⟩
    obtain ⟨rule, -, active, same⟩ := first.active
    have nonempty : found.pattern.toList ≠ [] := same ▸ Rule.pattern_ne_nil active
    have count := cuts.count_eq nonempty
    refine ⟨found.index, found.pattern, first, ?_, ?_⟩
    · exact fun none => (Text.count_eq_zero_iff nonempty).mp none occurs
    · rw [Nat.succ.inj (count.trans counted)]

/-- The matches of a text: one for each pattern that occurs, in the order of the rules. -/
structure Complete (table : RuleTable) (text : String) (found : List ResidueMatch) : Prop where
  increasing : (found.map (·.index)).Pairwise (· < ·)
  mem_iff : ∀ entry, entry ∈ found ↔ entry.FoundIn table text
  once : ∀ rule ∈ table, rule.Fires text → ∃! entry, entry ∈ found ∧ entry.pattern = rule.pattern

theorem complete_matchesIn (table : RuleTable) (text : String) :
    Complete table text (matchesIn (patterns table) text) where
  increasing := by
    refine List.pairwise_map.mpr (List.pairwise_filterMap.mpr ?_)
    refine (pairwise_patternsFrom 0 [] table).imp fun less entry made later made' => ?_
    simp only [Option.ite_none_left_eq_some, Option.some.injEq] at made made'
    rw [← made.2, ← made'.2]
    exact less
  mem_iff _ := mem_matchesIn_iff
  once rule listed fires := by
    obtain ⟨index, first⟩ := RuleTable.exists_firstAt listed fires.1
    obtain ⟨pieces, cuts⟩ := Text.exists_cuts (Rule.pattern_ne_nil fires.1) text.toList
    have counted := cuts.count_eq (Rule.pattern_ne_nil fires.1)
    refine ⟨⟨index, rule.pattern, Text.count rule.pattern.toList text.toList⟩,
      ⟨mem_matchesIn_iff.mpr ⟨first, fires.2, pieces, cuts, counted.symm⟩, rfl⟩, ?_⟩
    rintro ⟨index', pattern', occurrences'⟩ ⟨there, rfl⟩
    obtain ⟨first', -, pieces', cuts', counted'⟩ := mem_matchesIn_iff.mp there
    have count' := cuts'.count_eq (Rule.pattern_ne_nil fires.1)
    rw [first.unique first', Nat.succ.inj (count'.trans counted')]

theorem Complete.ne_nil_iff {table : RuleTable} {text : String} {found : List ResidueMatch}
    (complete : Complete table text found) : found ≠ [] ↔ ∃ rule ∈ table, rule.Fires text := by
  constructor
  · intro some
    obtain ⟨entry, there⟩ := List.exists_mem_of_ne_nil found some
    obtain ⟨first, occurs, -⟩ := (complete.mem_iff entry).mp there
    obtain ⟨rule, listed, active, same⟩ := first.active
    exact ⟨rule, List.mem_of_getElem? listed, active, same ▸ occurs⟩
  · rintro ⟨rule, listed, fires⟩
    obtain ⟨entry, ⟨there, -⟩, -⟩ := complete.once rule listed fires
    exact List.ne_nil_of_mem there

end Residue
end Repackage
