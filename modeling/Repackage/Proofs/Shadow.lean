import Repackage.Proofs.Hits

/-!
Shadows in a rule table. A rule casts a shadow on the later ones whose patterns contain its
own, and `shadowed` lists each rule in a shadow with the first rule that casts one on it.
What is not listed can hit. What is listed never hits, unless a replacement made from the
general rule on, before the special one, can bring the general pattern back.
-/

namespace Repackage

theorem Rule.refines_iff {rule general : Rule} :
    rule.refines general = true ↔ general.pattern.toList <:+: rule.pattern.toList :=
  Text.occurs_iff

namespace RuleTable

/-- Rule `i` stands before rule `j` and has a part of its pattern, and neither is inert. -/
def Covers (table : RuleTable) (i j : Nat) : Prop :=
  i < j ∧ ∃ general rule, table[i]? = some general ∧ table[j]? = some rule ∧
    general.isInert = false ∧ rule.isInert = false ∧
    general.pattern.toList <:+: rule.pattern.toList

theorem shadowOn_eq_some_iff {table : RuleTable} {later : Nat} {rule : Rule}
    {shadow : Shadowing} :
    table.shadowOn later rule = some shadow ↔
      shadow.later = later ∧ rule.isInert = false ∧
        (table.take later).findIdx? (fun prior => !prior.isInert && rule.refines prior)
          = some shadow.earlier := by
  obtain ⟨earlier, last⟩ := shadow
  cases active : rule.isInert with
  | true => simp [shadowOn, active]
  | false =>
      simp only [shadowOn, active, Bool.false_eq_true, if_false, Option.map_eq_some_iff,
        Shadowing.mk.injEq, true_and]
      exact ⟨fun ⟨_, found, same, there⟩ => ⟨there.symm, same ▸ found⟩,
        fun ⟨there, found⟩ => ⟨_, found, rfl, there.symm⟩⟩

theorem mem_shadowed {table : RuleTable} {shadow : Shadowing} :
    shadow ∈ table.shadowed ↔
      ∃ rule, table[shadow.later]? = some rule ∧
        table.shadowOn shadow.later rule = some shadow := by
  simp only [shadowed, List.mem_filterMap, Prod.exists, List.mem_zipIdx_iff_getElem?]
  constructor
  · rintro ⟨rule, later, listed, found⟩
    obtain rfl := (shadowOn_eq_some_iff.mp found).1
    exact ⟨rule, listed, found⟩
  · rintro ⟨rule, listed, found⟩
    exact ⟨rule, _, listed, found⟩

/-- What casts a shadow on a rule, in terms of the search among the rules before it. -/
theorem covers_iff {table : RuleTable} {i j : Nat} {rule : Rule}
    (listed : table[j]? = some rule) (active : rule.isInert = false) :
    table.Covers i j ↔ ∃ prior, (table.take j)[i]? = some prior ∧
      (!prior.isInert && rule.refines prior) = true := by
  simp only [Covers, listed, Option.some.injEq, Bool.and_eq_true, Bool.not_eq_true',
    Rule.refines_iff]
  constructor
  · rintro ⟨before, general, _, there, rfl, general_active, -, part⟩
    exact ⟨general, by rw [List.getElem?_take_of_lt before, there], general_active, part⟩
  · rintro ⟨prior, there, prior_active, part⟩
    obtain ⟨bound, -⟩ := List.getElem?_eq_some_iff.mp there
    have before : i < j := by
      rw [List.length_take] at bound
      omega
    rw [List.getElem?_take_of_lt before] at there
    exact ⟨before, prior, rule, there, rfl, prior_active, active, part⟩

theorem Covers.later_active {table : RuleTable} {i j : Nat} (h : table.Covers i j) :
    ∃ rule, table[j]? = some rule ∧ rule.isInert = false := by
  obtain ⟨_, _, rule, _, listed, _, active, _⟩ := h
  exact ⟨rule, listed, active⟩

/-- A rule is listed with the first one that casts a shadow on it. -/
theorem mem_shadowed_iff_covers {table : RuleTable} {i j : Nat} :
    ⟨i, j⟩ ∈ table.shadowed ↔ table.Covers i j ∧ ∀ k < i, ¬ table.Covers k j := by
  rw [mem_shadowed]
  simp only [shadowOn_eq_some_iff, true_and]
  constructor
  · rintro ⟨rule, listed, active, found⟩
    obtain ⟨bound, casts, first⟩ := List.findIdx?_eq_some_iff_getElem.mp found
    simp only [covers_iff listed active]
    refine ⟨⟨_, List.getElem?_eq_getElem bound, casts⟩, ?_⟩
    rintro k before ⟨prior, there, casts'⟩
    obtain ⟨_, rfl⟩ := List.getElem?_eq_some_iff.mp there
    exact first k before casts'
  · rintro ⟨covers, first⟩
    obtain ⟨rule, listed, active⟩ := covers.later_active
    simp only [covers_iff listed active] at covers first
    obtain ⟨prior, there, casts⟩ := covers
    obtain ⟨bound, rfl⟩ := List.getElem?_eq_some_iff.mp there
    refine ⟨rule, listed, active, List.findIdx?_eq_some_iff_getElem.mpr ⟨bound, casts, ?_⟩⟩
    intro k before casts'
    exact first k before ⟨_, List.getElem?_eq_getElem (Nat.lt_trans before bound), casts'⟩

theorem exists_shadow_of_covers {table : RuleTable} {i j : Nat} (h : table.Covers i j) :
    ∃ first, ⟨first, j⟩ ∈ table.shadowed := by
  classical
  have some_covers : ∃ i, table.Covers i j := ⟨i, h⟩
  exact ⟨Nat.find some_covers, mem_shadowed_iff_covers.mpr
    ⟨Nat.find_spec some_covers, fun _ before => Nat.find_min some_covers before⟩⟩

theorem nodup_shadowed (table : RuleTable) : (table.shadowed.map (·.later)).Nodup := by
  have places : table.zipIdx.Pairwise fun a b => a.2 ≠ b.2 :=
    List.pairwise_map.mp (by simp [List.zipIdx_map_snd, List.nodup_range'] :
      (table.zipIdx.map (·.2)).Nodup)
  rw [List.Nodup, List.pairwise_map, shadowed, List.pairwise_filterMap]
  refine places.imp ?_
  intro a b different shadow found shadow' found' same
  rw [(shadowOn_eq_some_iff.mp found).1, (shadowOn_eq_some_iff.mp found').1] at same
  exact different same

/-- On a text on which none of the rules before it fires, a rule that fires is the first to
hit. -/
theorem head?_trace {table : RuleTable} {j : Nat} {rule : Rule} {text : String}
    (listed : table[j]? = some rule) (fires : rule.Fires text)
    (before : ∀ prior ∈ table.take j, ¬ prior.Fires text) :
    (table.trace text).2.head? = some ⟨j, rule.pattern, rule.occurrences text⟩ := by
  have quiet : trace (table.take j) text = (text, []) :=
    traceFrom_of_absent (fun prior inFront active occurs => before prior inFront ⟨active, occurs⟩) 0
  rw [trace_split listed, quiet, traceFrom_fires fires]
  rfl

/-- A pattern that is not brought back is gone from what the rules behind its own one find. -/
theorem absent_trace_take {table : RuleTable} {i j : Nat} {general : Rule} (before : i < j)
    (there : table[i]? = some general) (active : general.isInert = false)
    (gone : ∀ k, i ≤ k → k < j → ∀ rule, table[k]? = some rule → rule.isInert = false →
      ¬ Text.Clashes general.pattern.toList rule.replacement.toList) (text : String) :
    ¬ general.pattern.toList <:+: (trace (table.take j) text).1.toList := by
  have inFront : (table.take j)[i]? = some general := by
    rw [List.getElem?_take_of_lt before, there]
  rw [trace_split inFront, traceFrom_active active]
  apply traceFrom_keeps_absent
  · intro rule between active'
    obtain ⟨n, at_n⟩ := List.mem_iff_getElem?.mp between
    rw [List.getElem?_drop] at at_n
    obtain ⟨bound, -⟩ := List.getElem?_eq_some_iff.mp at_n
    have beforeJ : i + 1 + n < j := by
      rw [List.length_take] at bound
      omega
    rw [List.getElem?_take_of_lt beforeJ] at at_n
    exact gone _ (by omega) beforeJ rule at_n active'
  · rw [Rule.replaceIn, String.toList_ofList]
    exact Text.replace_absent (Rule.pattern_ne_nil active)
      (gone i (Nat.le_refl i) before general there active)

/-- Exactly the rules in a shadow are listed, each once and with the first rule that casts one
on it. A rule that is not listed hits its own pattern, first and once. A rule that is listed
never hits if no replacement from the general rule up to it clashes with the general pattern. -/
theorem shadowed_exact (table : RuleTable) :
    (table.shadowed.map (·.later)).Nodup ∧
      (∀ i j, ⟨i, j⟩ ∈ table.shadowed ↔ table.Covers i j ∧ ∀ k < i, ¬ table.Covers k j) ∧
      (∀ j rule, table[j]? = some rule → rule.isInert = false →
        (∀ i, ⟨i, j⟩ ∉ table.shadowed) →
        (table.trace rule.pattern).2.head? = some ⟨j, rule.pattern, 1⟩) ∧
      ∀ i j, ⟨i, j⟩ ∈ table.shadowed →
        (∀ general, table[i]? = some general → ∀ k, i ≤ k → k < j →
          ∀ rule, table[k]? = some rule → rule.isInert = false →
            ¬ Text.Clashes general.pattern.toList rule.replacement.toList) →
        ∀ text, ∀ hit ∈ (table.trace text).2, hit.index ≠ j := by
  refine ⟨table.nodup_shadowed, fun i j => mem_shadowed_iff_covers, ?_, ?_⟩
  · intro j rule listed active unlisted
    have before : ∀ prior ∈ table.take j, ¬ prior.Fires rule.pattern := by
      rintro prior inFront ⟨prior_active, part⟩
      obtain ⟨i, at_i⟩ := List.mem_iff_getElem?.mp inFront
      have casts : (!prior.isInert && rule.refines prior) = true := by
        simp [prior_active, Rule.refines_iff.mpr part]
      have covers : table.Covers i j := (covers_iff listed active).mpr ⟨prior, at_i, casts⟩
      obtain ⟨earliest, shadow⟩ := exists_shadow_of_covers covers
      exact unlisted earliest shadow
    rw [head?_trace listed ⟨active, List.infix_rfl⟩ before, Rule.occurrences,
      Text.count_self (Rule.pattern_ne_nil active)]
  · rintro i j shadow gone text hit h rfl
    obtain ⟨⟨before, general, rule, there, listed, active, -, part⟩, -⟩ :=
      mem_shadowed_iff_covers.mp shadow
    have absent := absent_trace_take before there active (gone general there) text
    obtain ⟨-, occurs⟩ := fires_of_hit h listed
    exact absent (part.trans occurs)

/-- The second rule renames a package, and the third one finds nothing of it any more. -/
def modelRules : RuleTable :=
  [⟨"ui.", "view."⟩, ⟨"old.", "new."⟩, ⟨"old.Stop", "Halt"⟩]

theorem shadowed_exact_modelRules :
    ⟨1, 2⟩ ∈ modelRules.shadowed ∧
      (∀ text, ∀ hit ∈ (modelRules.trace text).2, hit.index ≠ 2) ∧
      (modelRules.trace "ui.").2.head? = some ⟨0, "ui.", 1⟩ := by
  obtain ⟨-, -, canHit, neverHits⟩ := shadowed_exact modelRules
  have shadow : ⟨1, 2⟩ ∈ modelRules.shadowed := by decide +kernel
  have unlisted : ∀ i, ⟨i, 0⟩ ∉ modelRules.shadowed := by
    have none : ∀ found ∈ modelRules.shadowed, found.later ≠ 0 := by decide +kernel
    exact fun i h => none _ h rfl
  refine ⟨shadow, neverHits 1 2 shadow ?_, canHit 0 ⟨"ui.", "view."⟩ rfl (by decide) unlisted⟩
  intro general there k from_one before rule at_k _
  obtain rfl : k = 1 := by omega
  cases there
  cases at_k
  decide +kernel

end RuleTable
end Repackage
