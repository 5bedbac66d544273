import Repackage.Proofs.Composition
import Repackage.Proofs.HitTrace

/-!
The declaration of a moved package. A relocation first redeclares the package, and then the
shared rules run over the whole text. Rules whose patterns do not clash with the new
declaration rewrite what stands between the declarations and nothing else, so none of them is
lost. The count of declarations can still grow, since a rule may write one.
-/

namespace Repackage

theorem Rule.replaceIn_intercalate {rule : Rule} {kept : String}
    (free : ¬ Text.Clashes rule.pattern.toList kept.toList) (pieces : List String) :
    rule.replaceIn (kept.intercalate pieces) = kept.intercalate (pieces.map rule.replaceIn) := by
  have each : String.toList ∘ rule.replaceIn
      = Text.replace rule.pattern.toList rule.replacement.toList ∘ String.toList :=
    funext fun _ => String.toList_ofList
  rw [← String.toList_inj, replaceIn, String.toList_ofList]
  simp only [String.toList_intercalate, Text.replace_intercalate free, List.map_map, each]

namespace RuleTable

/-- Around a text that no pattern of the table clashes with, the pieces are rewritten each on
its own. -/
theorem apply_intercalate {table : RuleTable} {kept : String}
    (free : ∀ rule ∈ table, rule.isInert = false →
      ¬ Text.Clashes rule.pattern.toList kept.toList) (pieces : List String) :
    table.apply (kept.intercalate pieces) = kept.intercalate (pieces.map table.apply) := by
  induction table generalizing pieces with
  | nil =>
      have idle : apply [] = id := rfl
      rw [idle, List.map_id, id]
  | cons rule rest ih =>
      obtain ⟨first, others⟩ := List.forall_mem_cons.mp free
      cases active : rule.isInert with
      | true =>
          have skipped : apply (rule :: rest) = apply rest :=
            funext fun text => apply_inert active text rest
          rw [skipped, ih others]
      | false =>
          have applied : apply (rule :: rest) = apply rest ∘ rule.replaceIn :=
            funext fun text => apply_active active text rest
          rw [applied, Function.comp, Rule.replaceIn_intercalate (first active), ih others,
            List.map_map]

/-- A rule with a pattern cuts a text at its occurrences and joins the pieces by its
replacement, also when it is inert. -/
theorem exists_pieces {rule : Rule} (nonempty : rule.pattern.toList ≠ []) (text : String) :
    ∃ pieces : List String, pieces.length = rule.occurrences text + 1 ∧
      apply [rule] text = rule.replacement.intercalate pieces := by
  obtain ⟨pieces, cuts⟩ := Text.exists_cuts nonempty text.toList
  refine ⟨pieces.map String.ofList, ?_, ?_⟩
  · rw [List.length_map, ← cuts.count_eq nonempty]
    rfl
  · have joined (separator : String) :
        (separator.intercalate (pieces.map String.ofList)).toList
          = separator.toList.intercalate pieces := by
      simp [String.toList_intercalate, Function.comp_def]
    rw [← String.toList_inj, joined]
    cases active : rule.isInert with
    | true =>
        have same : rule.pattern = rule.replacement := by
          simpa [Rule.isInert, Rule.isIdentity, String.toList_eq_nil_iff.not.mp nonempty]
            using active
        rw [apply_inert active, ← same, cuts.intercalate_eq]
        rfl
    | false =>
        rw [apply_active active, ← cuts.replace_eq nonempty]
        exact String.toList_ofList

end RuleTable

theorem PackageMove.declaration_ne_nil (move : PackageMove) :
    move.declarationRule.pattern.toList ≠ [] ∧ move.declarationRule.replacement.toList ≠ [] := by
  simp [declarationRule, Rule.declaration]

namespace Entry

theorem after_rewrite (entry : Entry) (shared : RuleTable) (content : String) :
    (entry.rewrite shared content).after = (entry.rules shared).apply content :=
  RuleTable.trace_text _ _

/-- No declaration of the old package is lost: the text that a relocation writes has at least
as many declarations of the new package as the text it reads has of the old one. -/
theorem declarations_survive {entry : Entry} {move : PackageMove}
    (moved : entry.package = some move) {shared : RuleTable}
    (free : ∀ rule ∈ shared, rule.isInert = false →
      ¬ Text.Clashes rule.pattern.toList move.declarationRule.replacement.toList)
    (content : String) :
    Text.count move.declarationRule.pattern.toList content.toList
      ≤ Text.count move.declarationRule.replacement.toList
          (entry.rewrite shared content).after.toList := by
  obtain ⟨read, written⟩ := move.declaration_ne_nil
  obtain ⟨pieces, cut, redeclared⟩ := RuleTable.exists_pieces read content
  have after : (entry.rewrite shared content).after.toList
      = move.declarationRule.replacement.toList.intercalate
          ((pieces.map shared.apply).map String.toList) := by
    rw [after_rewrite, rules_of_moved moved, RuleTable.apply_append, redeclared,
      RuleTable.apply_intercalate free, String.toList_intercalate]
  obtain ⟨found, cuts⟩ := Text.exists_cuts written (entry.rewrite shared content).after.toList
  have most := cuts.length_le after
  rw [← cuts.count_eq written, List.length_map, List.length_map, cut] at most
  exact Nat.le_of_succ_le_succ most

/-- The first rule brings the two declarations together, and the second one hits next to one. -/
def tightened : RuleTable := [⟨"\n", ""⟩, ⟨"import a.ui.", "import a.view."⟩]

def movedView : Entry := ⟨"ui/A", "view/A", some ⟨"a.ui", "a.view"⟩⟩

theorem declarations_survive_tightened :
    let content := "package a.ui;\npackage a.ui;\nimport a.ui.B;"
    let after := (movedView.rewrite tightened content).after
    after = "package a.view;package a.view;import a.view.B;" ∧
      2 ≤ Text.count "package a.view;".toList after.toList := by
  intro content after
  have free : ∀ rule ∈ tightened, rule.isInert = false →
      ¬ Text.Clashes rule.pattern.toList
        (PackageMove.mk "a.ui" "a.view").declarationRule.replacement.toList := by
    decide +kernel
  have old : Text.count "package a.ui;".toList content.toList = 2 := by decide +kernel
  refine ⟨by decide +kernel, ?_⟩
  rw [← old]
  exact @declarations_survive movedView _ rfl _ free content

end Entry
end Repackage
