import Repackage.Proofs.RuleTable
import Repackage.Rewrite

/-!
Settled texts. What a table without clashes has rewritten is settled: no pattern of the table
is left in it, and neither the table nor an entry with these rules does anything to it again.
Nothing is claimed of other tables: after one whose replacement brings back an earlier pattern
a second pass goes on.
-/

namespace Repackage

theorem Entry.rewrite_rewrite {entry : Entry} {shared : RuleTable}
    (free : (entry.rules shared).ClashFree) (content : String) :
    entry.rewrite shared (entry.rewrite shared content).after
      = ⟨(entry.rewrite shared content).after, (entry.rewrite shared content).after, []⟩ := by
  simp only [rewrite, RuleTable.trace_trace free]

namespace RuleTable

/-- A table without clashes leaves none of its patterns, and finds nothing in what it has left.
Nor does an entry whose rules are the table: the second rewriting hits nowhere and changes
nothing. -/
theorem settles {table : RuleTable} (free : table.ClashFree) (text : String) :
    (∀ rule ∈ table, rule.isInert = false →
        ¬ rule.pattern.toList <:+: (table.trace text).1.toList) ∧
      table.trace (table.trace text).1 = ((table.trace text).1, []) ∧
      ∀ (entry : Entry) (shared : RuleTable), entry.rules shared = table →
        let once := entry.rewrite shared text
        let again := entry.rewrite shared once.after
        again.changed = false ∧ again.hits = [] ∧ again.after = once.after := by
  refine ⟨absent_traceFrom free 0 text, trace_trace free text, ?_⟩
  rintro entry shared rfl once again
  have settled : again = ⟨once.after, once.after, []⟩ := Entry.rewrite_rewrite free text
  rw [settled]
  exact ⟨by simp [Rewritten.changed], rfl, rfl⟩

/-- The imports of two packages that move. -/
def movedImports : RuleTable :=
  [⟨"import a.ui.", "import a.view."⟩, ⟨"import a.data.model.", "import a.model."⟩]

def uiToView : Entry := ⟨"ui/A", "view/A", some ⟨"a.ui", "a.view"⟩⟩

theorem settles_movedImports :
    (uiToView.rules movedImports).ClashFree ∧
      let once := uiToView.rewrite movedImports "package a.ui;\nimport a.ui.B;\n"
      once.hits.map (·.index) = [0, 1] ∧ once.after = "package a.view;\nimport a.view.B;\n" ∧
        (uiToView.rewrite movedImports once.after).hits = [] := by
  have free : (uiToView.rules movedImports).ClashFree := by decide +kernel
  obtain ⟨-, -, settled⟩ := settles free "package a.ui;\nimport a.ui.B;\n"
  obtain ⟨-, quiet, -⟩ := settled uiToView movedImports rfl
  exact ⟨free, by decide +kernel, by decide +kernel, quiet⟩

end RuleTable
end Repackage
