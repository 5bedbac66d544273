import Repackage.Proofs.Hits
import Repackage.Rewrite

/-!
Tables one behind the other. Joined, they do what they do one after the other, and the hits of
the second one bear the places that its rules have in the joined table. An inert rule takes up
a place, too. The rules of an entry are such a joined table: the declaration of its package, if
it moves one, and then the shared rules of its phase.
-/

namespace Repackage

/-- The hit of a rule that stands `offset` places further back. -/
def Hit.behind (offset : Nat) (hit : Hit) : Hit :=
  { hit with index := hit.index + offset }

namespace RuleTable

theorem traceFrom_behind (index offset : Nat) (text : String) (table : RuleTable) :
    traceFrom (index + offset) text table
      = ((traceFrom index text table).1,
        (traceFrom index text table).2.map (Hit.behind offset)) := by
  induction table generalizing index text with
  | nil => rfl
  | cons rule rest ih =>
      have next : index + offset + 1 = index + 1 + offset := Nat.add_right_comm index offset 1
      by_cases fires : rule.Fires text
      · rw [traceFrom_fires fires, traceFrom_fires fires, next, ih]
        rfl
      · rw [traceFrom_idle fires, traceFrom_idle fires, next, ih]

theorem trace_cons_of_fires {rule : Rule} {text : String} (fires : rule.Fires text)
    (rest : RuleTable) :
    trace (rule :: rest) text
      = ((rest.trace (rule.replaceIn text)).1,
        ⟨0, rule.pattern, rule.occurrences text⟩
          :: (rest.trace (rule.replaceIn text)).2.map (Hit.behind 1)) := by
  rw [trace, traceFrom_fires fires, traceFrom_behind]
  rfl

theorem trace_cons_of_idle {rule : Rule} {text : String} (idle : ¬ rule.Fires text)
    (rest : RuleTable) :
    trace (rule :: rest) text
      = ((rest.trace text).1, (rest.trace text).2.map (Hit.behind 1)) := by
  rw [trace, traceFrom_idle idle, traceFrom_behind]
  rfl

theorem trace_append (first second : RuleTable) (text : String) :
    trace (first ++ second) text
      = ((second.trace (first.trace text).1).1,
        (first.trace text).2
          ++ (second.trace (first.trace text).1).2.map (Hit.behind first.length)) := by
  rw [trace, traceFrom_append, traceFrom_behind]
  rfl

end RuleTable

namespace Entry

variable {entry : Entry} {shared : RuleTable} {content : String}

theorem rules_of_moved {move : PackageMove} (moved : entry.package = some move)
    (shared : RuleTable) : entry.rules shared = [move.declarationRule] ++ shared := by
  simp [rules, moved]

theorem rules_of_unmoved (unmoved : entry.package = none) (shared : RuleTable) :
    entry.rules shared = shared := by
  simp [rules, unmoved]

theorem rewrite_of_trace {after : String} {hits : List Hit}
    (traced : (entry.rules shared).trace content = (after, hits)) :
    entry.rewrite shared content = ⟨content, after, hits⟩ := by
  simp only [rewrite, traced]

end Entry

namespace RuleTable

/-- A table made of two does what the two do one after the other, and hits where they do, the
second one behind all places of the first. So a relocation hits first with its declaration, at
the place zero, and then one place behind where the shared table alone would hit, while a fixup
hits exactly where the shared table does. -/
theorem composed (first second : RuleTable) (text : String) :
    trace (first ++ second) text
        = ((second.trace (first.trace text).1).1,
          (first.trace text).2
            ++ (second.trace (first.trace text).1).2.map (Hit.behind first.length)) ∧
      ∀ (entry : Entry) (shared : RuleTable) (content : String),
        (∀ move, entry.package = some move →
          let declared := trace [move.declarationRule] content
          entry.rewrite shared content
              = ⟨content, (shared.trace declared.1).1,
                declared.2 ++ (shared.trace declared.1).2.map (Hit.behind 1)⟩ ∧
            ∀ hit ∈ declared.2, hit.index = 0) ∧
        (entry.package = none → entry.rewrite shared content
          = ⟨content, (shared.trace content).1, (shared.trace content).2⟩) := by
  refine ⟨trace_append first second text, fun entry shared content => ⟨?_, ?_⟩⟩
  · intro move moved declared
    constructor
    · apply Entry.rewrite_of_trace
      rw [Entry.rules_of_moved moved, trace_append]
      rfl
    · intro hit h
      have bounds := index_of_mem_traceFrom h
      rw [List.length_singleton] at bounds
      omega
  · intro unmoved
    apply Entry.rewrite_of_trace
    rw [Entry.rules_of_unmoved unmoved]

/-- The first rule is inert, and the last one takes up what the one before it has written. -/
def renames : RuleTable := [⟨"ui.", "ui."⟩, ⟨"ui.B", "view.B"⟩, ⟨"view.", "v."⟩]

def moved : Entry := ⟨"ui/A", "view/A", some ⟨"ui", "view"⟩⟩
def repaired : Entry := ⟨"view/A", "view/A", none⟩

theorem composed_renames :
    let content := "package ui;\nimport ui.B;"
    (moved.rewrite renames content).hits.map (·.index) = [0, 2, 3] ∧
      (repaired.rewrite renames content).hits.map (·.index) = [1, 2] ∧
      (trace ([⟨"x", "x"⟩] ++ renames) content).2.map (·.index) = [2, 3] := by
  intro content
  obtain ⟨joined, ofEntry⟩ := composed [⟨"x", "x"⟩] renames content
  obtain ⟨relocated, -⟩ := ofEntry moved renames content
  obtain ⟨-, fixed⟩ := ofEntry repaired renames content
  rw [joined, (relocated _ rfl).1, fixed rfl]
  decide +kernel

end RuleTable
end Repackage
