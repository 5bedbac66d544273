import Mathlib.Algebra.Ring.Int.Defs
import Repackage.Proofs.Composition
import Repackage.Proofs.HitTrace

/-!
How long a rewritten text is. Each occurrence that a hit counts gives up the length of a pattern
for that of a replacement, whatever the rules before it have made of the text, and nothing else
changes the length. The hits therefore account for the length of the result, both in characters
and in bytes.
-/

namespace Repackage

/-- What the hit adds to the size of a text, by the rule of the table that it names. -/
def Hit.growth (size : String → Nat) (table : RuleTable) (hit : Hit) : Int :=
  match table[hit.index]? with
  | some rule => hit.occurrences * ((size rule.replacement : Int) - size rule.pattern)
  | none => 0

theorem Hit.growth_behind (size : String → Nat) (front table : RuleTable) (hit : Hit) :
    (hit.behind front.length).growth size (front ++ table) = hit.growth size table := by
  have place : (front ++ table)[hit.index + front.length]? = table[hit.index]? := by
    rw [List.getElem?_append_right (Nat.le_add_left _ _), Nat.add_sub_cancel]
  simp only [growth, behind, place]

namespace RuleTable

section Size

variable (size : String → Nat) (adds : ∀ s t, size (s ++ t) = size s + size t)

include adds

theorem size_replaceIn {rule : Rule} (active : rule.isInert = false) (text : String) :
    size (rule.replaceIn text) + rule.occurrences text * size rule.pattern
      = size text + rule.occurrences text * size rule.replacement := by
  have balance := Text.size_replace (fun s => size (String.ofList s))
    (fun s t => by rw [String.ofList_append, adds]) (Rule.pattern_ne_nil active)
    rule.replacement.toList text.toList
  rwa [String.ofList_toList, String.ofList_toList, String.ofList_toList] at balance

theorem size_trace (table : RuleTable) (text : String) :
    (size (table.trace text).1 : Int)
      = size text + ((table.trace text).2.map (Hit.growth size table)).sum := by
  -- a count refers to the text that the rules before have left, hence any text
  induction table generalizing text with
  | nil => simp [trace, traceFrom]
  | cons rule rest ih =>
      have later (hits : List Hit) :
          (hits.map (Hit.behind 1)).map (Hit.growth size (rule :: rest))
            = hits.map (Hit.growth size rest) := by
        rw [List.map_map]
        exact List.map_congr_left fun hit _ => hit.growth_behind size [rule] rest
      by_cases fires : rule.Fires text
      · have step := size_replaceIn size adds fires.1 text
        have first : Hit.growth size (rule :: rest) ⟨0, rule.pattern, rule.occurrences text⟩
            = rule.occurrences text * ((size rule.replacement : Int) - size rule.pattern) := rfl
        rw [trace_cons_of_fires fires, List.map_cons, List.sum_cons, later, ih, first,
          Int.mul_sub]
        omega
      · rw [trace_cons_of_idle fires, later, ih]

end Size

/-- Every hit names a rule of the table and has its pattern. The length of the result is that of
the text plus, for each hit and as often as it counts, the length of the replacement of its rule
less that of the pattern. This holds of the number of characters as of that of bytes. -/
theorem length_trace (table : RuleTable) (text : String) :
    let result := (table.trace text).1
    let hits := (table.trace text).2
    (∀ hit ∈ hits, ∃ rule, table[hit.index]? = some rule ∧ hit.pattern = rule.pattern) ∧
      (result.length : Int) = text.length + (hits.map (Hit.growth String.length table)).sum ∧
      (result.utf8ByteSize : Int)
        = text.utf8ByteSize + (hits.map (Hit.growth String.utf8ByteSize table)).sum := by
  intro result hits
  refine ⟨fun hit h => ?_, ?_, ?_⟩
  · obtain ⟨rule, listed⟩ := listed_of_hit h
    exact ⟨rule, listed, congrArg Hit.pattern (hit_eq h listed)⟩
  · exact size_trace String.length String.length_append table text
  · exact size_trace String.utf8ByteSize (fun _ _ => String.utf8ByteSize_append) table text

/-- The second rule takes up what the first one writes, which is one character of two bytes. -/
def resizing : RuleTable := [⟨"aa", "é"⟩, ⟨"é", "xyz"⟩, ⟨"b", "b"⟩, ⟨"q", ""⟩]

theorem length_trace_resizing :
    let hits := (resizing.trace "aaaqé").2
    hits.map (Hit.growth String.length resizing) = [-1, 4, -1] ∧
      hits.map (Hit.growth String.utf8ByteSize resizing) = [0, 2, -1] ∧
      ((resizing.trace "aaaqé").1.length : Int) = 5 + 2 ∧
      ((resizing.trace "aaaqé").1.utf8ByteSize : Int) = 6 + 1 ∧
      ∃ rule, resizing[3]? = some rule ∧ rule.pattern = "q" := by
  intro hits
  obtain ⟨named, inCharacters, inBytes⟩ := length_trace resizing "aaaqé"
  have last : ⟨3, "q", 1⟩ ∈ hits := by decide +kernel
  obtain ⟨rule, listed, pattern⟩ := named _ last
  have characters : hits.map (Hit.growth String.length resizing) = [-1, 4, -1] := by
    decide +kernel
  have bytes : hits.map (Hit.growth String.utf8ByteSize resizing) = [0, 2, -1] := by
    decide +kernel
  rw [characters] at inCharacters
  rw [bytes] at inBytes
  exact ⟨characters, bytes, inCharacters, inBytes, rule, listed, pattern.symm⟩

end RuleTable
end Repackage
