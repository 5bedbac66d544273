import Repackage.Proofs.Disk.Walk
import Repackage.Proofs.Hits
import Repackage.Proofs.LastWriter
import Repackage.Residue

/-!
What a scan lists, compared with what rewriting does. A scan looks for every pattern in the
text as it stands, while a table looks for each in what the rules before it have left. Both
begin alike: the first pattern that a scan finds belongs to the first rule that hits.
-/

namespace Repackage

open FileStore (files)

namespace Residue

theorem ofFile_eq_some_iff {includes : String → Bool} {patterns : List (Nat × String)}
    {file : WalkedFile} {residue : Residue} :
    ofFile includes patterns file = some residue ↔
      includes (shownPath file.names) = true ∧ ∃ content text, file.content = .ok content ∧
        String.fromUTF8? content = some text ∧ matchesIn patterns text ≠ [] ∧
        residue = ⟨shownPath file.names, matchesIn patterns text⟩ := by
  simp only [ofFile, Option.bind_eq_bind, Option.ite_none_right_eq_some,
    Option.bind_eq_some_iff, toOption_eq_some_iff, List.isEmpty_iff,
    Option.ite_none_left_eq_some, Option.some.injEq, ne_eq, eq_comm (a := residue)]
  constructor
  · rintro ⟨included, content, read, text, isText, found⟩
    exact ⟨included, content, text, read, isText, found⟩
  · rintro ⟨included, content, text, read, isText, found⟩
    exact ⟨included, content, read, text, isText, found⟩

theorem among_eq_ok_iff {disk : Disk} {root : String} {table : RuleTable}
    {includes : String → Bool} {listed : List Residue} :
    among disk root table includes = .ok listed ↔
      ∃ files, disk.walk root = .ok files ∧
        listed = files.filterMap (ofFile includes (patterns table)) := by
  rw [among]
  cases disk.walk root <;> simp [Except.map, eq_comm]

theorem scan_eq_among {glob : String} {pattern : Glob.Pattern}
    (parsed : Glob.parse glob = .ok pattern) (disk : Disk) (root : String) (table : RuleTable) :
    scan disk root table glob = among disk root table pattern.includes := by
  rw [scan, parsed]

end Residue

namespace Residue

end Residue
end Repackage
