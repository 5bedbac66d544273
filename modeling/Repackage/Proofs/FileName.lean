import Repackage.Path
import Repackage.Proofs.Utf8
import Repackage.Tree.FileName

/-!
Names as bytes. Names that are texts are told apart as texts are, and the path that they make
shows the texts with slashes between them.
-/

namespace Repackage
namespace FileName

@[simp]
theorem ofText_inj {text other : String} : ofText text = ofText other ↔ text = other := by
  simp [ofText, Text.bytes_injective.eq_iff]

@[simp]
theorem map_ofText_inj {location other : List String} :
    location.map ofText = other.map ofText ↔ location = other :=
  List.map_inj_right fun _ _ same => ofText_inj.mp same

theorem lt_irrefl (name : FileName) : ¬ name < name :=
  List.lt_irrefl name.bytes

theorem lt_asymm {name other : FileName} (less : name < other) : ¬ other < name :=
  List.lt_asymm (α := UInt8) less

theorem not_cons_lt_of_lt {name other : FileName} (less : name < other)
    (rest more : List FileName) : ¬ other :: more < name :: rest := by
  rw [List.cons_lt_cons_iff]
  rintro (greater | ⟨rfl, -⟩)
  · exact lt_asymm less greater
  · exact lt_irrefl _ less

theorem cons_lt_cons_iff {name : FileName} {rest more : List FileName} :
    name :: rest < name :: more ↔ rest < more := by
  rw [List.cons_lt_cons_iff, or_iff_right (lt_irrefl name), and_iff_right rfl]

/-- Lists of names compare as the lists of their bytes do. -/
theorem map_bytes_lt {names others : List FileName} (less : names < others) :
    names.map bytes < others.map bytes := by
  induction less with
  | nil => exact List.Lex.nil
  | rel less => exact List.Lex.rel less
  | cons _ ih => exact List.Lex.cons ih

theorem join_cons {rest : List FileName} (more : rest ≠ []) (name : FileName) :
    join (name :: rest) = name.bytes ++ slash :: join rest := by
  cases rest with
  | nil => exact absurd rfl more
  | cons next rest => rfl

theorem join_map_ofText (location : List String) :
    join (location.map ofText) = Text.bytes (Path.ofComponents location) := by
  induction location with
  | nil => rfl
  | cons name rest ih =>
      cases rest with
      | nil => simp [join, ofText, Path.ofComponents]
      | cons next rest =>
          have more : next :: rest ≠ [] := List.cons_ne_nil next rest
          rw [List.map_cons, join_cons (by simp), ih, Path.ofComponents, Path.ofComponents,
            String.intercalate_cons_of_ne_nil more, Text.bytes_append, Text.bytes_append,
            List.append_assoc]
          rfl

/-- Names that are texts show them. -/
theorem lossy_join_map_ofText (location : List String) :
    Text.lossy (join (location.map ofText)) = Path.ofComponents location := by
  rw [join_map_ofText, Text.lossy_bytes]

end FileName
end Repackage
