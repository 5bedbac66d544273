import Repackage.Path

/-!
Normal paths: names with `/` between them. `Path.normalize` returns normal paths only. A
normal path is determined by its names. It need not normalize to itself: `C:/a` is normal and
names a drive.
-/

namespace Repackage

theorem Text.trim_sublist (s : List Char) : (Text.trim s).Sublist s := by
  have front : (s.dropWhile Text.isBlank).Sublist s := (List.dropWhile_suffix _).sublist
  have back : (Text.trim s).reverse.Sublist (s.dropWhile Text.isBlank).reverse := by
    rw [Text.trim, List.reverse_reverse]
    exact (List.dropWhile_suffix _).sublist
  exact (List.reverse_sublist.mp back).trans front

namespace Path

/-- What may stand between the slashes of a normal path. -/
def IsName (name : String) : Prop :=
  name ≠ "" ∧ name ≠ "." ∧ name ≠ ".." ∧ '\\' ∉ name.toList

def IsNormal (path : String) : Prop :=
  ∀ name ∈ pieces path, IsName name

instance (name : String) : Decidable (IsName name) :=
  inferInstanceAs (Decidable (_ ∧ _ ∧ _ ∧ _))

instance (path : String) : Decidable (IsNormal path) :=
  inferInstanceAs (Decidable (∀ name ∈ pieces path, IsName name))

/-- A piece of a text has its characters from the text, and never the separator. -/
private theorem mem_of_mem_splitOn {sep c : Char} {piece text : List Char}
    (h : piece ∈ text.splitOn sep) (hc : c ∈ piece) : c ∈ text ∧ c ≠ sep := by
  induction text generalizing piece with
  | nil => simp_all
  | cons d text ih =>
      rw [List.splitOn_cons_eq_if_modifyHead] at h
      split at h
      · rcases List.mem_cons.mp h with rfl | h
        · exact absurd hc List.not_mem_nil
        · exact ⟨List.mem_cons_of_mem _ (ih h hc).1, (ih h hc).2⟩
      · rename_i hd
        cases hs : text.splitOn sep with
        | nil => exact absurd hs (List.splitOn_ne_nil sep text)
        | cons first rest =>
            rw [hs, List.modifyHead_cons] at h
            rcases List.mem_cons.mp h with rfl | h
            · rcases List.mem_cons.mp hc with rfl | hc
              · exact ⟨List.mem_cons_self, by simpa using hd⟩
              · have within := ih (by simp [hs]) hc
                exact ⟨List.mem_cons_of_mem _ within.1, within.2⟩
            · have within := ih (by simp [hs, h]) hc
              exact ⟨List.mem_cons_of_mem _ within.1, within.2⟩

theorem pieces_ne_nil (path : String) : pieces path ≠ [] := by
  simp [pieces]

theorem mem_of_mem_pieces {c : Char} {name path : String} (h : name ∈ pieces path)
    (hc : c ∈ name.toList) : c ∈ path.toList ∧ c ≠ '/' := by
  obtain ⟨piece, hp, rfl⟩ := List.mem_map.mp h
  exact mem_of_mem_splitOn hp (by simpa using hc)

theorem ofComponents_pieces (path : String) : ofComponents (pieces path) = path := by
  apply String.toList_injective
  simp only [ofComponents, pieces, String.toList_intercalate, List.map_map,
    String.toList_comp_ofList, List.map_id]
  exact List.intercalate_splitOn '/'

theorem pieces_ofComponents {names : List String} (hne : names ≠ [])
    (h : ∀ name ∈ names, '/' ∉ name.toList) : pieces (ofComponents names) = names := by
  have split : ((ofComponents names).toList.splitOn '/') = names.map String.toList := by
    simp only [ofComponents, String.toList_intercalate]
    apply List.splitOn_intercalate
    · simpa using h
    · simpa using hne
  simp [pieces, split, List.map_map]

theorem pieces_injective {p q : String} (h : pieces p = pieces q) : p = q := by
  rw [← ofComponents_pieces p, h, ofComponents_pieces q]

theorem components_of_isNormal {path : String} (h : IsNormal path) :
    components path = pieces path :=
  List.filter_eq_self.mpr fun name hn => by simpa using (h name hn).1

theorem components_injective {p q : String} (hp : IsNormal p) (hq : IsNormal q)
    (h : components p = components q) : p = q := by
  rw [components_of_isNormal hp, components_of_isNormal hq] at h
  exact pieces_injective h

theorem isNormal_ofComponents {names : List String} (hne : names ≠ [])
    (h : ∀ name ∈ names, IsName name ∧ '/' ∉ name.toList) :
    IsNormal (ofComponents names) := by
  intro name hn
  rw [pieces_ofComponents hne fun n hm => (h n hm).2] at hn
  exact (h name hn).1

theorem isNormal_parent {path : String} (h : IsNormal path) (nested : parent path ≠ "") :
    IsNormal (parent path) := by
  apply isNormal_ofComponents
  · intro none
    exact nested (by simp [parent, none])
  · intro name hn
    have inPath := List.dropLast_subset _ hn
    exact ⟨h name inPath, fun hs => (mem_of_mem_pieces inPath hs).2 rfl⟩

private theorem backslash_not_mem_unify (raw : String) : '\\' ∉ unify raw := by
  intro h
  obtain ⟨c, -, hc⟩ := List.mem_map.mp h
  split at hc <;> simp_all

/-- The names that normalizing keeps. -/
def keptNames (raw : String) : List String :=
  (components (String.ofList (unify raw))).filter (· ≠ ".")

theorem normalize_eq (raw : String) : normalize raw =
    if (unify raw).head? = some '/' then .error .absolute
    else if startsWithDrive (unify raw) then .error .driveQualified
    else if ".." ∈ keptNames raw then .error .escapes
    else if (keptNames raw).isEmpty then .error .empty
    else .ok (ofComponents (keptNames raw)) :=
  rfl

theorem normalize_eq_ok_iff {raw path : String} :
    normalize raw = .ok path ↔ (unify raw).head? ≠ some '/' ∧
      startsWithDrive (unify raw) = false ∧ ".." ∉ keptNames raw ∧ keptNames raw ≠ [] ∧
      ofComponents (keptNames raw) = path := by
  rw [normalize_eq]
  split
  · rename_i slash
    simp [slash]
  · split
    · rename_i drive
      simp [drive]
    · split
      · rename_i step
        simp [step]
      · split
        · rename_i empty
          simp [List.isEmpty_iff.mp empty]
        · simp_all

theorem isNormal_of_normalize {raw path : String} (h : normalize raw = .ok path) :
    IsNormal path := by
  obtain ⟨-, -, noStep, nonempty, rfl⟩ := normalize_eq_ok_iff.mp h
  apply isNormal_ofComponents nonempty
  intro name hn
  have inNames := List.mem_filter.mp (List.mem_filter.mp hn).1
  refine ⟨⟨by simpa using inNames.2, by simpa using (List.mem_filter.mp hn).2, ?_, ?_⟩, ?_⟩
  · rintro rfl
    exact noStep hn
  · intro hb
    have := (mem_of_mem_pieces inNames.1 hb).1
    exact backslash_not_mem_unify raw (by simpa using this)
  · intro hs
    exact (mem_of_mem_pieces inNames.1 hs).2 rfl

private theorem mem_intercalate {sep c : Char} {parts : List (List Char)}
    (h : c ∈ [sep].intercalate parts) : c = sep ∨ ∃ part ∈ parts, c ∈ part := by
  induction parts with
  | nil => exact absurd h List.not_mem_nil
  | cons part parts ih =>
      cases parts with
      | nil => exact .inr ⟨part, by simp, by simpa using h⟩
      | cons next rest =>
          rw [List.intercalate_cons_cons] at h
          simp only [List.mem_append, List.mem_singleton] at h
          rcases h with (h | h) | h
          · exact .inr ⟨part, by simp, h⟩
          · exact .inl h
          · exact (ih h).imp_right fun ⟨p, hp, hc⟩ => ⟨p, List.mem_cons_of_mem _ hp, hc⟩

theorem backslash_not_mem_of_isNormal {path : String} (h : IsNormal path) :
    '\\' ∉ path.toList := by
  intro hb
  rw [← ofComponents_pieces path, ofComponents, String.toList_intercalate] at hb
  rcases mem_intercalate hb with hb | ⟨part, hp, hb⟩
  · exact absurd hb (by decide)
  · obtain ⟨name, hn, rfl⟩ := List.mem_map.mp hp
    exact (h name hn).2.2.2 hb

theorem unify_of_noBackslash {raw : String} (plain : '\\' ∉ raw.toList) :
    unify raw = Text.trim raw.toList := by
  refine (List.map_congr_left (g := id) fun c hc => ?_).trans (List.map_id _)
  have inRaw : c ∈ raw.toList := (Text.trim_sublist raw.toList).subset hc
  rw [if_neg (by rintro rfl; exact plain inRaw)]
  rfl

end Path
end Repackage
