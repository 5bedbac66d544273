import Mathlib.Data.List.DropRight
import Repackage.Proofs.NormalPath

/-!
Normalizing again. What was checked is the text as it was given, and what is returned has lost
its `.` and empty components, so a returned path may begin with a drive, or begin or end with
blanks. Such a path does not normalize to itself; every other one does. The two ends of a
path can only come to such a state if the components at the ends of the text were dropped.
-/

namespace Repackage

namespace Text

/-- No blank stands at either end of the text. -/
structure Trimmed (s : List Char) : Prop where
  front : ∀ c ∈ s.head?, isBlank c = false
  back : ∀ c ∈ s.getLast?, isBlank c = false

theorem trim_eq_rdropWhile (s : List Char) : trim s = (s.dropWhile isBlank).rdropWhile isBlank :=
  rfl

theorem Trimmed.trim_eq {s : List Char} (h : Trimmed s) : trim s = s := by
  have front : s.dropWhile isBlank = s := by
    cases s with
    | nil => rfl
    | cons c s => rw [List.dropWhile_cons_of_neg (by simp [h.front c rfl])]
  rw [trim_eq_rdropWhile, front, List.rdropWhile_eq_self_iff]
  intro nonempty
  simp [h.back _ (List.getLast?_eq_some_getLast nonempty)]

theorem trimmed_trim (s : List Char) : Trimmed (trim s) := by
  rw [trim_eq_rdropWhile]
  constructor
  · intro c hc
    have kept : c ∈ (s.dropWhile isBlank).head? := by
      obtain ⟨rest, h⟩ := List.rdropWhile_prefix isBlank (l := s.dropWhile isBlank)
      rw [← h, List.head?_append]
      simp [Option.mem_def.mp hc]
    have := List.head?_dropWhile_not isBlank s
    rwa [Option.mem_def.mp kept] at this
  · intro c hc
    obtain ⟨nonempty, rfl⟩ := List.mem_getLast?_eq_getLast hc
    simpa using List.rdropWhile_last_not isBlank (s.dropWhile isBlank) nonempty

end Text

namespace Path

theorem trimmed_unify (raw : String) : Text.Trimmed (unify raw) := by
  have slashed (c : Char) : Text.isBlank (if c = '\\' then '/' else c) = Text.isBlank c := by
    split
    · rename_i backslash
      rw [backslash]
      decide
    · rfl
  obtain ⟨front, back⟩ := Text.trimmed_trim raw.toList
  constructor
  · intro c hc
    rw [unify, List.head?_map] at hc
    obtain ⟨d, hd, rfl⟩ := Option.map_eq_some_iff.mp hc
    rw [slashed, front d hd]
  · intro c hc
    rw [unify, List.getLast?_map] at hc
    obtain ⟨d, hd, rfl⟩ := Option.map_eq_some_iff.mp hc
    rw [slashed, back d hd]

section Ends

theorem toList_ofComponents_cons {rest : List String} (more : rest ≠ []) (name : String) :
    (ofComponents (name :: rest)).toList = name.toList ++ '/' :: (ofComponents rest).toList := by
  rw [ofComponents, String.intercalate_cons_of_ne_nil more, ← ofComponents]
  simp

/-- Behind the first name a path goes on with a slash, or ends. -/
theorem exists_behind (name : String) (rest : List String) : ∃ behind,
    (ofComponents (name :: rest)).toList = name.toList ++ behind ∧
      (behind = [] ∨ ∃ more, behind = '/' :: more) := by
  cases rest with
  | nil => exact ⟨[], by simp [ofComponents], .inl rfl⟩
  | cons next rest =>
      exact ⟨_, toList_ofComponents_cons (List.cons_ne_nil next rest) name, .inr ⟨_, rfl⟩⟩

theorem exists_before (rest : List String) (name : String) : ∃ before,
    (ofComponents (rest ++ [name])).toList = before ++ name.toList := by
  cases rest with
  | nil => exact ⟨[], by simp [ofComponents]⟩
  | cons first rest =>
      refine ⟨(ofComponents (first :: rest)).toList ++ ['/'], ?_⟩
      rw [ofComponents, String.intercalate_append_of_ne_nil (List.cons_ne_nil _ _)
        (List.cons_ne_nil _ _)]
      simp [ofComponents]

theorem head?_ofComponents {name : String} (nonempty : name ≠ "") (rest : List String) :
    (ofComponents (name :: rest)).toList.head? = name.toList.head? := by
  obtain ⟨behind, whole, -⟩ := exists_behind name rest
  rw [whole, List.head?_append_of_ne_nil _ (String.toList_eq_nil_iff.not.mpr nonempty)]

theorem getLast?_ofComponents {name : String} (nonempty : name ≠ "") (rest : List String) :
    (ofComponents (rest ++ [name])).toList.getLast? = name.toList.getLast? := by
  obtain ⟨before, whole⟩ := exists_before rest name
  rw [whole, List.getLast?_append_of_ne_nil _ (String.toList_eq_nil_iff.not.mpr nonempty)]

/-- A drive is named by the first name alone. -/
theorem startsWithDrive_ofComponents {name : String} (nonempty : name ≠ "")
    (rest : List String) :
    startsWithDrive (ofComponents (name :: rest)).toList = startsWithDrive name.toList := by
  obtain ⟨behind, whole, stops⟩ := exists_behind name rest
  rw [whole]
  match chars : name.toList with
  | [] => exact absurd (String.toList_eq_nil_iff.mp chars) nonempty
  | [letter] =>
      rcases stops with rfl | ⟨more, rfl⟩
      · rfl
      · rfl
  | letter :: colon :: others =>
      by_cases drive : colon = ':'
      · subst drive
        rfl
      · simp [startsWithDrive, drive]

end Ends

section Again

theorem toList_ofComponents_sublist {names all : List String} (h : names.Sublist all) :
    (ofComponents names).toList.Sublist (ofComponents all).toList := by
  induction h with
  | slnil => exact List.Sublist.refl _
  | @cons names all name h ih =>
      by_cases more : all = []
      · subst more
        rw [List.sublist_nil.mp h]
        simp [ofComponents]
      · rw [toList_ofComponents_cons more]
        exact (ih.cons '/').trans (List.sublist_append_right _ _)
  | @cons_cons names all name h ih =>
      by_cases alone : names = []
      · subst alone
        obtain ⟨behind, whole, -⟩ := exists_behind name all
        rw [whole]
        simp [ofComponents]
      · have more : all ≠ [] := fun none => alone (List.sublist_nil.mp (none ▸ h))
        rw [toList_ofComponents_cons alone, toList_ofComponents_cons more]
        exact (ih.cons_cons '/').append_left _

theorem keptNames_sublist (raw : String) :
    (keptNames raw).Sublist (pieces (String.ofList (unify raw))) :=
  List.filter_sublist.trans List.filter_sublist

theorem head?_ne_slash_of_isNormal {path : String} (normal : IsNormal path) :
    path.toList.head? ≠ some '/' := by
  obtain ⟨first, rest, names⟩ := List.exists_cons_of_ne_nil (pieces_ne_nil path)
  have listed : first ∈ pieces path := names ▸ List.mem_cons_self
  rw [← ofComponents_pieces path, names, head?_ofComponents (normal first listed).1]
  intro slash
  exact (mem_of_mem_pieces listed (List.mem_of_head? slash)).2 rfl

/-- A normal path normalizes to itself unless it begins with a drive or has blanks at an end. -/
theorem normalize_self_iff {path : String} (normal : IsNormal path) :
    normalize path = .ok path ↔
      startsWithDrive path.toList = false ∧ Text.Trimmed path.toList := by
  have unified : unify path = Text.trim path.toList :=
    unify_of_noBackslash (backslash_not_mem_of_isNormal normal)
  constructor
  · intro same
    obtain ⟨-, drive, -, -, joined⟩ := normalize_eq_ok_iff.mp same
    -- no character is lost on the way: the path is part of what trimming leaves of it
    have kept : path.toList.Sublist (unify path) := by
      have names := toList_ofComponents_sublist (keptNames_sublist path)
      rwa [joined, ofComponents_pieces, String.toList_ofList] at names
    have whole : unify path = path.toList :=
      (unified ▸ Text.trim_sublist path.toList).antisymm kept
    exact ⟨whole ▸ drive, whole ▸ trimmed_unify path⟩
  · rintro ⟨drive, trimmed⟩
    have whole : unify path = path.toList := unified.trans trimmed.trim_eq
    have kept : keptNames path = pieces path := by
      rw [keptNames, whole, String.ofList_toList, components_of_isNormal normal]
      exact List.filter_eq_self.mpr fun name hn => by simpa using (normal name hn).2.1
    refine normalize_eq_ok_iff.mpr ⟨?_, whole ▸ drive, ?_, ?_, ?_⟩
    · rw [whole]
      exact head?_ne_slash_of_isNormal normal
    · rw [kept]
      exact fun hn => (normal _ hn).2.2.1 rfl
    · rw [kept]
      exact pieces_ne_nil path
    · rw [kept, ofComponents_pieces]

end Again

section KeepsEnds

/-- The first and the last component of the text are among those that normalizing keeps. -/
def KeepsEnds (raw : String) : Prop :=
  let names := pieces (String.ofList (unify raw))
  ∀ name ∈ names.head?.toList ++ names.getLast?.toList, name ≠ "" ∧ name ≠ "."

instance (raw : String) : Decidable (KeepsEnds raw) :=
  inferInstanceAs (Decidable (∀ name ∈ _ ++ _, _))

theorem exists_first_name {raw : String} (ends : KeepsEnds raw) : ∃ first rest kept,
    first ≠ "" ∧ pieces (String.ofList (unify raw)) = first :: rest ∧
      keptNames raw = first :: kept := by
  obtain ⟨first, rest, names⟩ :=
    List.exists_cons_of_ne_nil (pieces_ne_nil (String.ofList (unify raw)))
  obtain ⟨named, noDot⟩ := ends first (by simp [names])
  refine ⟨first, rest, (rest.filter (· ≠ "")).filter (· ≠ "."), named, names, ?_⟩
  rw [keptNames, components, names, List.filter_cons_of_pos (by simp [named]),
    List.filter_cons_of_pos (by simp [noDot])]

theorem exists_last_name {raw : String} (ends : KeepsEnds raw) : ∃ last rest kept,
    last ≠ "" ∧ pieces (String.ofList (unify raw)) = rest ++ [last] ∧
      keptNames raw = kept ++ [last] := by
  obtain ⟨rest, last, names⟩ :=
    (List.eq_nil_or_concat (pieces (String.ofList (unify raw)))).resolve_left (pieces_ne_nil _)
  rw [List.concat_eq_append] at names
  obtain ⟨named, noDot⟩ := ends last (by simp [names])
  refine ⟨last, rest, (rest.filter (· ≠ "")).filter (· ≠ "."), named, names, ?_⟩
  rw [keptNames, components, names]
  simp [named, noDot]

/-- The path begins and ends as the text does, which is trimmed and names no drive. -/
theorem normalize_of_keepsEnds {raw path : String} (h : normalize raw = .ok path)
    (ends : KeepsEnds raw) : normalize path = .ok path := by
  rw [normalize_self_iff (isNormal_of_normalize h)]
  obtain ⟨-, drive, -, -, rfl⟩ := normalize_eq_ok_iff.mp h
  have text : (ofComponents (pieces (String.ofList (unify raw)))).toList = unify raw := by
    rw [ofComponents_pieces, String.toList_ofList]
  obtain ⟨first, rest, kept, named, inText, inPath⟩ := exists_first_name ends
  obtain ⟨last, rest', kept', named', inText', inPath'⟩ := exists_last_name ends
  have begins : (ofComponents (keptNames raw)).toList.head? = (unify raw).head? := by
    rw [← text, inText, inPath, head?_ofComponents named, head?_ofComponents named]
  have endsWith : (ofComponents (keptNames raw)).toList.getLast? = (unify raw).getLast? := by
    rw [← text, inText', inPath', getLast?_ofComponents named', getLast?_ofComponents named']
  constructor
  · calc startsWithDrive (ofComponents (keptNames raw)).toList
        = startsWithDrive first.toList := by rw [inPath, startsWithDrive_ofComponents named]
      _ = startsWithDrive (unify raw) := by
          rw [← text, inText, startsWithDrive_ofComponents named]
      _ = false := drive
  · constructor
    · rw [begins]
      exact (trimmed_unify raw).front
    · rw [endsWith]
      exact (trimmed_unify raw).back

end KeepsEnds

/-- What normalizing returns normalizes to itself exactly if it does not begin with a drive and
has no blanks at its ends. So it is for every text that begins and ends with components which
normalizing keeps. -/
theorem normalize_again {raw path : String} (h : normalize raw = .ok path) :
    (normalize path = .ok path ↔
        startsWithDrive path.toList = false ∧ Text.Trimmed path.toList) ∧
      (KeepsEnds raw → normalize path = .ok path) :=
  ⟨normalize_self_iff (isNormal_of_normalize h), normalize_of_keepsEnds h⟩

/-- Behind a component that is dropped, a drive and a blank are not seen. -/
theorem drive_behind_dot :
    normalize "./C:/a" = .ok "C:/a" ∧ startsWithDrive "C:/a".toList = true ∧
      normalize "C:/a" = .error .driveQualified ∧
      normalize "./ a" = .ok " a" ∧ normalize " a" = .ok "a" := by
  decide +kernel

theorem normalize_again_backslashes :
    normalize " ui\\.\\C: d//A.java " = .ok "ui/C: d/A.java" ∧
      normalize "ui/C: d/A.java" = .ok "ui/C: d/A.java" := by
  have once : normalize " ui\\.\\C: d//A.java " = .ok "ui/C: d/A.java" := by decide +kernel
  exact ⟨once, (normalize_again once).2 (by decide +kernel)⟩

end Path
end Repackage
