import Repackage.PathMap

/-!
A map answers for the path that was inserted last, and for every other path as before. Its
paths stay in strict order, so that an entry is found if it is there.
-/

namespace Repackage
namespace PathMap

variable {α : Type}

private theorem lookup_cons_ite (query p : String) (v : α) (rest : List (String × α)) :
    ((p, v) :: rest).lookup query = if query = p then some v else rest.lookup query := by
  by_cases h : query = p
  · simp [h]
  · have : (query == p) = false := by simpa using h
    simp [List.lookup_cons, h, this]

private theorem lookup_insertInto (path query : String) (value : α)
    (entries : List (String × α)) :
    (insertInto path value entries).lookup query =
      if query = path then some value else entries.lookup query := by
  induction entries with
  | nil => exact lookup_cons_ite query path value []
  | cons first rest ih =>
      obtain ⟨p, v⟩ := first
      simp only [insertInto]
      split
      · rename_i same
        subst same
        simp only [lookup_cons_ite]
        split <;> rfl
      · rename_i other
        split
        · exact lookup_cons_ite query path value _
        · rw [lookup_cons_ite, lookup_cons_ite, ih]
          by_cases hq : query = p
          · subst hq
            simp [other]
          · simp [hq]

theorem find?_insert (map : PathMap α) (path query : String) (value : α) :
    (map.insert path value).find? query = if query = path then some value else map.find? query :=
  lookup_insertInto path query value map.entries

/-- The paths of the entries increase strictly. -/
def Sorted (map : PathMap α) : Prop :=
  map.keys.Pairwise (· < ·)

theorem sorted_empty : ({} : PathMap α).Sorted :=
  List.Pairwise.nil

private theorem mem_keys_insertInto (path query : String) (value : α)
    (entries : List (String × α)) : query ∈ (insertInto path value entries).map (·.1) ↔
      query = path ∨ query ∈ entries.map (·.1) := by
  induction entries with
  | nil => simp [insertInto]
  | cons first rest ih =>
      obtain ⟨p, v⟩ := first
      simp only [insertInto]
      split
      · rename_i same
        simp [same]
      · split
        · simp
        · rw [List.map_cons, List.mem_cons, ih, List.map_cons, List.mem_cons]
          exact or_left_comm

theorem mem_keys_insert {map : PathMap α} {path query : String} {value : α} :
    query ∈ (map.insert path value).keys ↔ query = path ∨ query ∈ map.keys :=
  mem_keys_insertInto path query value map.entries

private theorem sorted_insertInto (path : String) (value : α) {entries : List (String × α)}
    (h : (entries.map (·.1)).Pairwise (· < ·)) :
    ((insertInto path value entries).map (·.1)).Pairwise (· < ·) := by
  induction entries with
  | nil => exact List.pairwise_singleton _ _
  | cons first rest ih =>
      obtain ⟨p, v⟩ := first
      obtain ⟨least, others⟩ := List.pairwise_cons.mp h
      simp only [insertInto]
      split
      · rename_i same
        exact same ▸ h
      · rename_i other
        split
        · rename_i before
          refine List.pairwise_cons.mpr ⟨?_, h⟩
          intro query hq
          rcases List.mem_cons.mp hq with rfl | behind
          · exact before
          · exact String.lt_trans before (least query behind)
        · rename_i notBefore
          have after : p < path := by
            rcases Std.lt_trichotomy p path with after | same | before
            · exact after
            · exact absurd same other
            · exact absurd before notBefore
          refine List.pairwise_cons.mpr ⟨?_, ih others⟩
          intro query hq
          rcases (mem_keys_insertInto _ _ _ _).mp hq with rfl | behind
          · exact after
          · exact least query behind

theorem Sorted.insert {map : PathMap α} (h : map.Sorted) (path : String) (value : α) :
    (map.insert path value).Sorted :=
  sorted_insertInto path value h

theorem Sorted.find?_eq_some_iff {map : PathMap α} (h : map.Sorted) {path : String} {value : α} :
    map.find? path = some value ↔ (path, value) ∈ map.entries := by
  obtain ⟨entries⟩ := map
  induction entries with
  | nil => simp [find?]
  | cons first rest ih =>
      obtain ⟨p, v⟩ := first
      obtain ⟨least, others⟩ := List.pairwise_cons.mp h
      have behind := ih others
      rw [find?] at behind ⊢
      rw [lookup_cons_ite, List.mem_cons, Prod.mk.injEq]
      split
      · rename_i same
        subst same
        have notBehind : (path, value) ∉ rest := fun there =>
          String.lt_irrefl path (least path (List.mem_map_of_mem there))
        simp [notBehind, eq_comm]
      · rename_i other
        rw [behind]
        simp [other]

end PathMap
end Repackage
