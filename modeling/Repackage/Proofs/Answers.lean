import Mathlib.Data.List.Forall2

/-!
Answers that may be failures. What is put together from several answers has a value if each of
them has one, and then the value that these make.
-/

namespace Repackage

variable {α β ε ε' : Type}

theorem toOption_eq_some_iff {result : Except ε α} {a : α} :
    result.toOption = some a ↔ result = .ok a := by
  cases result <;> simp [Except.toOption]

theorem mapError_eq_ok_iff {f : ε → ε'} {result : Except ε α} {a : α} :
    result.mapError f = .ok a ↔ result = .ok a := by
  cases result <;> simp [Except.mapError]

theorem bind_eq_ok_iff {result : Except ε α} {next : α → Except ε β} {b : β} :
    result >>= next = .ok b ↔ ∃ a, result = .ok a ∧ next a = .ok b := by
  cases result <;> simp [bind, Except.bind]

theorem mapM_eq_ok_iff {f : α → Except ε β} {Makes : α → β → Prop}
    (h : ∀ x y, f x = .ok y ↔ Makes x y) {xs : List α} {ys : List β} :
    xs.mapM f = .ok ys ↔ List.Forall₂ Makes xs ys := by
  induction xs generalizing ys with
  | nil => simp [pure, Except.pure, eq_comm]
  | cons x xs ih =>
      simp only [List.mapM_cons, bind_eq_ok_iff, h, ih, List.forall₂_cons_left_iff]
      constructor
      · rintro ⟨y, first, others, rest, made⟩
        cases made
        exact ⟨y, others, first, rest, rfl⟩
      · rintro ⟨y, others, first, rest, rfl⟩
        exact ⟨y, first, others, rest, rfl⟩

theorem mem_of_mapM_ok {f : α → Except ε β} {xs : List α} {ys : List β}
    (h : xs.mapM f = .ok ys) : ∀ y ∈ ys, ∃ x ∈ xs, f x = .ok y := by
  have made : List.Forall₂ (fun x y => f x = .ok y) xs ys := (mapM_eq_ok_iff fun _ _ => .rfl).mp h
  clear h
  induction made with
  | nil => exact List.forall_mem_nil _
  | @cons x y xs ys first _ ih =>
      refine List.forall_mem_cons.mpr ⟨⟨x, List.mem_cons_self, first⟩, fun y' later => ?_⟩
      obtain ⟨x', there, made⟩ := ih y' later
      exact ⟨x', List.mem_cons_of_mem _ there, made⟩

end Repackage
