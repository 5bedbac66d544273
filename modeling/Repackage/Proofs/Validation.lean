import Mathlib.Data.List.Basic
import Repackage.Plan.Issue

/-!
What a plan without errors promises of its phases.
-/

namespace Repackage

namespace Manifest

theorem mem_sharedDestinations {manifest : Manifest} {path : String} :
    path ∈ manifest.sharedDestinations ↔ 1 < manifest.destinations.count path := by
  simp only [sharedDestinations, List.mem_mergeSort, List.mem_eraseDups, List.mem_filter,
    decide_eq_true_eq, and_iff_right_iff_imp]
  intro shared
  exact List.count_pos_iff.mp (Nat.lt_of_succ_lt shared)

theorem nodup_destinations_iff {manifest : Manifest} :
    manifest.destinations.Nodup ↔ manifest.sharedDestinations = [] := by
  rw [List.nodup_iff_count, List.eq_nil_iff_forall_not_mem]
  simp only [mem_sharedDestinations, Nat.not_lt]

end Manifest

namespace Plan

/-- What there is to find in a phase is among the issues of its plan. -/
theorem mem_issuesFrom {phases : List Phase} {phase : Phase} (h : phase ∈ phases)
    (earlier : List String) :
    ∃ names, ∀ finding ∈ phase.findings names,
      finding.toIssue phase.name ∈ issuesFrom earlier phases := by
  induction phases generalizing earlier with
  | nil => exact absurd h List.not_mem_nil
  | cons first rest ih =>
      rcases List.mem_cons.mp h with rfl | h
      · exact ⟨earlier, fun finding hf => List.mem_append_left _ (List.mem_map_of_mem hf)⟩
      · obtain ⟨names, issues⟩ := ih h (first.name :: earlier)
        exact ⟨names, fun finding hf => List.mem_append_right _ (issues finding hf)⟩

theorem nodup_destinations_of_valid {plan : Plan} (valid : hasErrors plan.validate = false)
    {phase : Phase} (h : phase ∈ plan.phases) : phase.manifest.destinations.Nodup := by
  obtain ⟨names, issues⟩ := mem_issuesFrom h []
  rw [Manifest.nodup_destinations_iff, List.eq_nil_iff_forall_not_mem]
  intro path shared
  have finding : Finding.sharedDestination path ∈ phase.findings names := by
    simp only [Phase.findings, List.mem_append, List.mem_map]
    exact .inl (.inr ⟨path, shared, rfl⟩)
  have found : hasErrors plan.validate = true :=
    List.any_eq_true.mpr ⟨_, issues _ finding, by simp [Finding.toIssue, Finding.severity]⟩
  rw [valid] at found
  cases found

end Plan
end Repackage
