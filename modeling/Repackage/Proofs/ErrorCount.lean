import Mathlib.Algebra.BigOperators.Group.Finset.Basic
import Mathlib.Algebra.GroupWithZero.Nat
import Mathlib.Algebra.Order.BigOperators.Group.Finset
import Mathlib.Algebra.Order.BigOperators.Group.List
import Repackage.Console
import Repackage.Proofs.Disk.Tree
import Repackage.Proofs.Refusal
import Repackage.Proofs.Validation

/-!
How many errors a plan has. A phase name counts once for each phase that has it but the first,
an empty pattern once for its rule, and a shared destination once for all of its entries. The
errors of a phase depend on the phases before it only through their names, so they are counted
against the names that are new.
-/

namespace Repackage

open scoped BigOperators

theorem hasErrors_iff {issues : List Issue} :
    hasErrors issues = true ↔ countSeverity issues .error ≠ 0 := by
  rw [hasErrors, countSeverity, ← Nat.pos_iff_ne_zero, List.countP_pos_iff, List.any_eq_true]

def Finding.isError (finding : Finding) : Bool :=
  finding.severity = .error

theorem Rule.countP_findings (rule : Rule) (index : Nat) :
    (rule.findings index).countP Finding.isError = if rule.pattern = "" then 1 else 0 := by
  by_cases empty : rule.pattern = ""
  · simp [findings, empty, Finding.isError, Finding.severity]
  · cases identity : rule.isIdentity <;>
      simp [findings, empty, identity, Finding.isError, Finding.severity]

namespace RuleTable

theorem countP_findings (table : RuleTable) (index : Nat) :
    ((table.zipIdx index).flatMap fun (rule, index) => rule.findings index).countP Finding.isError
      = table.countP (·.pattern = "") := by
  induction table generalizing index with
  | nil => rfl
  | cons rule rest ih =>
      rw [List.zipIdx_cons, List.flatMap_cons, List.countP_append, ih, Rule.countP_findings,
        List.countP_cons, Nat.add_comm]
      simp

theorem countP_shadowFindings (table : RuleTable) :
    table.shadowFindings.countP Finding.isError = 0 := by
  rw [List.countP_eq_zero]
  intro finding h
  obtain ⟨shadow, -, rfl⟩ := List.mem_map.mp h
  simp [Finding.isError, Finding.severity]

end RuleTable

namespace Manifest

/-- The destinations of two entries or more. -/
def contested (manifest : Manifest) : Finset String :=
  manifest.destinations.toFinset.filter (1 < manifest.destinations.count ·)

private theorem nodup_eraseDups (paths : List String) : paths.eraseDups.Nodup := by
  induction h : paths.length using Nat.strong_induction_on generalizing paths with
  | _ length ih =>
      cases paths with
      | nil => exact List.nodup_nil
      | cons path rest =>
          rw [List.eraseDups_cons, List.nodup_cons]
          have shorter : (rest.filter fun other => !other == path).length < length := by
            have := List.length_filter_le (fun other => !other == path) rest
            rw [List.length_cons] at h
            omega
          exact ⟨by simp, ih _ shorter _ rfl⟩

theorem length_sharedDestinations (manifest : Manifest) :
    manifest.sharedDestinations.length = manifest.contested.card := by
  have distinct : manifest.sharedDestinations.Nodup := by
    rw [sharedDestinations, (List.mergeSort_perm _ _).nodup_iff]
    exact nodup_eraseDups _
  rw [← List.toFinset_card_of_nodup distinct]
  congr 1
  ext path
  rw [List.mem_toFinset, mem_sharedDestinations, contested, Finset.mem_filter, List.mem_toFinset]
  exact (and_iff_right_of_imp fun shared =>
    List.count_pos_iff.mp (Nat.lt_of_succ_lt shared)).symm

theorem countP_workFindings (manifest : Manifest) (rules : RuleTable) :
    (manifest.workFindings rules).countP Finding.isError = 0 := by
  rw [List.countP_eq_zero]
  intro finding h
  simp only [workFindings] at h
  split at h
  · simp [List.mem_singleton.mp h, Finding.isError, Finding.severity]
  · split at h
    · simp [List.mem_singleton.mp h, Finding.isError, Finding.severity]
    · cases h

end Manifest

theorem Phase.countP_findings (earlier : List String) (phase : Phase) :
    (phase.findings earlier).countP Finding.isError
      = (if phase.name ∈ earlier then 1 else 0) + phase.rules.countP (·.pattern = "")
        + phase.manifest.contested.card := by
  have shared : (phase.manifest.sharedDestinations.map Finding.sharedDestination).countP
      Finding.isError = phase.manifest.contested.card := by
    rw [← Manifest.length_sharedDestinations, List.countP_map, List.countP_eq_length]
    intro path _
    simp [Finding.isError, Finding.severity]
  have named : (if earlier.contains phase.name then [Finding.duplicateName] else []).countP
      Finding.isError = if phase.name ∈ earlier then 1 else 0 := by
    by_cases known : phase.name ∈ earlier <;>
      simp [known, Finding.isError, Finding.severity]
  simp only [findings, List.countP_append, named, shared, RuleTable.countP_findings,
    RuleTable.countP_shadowFindings, Manifest.countP_workFindings, Nat.add_zero]

namespace Plan

def names (plan : Plan) : List String :=
  plan.phases.map (·.name)

/-- Every phase counts as one error unless its name is new. -/
theorem countSeverity_issuesFrom (earlier : List String) (phases : List Phase) :
    countSeverity (issuesFrom earlier phases) .error
        + ((phases.map (·.name)).toFinset \ earlier.toFinset).card
      = phases.length + (phases.map fun phase => phase.rules.countP (·.pattern = "")).sum
        + (phases.map fun phase => phase.manifest.contested.card).sum := by
  induction phases generalizing earlier with
  | nil => simp [countSeverity, issuesFrom]
  | cons phase rest ih =>
      have later := ih (phase.name :: earlier)
      have split : countSeverity (issuesFrom earlier (phase :: rest)) .error
          = (phase.findings earlier).countP Finding.isError
            + countSeverity (issuesFrom (phase.name :: earlier) rest) .error := by
        simp only [countSeverity, issuesFrom, List.countP_append, List.countP_map]
        rfl
      rw [split, Phase.countP_findings]
      simp only [List.map_cons, List.toFinset_cons, List.sum_cons, List.length_cons] at later ⊢
      by_cases known : phase.name ∈ earlier
      · have same : insert phase.name earlier.toFinset = earlier.toFinset :=
          Finset.insert_eq_of_mem (List.mem_toFinset.mpr known)
        rw [same] at later
        rw [Finset.insert_sdiff_of_mem _ (List.mem_toFinset.mpr known), if_pos known]
        omega
      · have fresh : phase.name ∉ earlier.toFinset := fun h => known (List.mem_toFinset.mp h)
        have new : (insert phase.name (rest.map (·.name)).toFinset \ earlier.toFinset).card
            = ((rest.map (·.name)).toFinset \ insert phase.name earlier.toFinset).card + 1 := by
          have apart : insert phase.name (rest.map (·.name)).toFinset \ earlier.toFinset
              = insert phase.name
                ((rest.map (·.name)).toFinset \ insert phase.name earlier.toFinset) := by
            ext name
            by_cases same : name = phase.name
            · simp [same, known]
            · simp [same]
          rw [apart, Finset.card_insert_of_notMem (by simp)]
        rw [new, if_neg known]
        omega

/-- What is left of the occurrences of each name when one of them is taken away. -/
theorem sum_count_pred (names : List String) :
    (∑ name ∈ names.toFinset, (names.count name - 1)) + names.toFinset.card = names.length := by
  rw [Finset.card_eq_sum_ones, ← Finset.sum_add_distrib, ← List.sum_toFinset_count_eq_length]
  refine Finset.sum_congr rfl fun name listed => ?_
  have := List.count_pos_iff.mpr (List.mem_toFinset.mp listed)
  omega

theorem countSeverity_validate (plan : Plan) :
    countSeverity plan.validate .error
      = (∑ name ∈ plan.names.toFinset, (plan.names.count name - 1))
        + (plan.phases.map fun phase => phase.rules.countP (·.pattern = "")).sum
        + (plan.phases.map fun phase => phase.manifest.contested.card).sum := by
  have total := countSeverity_issuesFrom [] plan.phases
  have repeated := sum_count_pred plan.names
  simp only [List.toFinset_nil, Finset.sdiff_empty] at total
  rw [names, List.length_map] at repeated
  rw [validate, names]
  omega

end Plan

/-- A list of keys has a double exactly when two elements share a key. -/
private theorem not_nodup_map_iff {α : Type} {key : α → String} {elements : List α} :
    ¬ (elements.map key).Nodup ↔ ∃ (i j : Nat) (first second : α), i < j ∧
      elements[i]? = some first ∧ elements[j]? = some second ∧ key first = key second := by
  rw [List.Nodup, List.pairwise_map, List.pairwise_iff_getElem]
  constructor
  · intro doubled
    push Not at doubled
    obtain ⟨i, j, hi, hj, earlier, same⟩ := doubled
    exact ⟨i, j, _, _, earlier, List.getElem?_eq_getElem hi, List.getElem?_eq_getElem hj, same⟩
  · rintro ⟨i, j, first, second, earlier, here, there, same⟩ distinct
    obtain ⟨hi, rfl⟩ := List.getElem?_eq_some_iff.mp here
    obtain ⟨hj, rfl⟩ := List.getElem?_eq_some_iff.mp there
    exact distinct i j hi hj earlier same

/-- The paths resolve to the same place below the root of the tree. -/
def DiskTree.SamePlace (tree : DiskTree) (path other : String) : Prop :=
  Path.components (tree.resolve path) = Path.components (tree.resolve other)

theorem DiskTree.samePlace_iff {tree : DiskTree} {path other : String}
    (normal : Path.IsNormal path) (normal' : Path.IsNormal other) :
    tree.SamePlace path other ↔ path = other := by
  refine ⟨fun same => ?_, fun same => same ▸ rfl⟩
  rw [SamePlace, (tree.resolve_of_isNormal normal).1, (tree.resolve_of_isNormal normal').1] at same
  exact Path.components_injective normal normal' (List.append_cancel_left same)

namespace Plan

/-- Why a plan must not be run on a disk: a phase could not be told from another one, a rule has
nothing to look for, or of what two entries write in one pass one thing would be lost. -/
inductive Unsafe (plan : Plan) (disk : Disk) : Prop
  | sameName {i j : Nat} {first second : Phase} (earlier : i < j)
      (here : plan.phases[i]? = some first) (there : plan.phases[j]? = some second)
      (same : first.name = second.name) : Unsafe plan disk
  | emptyPattern {phase : Phase} {rule : Rule} (listed : phase ∈ plan.phases)
      (held : rule ∈ phase.rules) (empty : rule.pattern = "") : Unsafe plan disk
  | samePlace {phase : Phase} {i j : Nat} {first second : Entry} (listed : phase ∈ plan.phases)
      (earlier : i < j) (here : phase.manifest[i]? = some first)
      (there : phase.manifest[j]? = some second)
      (same : (plan.tree disk).SamePlace first.dest second.dest) : Unsafe plan disk

theorem sum_repeats_ne_zero_iff (names : List String) :
    (∑ name ∈ names.toFinset, (names.count name - 1)) ≠ 0 ↔ ¬ names.Nodup := by
  rw [← Nat.pos_iff_ne_zero, Finset.sum_pos_iff, List.nodup_iff_count_le_one]
  push Not
  constructor
  · rintro ⟨name, -, repeated⟩
    exact ⟨name, by omega⟩
  · rintro ⟨name, repeated⟩
    refine ⟨name, List.mem_toFinset.mpr (List.count_pos_iff.mp (by omega)), by omega⟩

theorem sum_ne_zero_iff {phases : List Phase} {count : Phase → Nat} :
    (phases.map count).sum ≠ 0 ↔ ∃ phase ∈ phases, count phase ≠ 0 := by
  simp [List.sum_eq_zero_iff]

theorem card_contested_ne_zero_iff (manifest : Manifest) :
    manifest.contested.card ≠ 0 ↔ ¬ manifest.destinations.Nodup := by
  rw [← Manifest.length_sharedDestinations, Manifest.nodup_destinations_iff, ne_eq,
    List.length_eq_zero_iff]

theorem hasErrors_iff_unsafe {plan : Plan} (wellFormed : plan.WellFormed) (disk : Disk) :
    hasErrors plan.validate = true ↔ plan.Unsafe disk := by
  have split {a b c : Nat} : a + b + c ≠ 0 ↔ a ≠ 0 ∨ b ≠ 0 ∨ c ≠ 0 := by omega
  rw [hasErrors_iff, countSeverity_validate, split, sum_repeats_ne_zero_iff, sum_ne_zero_iff,
    sum_ne_zero_iff, names, not_nodup_map_iff]
  simp only [card_contested_ne_zero_iff, Manifest.destinations, not_nodup_map_iff]
  constructor
  · rintro (⟨i, j, first, second, earlier, here, there, same⟩ | ⟨phase, listed, empty⟩ |
      ⟨phase, listed, i, j, first, second, earlier, here, there, same⟩)
    · exact .sameName earlier here there same
    · obtain ⟨rule, held, empty⟩ := List.countP_pos_iff.mp (Nat.pos_of_ne_zero empty)
      exact .emptyPattern listed held (by simpa using empty)
    · exact .samePlace listed earlier here there (same ▸ rfl)
  · rintro (⟨earlier, here, there, same⟩ | ⟨listed, held, empty⟩ |
      ⟨listed, earlier, here, there, same⟩)
    · exact .inl ⟨_, _, _, _, earlier, here, there, same⟩
    · refine .inr (.inl ⟨_, listed, Nat.pos_iff_ne_zero.mp (List.countP_pos_iff.mpr ?_)⟩)
      exact ⟨_, held, by simpa using empty⟩
    · have ofEntries := wellFormed _ listed
      have normal := (ofEntries _ (List.mem_of_getElem? here)).dest_normal
      have normal' := (ofEntries _ (List.mem_of_getElem? there)).dest_normal
      exact .inr (.inr ⟨_, listed, _, _, _, _, earlier, here, there,
        (DiskTree.samePlace_iff normal normal').mp same⟩)

theorem invalidPlan_iff {plan : Plan} (wellFormed : plan.WellFormed) (options : RunOptions)
    (disk : Disk) :
    (∃ text, (plan.execute options disk).result = .error (.invalidPlan text)) ↔
      hasErrors plan.validate = true := by
  constructor
  · rintro ⟨text, failed⟩
    rcases refusal_or_cutShort_of_execute wellFormed failed with refusal | ⟨place, -⟩
    · cases refusal with
      | invalid errors => exact errors
    · obtain ⟨_, _, _, _, _, -, -, -, -, aborted, -⟩ := place
      cases aborted
  · intro errors
    exact ⟨_, congrArg Execution.result (Refusal.invalid errors).execute⟩

/-- The errors of a plan are one for each phase that bears the name of an earlier one, one for
each rule without a pattern, and one for each path that two entries of a phase have as their
destination. So a plan has errors exactly if it is unsafe, where two destinations are the same
path exactly if they resolve to one place, and exactly then its execution refuses it as
invalid. -/
theorem validate_refuses_unsafe (plan : Plan) :
    countSeverity plan.validate .error
        = (∑ name ∈ plan.names.toFinset, (plan.names.count name - 1))
          + (plan.phases.map fun phase => phase.rules.countP (·.pattern = "")).sum
          + (plan.phases.map fun phase => phase.manifest.contested.card).sum ∧
      (plan.WellFormed → ∀ disk : Disk,
        (hasErrors plan.validate = true ↔ plan.Unsafe disk) ∧
        ∀ options : RunOptions,
          (∃ text, (plan.execute options disk).result = .error (.invalidPlan text)) ↔
            plan.Unsafe disk) := by
  refine ⟨countSeverity_validate plan, fun wellFormed disk => ?_⟩
  have errors := hasErrors_iff_unsafe wellFormed disk
  exact ⟨errors, fun options => (invalidPlan_iff wellFormed options disk).trans errors⟩

/-- Three phases with one name, two rules without a pattern, and a path with three entries
beside one with a single entry. -/
def careless : Plan where
  root := "."
  phases :=
    [{ name := "fix", rules := [⟨"", "x"⟩, ⟨"a", "b"⟩, ⟨"", ""⟩], manifest := [] },
      { name := "fix", rules := [],
        manifest := [⟨"a", "b", some ⟨"p", "q"⟩⟩, ⟨"b", "b", none⟩, ⟨"a", "c", some ⟨"p", "q"⟩⟩,
          ⟨"c", "b", some ⟨"p", "q"⟩⟩] },
      { name := "fix", rules := [], manifest := [] }]

theorem validate_refuses_unsafe_careless :
    careless.WellFormed ∧ countSeverity careless.validate .error = 5 ∧
      ∀ disk options, ∃ text,
        (careless.execute options disk).result = .error (.invalidPlan text) := by
  obtain ⟨counted, refused⟩ := validate_refuses_unsafe careless
  have wellFormed : careless.WellFormed := by decide
  refine ⟨wellFormed, counted.trans (by decide), fun disk options => ?_⟩
  exact ((refused wellFormed disk).2 options).mpr
    (.sameName Nat.zero_lt_one (j := 1) rfl rfl rfl)

end Plan
end Repackage
