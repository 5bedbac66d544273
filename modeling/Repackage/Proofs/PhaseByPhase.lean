import Mathlib.Algebra.GroupWithZero.Nat
import Repackage.Proofs.Course
import Repackage.Tree.Memory

/-!
Running a plan phase by phase. Where phases have names of their own, a run of some of them is a
run of each of them alone, in the order of the plan, on what the ones before have left. It makes
the same accesses, and fails where the first of them fails.
-/

namespace Repackage

variable {τ : Type} [SourceTree τ]

/-- The report of runs made one after the other: their passes, and their counts added up. -/
def RunReport.joined (reports : List RunReport) : RunReport where
  passes := reports.flatMap (·.passes)
  summary :=
    { created := (reports.map (·.summary.created)).sum
      updated := (reports.map (·.summary.updated)).sum
      unchanged := (reports.map (·.summary.unchanged)).sum
      skipped := (reports.map (·.summary.skipped)).sum }

namespace Plan

/-- The names of the phases that are asked for, each once, in the order of the plan. -/
def inOrder (plan : Plan) (names : List String) : List String :=
  (plan.phases.map Phase.name).filter (names.contains ·)

/-- Runs the phases with these names in turn, each by a run of its own. -/
def runEach (plan : Plan) : List String → RunM τ (List RunReport)
  | [] => return []
  | name :: rest => do
      let report ← plan.run [name]
      let reports ← plan.runEach rest
      return report :: reports

end Plan

theorem Summary.foldl_merge (summary : Summary) (passes : List PassReport) :
    passes.foldl (fun summary pass => summary.merge pass.summary) summary =
      { created := summary.created + (passes.map (·.summary.created)).sum
        updated := summary.updated + (passes.map (·.summary.updated)).sum
        unchanged := summary.unchanged + (passes.map (·.summary.unchanged)).sum
        skipped := summary.skipped + (passes.map (·.summary.skipped)).sum } := by
  induction passes generalizing summary with
  | nil => simp
  | cons pass passes ih =>
      rw [List.foldl_cons, ih]
      simp [Summary.merge, Nat.add_assoc]

/-- A report is the joined report of its passes, each taken as a run. -/
theorem RunReport.joined_singles (passes : List PassReport) :
    joined (passes.map fun pass => ofPasses [pass]) = ofPasses passes := by
  simp only [joined, ofPasses, Summary.foldl_merge]
  simp [List.flatMap_map, List.map_map, Function.comp_def]

namespace Plan

theorem select_of_known {plan : Plan} {names : List String} (asked : names ≠ [])
    (known : ∀ name ∈ names, ∃ phase ∈ plan.phases, phase.name = name) :
    plan.select names = .ok (plan.phases.filter (names.contains ·.name)) := by
  have found : names.find? (fun name => (plan.phase? name).isNone) = none := by
    rw [List.find?_eq_none]
    intro name hn
    obtain ⟨phase, listed, rfl⟩ := known name hn
    simpa [phase?] using ⟨phase, listed, rfl⟩
  simp only [select, found]
  exact if_neg (by simpa using asked)

theorem filter_name {phases : List Phase} (distinct : (phases.map Phase.name).Nodup)
    {phase : Phase} (listed : phase ∈ phases) :
    phases.filter ([phase.name].contains ·.name) = [phase] := by
  induction phases with
  | nil => exact absurd listed List.not_mem_nil
  | cons first rest ih =>
      obtain ⟨fresh, distinct⟩ := List.nodup_cons.mp distinct
      rcases List.mem_cons.mp listed with rfl | listed
      · have others : rest.filter ([phase.name].contains ·.name) = [] := by
          rw [List.filter_eq_nil_iff]
          intro other ho same
          have same : other.name = phase.name := by simpa using same
          exact fresh (same ▸ List.mem_map_of_mem ho)
        simp only [List.filter_cons, others]
        simp
      · have other : first.name ≠ phase.name := fun same =>
          fresh (same ▸ List.mem_map_of_mem listed)
        rw [List.filter_cons_of_neg (by simpa using other), ih distinct listed]

/-- The run of one phase by its name is a pass over it. -/
theorem run_name {plan : Plan} (distinct : (plan.phases.map Phase.name).Nodup) {phase : Phase}
    (listed : phase ∈ plan.phases) (progress : Progress τ) :
    plan.run [phase.name] progress
      = Ending.map (fun pass => RunReport.ofPasses [pass]) (phase.run progress) := by
  have selected : plan.select [phase.name] = .ok [phase] := by
    rw [select_of_known (by simp) (by simpa using ⟨phase, listed, rfl⟩),
      filter_name distinct listed]
  rw [run_of_selected selected]
  cases ran : phase.run progress with
  | ok pass progress' => rw [Phase.runAll_of_ok ran]; rfl
  | error failure progress' => rw [Phase.runAll_of_error ran]; rfl

theorem runEach_of_ok {plan : Plan} {name : String} {progress progress' : Progress τ}
    {report : RunReport} (h : plan.run [name] progress = .ok report progress')
    (rest : List String) :
    plan.runEach (name :: rest) progress
      = Ending.map (report :: ·) (plan.runEach rest progress') := by
  simp only [runEach, bind, EStateM.bind, h]
  cases plan.runEach rest progress' <;> rfl

theorem runEach_of_error {plan : Plan} {name : String} {progress progress' : Progress τ}
    {failure : Failure} (h : plan.run [name] progress = .error failure progress')
    (rest : List String) :
    plan.runEach (name :: rest) progress = .error failure progress' := by
  simp only [runEach, bind, EStateM.bind, h]

theorem runEach_names {plan : Plan} (distinct : (plan.phases.map Phase.name).Nodup)
    {phases : List Phase} (listed : ∀ phase ∈ phases, phase ∈ plan.phases)
    (progress : Progress τ) :
    plan.runEach (phases.map Phase.name) progress
      = Ending.map (List.map fun pass => RunReport.ofPasses [pass])
        (Phase.runAll phases progress) := by
  induction phases generalizing progress with
  | nil => rfl
  | cons phase phases ih =>
      obtain ⟨first, others⟩ := List.forall_mem_cons.mp listed
      have one := run_name distinct first progress
      rw [List.map_cons]
      cases ran : phase.run progress with
      | error failure reached =>
          rw [ran] at one
          rw [runEach_of_error one, Phase.runAll_of_error ran]
          rfl
      | ok pass reached =>
          rw [ran] at one
          rw [runEach_of_ok one, Phase.runAll_of_ok ran, ih others]
          cases Phase.runAll phases reached <;> rfl

theorem inOrder_eq (plan : Plan) (names : List String) :
    plan.inOrder names = (plan.phases.filter (names.contains ·.name)).map Phase.name :=
  List.filter_map

theorem mem_inOrder_iff {plan : Plan} {names : List String}
    (known : ∀ name ∈ names, ∃ phase ∈ plan.phases, phase.name = name) {name : String} :
    name ∈ plan.inOrder names ↔ name ∈ names := by
  simp only [inOrder, List.mem_filter, List.contains_iff_mem, and_iff_right_iff_imp]
  intro asked
  obtain ⟨phase, listed, rfl⟩ := known name asked
  exact List.mem_map_of_mem listed

/-- A run of named phases is a run of each of them alone, in the order of the plan and up to the
first that fails. Answer, tree and events are the same, and so are the calls, which are part of
the tree: it records them. So it is all one in which order the names come, and how often. -/
theorem run_phase_by_phase (plan : Plan) (distinct : (plan.phases.map Phase.name).Nodup)
    {names : List String} (asked : names ≠ [])
    (known : ∀ name ∈ names, ∃ phase ∈ plan.phases, phase.name = name)
    (progress : Progress (Recorded τ)) :
    ((plan.inOrder names).Sublist (plan.phases.map Phase.name) ∧ (plan.inOrder names).Nodup ∧
      ∀ name, name ∈ plan.inOrder names ↔ name ∈ names) ∧
    plan.run names progress
      = Ending.map RunReport.joined (plan.runEach (plan.inOrder names) progress) ∧
    ∀ others : List String, (∀ name, name ∈ others ↔ name ∈ names) →
      plan.run others progress = plan.run names progress := by
  have selected := select_of_known asked known
  refine ⟨⟨List.filter_sublist, distinct.sublist List.filter_sublist,
    fun name => mem_inOrder_iff known⟩, ?_, ?_⟩
  · have each := runEach_names distinct
      (fun phase hp => (List.mem_filter.mp hp).1 : ∀ phase ∈ plan.phases.filter
        (names.contains ·.name), phase ∈ plan.phases) progress
    rw [inOrder_eq, each, run_of_selected selected]
    cases Phase.runAll (plan.phases.filter (names.contains ·.name)) progress with
    | ok passes reached =>
        exact congrArg (EStateM.Result.ok · reached) (RunReport.joined_singles passes).symm
    | error failure reached => rfl
  · intro others same
    have asked' : others ≠ [] := by
      rintro rfl
      refine asked (List.eq_nil_iff_forall_not_mem.mpr fun name hn => ?_)
      exact List.not_mem_nil ((same name).mpr hn)
    have selected' := select_of_known asked' fun name hn => known name ((same name).mp hn)
    have alike : plan.phases.filter (others.contains ·.name)
        = plan.phases.filter (names.contains ·.name) :=
      List.filter_congr fun phase _ => by
        rw [Bool.eq_iff_iff, List.contains_iff_mem, List.contains_iff_mem, same]
    rw [run_of_selected selected', alike, run_of_selected selected]

/-- A copy, a fixup of the copy, and a copy of that. -/
def relay : Plan where
  root := "."
  phases :=
    [{ name := "copy", rules := [], manifest := [⟨"a", "b", some ⟨"p", "q"⟩⟩] },
      { name := "fix", rules := [⟨"q", "r"⟩], manifest := [⟨"b", "b", none⟩] },
      { name := "publish", rules := [], manifest := [⟨"b", "c", some ⟨"q", "s"⟩⟩] }]

def atStart : Recorded MemoryTree where
  tree := { files := ⟨[("a", "package p;")]⟩, badWrite := ⟨[("c", .noSpace)]⟩ }

/-- The second run fails, and so does the one run. -/
theorem run_phase_by_phase_relay :
    relay.inOrder ["publish", "copy", "publish"] = ["copy", "publish"] ∧
      relay.run ["publish", "copy", "publish"] { tree := atStart }
        = Ending.map RunReport.joined
          (relay.runEach ["copy", "publish"] { tree := atStart }) ∧
      relay.run ["copy", "publish"] { tree := atStart }
        = relay.run ["publish", "copy", "publish"] { tree := atStart } := by
  have known : ∀ name ∈ ["publish", "copy", "publish"],
      ∃ phase ∈ relay.phases, phase.name = name := by
    decide
  obtain ⟨-, alike, anyOrder⟩ :=
    run_phase_by_phase relay (by decide) (by simp) known { tree := atStart }
  exact ⟨rfl, alike, anyOrder _ (by simp [or_comm])⟩

end Plan
end Repackage
