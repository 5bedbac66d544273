import Mathlib.Data.List.DropRight
import Repackage.Proofs.Collector

/-!
One collector for several runs of phases. Nobody tells it that a run was cut short: the pass
stays open, and what the next run tells goes on with it. So a collector keeps every pass that
finished, and of the others only what it has heard of since the last one that finished, as one
pass. It keeps all that it was told exactly if nothing is told after a run that was cut short
behind an entry.
-/

namespace Repackage

/-- A phase, and the tree it is run on. -/
structure PhaseRun where
  {τ : Type}
  [accesses : SourceTree τ]
  phase : Phase
  tree : τ

namespace PhaseRun

def result (run : PhaseRun) : EStateM.Result Failure (Progress run.τ) PassReport :=
  @Phase.run run.τ run.accesses run.phase { tree := run.tree }

/-- The pass that the run returns, if it is not cut short. -/
def finished? (run : PhaseRun) : Option PassReport :=
  (Ending.answer run.result).toOption

def events (run : PhaseRun) : List Event :=
  (Ending.state run.result).events

def heard (run : PhaseRun) : List (String × EntryReport) :=
  entriesHeard run.events

/-- What there is to keep of the run: the pass that it returns, or one of the entries that were
reported before it was cut short. -/
def passes (run : PhaseRun) : List PassReport :=
  let reports := run.heard.map Prod.snd
  match run.finished? with
  | some pass => [pass]
  | none =>
      if reports.isEmpty then [] else [⟨run.phase.name, reports, Summary.ofReports reports⟩]

/-- The run was cut short, and not at its first entry. -/
def LeftOpen (run : PhaseRun) : Prop :=
  run.finished? = none ∧ run.heard ≠ []

/-- How a run ends, in terms of what its observer hears. -/
inductive Told (run : PhaseRun) : Prop
  | finished {visits : List Visit} {pass : PassReport} (ends : run.finished? = some pass)
      (told : run.events = visits.map Visit.event ++ [.passFinished pass])
  | cut {leg : Leg} (ends : run.finished? = none) (same : leg.phase = run.phase)
      (own : ∀ visit ∈ leg.visits, visit.phase = leg.phase)
      (told : run.events = leg.visits.map Visit.event)

theorem told (run : PhaseRun) : run.Told := by
  obtain ⟨phase, tree⟩ := run
  have ended := phase.run_ended tree []
  generalize ran : phase.run ⟨tree, []⟩ = result at ended
  have result_eq : (PhaseRun.mk phase tree).result = result := ran
  cases ended with
  | @finished visits _ _ _ =>
      refine @Told.finished _ visits (Leg.pass ⟨phase, visits⟩) ?_ ?_
      · rw [finished?, result_eq]
        rfl
      · rw [events, result_eq]
        rfl
  | @aborted visits entry rest _ _ _ _ stops _ =>
      refine @Told.cut _ ⟨phase, visits⟩ ?_ rfl (Leg.phase_of_prefix ⟨_, stops.symm⟩) ?_
      · rw [finished?, result_eq]
        rfl
      · rw [events, result_eq]
        rfl

section Passes

variable {run : PhaseRun} {pass : PassReport}

theorem passes_of_finished (ends : run.finished? = some pass) : run.passes = [pass] := by
  rw [passes, ends]

theorem passes_of_cut (ends : run.finished? = none) : run.passes = cutPass run.heard := by
  cases run.told with
  | finished ends' _ => cases ends.symm.trans ends'
  | @cut leg _ same own told =>
      have reports : (leg.visits.map Visit.heard).map Prod.snd = leg.visits.map Visit.report := by
        rw [List.map_map]
        rfl
      rw [passes, ends, heard, told, entriesHeard_visits, Leg.cutPass_heard own, reports, ← same]
      simp [Leg.opened, Leg.pass]

theorem events_ne_nil_of_finished (ends : run.finished? = some pass) : run.events ≠ [] := by
  cases run.told with
  | finished _ told => simp [told]
  | cut ends' _ _ _ => cases ends'.symm.trans ends

theorem events_eq_nil_of_cut (ends : run.finished? = none) (quiet : run.heard = []) :
    run.events = [] := by
  cases run.told with
  | finished ends' _ => cases ends.symm.trans ends'
  | cut _ _ _ told =>
      rw [heard, told, entriesHeard_visits] at quiet
      simpa [told] using quiet

end Passes

/-- The passes that the runs return. -/
def closed (runs : List PhaseRun) : List PassReport :=
  runs.filterMap finished?

/-- The entries that were reported after the last run that finished. -/
def loose (runs : List PhaseRun) : List (String × EntryReport) :=
  (runs.rtakeWhile (·.finished?.isNone)).flatMap heard

theorem hearAll_run (done : List PassReport) (before : List (String × EntryReport))
    (run : PhaseRun) :
    (Collector.holding done before).hearAll run.events =
      match run.finished? with
      | some pass => .holding (done ++ [pass]) []
      | none => .holding done (before ++ run.heard) := by
  cases run.told with
  | finished ends told =>
      rw [ends, told, Collector.hearAll_append, Collector.hearAll_entries]
      exact Collector.hear_passFinished _ _ _
  | cut ends _ _ told =>
      rw [ends, heard, told, Collector.hearAll_entries, entriesHeard_visits]

/-- What a collector has gathered after the runs. -/
theorem hearAll_runs (runs : List PhaseRun) :
    ({} : Collector).hearAll (runs.flatMap events) = .holding (closed runs) (loose runs) := by
  induction runs using List.reverseRecOn with
  | nil => rfl
  | append_singleton runs run ih =>
      rw [List.flatMap_append, Collector.hearAll_append, ih, List.flatMap_singleton, hearAll_run]
      cases ends : run.finished? with
      | some pass => simp [closed, loose, ends]
      | none => simp [closed, loose, ends]

theorem length_closed_le (runs : List PhaseRun) :
    (closed runs).length ≤ (runs.flatMap passes).length := by
  induction runs with
  | nil => simp [closed]
  | cons run runs ih =>
      rw [List.flatMap_cons, List.length_append]
      cases ends : run.finished? with
      | some pass =>
          rw [closed, List.filterMap_cons_some ends, passes_of_finished ends]
          simp only [closed] at ih
          simp only [List.length_cons, List.length_nil]
          omega
      | none =>
          rw [closed, List.filterMap_cons_none ends]
          exact Nat.le_add_left_of_le ih

theorem closed_eq_iff {runs : List PhaseRun} :
    closed runs = runs.flatMap passes ↔ ∀ run ∈ runs, ¬ run.LeftOpen := by
  induction runs with
  | nil => simp [closed]
  | cons run runs ih =>
      rw [List.flatMap_cons, List.forall_mem_cons, ← ih]
      cases ends : run.finished? with
      | some pass =>
          have shut : ¬ run.LeftOpen := fun h => by cases h.1.symm.trans ends
          simp [closed, ends, passes_of_finished ends, shut]
      | none =>
          have skipped : closed (run :: runs) = closed runs := List.filterMap_cons_none ends
          rw [skipped, passes_of_cut ends]
          by_cases quiet : run.heard = []
          · have shut : ¬ run.LeftOpen := fun h => h.2 quiet
            simp [quiet, shut]
          · -- left open, it leaves a pass to keep that is not among those that finished
            refine ⟨fun same => ?_, fun h => absurd ⟨ends, quiet⟩ h.1⟩
            have bound := length_closed_le runs
            rw [same, List.length_append, length_cutPass quiet] at bound
            omega

theorem loose_eq_nil {runs : List PhaseRun} (shut : ∀ run ∈ runs, ¬ run.LeftOpen) :
    loose runs = [] := by
  rw [loose, List.flatMap_eq_nil_iff]
  intro run hr
  by_contra told
  have ends : run.finished? = none := by simpa using List.mem_rtakeWhile_imp hr
  exact shut run (List.rtakeWhile_suffix _ _ |>.subset hr) ⟨ends, told⟩

theorem pairwise_concat_iff {runs : List PhaseRun} {run : PhaseRun} (told : run.events ≠ []) :
    (runs ++ [run]).Pairwise (fun earlier later => earlier.LeftOpen → later.events = []) ↔
      ∀ earlier ∈ runs, ¬ earlier.LeftOpen := by
  simp only [List.pairwise_append, List.pairwise_singleton, List.mem_singleton, forall_eq, told,
    true_and]
  refine ⟨And.right, fun shut => ⟨?_, shut⟩⟩
  apply List.pairwise_of_forall_mem_list
  intro earlier he later _ opened
  exact absurd opened (shut earlier he)

theorem keeps_iff (runs : List PhaseRun) :
    closed runs ++ cutPass (loose runs) = runs.flatMap passes ↔
      runs.Pairwise fun earlier later => earlier.LeftOpen → later.events = [] := by
  induction runs using List.reverseRecOn with
  | nil => simp [closed, loose]
  | append_singleton runs run ih =>
      -- if the last run tells anything, a run left open before it is lost, so none may be
      rw [List.flatMap_append, List.flatMap_singleton]
      cases ends : run.finished? with
      | some pass =>
          rw [pairwise_concat_iff (events_ne_nil_of_finished ends), ← closed_eq_iff,
            passes_of_finished ends]
          simp [closed, loose, ends]
      | none =>
          have same : closed (runs ++ [run]) = closed runs := by simp [closed, ends]
          have more : loose (runs ++ [run]) = loose runs ++ run.heard := by simp [loose, ends]
          rw [same, more, passes_of_cut ends]
          by_cases quiet : run.heard = []
          · have silent := events_eq_nil_of_cut ends quiet
            simp [quiet, ih, List.pairwise_append, silent]
          · have told : run.events ≠ [] := fun silent => quiet (by rw [heard, silent]; rfl)
            rw [pairwise_concat_iff told, ← closed_eq_iff]
            have loud : loose runs ++ run.heard ≠ [] := by simp [quiet]
            constructor
            · intro kept
              exact List.append_inj_left' kept (by rw [length_cutPass loud, length_cutPass quiet])
            · intro kept
              rw [kept, loose_eq_nil (closed_eq_iff.mp kept), List.nil_append]

instance (run : PhaseRun) : Decidable run.LeftOpen :=
  inferInstanceAs (Decidable (_ ∧ _))

/-- The collector of any runs has the passes that finished, and one of the entries it was told
since then. That is what there is to keep of the runs, no more and no less, exactly if no run
tells anything after one that was left open. -/
theorem shared_collector_keeps_iff (runs : List PhaseRun) :
    let collector := ({} : Collector).hearAll (runs.flatMap events)
    collector.passes = closed runs ++ cutPass (loose runs) ∧
      (collector.passes = runs.flatMap passes ↔
        runs.Pairwise fun earlier later => earlier.LeftOpen → later.events = []) := by
  intro collector
  have gathered : collector.passes = closed runs ++ cutPass (loose runs) :=
    congrArg Collector.passes (hearAll_runs runs)
  refine ⟨gathered, ?_⟩
  rw [gathered]
  exact keeps_iff runs

def closedAtB : MemoryTree where
  badRead := ⟨[("b", .notText)]⟩

/-- The first source is missing, and the second one cannot be read. -/
def cutAtB (name : String) : PhaseRun where
  phase := { name, rules := [], manifest := [⟨"a", "a", none⟩, ⟨"b", "b", none⟩] }
  tree := closedAtB

/-- The first source cannot be read, so nothing is reported. -/
def cutAtOnce : PhaseRun where
  phase := { name := "again", rules := [], manifest := [⟨"b", "b", none⟩] }
  tree := closedAtB

def atRest : PhaseRun where
  phase := { name := "rest", rules := [], manifest := [] }
  tree := closedAtB

def missingA : EntryReport where
  source := "a"
  dest := "a"
  kind := .importFixup
  outcome := .notFound
  hits := []
  beforeDigest := none
  afterDigest := none

/-- The pass that was cut short is gone as soon as another one finishes, and what is told by a
second run that is cut short goes to the pass of the first one. -/
theorem cut_pass_lost :
    [cutAtB "fix", atRest].flatMap passes
        = [⟨"fix", [missingA], { skipped := 1 }⟩, ⟨"rest", [], {}⟩] ∧
      (({} : Collector).hearAll ([cutAtB "fix", atRest].flatMap events)).passes
        = [⟨"rest", [], {}⟩] ∧
      [cutAtB "fix", cutAtB "late"].flatMap passes
        = [⟨"fix", [missingA], { skipped := 1 }⟩, ⟨"late", [missingA], { skipped := 1 }⟩] ∧
      (({} : Collector).hearAll ([cutAtB "fix", cutAtB "late"].flatMap events)).passes
        = [⟨"fix", [missingA, missingA], { skipped := 2 }⟩] := by
  decide +kernel

theorem shared_collector_keeps_iff_lastCut :
    (({} : Collector).hearAll
        ([atRest, cutAtOnce, cutAtB "fix", cutAtOnce].flatMap events)).passes
      = [⟨"rest", [], {}⟩, ⟨"fix", [missingA], { skipped := 1 }⟩] := by
  obtain ⟨-, keeps⟩ := shared_collector_keeps_iff [atRest, cutAtOnce, cutAtB "fix", cutAtOnce]
  rw [keeps.mpr (by decide +kernel)]
  decide +kernel

end PhaseRun
end Repackage
