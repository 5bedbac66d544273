import Mathlib.Data.List.Forall2
import Repackage.Proofs.Collector
import Repackage.Proofs.LastWriter
import Repackage.Proofs.PhaseByPhase

/-!
What the report of a run accounts for. It has a pass for each phase that was asked for, and each
pass a report for each entry of its phase. The counts of a pass are kept while it runs and those
of the run are added up from them, and both are the numbers of the reports with each outcome.
-/

namespace Repackage

/-- What the report of an entry says of it. -/
structure EntryReport.AccountsFor (report : EntryReport) (entry : Entry) : Prop where
  source : report.source = entry.source
  dest : report.dest = entry.dest
  kind : report.kind = entry.kind
  beforeDigest : report.beforeDigest.isSome = true ↔ report.outcome ≠ .notFound
  afterDigest : report.afterDigest.isSome = true ↔ report.outcome ≠ .notFound
  hits : report.outcome = .notFound → report.hits = []
  unchanged : report.outcome = .unchanged → report.beforeDigest = report.afterDigest
  relocation : report.outcome = .created → entry.kind = .relocation
  fixup : report.outcome = .updated ∨ report.outcome = .unchanged → entry.kind = .importFixup

/-- A pass over a phase, entry by entry, and the counts of its entries. -/
structure PassReport.AccountsFor (pass : PassReport) (phase : Phase) : Prop where
  name : pass.phase = phase.name
  entries : List.Forall₂ EntryReport.AccountsFor pass.entries phase.manifest
  summary : ∀ outcome, pass.summary.count outcome = pass.entries.countP (·.outcome = outcome)

/-- A run of phases, pass by pass, and the counts over all of them. -/
structure RunReport.AccountsFor (report : RunReport) (phases : List Phase) : Prop where
  passes : List.Forall₂ PassReport.AccountsFor report.passes phases
  summary : ∀ outcome, report.summary.count outcome =
    (report.passes.flatMap (·.entries)).countP (·.outcome = outcome)
  total : report.summary.total = (phases.map (·.manifest.length)).sum

/-- An entry of the run lacked its source. -/
def RunReport.Lacks (report : RunReport) : Prop :=
  ∃ pass ∈ report.passes, ∃ entry ∈ pass.entries, entry.outcome = .notFound

/-- Every report has one of the outcomes. -/
theorem EntryReport.sum_countP (reports : List EntryReport) :
    reports.countP (·.outcome = .created) + reports.countP (·.outcome = .updated)
      + reports.countP (·.outcome = .unchanged) + reports.countP (·.outcome = .notFound)
      = reports.length := by
  induction reports with
  | nil => rfl
  | cons report reports ih =>
      simp only [List.countP_cons, List.length_cons]
      cases report.outcome <;> simp <;> omega

theorem PassReport.AccountsFor.total {pass : PassReport} {phase : Phase}
    (accounts : pass.AccountsFor phase) : pass.summary.total = phase.manifest.length := by
  have created := accounts.summary .created
  have updated := accounts.summary .updated
  have unchanged := accounts.summary .unchanged
  have notFound := accounts.summary .notFound
  have all := EntryReport.sum_countP pass.entries
  simp only [Summary.count] at created updated unchanged notFound
  rw [Summary.total, ← accounts.entries.length_eq]
  omega

namespace RunReport

theorem count_ofPasses (passes : List PassReport) (outcome : EntryOutcome) :
    (ofPasses passes).summary.count outcome = (passes.map (·.summary.count outcome)).sum := by
  cases outcome <;> simp [ofPasses, Summary.foldl_merge, Summary.count]

theorem total_ofPasses (passes : List PassReport) :
    (ofPasses passes).summary.total = (passes.map (·.summary.total)).sum := by
  induction passes with
  | nil => rfl
  | cons pass passes ih =>
      simp only [ofPasses, Summary.foldl_merge, Summary.total, List.map_cons, List.sum_cons]
        at ih ⊢
      omega

theorem isComplete_iff {report : RunReport} {phases : List Phase}
    (accounts : report.AccountsFor phases) :
    report.summary.isComplete = true ↔ ¬ report.Lacks := by
  have skipped : report.summary.skipped =
      (report.passes.flatMap (·.entries)).countP (·.outcome = .notFound) :=
    accounts.summary .notFound
  rw [Summary.isComplete, decide_eq_true_iff, skipped, List.countP_eq_zero, Lacks]
  constructor
  · rintro none ⟨pass, ran, entry, listed, lacking⟩
    exact none entry (List.mem_flatMap.mpr ⟨pass, ran, listed⟩) (decide_eq_true lacking)
  · intro none entry there lacking
    obtain ⟨pass, ran, listed⟩ := List.mem_flatMap.mp there
    exact none ⟨pass, ran, entry, listed, of_decide_eq_true lacking⟩

end RunReport

section Runs

variable {τ : Type} [SourceTree τ]

theorem Turn.accountsFor {entry : Entry} {rules : RuleTable} {tree tree' : τ}
    {relocated : Relocated} (turn : Turn entry rules tree (.ok relocated tree')) :
    (EntryReport.of entry relocated).AccountsFor entry := by
  cases turn with
  | missing absent => constructor <;> simp [EntryReport.of, Relocated.outcome, Relocated.result?]
  | @kept _ content loaded idle =>
      have fixup : entry.kind = .importFixup := by
        cases hk : entry.kind with
        | relocation => simp [Entry.mustWrite, hk] at idle
        | importFixup => rfl
      have same : (entry.rewrite rules content).after = (entry.rewrite rules content).before :=
        Entry.after_eq_of_idle idle
      constructor <;>
        simp [EntryReport.of, Relocated.outcome, Relocated.result?, Rewritten.beforeDigest,
          Rewritten.afterDigest, fixup, same]
  | written loaded due prepared stored =>
      cases hk : entry.kind <;> constructor <;>
        simp [EntryReport.of, Entry.settled, Relocated.outcome, Relocated.result?, hk]

theorem Course.accountsFor {tree tree' : τ} {visits : List Visit}
    (course : Course tree visits tree') :
    List.Forall₂ EntryReport.AccountsFor (visits.map Visit.report) (visits.map Visit.entry) := by
  induction course with
  | nil => exact .nil
  | cons turn _ ih => exact .cons turn.accountsFor ih

theorem Leg.accountsFor {leg : Leg} (whole : leg.Whole) {tree tree' : τ}
    (course : Course tree leg.visits tree') : leg.pass.AccountsFor leg.phase where
  name := rfl
  entries := by
    have entries : leg.visits.map Visit.entry = leg.phase.manifest := by
      have stops := congrArg (List.map Prod.snd) whole
      simpa [Phase.stops, Visit.stop, Function.comp_def] using stops
    rw [← entries]
    exact course.accountsFor
  summary outcome := Summary.count_ofReports _ outcome

theorem Passes.accountsFor {tree tree' : τ} {legs : List Leg} (passes : Passes tree legs tree') :
    List.Forall₂ PassReport.AccountsFor (legs.map Leg.pass) (legs.map Leg.phase) := by
  induction passes with
  | nil => exact .nil
  | cons course stops _ ih => exact .cons (Leg.accountsFor stops course) ih

end Runs

/-- Where each pass accounts for its phase, the sums over the passes account for the run. -/
theorem RunReport.accountsFor_ofPasses {passes : List PassReport} {phases : List Phase}
    (each : List.Forall₂ PassReport.AccountsFor passes phases) :
    (ofPasses passes).AccountsFor phases where
  passes := each
  summary outcome := by
    rw [count_ofPasses, ofPasses]
    induction each with
    | nil => rfl
    | cons first _ ih =>
        rw [List.map_cons, List.sum_cons, ih, first.summary, List.flatMap_cons,
          List.countP_append]
  total := by
    rw [total_ofPasses]
    induction each with
    | nil => rfl
    | cons first _ ih =>
        rw [List.map_cons, List.sum_cons, ih, first.total, List.map_cons, List.sum_cons]

namespace Plan

theorem select_eq_ok {plan : Plan} {names : List String} {phases : List Phase}
    (selected : plan.select names = .ok phases) :
    phases = plan.phases.filter fun phase => names.isEmpty || names.contains phase.name := by
  rw [select] at selected
  split at selected
  · rename_i all
    rw [← Except.ok.inj selected]
    exact (List.filter_eq_self.mpr fun _ _ => by rw [all, Bool.true_or]).symm
  · rename_i some
    split at selected
    · cases selected
    · simp [Bool.eq_false_iff.mpr some, ← Except.ok.inj selected]

/-- A run that goes through accounts for the phases that were asked for. -/
theorem accountsFor_of_run {τ : Type} [SourceTree τ] {plan : Plan} {names : List String}
    {tree : τ} {report : RunReport} {progress : Progress τ}
    (ran : plan.run names { tree } = .ok report progress) :
    ∃ phases, plan.select names = .ok phases ∧ report.AccountsFor phases := by
  cases selected : plan.select names with
  | error failure =>
      rw [run_of_refused selected] at ran
      cases ran
  | ok phases =>
      have ended := Phase.runAll_ended phases tree []
      rw [run_of_selected selected] at ran
      generalize Phase.runAll phases { tree } = result at ended ran
      cases ended with
      | finished passes all =>
          cases ran
          exact ⟨phases, rfl, all ▸ RunReport.accountsFor_ofPasses passes.accountsFor⟩
      | aborted => cases ran

end Plan

end Repackage
