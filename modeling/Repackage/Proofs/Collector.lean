import Mathlib.Data.List.Induction
import Repackage.Program
import Repackage.Proofs.Trace
import Repackage.Tree.Memory

/-!
What a collector gathers from a run. It knows no phases and no plan, only events: an entry
opens a pass or goes on with the open one, and the report of a finished pass replaces the pass
that its entries opened. So it ends with the passes that finished, and with one more if a pass
was cut short behind its first entry.
-/

namespace Repackage

namespace Summary

def count (summary : Summary) : EntryOutcome → Nat
  | .created => summary.created
  | .updated => summary.updated
  | .unchanged => summary.unchanged
  | .notFound => summary.skipped

theorem count_record (summary : Summary) (recorded outcome : EntryOutcome) :
    (summary.record recorded).count outcome
      = summary.count outcome + if recorded = outcome then 1 else 0 := by
  cases recorded <;> cases outcome <;> rfl

theorem ofReports_concat (reports : List EntryReport) (report : EntryReport) :
    ofReports (reports ++ [report]) = (ofReports reports).record report.outcome := by
  rw [ofReports, List.foldl_append]
  rfl

/-- A summary counts the entries with each outcome. -/
theorem count_ofReports (reports : List EntryReport) (outcome : EntryOutcome) :
    (ofReports reports).count outcome = reports.countP (·.outcome = outcome) := by
  induction reports using List.reverseRecOn with
  | nil => cases outcome <;> rfl
  | append_singleton reports report ih =>
      rw [ofReports_concat, count_record, ih, List.countP_append, List.countP_singleton]
      simp

end Summary

/-- The pass that a collector makes of entries it hears of, if there are any. It bears the name
of the first one's phase. -/
def cutPass : List (String × EntryReport) → List PassReport
  | [] => []
  | (phase, report) :: others =>
      let reports := report :: others.map Prod.snd
      [⟨phase, reports, Summary.ofReports reports⟩]

@[simp] theorem cutPass_nil : cutPass [] = [] :=
  rfl

theorem length_cutPass {heard : List (String × EntryReport)} (told : heard ≠ []) :
    (cutPass heard).length = 1 := by
  obtain ⟨first, others, rfl⟩ := List.exists_cons_of_ne_nil told
  rfl

namespace Leg

/-- Every entry of the phase had its turn, in the order of the manifest. -/
def Whole (leg : Leg) : Prop :=
  leg.visits.map Visit.stop = leg.phase.stops

/-- The pass that the entries of a leg have opened, if there is one. -/
def opened (leg : Leg) : List PassReport :=
  if leg.visits.isEmpty then [] else [leg.pass]

theorem cutPass_heard {leg : Leg} (own : ∀ visit ∈ leg.visits, visit.phase = leg.phase) :
    cutPass (leg.visits.map Visit.heard) = leg.opened := by
  obtain ⟨phase, visits⟩ := leg
  cases visits with
  | nil => rfl
  | cons first others =>
      obtain rfl : first.phase = phase := own first List.mem_cons_self
      simp [cutPass, opened, pass, Visit.heard, Function.comp_def]

theorem exists_of_mem {legs : List Leg} {last : Leg} {pass : PassReport}
    (h : pass ∈ legs.map Leg.pass ++ last.opened) : ∃ leg : Leg, leg.pass = pass := by
  rcases List.mem_append.mp h with h | h
  · obtain ⟨leg, -, rfl⟩ := List.mem_map.mp h
    exact ⟨leg, rfl⟩
  · rw [opened] at h
    split at h
    · cases h
    · exact ⟨last, (List.mem_singleton.mp h).symm⟩

theorem phase_of_prefix {leg : Leg} {entries : List Entry}
    (stops : leg.visits.map Visit.stop <+: entries.map (leg.phase, ·)) :
    ∀ visit ∈ leg.visits, visit.phase = leg.phase := by
  intro visit hv
  have stop := stops.subset (List.mem_map_of_mem hv)
  obtain ⟨_, -, same⟩ := List.mem_map.mp stop
  exact (congrArg Prod.fst same).symm

theorem phase_of_mem {leg : Leg} {entries : List Entry}
    (stops : leg.visits.map Visit.stop = entries.map (leg.phase, ·)) :
    ∀ visit ∈ leg.visits, visit.phase = leg.phase :=
  phase_of_prefix ⟨[], by rw [List.append_nil, stops]⟩

end Leg

namespace Collector

theorem hearAll_append (collector : Collector) (first second : List Event) :
    collector.hearAll (first ++ second) = (collector.hearAll first).hearAll second :=
  List.foldl_append

/-- A collector with the passes that finished and the entries heard of since then. -/
def holding (closed : List PassReport) (heard : List (String × EntryReport)) : Collector :=
  ⟨closed ++ cutPass heard, !heard.isEmpty⟩

section Hearing

variable (closed : List PassReport) (heard : List (String × EntryReport))

theorem hear_entry (phase : String) (report : EntryReport) :
    (holding closed heard).hear (.entry phase report)
      = holding closed (heard ++ [(phase, report)]) := by
  cases heard with
  | nil => simp [holding, hear, cutPass, addEntry, Summary.ofReports]
  | cons first others =>
      have counted := Summary.ofReports_concat (first.2 :: others.map Prod.snd) report
      rw [List.cons_append] at counted
      simp [holding, hear, cutPass, addEntry, counted]

theorem hear_passFinished (pass : PassReport) :
    (holding closed heard).hear (.passFinished pass) = holding (closed ++ [pass]) [] := by
  cases heard <;> simp [holding, hear, cutPass]

theorem hearAll_entries (visits : List Visit) :
    (holding closed heard).hearAll (visits.map Visit.event)
      = holding closed (heard ++ visits.map Visit.heard) := by
  induction visits generalizing heard with
  | nil => simp [hearAll]
  | cons visit visits ih =>
      calc (holding closed heard).hearAll ((visit :: visits).map Visit.event)
          = ((holding closed heard).hear visit.event).hearAll (visits.map Visit.event) := rfl
        _ = (holding closed (heard ++ [visit.heard])).hearAll (visits.map Visit.event) :=
            congrArg (hearAll · _) (hear_entry closed heard _ _)
        _ = holding closed (heard ++ (visit :: visits).map Visit.heard) := by
            rw [ih, List.append_assoc, List.map_cons, List.singleton_append]

end Hearing

/-- Hearing of entries, a collector gathers them in a pass that stays open. -/
theorem hearAll_visits (passes : List PassReport) {leg : Leg}
    (own : ∀ visit ∈ leg.visits, visit.phase = leg.phase) :
    hearAll ⟨passes, false⟩ (leg.visits.map Visit.event)
      = ⟨passes ++ leg.opened, !leg.visits.isEmpty⟩ := by
  have gathered := hearAll_entries passes [] leg.visits
  simpa [holding, Leg.cutPass_heard own] using gathered

theorem hearAll_leg (passes : List PassReport) {leg : Leg} (whole : leg.Whole) :
    hearAll ⟨passes, false⟩ leg.events = ⟨passes ++ [leg.pass], false⟩ := by
  rw [Leg.events, hearAll_append, hearAll_visits passes (Leg.phase_of_mem whole)]
  cases empty : leg.visits.isEmpty <;> simp [hearAll, hear, Leg.opened, empty]

theorem hearAll_legs (passes : List PassReport) {legs : List Leg}
    (whole : ∀ leg ∈ legs, leg.Whole) :
    hearAll ⟨passes, false⟩ (legs.flatMap Leg.events) = ⟨passes ++ legs.map Leg.pass, false⟩ := by
  induction legs generalizing passes with
  | nil => simp [hearAll]
  | cons leg legs ih =>
      obtain ⟨first, others⟩ := List.forall_mem_cons.mp whole
      rw [List.flatMap_cons, hearAll_append, hearAll_leg passes first, ih _ others]
      simp

end Collector

variable {τ : Type} [SourceTree τ]

theorem Passes.whole {tree tree' : τ} {legs : List Leg} (h : Passes tree legs tree') :
    ∀ leg ∈ legs, leg.Whole := by
  induction h with
  | nil => simp
  | cons _ stops _ ih => exact List.forall_mem_cons.mpr ⟨stops, ih⟩

theorem entries_of_legs (legs : List Leg) (last : Leg) :
    (legs.map Leg.pass ++ last.opened).flatMap (·.entries)
      = (legs.flatMap Leg.visits ++ last.visits).map Visit.report := by
  have ofLast : last.opened.flatMap (·.entries) = last.visits.map Visit.report := by
    cases empty : last.visits <;> simp [Leg.opened, Leg.pass, empty]
  rw [List.flatMap_append, ofLast, List.map_append, List.flatMap_map, List.map_flatMap]
  rfl

namespace Plan

/-- The observer of a run that goes through hears of each selected phase, of its entries and
then of its pass, and a collector has the passes that the run returns. A run that is cut short
at an entry has told of the phases before, in the same way, and of the entries before that one.
A collector then has the passes of those phases, as a run of them alone returns them, and one
more if an entry of the last phase was done. These passes, which count and list exactly the
entries that were done, are what the response to a run names as completed. -/
theorem run_accounted (plan : Plan) {names : List String} {phases : List Phase}
    (selected : plan.select names = .ok phases) (tree : τ) :
    (∀ report progress, plan.run names { tree } = .ok report progress →
      ∃ legs : List Leg, phases = legs.map Leg.phase ∧ (∀ leg ∈ legs, leg.Whole) ∧
        progress.events = legs.flatMap Leg.events ∧ report.passes = legs.map Leg.pass ∧
        ({} : Collector).hearAll progress.events = ⟨report.passes, false⟩) ∧
    ∀ failure progress, plan.run names { tree } = .error failure progress →
      ∃ (legs : List Leg) (last : Leg) (later : List Phase) (entry : Entry) (rest : List Entry)
        (cause : Failure),
        phases = legs.map Leg.phase ++ last.phase :: later ∧ (∀ leg ∈ legs, leg.Whole) ∧
        last.phase.stops = last.visits.map Visit.stop
          ++ (last.phase, entry) :: rest.map (last.phase, ·) ∧
        failure = .aborted last.phase.name entry.source cause ∧
        progress.events = legs.flatMap Leg.events ++ last.visits.map Visit.event ∧
        (∃ report reached, Plan.run { plan with phases := legs.map Leg.phase } [] { tree }
          = .ok report reached ∧ report.passes = legs.map Leg.pass) ∧
        let completed := legs.map Leg.pass ++ if last.visits.isEmpty then [] else [last.pass]
        (({} : Collector).hearAll progress.events).passes = completed ∧
        (∀ pass ∈ completed, ∀ outcome,
          pass.summary.count outcome = pass.entries.countP (·.outcome = outcome)) ∧
        completed.flatMap (·.entries) = (entriesHeard progress.events).map Prod.snd ∧
        ∀ (options : RunOptions) (strict : Bool) (execution : Execution) (output : Sink),
          execution.result = .error failure → execution.events = progress.events →
          Program.respondRun options strict execution output
            = Program.answer output execution.disk (Response.failure failure completed).render
              failure.exitCode := by
  have ended := Phase.runAll_ended phases tree []
  rw [run_of_selected selected]
  generalize Phase.runAll phases { tree } = result at ended
  cases ended with
  | @finished legs tree' passes all =>
      refine ⟨fun report progress ran => ?_, fun failure progress cut => by cases cut⟩
      cases ran
      exact ⟨legs, all, passes.whole, rfl, rfl, Collector.hearAll_legs [] passes.whole⟩
  | @aborted legs phase later visits entry rest between _ _ cause passes before _ stops _ =>
      refine ⟨fun report progress ran => (by cases ran), fun failure progress cut => ?_⟩
      cases cut
      let last : Leg := ⟨phase, visits⟩
      have own : ∀ visit ∈ last.visits, visit.phase = last.phase := by
        have done : last.visits.map Visit.stop
            = (phase.manifest.take visits.length).map (phase, ·) := by
          rw [List.map_take, ← Phase.stops, stops, List.take_left' (by simp)]
        exact Leg.phase_of_mem done
      have alone : Plan.run { plan with phases := legs.map Leg.phase } [] { tree }
          = .ok (RunReport.ofPasses (legs.map Leg.pass)) ⟨between, legs.flatMap Leg.events⟩ := by
        rw [run_of_selected rfl, Phase.runAll_of_passes passes []]
        rfl
      have gathered : ({} : Collector).hearAll
          (legs.flatMap Leg.events ++ last.visits.map Visit.event)
            = ⟨legs.map Leg.pass ++ last.opened, !last.visits.isEmpty⟩ := by
        rw [Collector.hearAll_append, Collector.hearAll_legs [] passes.whole,
          Collector.hearAll_visits _ own]
        rfl
      refine ⟨legs, last, later, entry, rest, cause, before, passes.whole, stops, rfl, rfl,
        ⟨_, _, alone, rfl⟩, congrArg Collector.passes gathered, ?_, ?_, ?_⟩
      · intro pass listed outcome
        obtain ⟨leg, rfl⟩ := Leg.exists_of_mem listed
        exact Summary.count_ofReports _ outcome
      · rw [← Leg.opened, entries_of_legs, List.nil_append, entriesHeard_append,
          entriesHeard_legs, entriesHeard_visits, ← List.map_append, List.map_map]
        rfl
      · intro options strict execution output failed heard
        rw [Program.respondRun, failed, heard, List.nil_append, gathered]
        rfl

/-- A relocation, a phase without entries, and a fixup before a relocation that cannot be
written. -/
def threePhases : Plan where
  root := "."
  phases :=
    [{ name := "copy", rules := [], manifest := [⟨"a", "b", some ⟨"p", "q"⟩⟩] },
      { name := "rest", rules := [], manifest := [] },
      { name := "fix", rules := [],
        manifest := [⟨"b", "b", none⟩, ⟨"b", "c", some ⟨"p", "q"⟩⟩] }]

def closedAtC : MemoryTree where
  files := ⟨[("a", "x")]⟩
  badWrite := ⟨[("c", .noSpace)]⟩

theorem run_accounted_threePhases :
    ∃ (failure : Failure) (progress : Progress MemoryTree) (legs : List Leg) (last : Leg),
      threePhases.run [] { tree := closedAtC } = .error failure progress ∧ legs.length = 2 ∧
      (({} : Collector).hearAll progress.events).passes = legs.map Leg.pass ++ [last.pass] := by
  have gathered : (({} : Collector).hearAll
      (Ending.state (threePhases.run [] { tree := closedAtC })).events).passes.length = 3 := by
    decide +kernel
  have fails : (Ending.answer (threePhases.run [] { tree := closedAtC })).isOk = false := by
    decide +kernel
  have selected : threePhases.select [] = .ok threePhases.phases := rfl
  obtain ⟨-, ofCut⟩ := threePhases.run_accounted selected closedAtC
  generalize threePhases.run [] { tree := closedAtC } = result at gathered fails ofCut
  cases result with
  | ok report progress => cases fails
  | error failure progress =>
      obtain ⟨legs, last, later, _, _, _, phases, -, -, -, -, -, passes, -⟩ :=
        ofCut failure progress rfl
      have three : 3 = legs.length + (later.length + 1) := by
        simpa [threePhases] using congrArg List.length phases
      rw [Ending.state, passes] at gathered
      -- two phases before the last one at most, so the third pass is that of the last one
      cases empty : last.visits.isEmpty with
      | true =>
          simp [empty] at gathered
          omega
      | false =>
          refine ⟨failure, progress, legs, last, rfl, ?_, by simpa [empty] using passes⟩
          simpa [empty] using gathered

end Plan
end Repackage
