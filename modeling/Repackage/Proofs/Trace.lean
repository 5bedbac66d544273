import Repackage.Proofs.Asks
import Repackage.Proofs.WellFormed

/-!
The trace of a run of a plan: the visits that its observer has heard of, and how the run
ends after them. An observer never forgets, and a set of trees that no access leaves is not
left by a run.
-/

namespace Repackage

variable {τ : Type} [SourceTree τ]

/-- A set of trees that no access leaves. -/
structure Closed (P : τ → Prop) : Prop where
  isFile : ∀ {tree : τ} (path : String), P tree → P (SourceTree.isFile path tree).2
  read : ∀ {tree : τ} (path : String), P tree → P (SourceTree.read path tree).2
  createDirs : ∀ {tree : τ} (path : String), P tree → P (SourceTree.createDirs path tree).2
  write : ∀ {tree : τ} (path content : String), P tree →
    P (SourceTree.write path content tree).2

namespace Closed

variable {P : τ → Prop}

theorem under (closed : Closed P) : ClosedUnder (fun _ => True) P where
  isFile _ h := closed.isFile _ h
  read _ h := closed.read _ h
  createDirs _ h := closed.createDirs _ h
  write _ h := closed.write _ _ h

theorem loaded (closed : Closed P) {tree tree' : τ} (h : P tree) {path content : String}
    (loaded : Loaded path tree content tree') : P tree' :=
  closed.under.loaded trivial trivial h loaded

theorem prepared (closed : Closed P) {tree tree' : τ} (h : P tree) {path : String}
    (prepared : Prepared path tree tree') : P tree' :=
  closed.under.prepared (fun _ => trivial) h prepared

theorem course (closed : Closed P) {tree tree' : τ} (h : P tree) {visits : List Visit}
    (course : Course tree visits tree') : P tree' :=
  closed.under.course (fun _ _ _ _ => trivial) h course

end Closed

namespace Phase

theorem runEntries_heard (phase : Phase) (entries : List Entry) (progress : Progress τ) :
    progress.events <+: (Ending.state (phase.runEntries entries progress)).events := by
  have ended := runEntries_ended phase entries progress.tree progress.events
  generalize phase.runEntries entries ⟨progress.tree, progress.events⟩ = result at ended
  cases ended <;> exact List.prefix_append _ _

theorem runAll_heard (phases : List Phase) (progress : Progress τ) :
    progress.events <+: (Ending.state (runAll phases progress)).events := by
  have ended := runAll_ended phases progress.tree progress.events
  generalize runAll phases ⟨progress.tree, progress.events⟩ = result at ended
  cases ended <;> exact List.prefix_append _ _

end Phase

def Event.entry? : Event → Option (String × EntryReport)
  | .entry phase report => some (phase, report)
  | .passFinished _ => none

/-- The entries that an observer has heard of. -/
def entriesHeard (events : List Event) : List (String × EntryReport) :=
  events.filterMap Event.entry?

def Visit.heard (visit : Visit) : String × EntryReport :=
  (visit.phase.name, visit.report)

theorem entriesHeard_append (events later : List Event) :
    entriesHeard (events ++ later) = entriesHeard events ++ entriesHeard later :=
  List.filterMap_append

theorem entriesHeard_visits (visits : List Visit) :
    entriesHeard (visits.map Visit.event) = visits.map Visit.heard := by
  induction visits with
  | nil => rfl
  | cons visit visits ih =>
      simp only [List.map_cons]
      rw [← ih]
      rfl

theorem entriesHeard_legs (legs : List Leg) :
    entriesHeard (legs.flatMap Leg.events) = (legs.flatMap Leg.visits).map Visit.heard := by
  induction legs with
  | nil => rfl
  | cons leg legs ih =>
      have last : entriesHeard [.passFinished leg.pass] = [] := rfl
      rw [List.flatMap_cons, entriesHeard_append, Leg.events, entriesHeard_append, last,
        entriesHeard_visits, List.append_nil, ih, List.flatMap_cons, List.map_append]

theorem Phase.run_trace (phase : Phase) (tree : τ) :
    ∃ visits reached, visits.map Visit.stop <+: phase.stops ∧ Course tree visits reached ∧
      entriesHeard (Ending.state (phase.run { tree })).events = visits.map Visit.heard ∧
      (reached = (Ending.state (phase.run { tree })).tree ∨
        ∃ entry ∈ phase.manifest, ∃ failure, Turn entry phase.rules reached
          (.error failure (Ending.state (phase.run { tree })).tree)) := by
  have ended := phase.run_ended tree []
  generalize phase.run { tree } = result at ended
  cases ended with
  | @finished visits tree' course stops =>
      refine ⟨visits, tree', stops ▸ List.prefix_rfl, course, ?_, .inl rfl⟩
      have heard := entriesHeard_legs [⟨phase, visits⟩]
      simpa only [List.flatMap_singleton, Ending.state, List.nil_append] using heard
  | @aborted visits entry rest reached _ failure course stops turn =>
      have listed : (phase, entry) ∈ phase.stops := by
        rw [stops]
        exact List.mem_append_right _ List.mem_cons_self
      obtain ⟨_, listed, same⟩ := List.mem_map.mp listed
      cases same
      exact ⟨visits, reached, stops ▸ List.prefix_append _ _, course, entriesHeard_visits visits,
        .inr ⟨entry, listed, failure, turn⟩⟩

namespace Plan

/-- The entries that a run of the plan visits unless it is cut short, in their order. -/
def stops (plan : Plan) (names : List String) : List (Phase × Entry) :=
  match plan.select names with
  | .ok phases => phases.flatMap Phase.stops
  | .error _ => []

/-- The visits of a run, and how it ends after them. -/
inductive Trace (plan : Plan) (names : List String) (tree : τ) (visits : List Visit) :
    EStateM.Result Failure (Progress τ) RunReport → Prop
  | refused {failure : Failure} (unselected : plan.select names = .error failure)
      (idle : visits = []) : Trace plan names tree visits (.error failure { tree })
  | finished {report : RunReport} {tree' : τ} {events : List Event}
      (course : Course tree visits tree') (all : plan.stops names = visits.map Visit.stop)
      (heard : entriesHeard events = visits.map Visit.heard) :
      Trace plan names tree visits (.ok report ⟨tree', events⟩)
  | cut {phase : Phase} {entry : Entry} {rest : List (Phase × Entry)} {reached tree' : τ}
      {failure : Failure} {events : List Event} (course : Course tree visits reached)
      (before : plan.stops names = visits.map Visit.stop ++ (phase, entry) :: rest)
      (turn : Turn entry phase.rules reached (.error failure tree'))
      (heard : entriesHeard events = visits.map Visit.heard) :
      Trace plan names tree visits
        (.error (.aborted phase.name entry.source failure) ⟨tree', events⟩)

theorem run_trace (plan : Plan) (names : List String) (tree : τ) :
    ∃ visits, plan.Trace names tree visits (plan.run names { tree }) := by
  cases hs : plan.select names with
  | error failure =>
      rw [run_of_refused hs]
      exact ⟨[], .refused hs rfl⟩
  | ok phases =>
      have stops : plan.stops names = phases.flatMap Phase.stops := by
        simp only [Plan.stops, hs]
      have ended := Phase.runAll_ended phases tree []
      rw [run_of_selected hs]
      generalize Phase.runAll phases { tree } = result at ended
      cases ended with
      | @finished legs tree' passes all =>
          refine ⟨legs.flatMap Leg.visits, .finished passes.course ?_ (entriesHeard_legs legs)⟩
          rw [stops, passes.stops, all]
      | @aborted legs phase later visits entry rest _ _ _ _ passes before course stop turn =>
          have reached : plan.stops names = (legs.flatMap Leg.visits ++ visits).map Visit.stop
              ++ (phase, entry) :: (rest.map (phase, ·) ++ later.flatMap Phase.stops) := by
            rw [stops, before, List.flatMap_append, List.flatMap_cons, stop, List.map_append,
              passes.stops]
            simp only [List.append_assoc, List.cons_append]
          refine ⟨legs.flatMap Leg.visits ++ visits,
            .cut (passes.course.append course) reached turn ?_⟩
          rw [List.nil_append, entriesHeard_append, entriesHeard_legs, entriesHeard_visits,
            List.map_append]

theorem Trace.stops_prefix {plan : Plan} {names : List String} {tree : τ}
    {visits : List Visit} {result : EStateM.Result Failure (Progress τ) RunReport}
    (h : plan.Trace names tree visits result) : visits.map Visit.stop <+: plan.stops names := by
  cases h with
  | refused _ idle => simp [idle]
  | finished _ all _ => exact all ▸ List.prefix_rfl
  | cut _ before _ _ =>
      rw [before]
      exact List.prefix_append _ _

theorem Trace.heard_eq {plan : Plan} {names : List String} {tree : τ} {visits : List Visit}
    {result : EStateM.Result Failure (Progress τ) RunReport}
    (h : plan.Trace names tree visits result) :
    entriesHeard (Ending.state result).events = visits.map Visit.heard := by
  cases h with
  | refused _ idle => rw [idle]; rfl
  | finished _ _ heard => exact heard
  | cut _ _ _ heard => exact heard

theorem Trace.course {plan : Plan} {names : List String} {tree : τ} {visits : List Visit}
    {result : EStateM.Result Failure (Progress τ) RunReport}
    (h : plan.Trace names tree visits result) : ∃ reached, Course tree visits reached := by
  cases h with
  | refused _ idle => exact ⟨tree, idle ▸ .nil⟩
  | finished course _ _ => exact ⟨_, course⟩
  | cut course _ _ _ => exact ⟨_, course⟩

theorem mem_stops_iff {plan : Plan} {names : List String} {phase : Phase} {entry : Entry} :
    (phase, entry) ∈ plan.stops names ↔
      ∃ phases, plan.select names = .ok phases ∧ phase ∈ phases ∧ entry ∈ phase.manifest := by
  cases hs : plan.select names with
  | error failure => simp [stops, hs]
  | ok phases =>
      simp only [stops, hs, Phase.stops, List.mem_flatMap, List.mem_map, Prod.mk.injEq,
        Except.ok.injEq]
      constructor
      · rintro ⟨_, selected, _, listed, rfl, rfl⟩
        exact ⟨phases, rfl, selected, listed⟩
      · rintro ⟨_, rfl, selected, listed⟩
        exact ⟨phase, selected, entry, listed, rfl, rfl⟩

theorem wellFormed_of_mem_stops {plan : Plan} (wellFormed : plan.WellFormed)
    {names : List String} {phase : Phase} {entry : Entry}
    (h : (phase, entry) ∈ plan.stops names) : entry.WellFormed := by
  obtain ⟨_, selected, listed, stops⟩ := mem_stops_iff.mp h
  exact selected_wellFormed wellFormed selected _ listed _ stops

theorem Trace.wellFormed {plan : Plan} (wellFormed : plan.WellFormed) {names : List String}
    {tree : τ} {visits : List Visit} {result : EStateM.Result Failure (Progress τ) RunReport}
    (h : plan.Trace names tree visits result) : ∀ visit ∈ visits, visit.entry.WellFormed := by
  intro visit hv
  have stop : visit.stop ∈ plan.stops names :=
    h.stops_prefix.subset (List.mem_map_of_mem hv)
  exact wellFormed_of_mem_stops wellFormed stop

/-- The run is cut short at an entry, which its failure names. The observer has heard of all
entries before that one. -/
def CutAt (plan : Plan) (names : List String)
    (result : EStateM.Result Failure (Progress τ) RunReport) (index : Nat) : Prop :=
  ∃ phase entry cause, (plan.stops names)[index]? = some (phase, entry) ∧
    Ending.answer result = .error (.aborted phase.name entry.source cause) ∧
    (entriesHeard (Ending.state result).events).length = index

/-- A run of a selection that fails is cut short at one of its entries. -/
theorem cutAt_of_error {plan : Plan} {names : List String} {phases : List Phase} {tree : τ}
    {failure : Failure} (selected : plan.select names = .ok phases)
    (h : Ending.answer (plan.run names { tree }) = .error failure) :
    plan.CutAt names (plan.run names { tree })
      (entriesHeard (Ending.state (plan.run names { tree })).events).length := by
  obtain ⟨visits, trace⟩ := plan.run_trace names tree
  generalize plan.run names { tree } = result at h trace
  cases trace with
  | refused unselected _ => cases selected.symm.trans unselected
  | finished _ _ _ => cases h
  | @cut phase entry _ _ _ cause _ _ before _ heard =>
      refine ⟨phase, entry, cause, ?_, rfl, rfl⟩
      rw [Ending.state, heard, before, List.getElem?_append_right (by simp)]
      simp

end Plan

theorem ClosedUnder.run {asked : Call → Prop} {P : τ → Prop} (closed : ClosedUnder asked P)
    {plan : Plan} {names : List String}
    (asks : ∀ phase entry, (phase, entry) ∈ plan.stops names →
      ∀ call, entry.Asks call → asked call)
    {tree : τ} (h : P tree) : P (Ending.state (plan.run names { tree })).tree := by
  obtain ⟨visits, trace⟩ := plan.run_trace names tree
  have ofVisits : ∀ visit ∈ visits, ∀ call, visit.entry.Asks call → asked call := by
    intro visit hv
    exact asks visit.phase visit.entry (trace.stops_prefix.subset (List.mem_map_of_mem hv))
  generalize plan.run names { tree } = result at trace
  cases trace with
  | refused _ _ => exact h
  | finished course _ _ => exact closed.course ofVisits h course
  | cut course before turn _ =>
      have ofEntry := asks _ _ (before ▸ List.mem_append_right _ List.mem_cons_self)
      exact closed.turn ofEntry (closed.course ofVisits h course) turn

theorem Closed.run {P : τ → Prop} (closed : Closed P) {tree : τ} (h : P tree) (plan : Plan)
    (names : List String) : P (Ending.state (plan.run names { tree })).tree :=
  closed.under.run (fun _ _ _ _ _ => trivial) h

end Repackage
