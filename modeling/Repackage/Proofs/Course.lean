import Repackage.Proofs.Turn

/-!
The course of a run: the turns that went well, one after the other, and the trees between
them. Passes and runs of a plan are traced back to it. Each either finishes, and then has
visited every entry, or stops at the first turn that fails, and its observer has heard of
the visits before that turn and of nothing else.
-/

namespace Repackage

namespace Ending

variable {ε σ α β : Type}

/-- The state in which an activity ends, well or not. -/
def state : EStateM.Result ε σ α → σ
  | .ok _ state => state
  | .error _ state => state

def answer : EStateM.Result ε σ α → Except ε α
  | .ok value _ => .ok value
  | .error failure _ => .error failure

def map (f : α → β) : EStateM.Result ε σ α → EStateM.Result ε σ β
  | .ok value state => .ok (f value) state
  | .error failure state => .error failure state

@[simp] theorem map_ok (f : α → β) (value : α) (state : σ) :
    map (ε := ε) f (.ok value state) = .ok (f value) state :=
  rfl

@[simp] theorem map_error (f : α → β) (failure : ε) (state : σ) :
    map f (.error failure state) = .error failure state :=
  rfl

@[simp] theorem state_map (f : α → β) (result : EStateM.Result ε σ α) :
    state (map f result) = state result := by
  cases result <;> rfl

@[simp] theorem answer_map (f : α → β) (result : EStateM.Result ε σ α) :
    answer (map f result) = (answer result).map f := by
  cases result <;> rfl

end Ending

/-- An entry that had its turn in a pass over a phase, and what was done for it. -/
structure Visit where
  phase : Phase
  entry : Entry
  relocated : Relocated

namespace Visit

def report (visit : Visit) : EntryReport :=
  EntryReport.of visit.entry visit.relocated

def event (visit : Visit) : Event :=
  .entry visit.phase.name visit.report

def stop (visit : Visit) : Phase × Entry :=
  (visit.phase, visit.entry)

theorem entry_mem {visits : List Visit} {phase : Phase} {entries : List Entry}
    (stops : visits.map Visit.stop = entries.map (phase, ·)) {visit : Visit}
    (h : visit ∈ visits) : visit.entry ∈ entries := by
  have stop := List.mem_map_of_mem (f := Visit.stop) h
  rw [stops] at stop
  obtain ⟨entry, he, same⟩ := List.mem_map.mp stop
  obtain rfl : entry = visit.entry := congrArg Prod.snd same
  exact he

end Visit

/-- The visits that a finished pass over the phase makes, in their order. -/
def Phase.stops (phase : Phase) : List (Phase × Entry) :=
  phase.manifest.map (phase, ·)

structure Leg where
  phase : Phase
  visits : List Visit

namespace Leg

def pass (leg : Leg) : PassReport where
  phase := leg.phase.name
  entries := leg.visits.map Visit.report
  summary := Summary.ofReports (leg.visits.map Visit.report)

def events (leg : Leg) : List Event :=
  leg.visits.map Visit.event ++ [.passFinished leg.pass]

end Leg

variable {τ : Type} [SourceTree τ]

inductive Course : τ → List Visit → τ → Prop
  | nil {tree : τ} : Course tree [] tree
  | cons {tree between tree' : τ} {visit : Visit} {visits : List Visit}
      (turn : Turn visit.entry visit.phase.rules tree (.ok visit.relocated between))
      (rest : Course between visits tree') : Course tree (visit :: visits) tree'

namespace Course

theorem append {tree between tree' : τ} {first second : List Visit}
    (h : Course tree first between) (h' : Course between second tree') :
    Course tree (first ++ second) tree' := by
  induction h with
  | nil => exact h'
  | cons turn _ ih => exact .cons turn (ih h')

theorem split {tree tree' : τ} {first second : List Visit}
    (h : Course tree (first ++ second) tree') :
    ∃ between, Course tree first between ∧ Course between second tree' := by
  induction first generalizing tree with
  | nil => exact ⟨tree, .nil, h⟩
  | cons visit first ih =>
      cases h with
      | cons turn rest =>
          obtain ⟨between, front, back⟩ := ih rest
          exact ⟨between, .cons turn front, back⟩

/-- Every visit of a course is a turn between two trees of the course. -/
theorem at_visit {tree tree' : τ} {before after : List Visit} {visit : Visit}
    (h : Course tree (before ++ visit :: after) tree') :
    ∃ between next, Course tree before between ∧
      Turn visit.entry visit.phase.rules between (.ok visit.relocated next) ∧
      Course next after tree' := by
  obtain ⟨between, front, back⟩ := h.split
  cases back with
  | cons turn rest => exact ⟨between, _, front, turn, rest⟩

end Course

namespace Phase

theorem runEntries_of_ok {phase : Phase} {entry : Entry} {tree tree' : τ}
    {relocated : Relocated} (turn : Turn entry phase.rules tree (.ok relocated tree'))
    (rest : List Entry) (events : List Event) :
    phase.runEntries (entry :: rest) ⟨tree, events⟩ =
      Ending.map (EntryReport.of entry relocated :: ·) (phase.runEntries rest
        ⟨tree', events ++ [.entry phase.name (EntryReport.of entry relocated)]⟩) := by
  have run := Entry.run_of_ok (Entry.turn_iff.mp turn)
  simp only [runEntries, bind, EStateM.bind, RunM.onTree, EStateM.adaptExcept, run, RunM.tell]
  cases phase.runEntries rest ⟨tree', _⟩ <;> rfl

theorem runEntries_of_error {phase : Phase} {entry : Entry} {tree tree' : τ}
    {failure : Failure} (turn : Turn entry phase.rules tree (.error failure tree'))
    (rest : List Entry) (events : List Event) :
    phase.runEntries (entry :: rest) ⟨tree, events⟩ =
      .error (.aborted phase.name entry.source failure) ⟨tree', events⟩ := by
  have run := Entry.run_of_error (Entry.turn_iff.mp turn)
  simp only [runEntries, bind, EStateM.bind, RunM.onTree, EStateM.adaptExcept, run]

/-- A pass over entries whose turns go well goes through. -/
theorem runEntries_of_course {phase : Phase} {entries : List Entry} {tree tree' : τ}
    {visits : List Visit} (course : Course tree visits tree')
    (stops : visits.map Visit.stop = entries.map (phase, ·)) (events : List Event) :
    phase.runEntries entries ⟨tree, events⟩
      = .ok (visits.map Visit.report) ⟨tree', events ++ visits.map Visit.event⟩ := by
  induction course generalizing entries events with
  | nil =>
      obtain rfl : entries = [] := by simpa using stops.symm
      simp [runEntries, pure, EStateM.pure]
  | @cons _ _ _ visit visits turn _ ih =>
      cases entries with
      | nil => simp at stops
      | cons entry entries =>
          obtain ⟨phase', entry', relocated⟩ := visit
          simp only [List.map_cons, Visit.stop, List.cons.injEq, Prod.mk.injEq] at stops
          obtain ⟨⟨rfl, rfl⟩, stops⟩ := stops
          rw [runEntries_of_ok turn, ih stops, Ending.map_ok, List.map_cons, List.map_cons,
            List.append_assoc]
          rfl

/-- How a pass over entries of a phase ends. -/
inductive EntriesEnded (phase : Phase) (entries : List Entry) (tree : τ)
    (events : List Event) : EStateM.Result Failure (Progress τ) (List EntryReport) → Prop
  | finished {visits : List Visit} {tree' : τ} (course : Course tree visits tree')
      (stops : visits.map Visit.stop = entries.map (phase, ·)) :
      EntriesEnded phase entries tree events
        (.ok (visits.map Visit.report) ⟨tree', events ++ visits.map Visit.event⟩)
  | aborted {visits : List Visit} {entry : Entry} {rest : List Entry} {reached tree' : τ}
      {failure : Failure} (course : Course tree visits reached)
      (stops : entries.map (phase, ·) =
        visits.map Visit.stop ++ (phase, entry) :: rest.map (phase, ·))
      (turn : Turn entry phase.rules reached (.error failure tree')) :
      EntriesEnded phase entries tree events
        (.error (.aborted phase.name entry.source failure)
          ⟨tree', events ++ visits.map Visit.event⟩)

theorem runEntries_ended (phase : Phase) (entries : List Entry) (tree : τ)
    (events : List Event) :
    EntriesEnded phase entries tree events (phase.runEntries entries ⟨tree, events⟩) := by
  induction entries generalizing tree events with
  | nil =>
      change EntriesEnded phase [] tree events (.ok [] ⟨tree, events⟩)
      have done : EntriesEnded phase [] tree events _ := .finished (.nil : Course tree [] tree) rfl
      simpa using done
  | cons entry rest ih =>
      cases ended : entry.relocate phase.rules tree with
      | error failure tree' =>
          have turn := Entry.turn_iff.mpr ended
          rw [runEntries_of_error turn]
          have stops : (entry :: rest).map (phase, ·)
              = ([] : List Visit).map Visit.stop ++ (phase, entry) :: rest.map (phase, ·) := rfl
          have cut : EntriesEnded phase (entry :: rest) tree events _ := .aborted .nil stops turn
          simpa using cut
      | ok relocated between =>
          have turn := Entry.turn_iff.mpr ended
          rw [runEntries_of_ok turn]
          let visit : Visit := ⟨phase, entry, relocated⟩
          have ended := ih between (events ++ [visit.event])
          change EntriesEnded phase (entry :: rest) tree events (Ending.map (visit.report :: ·)
            (phase.runEntries rest ⟨between, events ++ [visit.event]⟩))
          generalize phase.runEntries rest ⟨between, events ++ [visit.event]⟩ = result at ended
          cases ended with
          | @finished visits tree' course stops =>
              have stops' : (visit :: visits).map Visit.stop
                  = (entry :: rest).map (phase, ·) := by
                simp only [List.map_cons, stops]
                rfl
              have course' : Course tree (visit :: visits) tree' := .cons turn course
              have done : EntriesEnded phase (entry :: rest) tree events _ :=
                .finished course' stops'
              simpa [List.append_assoc] using done
          | @aborted visits failed later reached tree' failure course stops turn' =>
              have stops' : (entry :: rest).map (phase, ·)
                  = (visit :: visits).map Visit.stop
                    ++ (phase, failed) :: later.map (phase, ·) := by
                simp only [List.map_cons, stops]
                rfl
              have course' : Course tree (visit :: visits) reached := .cons turn course
              have cut : EntriesEnded phase (entry :: rest) tree events _ :=
                .aborted course' stops' turn'
              simpa [List.append_assoc] using cut

inductive PassEnded (phase : Phase) (tree : τ) (events : List Event) :
    EStateM.Result Failure (Progress τ) PassReport → Prop
  | finished {visits : List Visit} {tree' : τ} (course : Course tree visits tree')
      (stops : visits.map Visit.stop = phase.stops) :
      PassEnded phase tree events
        (.ok (Leg.pass ⟨phase, visits⟩) ⟨tree', events ++ Leg.events ⟨phase, visits⟩⟩)
  | aborted {visits : List Visit} {entry : Entry} {rest : List Entry} {reached tree' : τ}
      {failure : Failure} (course : Course tree visits reached)
      (stops : phase.stops = visits.map Visit.stop ++ (phase, entry) :: rest.map (phase, ·))
      (turn : Turn entry phase.rules reached (.error failure tree')) :
      PassEnded phase tree events
        (.error (.aborted phase.name entry.source failure)
          ⟨tree', events ++ visits.map Visit.event⟩)

theorem run_ended (phase : Phase) (tree : τ) (events : List Event) :
    PassEnded phase tree events (phase.run ⟨tree, events⟩) := by
  have ended := runEntries_ended phase phase.manifest tree events
  simp only [run, bind, EStateM.bind]
  generalize phase.runEntries phase.manifest ⟨tree, events⟩ = result at ended
  cases ended with
  | finished course stops =>
      have done : PassEnded phase tree events _ := .finished course stops
      rwa [Leg.events, ← List.append_assoc] at done
  | aborted course stops turn => exact .aborted course stops turn

end Phase

/-- Passes that finished, one after the other. -/
inductive Passes : τ → List Leg → τ → Prop
  | nil {tree : τ} : Passes tree [] tree
  | cons {tree between tree' : τ} {leg : Leg} {legs : List Leg}
      (course : Course tree leg.visits between)
      (stops : leg.visits.map Visit.stop = leg.phase.stops)
      (rest : Passes between legs tree') : Passes tree (leg :: legs) tree'

namespace Passes

theorem course {tree tree' : τ} {legs : List Leg} (h : Passes tree legs tree') :
    Course tree (legs.flatMap Leg.visits) tree' := by
  induction h with
  | nil => exact .nil
  | cons course _ _ ih => exact course.append ih

theorem stops {tree tree' : τ} {legs : List Leg} (h : Passes tree legs tree') :
    (legs.flatMap Leg.visits).map Visit.stop = (legs.map Leg.phase).flatMap Phase.stops := by
  induction h with
  | nil => rfl
  | cons _ stops _ ih => simp [stops, ih]

end Passes

namespace Phase

inductive RunEnded (phases : List Phase) (tree : τ) (events : List Event) :
    EStateM.Result Failure (Progress τ) (List PassReport) → Prop
  | finished {legs : List Leg} {tree' : τ} (passes : Passes tree legs tree')
      (all : phases = legs.map Leg.phase) :
      RunEnded phases tree events
        (.ok (legs.map Leg.pass) ⟨tree', events ++ legs.flatMap Leg.events⟩)
  | aborted {legs : List Leg} {phase : Phase} {later : List Phase} {visits : List Visit}
      {entry : Entry} {rest : List Entry} {between reached tree' : τ} {failure : Failure}
      (passes : Passes tree legs between)
      (before : phases = legs.map Leg.phase ++ phase :: later)
      (course : Course between visits reached)
      (stops : phase.stops = visits.map Visit.stop ++ (phase, entry) :: rest.map (phase, ·))
      (turn : Turn entry phase.rules reached (.error failure tree')) :
      RunEnded phases tree events
        (.error (.aborted phase.name entry.source failure)
          ⟨tree', events ++ (legs.flatMap Leg.events ++ visits.map Visit.event)⟩)

theorem runAll_of_ok {phase : Phase} {progress progress' : Progress τ} {pass : PassReport}
    (h : phase.run progress = .ok pass progress') (rest : List Phase) :
    runAll (phase :: rest) progress = Ending.map (pass :: ·) (runAll rest progress') := by
  simp only [runAll, bind, EStateM.bind, h]
  cases runAll rest progress' <;> rfl

theorem runAll_of_error {phase : Phase} {progress progress' : Progress τ} {failure : Failure}
    (h : phase.run progress = .error failure progress') (rest : List Phase) :
    runAll (phase :: rest) progress = .error failure progress' := by
  simp only [runAll, bind, EStateM.bind, h]

theorem run_of_course {leg : Leg} {tree tree' : τ} (course : Course tree leg.visits tree')
    (stops : leg.visits.map Visit.stop = leg.phase.stops) (events : List Event) :
    leg.phase.run ⟨tree, events⟩ = .ok leg.pass ⟨tree', events ++ leg.events⟩ := by
  simp only [run, bind, EStateM.bind, runEntries_of_course course stops]
  rw [Leg.events, ← List.append_assoc]
  rfl

/-- Passes that finish are what a run of their phases makes. -/
theorem runAll_of_passes {legs : List Leg} {tree tree' : τ} (passes : Passes tree legs tree')
    (events : List Event) :
    runAll (legs.map Leg.phase) ⟨tree, events⟩
      = .ok (legs.map Leg.pass) ⟨tree', events ++ legs.flatMap Leg.events⟩ := by
  induction passes generalizing events with
  | nil => simp [runAll, pure, EStateM.pure]
  | cons course stops _ ih =>
      rw [List.map_cons, runAll_of_ok (run_of_course course stops events), ih, Ending.map_ok,
        List.map_cons, List.flatMap_cons, List.append_assoc]

theorem runAll_ended (phases : List Phase) (tree : τ) (events : List Event) :
    RunEnded phases tree events (runAll phases ⟨tree, events⟩) := by
  induction phases generalizing tree events with
  | nil =>
      change RunEnded [] tree events (.ok [] ⟨tree, events⟩)
      have done : RunEnded [] tree events _ := .finished (.nil : Passes tree [] tree) rfl
      simpa using done
  | cons phase phases ih =>
      have first := run_ended phase tree events
      generalize run : phase.run ⟨tree, events⟩ = result at first
      cases first with
      | aborted course stops turn =>
          rw [runAll_of_error run]
          have cut : RunEnded (phase :: phases) tree events _ :=
            .aborted .nil rfl course stops turn
          simpa using cut
      | @finished visits between course stops =>
          let leg : Leg := ⟨phase, visits⟩
          have ended := ih between (events ++ leg.events)
          rw [runAll_of_ok run]
          generalize runAll phases ⟨between, events ++ Leg.events ⟨phase, visits⟩⟩ = result
            at ended
          cases ended with
          | @finished legs tree' passes all =>
              have all' : phase :: phases = (leg :: legs).map Leg.phase :=
                congrArg (phase :: ·) all
              have passes' : Passes tree (leg :: legs) tree' := .cons course stops passes
              have done : RunEnded (phase :: phases) tree events _ := .finished passes' all'
              simpa [List.append_assoc] using done
          | @aborted legs failed later _ _ _ last _ _ _ passes before course' stops' turn =>
              have before' : phase :: phases = (leg :: legs).map Leg.phase ++ failed :: later :=
                congrArg (phase :: ·) before
              have passes' : Passes tree (leg :: legs) last := .cons course stops passes
              have cut : RunEnded (phase :: phases) tree events _ :=
                .aborted passes' before' course' stops' turn
              simpa [List.append_assoc] using cut

end Phase

namespace Plan

theorem run_of_refused {plan : Plan} {names : List String} {failure : Failure}
    (h : plan.select names = .error failure) (progress : Progress τ) :
    plan.run names progress = .error failure progress := by
  simp only [run, h]
  rfl

theorem run_of_selected {plan : Plan} {names : List String} {phases : List Phase}
    (h : plan.select names = .ok phases) (progress : Progress τ) :
    plan.run names progress = Ending.map RunReport.ofPasses (Phase.runAll phases progress) := by
  simp only [run, h, bind, EStateM.bind]
  cases Phase.runAll phases progress <;> rfl

end Plan
end Repackage
