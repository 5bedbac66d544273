import Repackage.Proofs.LastWriter
import Repackage.Proofs.Validation

/-!
When the entries of a pass see nothing of each other. It takes more than destinations of
their own: an entry must not write what a later one reads, unless it writes what stands
there already. Then every entry finds what its source held when the pass began.
-/

namespace Repackage

open FileStore (files)

namespace Phase

/-- What a visit of the entry comes to when its source holds what these files say. -/
def visitOn (phase : Phase) (files : String → Option String) (entry : Entry) : Visit :=
  ⟨phase, entry, entry.outcome phase.rules (files entry.source)⟩

/-- No entry puts something new where a later one reads. -/
def Undisturbed (phase : Phase) (files : String → Option String) (entries : List Entry) : Prop :=
  entries.Pairwise fun earlier later => earlier.dest = later.source →
    ∀ content, files earlier.source = some content →
      files later.source = some (earlier.rewrite phase.rules content).after

theorem undisturbed_of_apart (phase : Phase) (files : String → Option String)
    {entries : List Entry}
    (apart : entries.Pairwise fun earlier later => earlier.dest ≠ later.source) :
    phase.Undisturbed files entries :=
  apart.imp fun different same => absurd same different

end Phase

def Isolated (files : String → Option String) (visits : List Visit) : Prop :=
  ∀ visit ∈ visits, visit.relocated.result?.map Rewritten.before = files visit.entry.source

section Store

variable {τ : Type} [SourceTree τ] [FileStore τ]

namespace Course

variable {phase : Phase} {entries : List Entry} {visits : List Visit} {tree tree' : τ}

/-- The entries still to be visited find at their sources what the pass began with, and so
they do after the next visit. -/
theorem eq_visitOn_of_sources {held : String → Option String} (h : Course tree visits tree')
    (stops : visits.map Visit.stop = entries.map (phase, ·))
    (wellFormed : ∀ entry ∈ entries, entry.WellFormed)
    (undisturbed : phase.Undisturbed held entries)
    (sources : ∀ entry ∈ entries, files tree entry.source = held entry.source) :
    visits = entries.map (phase.visitOn held) := by
  induction entries generalizing tree visits with
  | nil => simpa using stops
  | cons entry rest ih =>
      cases h with
      | nil => simp at stops
      | @cons _ between _ visit visits turn onward =>
          obtain ⟨phase', entry', relocated⟩ := visit
          simp only [List.map_cons, Visit.stop, List.cons.injEq, Prod.mk.injEq] at stops
          obtain ⟨⟨rfl, rfl⟩, stops⟩ := stops
          obtain ⟨first, others⟩ := List.forall_mem_cons.mp wellFormed
          obtain ⟨source, sources⟩ := List.forall_mem_cons.mp sources
          obtain ⟨away, undisturbed⟩ := List.pairwise_cons.mp undisturbed
          obtain ⟨decided, left⟩ := turn.files_of_ok first
          rw [source] at decided
          simp only at decided
          subst decided
          have later := ih onward stops others undisturbed ?_
          · rw [later]
            rfl
          · intro later hl
            rw [left, contentAfter_one, ← sources later hl, Visit.output?]
            split
            · rename_i same
              simp only [Entry.result?_outcome]
              cases hc : held entry'.source with
              | none => rfl
              | some content =>
                  rw [sources later hl, away later hl same content hc]
                  rfl
            · rfl

theorem eq_visitOn (h : Course tree visits tree')
    (stops : visits.map Visit.stop = entries.map (phase, ·))
    (wellFormed : ∀ entry ∈ entries, entry.WellFormed)
    (undisturbed : phase.Undisturbed (files tree) entries) :
    visits = entries.map (phase.visitOn (files tree)) :=
  h.eq_visitOn_of_sources stops wellFormed undisturbed fun _ _ => rfl

/-- An entry that puts something new where a later one reads is found out: nothing else is
written there in between. -/
theorem undisturbed_of_isolated {held : String → Option String} (h : Course tree visits tree')
    (stops : visits.map Visit.stop = entries.map (phase, ·))
    (wellFormed : ∀ entry ∈ entries, entry.WellFormed)
    (distinct : (entries.map (·.dest)).Nodup) (isolated : Isolated held visits) :
    phase.Undisturbed held entries := by
  induction entries generalizing tree visits with
  | nil => exact .nil
  | cons entry rest ih =>
      cases h with
      | nil => simp at stops
      | @cons _ between _ visit visits turn onward =>
          obtain ⟨phase', entry', relocated⟩ := visit
          simp only [List.map_cons, Visit.stop, List.cons.injEq, Prod.mk.injEq] at stops
          obtain ⟨⟨rfl, rfl⟩, stops⟩ := stops
          obtain ⟨first, others⟩ := List.forall_mem_cons.mp wellFormed
          obtain ⟨own, found⟩ := List.forall_mem_cons.mp isolated
          obtain ⟨fresh, distinct⟩ := List.nodup_cons.mp distinct
          refine .cons ?_ (ih onward stops others distinct found)
          obtain ⟨decided, left⟩ := turn.files_of_ok first
          simp only at decided
          subst decided
          intro later hl same content hc
          -- the visit to the later entry, and what its source held then
          have stop : (phase', later) ∈ visits.map Visit.stop :=
            stops ▸ List.mem_map_of_mem hl
          obtain ⟨visit, hv, at_later⟩ := List.mem_map.mp stop
          obtain rfl : visit.entry = later := congrArg Prod.snd at_later
          have ofVisits : ∀ v ∈ visits, v.entry.WellFormed := fun v hv =>
            others _ (Visit.entry_mem stops hv)
          have notAgain : ∀ v ∈ visits, v.entry.dest ≠ entry'.dest := fun v hv same' =>
            fresh (List.mem_map.mpr ⟨v.entry, Visit.entry_mem stops hv, same'⟩)
          obtain ⟨before, after, rfl⟩ := List.append_of_mem hv
          have at_visit : contentAfter (files between) before visit.entry.source
              = held visit.entry.source := by
            rw [← found visit hv, onward.relocated_eq ofVisits, Entry.before_outcome]
          have source : files tree entry'.source = some content := by
            rw [← hc, ← own, Entry.before_outcome]
          rw [← at_visit, contentAfter_of_untouched, left, contentAfter_one, Visit.output?,
            if_pos same, Entry.result?_outcome, source]
          · rfl
          · intro v hb
            rw [← same]
            exact notAgain v (List.mem_append_left _ hb)

end Course

theorem isolated_visitOn (phase : Phase) (files : String → Option String)
    (entries : List Entry) : Isolated files (entries.map (phase.visitOn files)) := by
  intro visit hv
  obtain ⟨entry, -, rfl⟩ := List.mem_map.mp hv
  exact Entry.before_outcome entry phase.rules (files entry.source)

namespace Plan

/-- Without errors and failures a pass visits all entries of its phase. They are isolated
from each other exactly when the phase is undisturbed, and then each entry is reported from
what its source held when the pass began. -/
theorem isolated_iff_undisturbed {plan : Plan} (wellFormed : plan.WellFormed)
    (valid : hasErrors plan.validate = false) {phase : Phase} (listed : phase ∈ plan.phases)
    {tree : τ} (calm : NeverFails tree) :
    ∃ (visits : List Visit) (pass : PassReport) (progress : Progress τ),
      phase.run { tree } = .ok pass progress ∧
      Course tree visits progress.tree ∧ visits.map Visit.stop = phase.stops ∧
      pass.entries = visits.map Visit.report ∧
      (Isolated (files tree) visits ↔ phase.Undisturbed (files tree) phase.manifest) ∧
      (phase.Undisturbed (files tree) phase.manifest →
        ∀ (index : Nat) (entry : Entry), phase.manifest[index]? = some entry → ∃ report,
          pass.entries[index]? = some report ∧
          report = EntryReport.of entry (entry.outcome phase.rules (files tree entry.source)) ∧
          report.beforeDigest = (files tree entry.source).map Digest.ofText ∧
          (report.outcome = .notFound ↔ files tree entry.source = none)) := by
  have ofEntries := wellFormed phase listed
  have distinct := nodup_destinations_of_valid valid listed
  obtain ⟨visits, tree', course, stops, ran⟩ := phase.run_of_neverFails calm
  refine ⟨visits, _, _, ran, course, stops, rfl, ⟨?_, ?_⟩, ?_⟩
  · exact course.undisturbed_of_isolated stops ofEntries distinct
  · intro undisturbed
    rw [course.eq_visitOn stops ofEntries undisturbed]
    exact isolated_visitOn phase _ _
  · intro undisturbed index entry at_index
    have visited := course.eq_visitOn stops ofEntries undisturbed
    refine ⟨(phase.visitOn (files tree) entry).report, ?_, rfl, ?_, ?_⟩
    · simp [Leg.pass, visited, at_index]
    · exact EntryReport.beforeDigest_outcome entry phase.rules _
    · exact EntryReport.outcome_eq_notFound_iff

end Plan
end Store

namespace Plan

def shift (first second : Entry) : Phase where
  name := "shift"
  rules := []
  manifest := [first, second]

def aToB : Entry := ⟨"a", "b", some ⟨"p", "q"⟩⟩
def bToC : Entry := ⟨"b", "c", some ⟨"p", "q"⟩⟩

/-- Two relocations, the second of what the first one puts in place. -/
def chain : Plan where
  root := "."
  phases := [shift aToB bToC]

def unchained : Plan where
  root := "."
  phases := [shift bToC aToB]

def chainStart : MemoryTree where
  files := ⟨[("a", "package p;")]⟩

/-- The plan has no errors and nothing fails, but the second entry, whose source is missing
when the pass begins, finds there what the first one has written. -/
theorem chain_not_isolated :
    chain.WellFormed ∧ hasErrors chain.validate = false ∧ shift aToB bToC ∈ chain.phases ∧
      NeverFails chainStart ∧ files chainStart bToC.source = none ∧
      ∃ pass progress, (shift aToB bToC).run { tree := chainStart } = .ok pass progress ∧
        (pass.entries[1]?.map fun report => (report.source, report.outcome))
          = some (bToC.source, .created) := by
  have found : ((Ending.answer ((shift aToB bToC).run { tree := chainStart })).toOption.bind
      fun pass => pass.entries[1]?.map fun report => (report.source, report.outcome))
        = some (bToC.source, .created) := by
    decide +kernel
  refine ⟨by decide, by decide +kernel, List.mem_singleton.mpr rfl, MemoryTree.neverFails _,
    by decide, ?_⟩
  generalize (shift aToB bToC).run { tree := chainStart } = result at found
  cases result with
  | ok pass progress => exact ⟨pass, progress, rfl, found⟩
  | error failure progress => cases found

theorem isolated_iff_undisturbed_unchained :
    hasErrors unchained.validate = false ∧
      ∃ (pass : PassReport) (progress : Progress MemoryTree),
        (shift bToC aToB).run { tree := chainStart } = .ok pass progress ∧
        ∃ report, pass.entries[0]? = some report ∧ report.outcome = .notFound := by
  have wellFormed : unchained.WellFormed := by decide
  have valid : hasErrors unchained.validate = false := by decide +kernel
  obtain ⟨_, pass, progress, ran, -, -, -, -, reported⟩ :=
    isolated_iff_undisturbed wellFormed valid (List.mem_singleton.mpr rfl)
      (MemoryTree.neverFails chainStart.files)
  have undisturbed : (shift bToC aToB).Undisturbed (files chainStart) [bToC, aToB] :=
    Phase.undisturbed_of_apart _ _ (by decide)
  obtain ⟨report, at_zero, -, -, missing⟩ := reported undisturbed 0 bToC rfl
  exact ⟨valid, pass, progress, ran, report, at_zero, missing.mpr (by decide)⟩

end Plan
end Repackage
