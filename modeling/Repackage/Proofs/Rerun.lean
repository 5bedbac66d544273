import Repackage.Proofs.Isolation
import Repackage.Proofs.Settled

/-!
Running a phase again. If the rules of its entries are free of clashes and no entry writes
what another one reads, a pass that was cut short anywhere may simply be made again: the
entries that had been processed do no harm to their output, and the rest find what they
would have found at first.
-/

namespace Repackage

open FileStore (files)

theorem Entry.outcome_idle {entry : Entry} (fixup : entry.kind = .importFixup)
    {rules : RuleTable} {content : String}
    (idle : entry.rewrite rules content = ⟨content, content, []⟩) :
    entry.outcome rules (some content) = .unchanged ⟨content, content, []⟩ := by
  simp [outcome, idle, mustWrite, Rewritten.changed, fixup]

namespace Phase

/-- Destinations of their own, and no entry writes what another one reads. -/
structure Independent (phase : Phase) : Prop where
  distinct : phase.manifest.destinations.Nodup
  apart : ∀ a ∈ phase.manifest, ∀ b ∈ phase.manifest, a.dest = b.source → a = b

def outputOn (phase : Phase) (files : String → Option String) (entry : Entry) : Option String :=
  (files entry.source).map fun content => (entry.rewrite phase.rules content).after

theorem result?_visitOn (phase : Phase) (files : String → Option String) (entry : Entry) :
    (phase.visitOn files entry).relocated.result?.map (·.after) = phase.outputOn files entry := by
  rw [visitOn, Entry.result?_outcome, Option.map_map]
  rfl

/-- The files that visits to entries of the phase leave, each finding what was there at
first. -/
def left (phase : Phase) (files : String → Option String) (done : List Entry) :
    String → Option String :=
  contentAfter files (done.map (phase.visitOn files))

theorem left_elsewhere {phase : Phase} {done : List Entry} {path : String}
    (files : String → Option String) (elsewhere : ∀ entry ∈ done, entry.dest ≠ path) :
    phase.left files done path = files path := by
  apply contentAfter_of_untouched
  intro visit hv
  obtain ⟨entry, he, rfl⟩ := List.mem_map.mp hv
  exact elsewhere entry he

namespace Independent

variable {phase : Phase}

theorem pairwise (h : phase.Independent) :
    phase.manifest.Pairwise fun earlier later => earlier.dest ≠ later.source := by
  have distinct := List.pairwise_map.mp h.distinct
  refine distinct.imp_of_mem fun {a b} ha hb different same => different ?_
  rw [h.apart a ha b hb same]

variable {done : List Entry} (h : phase.Independent) (front : done <+: phase.manifest)
  (files : String → Option String) {entry : Entry}

include h front

theorem left_dest (visited : entry ∈ done) :
    phase.left files done entry.dest = (phase.outputOn files entry).or (files entry.dest) := by
  have distinct : ((done.map (phase.visitOn files)).map (·.entry.dest)).Nodup := by
    rw [List.map_map]
    exact h.distinct.sublist (front.sublist.map _)
  rw [← result?_visitOn]
  exact contentAfter_of_mem files distinct (List.mem_map_of_mem visited)

/-- Only an entry that stays in its place changes its source, and only when it is visited. -/
theorem left_source (listed : entry ∈ phase.manifest)
    (kept : entry ∈ done → entry.source ≠ entry.dest) :
    phase.left files done entry.source = files entry.source := by
  apply left_elsewhere
  intro other ho same
  obtain rfl := h.apart other (front.subset ho) entry listed same
  exact kept ho same.symm

theorem left_due (listed : entry ∈ phase.manifest) (due : entry ∉ done) :
    phase.left files done entry.dest = files entry.dest := by
  apply left_elsewhere
  intro other ho same
  obtain rfl := List.inj_on_of_nodup_map h.distinct (front.subset ho) listed same
  exact due ho

variable (free : ∀ entry ∈ phase.manifest, (entry.rules phase.rules).ClashFree)

include free

/-- An entry that is visited again, after some entries have been visited, makes of its
destination what it makes of it at first. -/
theorem output_again (listed : entry ∈ phase.manifest) :
    (phase.outputOn (phase.left files done) entry).or (phase.left files done entry.dest)
      = (phase.outputOn files entry).or (files entry.dest) := by
  by_cases visited : entry ∈ done
  · have dest := h.left_dest front files visited
    by_cases inPlace : entry.source = entry.dest
    · rw [dest, outputOn, inPlace, dest, outputOn, inPlace]
      cases files entry.dest with
      | none => rfl
      | some content => simp [Entry.rewrite_rewrite (free entry listed)]
    · have source := h.left_source front files listed fun _ => inPlace
      rw [dest, outputOn, source, ← outputOn]
      cases phase.outputOn files entry <;> rfl
  · have source := h.left_source front files listed fun hv => absurd hv visited
    have dest := h.left_due front files listed visited
    rw [dest, outputOn, source, ← outputOn]

/-- A whole pass over what some of its entries have left ends as the pass does at first. -/
theorem left_left :
    phase.left (phase.left files done) phase.manifest = phase.left files phase.manifest := by
  have whole := List.prefix_refl phase.manifest
  funext path
  by_cases written : ∃ entry ∈ phase.manifest, entry.dest = path
  · obtain ⟨entry, listed, rfl⟩ := written
    calc phase.left (phase.left files done) phase.manifest entry.dest
        = (phase.outputOn (phase.left files done) entry).or (phase.left files done entry.dest) :=
          h.left_dest whole _ listed
      _ = (phase.outputOn files entry).or (files entry.dest) :=
          h.output_again front files free listed
      _ = phase.left files phase.manifest entry.dest := (h.left_dest whole _ listed).symm
  · have elsewhere : ∀ entry ∈ phase.manifest, entry.dest ≠ path :=
      fun entry he same => written ⟨entry, he, same⟩
    calc phase.left (phase.left files done) phase.manifest path
        = phase.left files done path := left_elsewhere _ elsewhere
      _ = files path := left_elsewhere _ fun entry he => elsewhere entry (front.subset he)
      _ = phase.left files phase.manifest path := (left_elsewhere _ elsewhere).symm

theorem fixup_again (wellFormed : entry.WellFormed) (visited : entry ∈ done)
    (fixup : entry.kind = .importFixup) :
    let report := (phase.visitOn (phase.left files done) entry).report
    report.outcome = .unchanged ∧ report.hits = [] ∨ report.outcome = .notFound := by
  have listed := front.subset visited
  have source : phase.left files done entry.source
      = (phase.outputOn files entry).or (files entry.dest) := by
    rw [wellFormed.source_eq_dest fixup]
    exact h.left_dest front files visited
  have again : (phase.visitOn (phase.left files done) entry).relocated
      = entry.outcome phase.rules ((phase.outputOn files entry).or (files entry.dest)) :=
    congrArg (entry.outcome phase.rules) source
  rw [outputOn, wellFormed.source_eq_dest fixup] at again
  cases hd : files entry.dest with
  | none =>
      rw [hd] at again
      exact .inr (congrArg Relocated.outcome again)
  | some content =>
      rw [hd, Option.map_some, Option.some_or, Entry.outcome_idle fixup
        (Entry.rewrite_rewrite (free entry listed) content)] at again
      refine .inl ⟨congrArg Relocated.outcome again, ?_⟩
      exact congrArg (fun relocated => (relocated.result?.map (·.hits)).getD []) again

end Independent

section Store

variable {τ σ υ : Type} [SourceTree τ] [FileStore τ] [SourceTree σ] [FileStore σ]
  [SourceTree υ] [FileStore υ] {phase : Phase}

/-- A pass without failures visits every entry over the files that it began with. -/
theorem Independent.run_of_neverFails (h : phase.Independent) (wellFormed : phase.WellFormed)
    {tree : τ} (calm : NeverFails tree) :
    ∃ progress, phase.run { tree }
        = .ok (Leg.pass ⟨phase, phase.manifest.map (phase.visitOn (files tree))⟩) progress ∧
      files progress.tree = phase.left (files tree) phase.manifest := by
  obtain ⟨visits, tree', course, stops, ran⟩ := phase.run_of_neverFails calm
  have visited := course.eq_visitOn stops wellFormed (undisturbed_of_apart _ _ h.pairwise)
  have leaves := course.files_eq fun visit hv => wellFormed _ (Visit.entry_mem stops hv)
  rw [visited] at ran leaves
  exact ⟨_, ran, leaves⟩

/-- Made again without failures, a pass that may have been cut short succeeds. It leaves the
files that one pass without failures leaves, and it does nothing for the fixups that the
first pass had reported. -/
theorem rerun_leaves_same (wellFormed : phase.WellFormed) (independent : phase.Independent)
    (free : ∀ entry ∈ phase.manifest, (entry.rules phase.rules).ClashFree)
    (tree : τ) (again : σ) (fresh : υ)
    (resumed : files again = files (Ending.state (phase.run { tree })).tree)
    (original : files fresh = files tree)
    (calmAgain : NeverFails again) (calmFresh : NeverFails fresh) :
    ∃ pass progress, phase.run { tree := again } = .ok pass progress ∧
      (∃ pass' progress', phase.run { tree := fresh } = .ok pass' progress' ∧
        files progress.tree = files progress'.tree) ∧
      ∀ index < (entriesHeard (Ending.state (phase.run { tree })).events).length,
        ∀ entry, phase.manifest[index]? = some entry → entry.kind = .importFixup →
          ∃ report, pass.entries[index]? = some report ∧
            (report.outcome = .unchanged ∧ report.hits = [] ∨ report.outcome = .notFound) := by
  obtain ⟨done, visits, reached, front, stops, course, heard, leaves⟩ :=
    phase.run_files wellFormed tree
  have apart := independent.pairwise.sublist front.sublist
  have visited : visits = done.map (phase.visitOn (files tree)) :=
    course.eq_visitOn stops (fun entry he => wellFormed entry (front.subset he))
      (undisturbed_of_apart _ _ apart)
  have interim : files again = phase.left (files tree) done := by
    rw [resumed, leaves, visited]
    rfl
  obtain ⟨progress, ran, ends⟩ := independent.run_of_neverFails wellFormed calmAgain
  obtain ⟨progress', ran', ends'⟩ := independent.run_of_neverFails wellFormed calmFresh
  refine ⟨_, progress, ran, ⟨_, progress', ran', ?_⟩, ?_⟩
  · rw [ends, ends', interim, original, independent.left_left front _ free]
  · intro index before entry listed fixup
    rw [heard, visited, List.length_map, List.length_map] at before
    have isDone : entry ∈ done := by
      obtain ⟨due, whole⟩ := front
      rw [← whole, List.getElem?_append_left before] at listed
      exact List.mem_of_getElem? listed
    refine ⟨(phase.visitOn (files again) entry).report, ?_, ?_⟩
    · simp [Leg.pass, listed]
    · rw [interim]
      exact independent.fixup_again front _ free
        (wellFormed entry (front.subset isDone)) isDone fixup

end Store

/-- A relocation, a fixup, and a relocation that cannot be written at first. -/
def migrating : Phase where
  name := "move"
  rules := [⟨"old.", "new."⟩]
  manifest :=
    [⟨"a", "b", some ⟨"old", "new"⟩⟩, ⟨"c", "c", none⟩, ⟨"d", "e", some ⟨"old", "new"⟩⟩]

def fullAtE : MemoryTree where
  files := ⟨[("a", "package old;"), ("c", "import old.X;"), ("d", "")]⟩
  badWrite := ⟨[("e", .noSpace)]⟩

/-- What the first pass leaves, with room for the last entry. -/
def roomAtE : MemoryTree where
  files := (Ending.state (migrating.run { tree := fullAtE })).tree.files

theorem rerun_leaves_same_migrating :
    (entriesHeard (Ending.state (migrating.run { tree := fullAtE })).events).length = 2 ∧
      ∃ pass progress, migrating.run { tree := roomAtE } = .ok pass progress ∧
        ∃ report, pass.entries[1]? = some report ∧
          (report.outcome = .unchanged ∧ report.hits = [] ∨ report.outcome = .notFound) := by
  have heard :
      (entriesHeard (Ending.state (migrating.run { tree := fullAtE })).events).length = 2 := by
    decide +kernel
  have independent : migrating.Independent := ⟨by decide, by decide⟩
  have free : ∀ entry ∈ migrating.manifest, (entry.rules migrating.rules).ClashFree := by
    decide +kernel
  obtain ⟨pass, progress, ran, -, fixups⟩ :=
    rerun_leaves_same (by decide) independent free fullAtE roomAtE
      ({ files := fullAtE.files } : MemoryTree) rfl rfl (MemoryTree.neverFails _)
      (MemoryTree.neverFails _)
  refine ⟨heard, pass, progress, ran, ?_⟩
  exact fixups 1 (by omega) ⟨"c", "c", none⟩ rfl rfl

end Phase
end Repackage
