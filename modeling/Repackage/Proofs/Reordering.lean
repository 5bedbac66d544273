import Repackage.Proofs.Collector
import Repackage.Proofs.Rerun

/-!
The order of a manifest. Entries with destinations of their own, none of which another entry
reads, may be processed in any order: the files that a pass leaves at a destination are decided
by what its entry found when the pass began, and so is the report of the entry.
-/

namespace Repackage

open FileStore (files)

namespace Summary

theorem eq_of_count {summary other : Summary}
    (h : ∀ outcome, summary.count outcome = other.count outcome) : summary = other := by
  obtain ⟨created, updated, unchanged, skipped⟩ := summary
  obtain ⟨created', updated', unchanged', skipped'⟩ := other
  obtain rfl : created = created' := h .created
  obtain rfl : updated = updated' := h .updated
  obtain rfl : unchanged = unchanged' := h .unchanged
  obtain rfl : skipped = skipped' := h .notFound
  rfl

theorem ofReports_perm {reports reports' : List EntryReport} (same : reports'.Perm reports) :
    ofReports reports' = ofReports reports := by
  apply eq_of_count
  intro outcome
  rw [count_ofReports, count_ofReports, same.countP_eq]

end Summary

namespace Phase

/-- The phase with its entries in another order. -/
abbrev reordered (phase : Phase) (manifest : Manifest) : Phase :=
  { phase with manifest }

variable {phase : Phase} {manifest : Manifest}

theorem reports_reordered (same : manifest.Perm phase.manifest)
    (files : String → Option String) :
    ((manifest.map ((phase.reordered manifest).visitOn files)).map Visit.report).Perm
      ((phase.manifest.map (phase.visitOn files)).map Visit.report) := by
  simp only [List.map_map]
  exact same.map _

namespace Independent

theorem reordered (h : phase.Independent) (same : manifest.Perm phase.manifest) :
    (phase.reordered manifest).Independent where
  distinct := (same.map Entry.dest).nodup_iff.mpr h.distinct
  apart a ha b hb := h.apart a (same.subset ha) b (same.subset hb)

theorem left_reordered (h : phase.Independent) (same : manifest.Perm phase.manifest)
    (files : String → Option String) :
    (phase.reordered manifest).left files manifest = phase.left files phase.manifest := by
  have h' := h.reordered same
  funext path
  by_cases written : ∃ entry ∈ phase.manifest, entry.dest = path
  · obtain ⟨entry, listed, rfl⟩ := written
    calc (phase.reordered manifest).left files manifest entry.dest
        = (phase.outputOn files entry).or (files entry.dest) :=
          h'.left_dest List.prefix_rfl files (same.symm.subset listed)
      _ = phase.left files phase.manifest entry.dest :=
          (h.left_dest List.prefix_rfl files listed).symm
  · have elsewhere : ∀ entry ∈ phase.manifest, entry.dest ≠ path :=
      fun entry he same => written ⟨entry, he, same⟩
    calc (phase.reordered manifest).left files manifest path
        = files path := left_elsewhere files fun entry he => elsewhere entry (same.subset he)
      _ = phase.left files phase.manifest path := (left_elsewhere files elsewhere).symm

end Independent

section Store

variable {τ : Type} [SourceTree τ] [FileStore τ]

/-- Where nothing fails, a pass over independent entries ends in the same way for every order
of them: it leaves the same files, it reports each entry alike and it counts the same outcomes.
An entry whose source was there when the pass began leaves at its destination what becomes of
the content it had then. -/
theorem run_any_order (wellFormed : phase.WellFormed) (independent : phase.Independent)
    (same : manifest.Perm phase.manifest) {tree : τ} (calm : NeverFails tree) :
    ∃ pass progress pass' progress',
      phase.run { tree } = .ok pass progress ∧
      (phase.reordered manifest).run { tree } = .ok pass' progress' ∧
      files progress'.tree = files progress.tree ∧
      pass'.entries.Perm pass.entries ∧ pass'.summary = pass.summary ∧
      ∀ (index : Nat) (entry : Entry), phase.manifest[index]? = some entry → ∃ report,
        pass.entries[index]? = some report ∧
        (∀ index' : Nat, manifest[index']? = some entry → pass'.entries[index']? = some report) ∧
        (report.outcome = .notFound ↔ files tree entry.source = none) ∧
        ∀ content, files tree entry.source = some content →
          files progress.tree entry.dest = some (entry.rewrite phase.rules content).after := by
  have independent' := independent.reordered same
  have wellFormed' : (phase.reordered manifest).WellFormed := fun entry he =>
    wellFormed entry (same.subset he)
  have alike := reports_reordered same (files tree)
  obtain ⟨progress, ran, leaves⟩ := independent.run_of_neverFails wellFormed calm
  obtain ⟨progress', ran', leaves'⟩ := independent'.run_of_neverFails wellFormed' calm
  refine ⟨_, progress, _, progress', ran, ran', ?_, alike, Summary.ofReports_perm alike, ?_⟩
  · rw [leaves, leaves', independent.left_reordered same]
  · intro index entry listed
    refine ⟨(phase.visitOn (files tree) entry).report, ?_, ?_, ?_, ?_⟩
    · simp [Leg.pass, listed]
    · intro index' listed'
      simp only [Leg.pass, List.getElem?_map, listed', Option.map_some]
      rfl
    · exact EntryReport.outcome_eq_notFound_iff
    · intro content held
      rw [leaves, independent.left_dest List.prefix_rfl _ (List.mem_of_getElem? listed), outputOn,
        held]
      rfl

end Store

/-- Two copies of one file, a fixup, and a relocation of a file that is missing. -/
def spreading : Phase where
  name := "spread"
  rules := [⟨"old.", "new."⟩]
  manifest :=
    [⟨"a", "b", some ⟨"old", "new"⟩⟩, ⟨"c", "c", none⟩, ⟨"a", "d", some ⟨"old", "other"⟩⟩,
      ⟨"e", "f", some ⟨"old", "new"⟩⟩]

def unspread : MemoryTree where
  files := ⟨[("a", "package old;"), ("c", "import old.X;")]⟩

theorem run_any_order_spreading :
    spreading.manifest.reverse.Perm spreading.manifest ∧
      ∃ pass progress pass' progress',
        spreading.run { tree := unspread } = .ok pass progress ∧
        (spreading.reordered spreading.manifest.reverse).run { tree := unspread }
          = .ok pass' progress' ∧
        files progress'.tree = files progress.tree ∧
        files progress.tree "d" = some "package other;" := by
  have independent : spreading.Independent := ⟨by decide, by decide⟩
  have same := List.reverse_perm spreading.manifest
  obtain ⟨pass, progress, pass', progress', ran, ran', left, -, -, reported⟩ :=
    run_any_order (by decide) independent same (MemoryTree.neverFails unspread.files)
  obtain ⟨report, -, -, -, moved⟩ := reported 2 ⟨"a", "d", some ⟨"old", "other"⟩⟩ rfl
  refine ⟨same, pass, progress, pass', progress', ran, ran', left, ?_⟩
  rw [moved "package old;" (by decide)]
  decide +kernel

end Phase
end Repackage
