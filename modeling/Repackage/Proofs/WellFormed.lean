import Repackage.Plan.File
import Repackage.Proofs.Answers
import Repackage.Proofs.NormalPath
import Repackage.Proofs.Turn

/-!
Well-formed entries have normal paths, and a fixup among them stays in its place. What
`Entry.relocation` and `Entry.fixup` build is well formed. The statements about runs are
about plans of such entries, and every plan that is read from a plan file is one.
-/

namespace Repackage

structure Entry.WellFormed (entry : Entry) : Prop where
  source_normal : Path.IsNormal entry.source
  dest_normal : Path.IsNormal entry.dest
  inPlace : entry.package = none → entry.isInPlace = true

instance (entry : Entry) : Decidable entry.WellFormed :=
  decidable_of_iff (Path.IsNormal entry.source ∧ Path.IsNormal entry.dest ∧
      (entry.package = none → entry.isInPlace = true))
    ⟨fun ⟨hs, hd, hp⟩ => ⟨hs, hd, hp⟩, fun h => ⟨h.source_normal, h.dest_normal, h.inPlace⟩⟩

def Phase.WellFormed (phase : Phase) : Prop :=
  ∀ entry ∈ phase.manifest, entry.WellFormed

instance (phase : Phase) : Decidable phase.WellFormed :=
  inferInstanceAs (Decidable (∀ entry ∈ phase.manifest, entry.WellFormed))

def Plan.WellFormed (plan : Plan) : Prop :=
  ∀ phase ∈ plan.phases, phase.WellFormed

instance (plan : Plan) : Decidable plan.WellFormed :=
  inferInstanceAs (Decidable (∀ phase ∈ plan.phases, phase.WellFormed))

namespace Entry

theorem checkPath_ok_iff {raw path : String} :
    checkPath raw = .ok path ↔ Path.normalize raw = .ok path :=
  mapError_eq_ok_iff

theorem wellFormed_of_relocation {source dest old new : String} {entry : Entry}
    (h : relocation source dest old new = .ok entry) : entry.WellFormed := by
  simp only [relocation, bind_eq_ok_iff, checkPath_ok_iff] at h
  obtain ⟨sourcePath, hs, destPath, hd, made⟩ := h
  cases made
  exact ⟨Path.isNormal_of_normalize hs, Path.isNormal_of_normalize hd, by simp⟩

theorem wellFormed_of_fixup {path : String} {entry : Entry} (h : fixup path = .ok entry) :
    entry.WellFormed := by
  simp only [fixup, bind_eq_ok_iff, checkPath_ok_iff] at h
  obtain ⟨normal, hp, made⟩ := h
  cases made
  have here := Path.isNormal_of_normalize hp
  exact ⟨here, here, fun _ => decide_eq_true rfl⟩

theorem WellFormed.output_eq {entry : Entry} (h : entry.WellFormed) :
    entry.output = entry.dest := by
  cases hp : entry.package with
  | some move => simp [output, kind, hp]
  | none => simpa [output, kind, hp, isInPlace] using h.inPlace hp

theorem WellFormed.output_normal {entry : Entry} (h : entry.WellFormed) :
    Path.IsNormal entry.output := by
  rw [h.output_eq]
  exact h.dest_normal

theorem WellFormed.source_eq_dest {entry : Entry} (h : entry.WellFormed)
    (fixup : entry.kind = .importFixup) : entry.source = entry.dest := by
  rw [← h.output_eq]
  simp [output, fixup]

end Entry

theorem PhaseDraft.wellFormed_of_toPhase {draft : PhaseDraft} {phase : Phase}
    (h : draft.toPhase = .ok phase) : phase.WellFormed := by
  simp only [toPhase] at h
  split at h
  · cases h
  · simp only [bind_eq_ok_iff] at h
    obtain ⟨relocations, relocated, fixups, fixed, made⟩ := h
    cases made
    intro entry he
    rcases List.mem_append.mp he with he | he
    · obtain ⟨_, -, built⟩ := mem_of_mapM_ok relocated entry he
      exact Entry.wellFormed_of_relocation (mapError_eq_ok_iff.mp built)
    · obtain ⟨_, -, built⟩ := mem_of_mapM_ok fixed entry he
      exact Entry.wellFormed_of_fixup (mapError_eq_ok_iff.mp built)

theorem Plan.selected_wellFormed {plan : Plan} (wellFormed : plan.WellFormed) {names : List String}
    {phases : List Phase} (h : plan.select names = .ok phases) :
    ∀ phase ∈ phases, phase.WellFormed := by
  intro phase hp
  simp only [select] at h
  split at h
  · cases h
    exact wellFormed phase hp
  · split at h
    · cases h
    · cases h
      exact wellFormed phase ((List.mem_filter.mp hp).1)

theorem Plan.wellFormed_of_parse {document base : String} {plan : Plan}
    (h : Plan.parse document base = .ok plan) : plan.WellFormed := by
  simp only [Plan.parse] at h
  split at h
  · cases h
  · rename_i draft _
    simp only [PlanDraft.toPlan, bind_eq_ok_iff] at h
    obtain ⟨phases, became, made⟩ := h
    cases made
    intro phase hm
    obtain ⟨_, -, built⟩ := mem_of_mapM_ok became phase hm
    exact PhaseDraft.wellFormed_of_toPhase built

end Repackage
