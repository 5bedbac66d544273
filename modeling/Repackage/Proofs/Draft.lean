import Repackage.Proofs.WellFormed

/-!
Drafts that become plans. The faults of a draft stand in the order in which it is read: phase by
phase, of each phase its name, then its relocations, with the source before the destination, and
then its fixups. A draft without faults becomes the plan that says the same with its paths in
normal form. Any other draft is refused for the first of its faults.
-/

namespace Repackage

section Reports

variable {α β : Type} {result : Except Failure α} {faults others : List Failure}

/-- The result is a failure exactly if there are faults, and then it is the first of them. -/
def Reports (result : Except Failure α) (faults : List Failure) : Prop :=
  ∀ failure, result = .error failure ↔ faults.head? = some failure

namespace Reports

theorem ok (a : α) : Reports (.ok a) [] := by
  intro failure
  simp

theorem error (failure : Failure) (others : List Failure) :
    Reports (.error failure : Except Failure α) (failure :: others) := by
  intro other
  simp

theorem exists_ok_iff (h : Reports result faults) : (∃ a, result = .ok a) ↔ faults = [] := by
  cases result with
  | ok a =>
      have none : faults.head? = none := Option.eq_none_iff_forall_ne_some.mpr fun failure first =>
        nomatch (h failure).mpr first
      exact iff_of_true ⟨a, rfl⟩ (List.head?_eq_none_iff.mp none)
  | error failure =>
      have first := (h failure).mp rfl
      refine iff_of_false ?_ ?_
      · rintro ⟨a, same⟩
        cases same
      · rintro rfl
        cases first

/-- The faults of what comes second are met only if what comes first has none. -/
theorem bind {next : α → Except Failure β} (h : Reports result faults)
    (h' : ∀ a, result = .ok a → Reports (next a) others) :
    Reports (result >>= next) (faults ++ others) := by
  cases result with
  | ok a =>
      have none := h.exists_ok_iff.mp ⟨a, rfl⟩
      rw [none, List.nil_append]
      exact h' a rfl
  | error failure =>
      have first := (h failure).mp rfl
      intro other
      simp [Bind.bind, Except.bind, List.head?_append, first]

theorem map (h : Reports result faults) (f : α → β) :
    Reports (result >>= fun a => pure (f a)) faults := by
  have whole := h.bind fun a _ => Reports.ok (f a)
  rwa [List.append_nil] at whole

theorem mapM {f : α → Except Failure β} {faultsOf : α → List Failure}
    (h : ∀ x, Reports (f x) (faultsOf x)) (xs : List α) :
    Reports (xs.mapM f) (xs.flatMap faultsOf) := by
  induction xs with
  | nil => exact .ok []
  | cons x xs ih =>
      rw [List.mapM_cons, List.flatMap_cons]
      exact (h x).bind fun y _ => ih.map (y :: ·)

end Reports
end Reports

section Faults

/-- What refuses the path, if anything does. -/
def Path.refusals (raw : String) : List Failure :=
  match Path.normalize raw with
  | .ok _ => []
  | .error fault => [.unsafePath raw fault.message]

theorem Path.refusals_eq_nil_iff {raw : String} :
    Path.refusals raw = [] ↔ ∃ path, Path.normalize raw = .ok path := by
  rw [refusals]
  cases Path.normalize raw <;> simp

def RelocationDraft.faults (draft : RelocationDraft) : List Failure :=
  Path.refusals draft.source ++ Path.refusals draft.dest

def PhaseDraft.nameFaults (draft : PhaseDraft) : List Failure :=
  if Text.trim draft.name.toList = [] then [.invalidPlan "phase name must not be empty"] else []

def PhaseDraft.faults (draft : PhaseDraft) : List Failure :=
  draft.nameFaults ++ (draft.relocate.flatMap (·.faults) ++ draft.fixup.flatMap Path.refusals)

def PlanDraft.faults (draft : PlanDraft) : List Failure :=
  draft.phases.flatMap (·.faults)

theorem RelocationDraft.reports_toEntry (draft : RelocationDraft) :
    Reports draft.toEntry draft.faults := by
  simp only [toEntry, Entry.relocation, Entry.checkPath, faults, Path.refusals]
  cases Path.normalize draft.source with
  | error fault => exact .error _ _
  | ok source =>
      cases Path.normalize draft.dest with
      | error fault => exact .error _ _
      | ok dest => exact .ok _

theorem reports_fixupEntry (path : String) : Reports (fixupEntry path) (Path.refusals path) := by
  simp only [fixupEntry, Entry.fixup, Entry.checkPath, Path.refusals]
  cases Path.normalize path with
  | error fault => exact .error _ _
  | ok normal => exact .ok _

theorem PhaseDraft.toPhase_eq (draft : PhaseDraft) : draft.toPhase =
    if Text.trim draft.name.toList = [] then .error (.invalidPlan "phase name must not be empty")
    else do
      let relocations ← draft.relocate.mapM RelocationDraft.toEntry
      let fixups ← draft.fixup.mapM fixupEntry
      return ⟨draft.name, draft.description, draft.rules, relocations ++ fixups⟩ := by
  simp only [toPhase, hasBlankName, List.isEmpty_iff]
  split <;> rfl

theorem PhaseDraft.reports_toPhase (draft : PhaseDraft) : Reports draft.toPhase draft.faults := by
  rw [toPhase_eq, faults, nameFaults]
  split
  · exact .error _ _
  · have relocations := Reports.mapM RelocationDraft.reports_toEntry draft.relocate
    have fixups := Reports.mapM reports_fixupEntry draft.fixup
    exact relocations.bind fun _ _ => fixups.map _

theorem PlanDraft.reports_toPlan (draft : PlanDraft) (base : String) :
    Reports (draft.toPlan base) draft.faults :=
  (Reports.mapM PhaseDraft.reports_toPhase draft.phases).map _

end Faults

section Accepted

/-- The phase has a name, and no path that it names is refused. -/
structure PhaseDraft.Accepted (draft : PhaseDraft) : Prop where
  named : Text.trim draft.name.toList ≠ []
  relocate : ∀ relocation ∈ draft.relocate,
    (∃ path, Path.normalize relocation.source = .ok path) ∧
      ∃ path, Path.normalize relocation.dest = .ok path
  fixup : ∀ raw ∈ draft.fixup, ∃ path, Path.normalize raw = .ok path

theorem PhaseDraft.faults_eq_nil_iff {draft : PhaseDraft} :
    draft.faults = [] ↔ draft.Accepted := by
  simp only [faults, nameFaults, RelocationDraft.faults, List.append_eq_nil_iff,
    List.flatMap_eq_nil_iff, Path.refusals_eq_nil_iff, ite_eq_right_iff, List.cons_ne_nil,
    imp_false]
  exact ⟨fun ⟨named, relocate, fixup⟩ => ⟨named, relocate, fixup⟩,
    fun ⟨named, relocate, fixup⟩ => ⟨named, relocate, fixup⟩⟩

end Accepted

section Becomes

/-- The entry is the relocation with its paths in normal form. -/
structure RelocationDraft.Becomes (draft : RelocationDraft) (entry : Entry) : Prop where
  source : Path.normalize draft.source = .ok entry.source
  dest : Path.normalize draft.dest = .ok entry.dest
  package : entry.package = some ⟨draft.oldPackage, draft.newPackage⟩

/-- The entry is the fixup of the path in normal form. -/
structure BecomesFixup (raw : String) (entry : Entry) : Prop where
  source : Path.normalize raw = .ok entry.source
  inPlace : entry.dest = entry.source
  package : entry.package = none

/-- The phase says what the draft says. Its manifest has the relocations in their order, and then
the fixups in theirs. -/
structure PhaseDraft.Becomes (draft : PhaseDraft) (phase : Phase) : Prop where
  named : Text.trim draft.name.toList ≠ []
  name : phase.name = draft.name
  description : phase.description = draft.description
  rules : phase.rules = draft.rules
  manifest : ∃ relocations fixups, phase.manifest = relocations ++ fixups ∧
    List.Forall₂ RelocationDraft.Becomes draft.relocate relocations ∧
    List.Forall₂ BecomesFixup draft.fixup fixups

/-- The plan says what the draft says, with its root seen from `base` and its phases in their
order. -/
structure PlanDraft.Becomes (base : String) (draft : PlanDraft) (plan : Plan) : Prop where
  root : plan.root = (draft.root.map (Path.join base)).getD base
  phases : List.Forall₂ PhaseDraft.Becomes draft.phases plan.phases

theorem RelocationDraft.toEntry_eq_ok_iff (draft : RelocationDraft) (entry : Entry) :
    draft.toEntry = .ok entry ↔ draft.Becomes entry := by
  simp only [toEntry, mapError_eq_ok_iff, Entry.relocation, bind_eq_ok_iff, Entry.checkPath_ok_iff]
  constructor
  · rintro ⟨_, source, _, dest, made⟩
    cases made
    exact ⟨source, dest, rfl⟩
  · obtain ⟨sourcePath, destPath, package⟩ := entry
    rintro ⟨source, dest, rfl⟩
    exact ⟨sourcePath, source, destPath, dest, rfl⟩

theorem fixupEntry_eq_ok_iff (raw : String) (entry : Entry) :
    fixupEntry raw = .ok entry ↔ BecomesFixup raw entry := by
  simp only [fixupEntry, mapError_eq_ok_iff, Entry.fixup, bind_eq_ok_iff, Entry.checkPath_ok_iff]
  constructor
  · rintro ⟨_, source, made⟩
    cases made
    exact ⟨source, rfl, rfl⟩
  · obtain ⟨sourcePath, destPath, package⟩ := entry
    rintro ⟨source, inPlace, rfl⟩
    obtain rfl : destPath = sourcePath := inPlace
    exact ⟨destPath, source, rfl⟩

theorem PhaseDraft.toPhase_eq_ok_iff (draft : PhaseDraft) (phase : Phase) :
    draft.toPhase = .ok phase ↔ draft.Becomes phase := by
  rw [toPhase_eq]
  split
  · rename_i blank
    refine iff_of_false ?_ fun becomes => becomes.named blank
    intro made
    cases made
  · rename_i named
    simp only [bind_eq_ok_iff, mapM_eq_ok_iff RelocationDraft.toEntry_eq_ok_iff,
      mapM_eq_ok_iff fixupEntry_eq_ok_iff]
    constructor
    · rintro ⟨relocations, relocated, fixups, fixed, made⟩
      cases made
      exact ⟨named, rfl, rfl, rfl, relocations, fixups, rfl, relocated, fixed⟩
    · obtain ⟨name, description, rules, manifest⟩ := phase
      rintro ⟨-, rfl, rfl, rfl, relocations, fixups, rfl, relocated, fixed⟩
      exact ⟨relocations, relocated, fixups, fixed, rfl⟩

theorem PlanDraft.toPlan_eq_ok_iff (draft : PlanDraft) (base : String) (plan : Plan) :
    draft.toPlan base = .ok plan ↔ draft.Becomes base plan := by
  simp only [toPlan, bind_eq_ok_iff, mapM_eq_ok_iff PhaseDraft.toPhase_eq_ok_iff]
  constructor
  · rintro ⟨phases, became, made⟩
    cases made
    exact ⟨rfl, became⟩
  · obtain ⟨root, phases⟩ := plan
    rintro ⟨rfl, became⟩
    exact ⟨phases, became, rfl⟩

end Becomes

namespace PlanDraft

/-- A draft becomes a plan exactly if its phases have names and none of its paths is refused. The
plan is what the draft says, with its paths in normal form. Otherwise the first fault of the draft
is reported. -/
theorem plan_or_first_fault (draft : PlanDraft) (base : String) :
    ((∃ plan, draft.toPlan base = .ok plan) ↔ ∀ phase ∈ draft.phases, phase.Accepted) ∧
      (∀ plan, draft.toPlan base = .ok plan ↔ draft.Becomes base plan) ∧
      ∀ failure, draft.toPlan base = .error failure ↔ draft.faults.head? = some failure := by
  have reports := draft.reports_toPlan base
  refine ⟨?_, draft.toPlan_eq_ok_iff base, reports⟩
  rw [reports.exists_ok_iff, faults, List.flatMap_eq_nil_iff]
  simp only [PhaseDraft.faults_eq_nil_iff]

def faultyDocument : String :=
  "[[phase]]\nname = 'move'\nfixup = ['/c']\n"
    ++ "relocate = [['a', '../b', 'p', 'q'], ['', 'b', 'p', 'q']]\n[[phase]]\nname = ' '\n"

/-- An unsafe destination, an empty source, an absolute path and a phase without a name. -/
def faulty : PlanDraft where
  root := none
  phases :=
    [⟨"move", none, [], [⟨"a", "../b", "p", "q"⟩, ⟨"", "b", "p", "q"⟩], ["/c"]⟩,
      ⟨" ", none, [], [], []⟩]

theorem plan_or_first_fault_faulty :
    PlanDraft.parse faultyDocument = .ok faulty ∧
      faulty.faults = [.unsafePath "../b" "'..' escapes the tree root",
        .unsafePath "" "path is empty", .unsafePath "/c" "absolute paths are not allowed",
        .invalidPlan "phase name must not be empty"] ∧
      Plan.parse faultyDocument "." = .error (.unsafePath "../b" "'..' escapes the tree root") := by
  have parsed : PlanDraft.parse faultyDocument = .ok faulty :=
    toOption_eq_some_iff.mp (by decide +kernel)
  have faults : faulty.faults = [.unsafePath "../b" "'..' escapes the tree root",
      .unsafePath "" "path is empty", .unsafePath "/c" "absolute paths are not allowed",
      .invalidPlan "phase name must not be empty"] := by
    decide +kernel
  obtain ⟨-, -, first⟩ := plan_or_first_fault faulty "."
  refine ⟨parsed, faults, ?_⟩
  rw [Plan.parse, parsed]
  exact (first _).mpr (by rw [faults]; rfl)

end PlanDraft
end Repackage
