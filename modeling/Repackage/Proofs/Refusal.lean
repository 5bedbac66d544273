import Mathlib.Logic.Basic
import Repackage.Execution
import Repackage.Proofs.Overlay
import Repackage.Tree.Memory

/-!
Executions that fail. Either the plan is refused, and then no access is made to any tree,
the observer hears of nothing, and the disk stays as it is. Or the run is cut short at an
entry, which its failure names together with the path that the access failed at. Refusals
come in a fixed order: a plan with errors, a root that is no directory, an unknown phase.
-/

namespace Repackage

variable {τ : Type} [SourceTree τ]

/-- The failures of the turn of an entry, each with the path it failed at. A dry run fails
at nothing but a source. -/
inductive Entry.Fault (entry : Entry) (dryRun : Bool) : String → Failure → Prop
  | unread (cause : FileError) :
      Fault entry dryRun entry.source (.readFailure entry.source cause)
  | unmade (real : dryRun = false) (nested : Path.parent entry.dest ≠ "") (cause : FileError) :
      Fault entry dryRun (Path.parent entry.dest) (.writeFailure (Path.parent entry.dest) cause)
  | unwritten (real : dryRun = false) (cause : FileError) :
      Fault entry dryRun entry.dest (.writeFailure entry.dest cause)

namespace Entry.Fault

variable {entry : Entry} {dryRun : Bool} {path : String} {cause : Failure}

theorem exitCode_eq (h : entry.Fault dryRun path cause) : cause.exitCode = .applyError := by
  cases h <;> rfl

theorem path?_eq (h : entry.Fault dryRun path cause) : cause.path? = some path := by
  cases h <;> rfl

end Entry.Fault

/-- The turns of well-formed entries on these trees fail as `Entry.Fault` says. -/
def FaultsOnly (τ : Type) [SourceTree τ] (dryRun : Bool) : Prop :=
  ∀ {entry : Entry} {rules : RuleTable} {tree tree' : τ} {failure : Failure},
    entry.WellFormed → Turn entry rules tree (.error failure tree') →
      ∃ path, entry.Fault dryRun path failure

theorem faultsOnly_real (τ : Type) [SourceTree τ] : FaultsOnly τ false := by
  intro entry rules tree tree' failure wellFormed turn
  have output := wellFormed.output_eq
  cases turn with
  | @unreadable _ _ cause _ _ => exact ⟨_, .unread cause⟩
  | @unprepared _ _ _ cause _ _ nested _ =>
      rw [output] at nested ⊢
      exact ⟨_, .unmade rfl nested cause⟩
  | @unwritten _ _ _ _ cause _ _ _ _ =>
      rw [output]
      exact ⟨_, .unwritten rfl cause⟩

/-- What is staged is never refused, so a dry run can only fail to read. -/
theorem Overlay.faultsOnly_dry : FaultsOnly Overlay true := by
  intro entry rules overlay overlay' failure _ turn
  cases turn with
  | @unreadable _ _ cause _ _ => exact ⟨_, .unread cause⟩
  | @unprepared read _ _ _ _ _ _ unmade =>
      obtain ⟨_, made, -⟩ := read.createDirs_eq (Path.parent entry.output)
      cases made.symm.trans unmade
  | @unwritten _ ready _ content _ _ _ _ refused =>
      obtain ⟨_, stored, -⟩ := ready.write_eq entry.output (entry.rewrite rules content).after
      cases stored.symm.trans refused

namespace Plan

/-- Why a plan is refused, and in which words. Each reason presupposes that those before it
do not apply. -/
inductive Refusal (plan : Plan) (names : List String) (disk : Disk) : Failure → Prop
  | invalid (errors : hasErrors plan.validate = true) :
      Refusal plan names disk (.invalidPlan
        ("; ".intercalate ((plan.validate.filter (·.severity = .error)).map Issue.render)))
  | rootless (valid : hasErrors plan.validate = false)
      (missing : disk.isDirectory plan.root = false) :
      Refusal plan names disk (.invalidArguments s!"tree root {plan.root} is not a directory")
  | unknown {name : String} (valid : hasErrors plan.validate = false)
      (rooted : disk.isDirectory plan.root = true)
      (first : names.find? (fun name => (plan.phase? name).isNone) = some name) :
      Refusal plan names disk (.invalidArguments s!"unknown phase '{name}'")

/-- The execution is refused: on no tree an access is made, nothing is heard of, and the
disk is left as it is. -/
structure Refused (plan : Plan) (options : RunOptions) (disk : Disk) (failure : Failure) :
    Prop where
  kind : (∃ text, failure = .invalidPlan text) ∨ ∃ text, failure = .invalidArguments text
  code : failure.exitCode.toNat = 2
  untouched : ∀ {τ : Type} [SourceTree τ] (tree : τ),
    plan.launch options disk ({ tree } : Recorded τ) = .error failure { tree := { tree } }
  execution : plan.execute options disk = ⟨.error failure, [], disk⟩

/-- The failure tells where the run was cut short: at an entry of a selected phase, by an
access that failed. -/
structure CutShort (plan : Plan) (names : List String) (dryRun : Bool) (failure : Failure) :
    Prop where
  place : ∃ phases phase entry path cause, plan.select names = .ok phases ∧ phase ∈ phases ∧
    entry ∈ phase.manifest ∧ entry.Fault dryRun path cause ∧
    failure = .aborted phase.name entry.source cause ∧ failure.path? = some path
  code : failure.exitCode.toNat = 4

variable {plan : Plan} {names : List String} {options : RunOptions} {disk : Disk}
variable {phases : List Phase} {failure : Failure}

theorem select_eq_error_iff : plan.select names = .error failure ↔
    ∃ name, names.find? (fun name => (plan.phase? name).isNone) = some name ∧
      failure = .invalidArguments s!"unknown phase '{name}'" := by
  cases hf : names.find? fun name => (plan.phase? name).isNone with
  | some name =>
      have asked : names.isEmpty = false := by
        cases names with
        | nil => cases hf
        | cons _ _ => rfl
      simp [select, asked, hf, eq_comm]
  | none => cases asked : names.isEmpty <;> simp [select, asked, hf]

theorem launch_of_ready (valid : hasErrors plan.validate = false)
    (rooted : disk.isDirectory plan.root = true) (options : RunOptions) (tree : τ) :
    plan.launch options disk tree = plan.run options.phases { tree } := by
  simp [launch, requireValid, requireRoot, valid, rooted]

namespace Refusal

theorem launch (h : plan.Refusal options.phases disk failure) (tree : τ) :
    plan.launch options disk tree = .error failure { tree } := by
  cases h with
  | invalid errors => simp [Plan.launch, requireValid, errors]
  | rootless valid missing => simp [Plan.launch, requireValid, requireRoot, valid, missing]
  | unknown valid rooted first =>
      rw [launch_of_ready valid rooted]
      exact run_of_refused (select_eq_error_iff.mpr ⟨_, first, rfl⟩) { tree }

theorem execute (h : plan.Refusal options.phases disk failure) :
    plan.execute options disk = ⟨.error failure, [], disk⟩ := by
  cases hd : options.dryRun with
  | true => simp only [Plan.execute, hd, if_true, rehearse, h.launch]
  | false => simp [Plan.execute, hd, perform, h.launch, tree]

theorem refused (h : plan.Refusal options.phases disk failure) :
    plan.Refused options disk failure where
  kind := by cases h <;> simp
  code := by cases h <;> rfl
  untouched tree := h.launch _
  execution := h.execute

end Refusal

/-- A plan that is not refused gets to run the phases it selects. -/
theorem refusal_or_ready (plan : Plan) (names : List String) (disk : Disk) :
    (∃ failure, plan.Refusal names disk failure) ∨
      hasErrors plan.validate = false ∧ disk.isDirectory plan.root = true ∧
        ∃ phases, plan.select names = .ok phases := by
  cases valid : hasErrors plan.validate with
  | true => exact .inl ⟨_, .invalid valid⟩
  | false =>
      cases rooted : disk.isDirectory plan.root with
      | false => exact .inl ⟨_, .rootless valid rooted⟩
      | true =>
          cases selected : plan.select names with
          | ok phases => exact .inr ⟨rfl, rfl, phases, rfl⟩
          | error _ =>
              obtain ⟨_, first, -⟩ := select_eq_error_iff.mp selected
              exact .inl ⟨_, .unknown valid rooted first⟩

theorem exists_refusal_iff : (∃ failure, plan.Refusal names disk failure) ↔
    hasErrors plan.validate = true ∨ disk.isDirectory plan.root = false ∨
      ∃ name ∈ names, plan.phase? name = none := by
  constructor
  · rintro ⟨_, invalid | ⟨_, missing⟩ | ⟨_, _, first⟩⟩
    · exact .inl ‹_›
    · exact .inr (.inl missing)
    · have unknown := List.find?_some first
      exact .inr (.inr ⟨_, List.mem_of_find?_eq_some first, Option.isNone_iff_eq_none.mp unknown⟩)
  · intro fault
    rcases plan.refusal_or_ready names disk with refusal | ⟨valid, rooted, phases, selected⟩
    · exact refusal
    · rcases fault with errors | missing | ⟨name, asked, unknown⟩
      · cases valid.symm.trans errors
      · cases rooted.symm.trans missing
      · have found : (names.find? fun name => (plan.phase? name).isNone).isSome = true :=
          List.find?_isSome.mpr ⟨name, asked, Option.isNone_iff_eq_none.mpr unknown⟩
        obtain ⟨_, first⟩ := Option.isSome_iff_exists.mp found
        exact ⟨_, .unknown valid rooted first⟩

theorem cutShort_of_run {dryRun : Bool} (faults : FaultsOnly τ dryRun)
    (wellFormed : plan.WellFormed) (selected : plan.select names = .ok phases) {tree : τ}
    (h : Ending.answer (plan.run names { tree }) = .error failure) :
    plan.CutShort names dryRun failure := by
  obtain ⟨visits, trace⟩ := plan.run_trace names tree
  generalize plan.run names { tree } = result at h trace
  cases trace with
  | refused unselected _ => cases selected.symm.trans unselected
  | finished _ _ _ => cases h
  | @cut phase entry _ _ _ cause _ _ before turn _ =>
      cases h
      have stop : (phase, entry) ∈ plan.stops names := by simp [before]
      obtain ⟨path, fault⟩ := faults (wellFormed_of_mem_stops wellFormed stop) turn
      obtain ⟨phases, selected, phase_mem, entry_mem⟩ := mem_stops_iff.mp stop
      refine ⟨⟨phases, phase, entry, path, cause, selected, phase_mem, entry_mem, fault, rfl,
        fault.path?_eq⟩, ?_⟩
      simp only [Failure.exitCode, fault.exitCode_eq, ExitCode.toNat]

theorem refusal_or_cutShort_of_launch {dryRun : Bool} (faults : FaultsOnly τ dryRun)
    (wellFormed : plan.WellFormed) {tree : τ}
    (h : Ending.answer (plan.launch options disk tree) = .error failure) :
    plan.Refusal options.phases disk failure ∨ plan.CutShort options.phases dryRun failure := by
  rcases plan.refusal_or_ready options.phases disk with
    ⟨failure', refusal⟩ | ⟨valid, rooted, phases, selected⟩
  · rw [refusal.launch] at h
    cases h
    exact .inl refusal
  · rw [launch_of_ready valid rooted] at h
    exact .inr (cutShort_of_run faults wellFormed selected h)

theorem rehearse_result (plan : Plan) (options : RunOptions) (disk : Disk) :
    (plan.rehearse options disk).result = .error failure →
      Ending.answer (plan.launch options disk ({ base := plan.tree disk } : Overlay))
        = .error failure := by
  simp only [rehearse]
  cases plan.launch options disk ({ base := plan.tree disk } : Overlay) <;> simp [Ending.answer]

theorem perform_result (plan : Plan) (options : RunOptions) (disk : Disk) :
    (plan.perform options disk).result = .error failure →
      Ending.answer (plan.launch options disk (plan.tree disk)) = .error failure := by
  simp only [perform]
  cases plan.launch options disk (plan.tree disk) <;> simp [Ending.answer]

theorem refusal_or_cutShort_of_execute (wellFormed : plan.WellFormed)
    (h : (plan.execute options disk).result = .error failure) :
    plan.Refusal options.phases disk failure ∨
      plan.CutShort options.phases options.dryRun failure := by
  cases hd : options.dryRun with
  | true =>
      simp only [execute, hd, if_true] at h
      exact refusal_or_cutShort_of_launch Overlay.faultsOnly_dry wellFormed
        (rehearse_result plan options disk h)
  | false =>
      simp only [execute, hd] at h
      exact refusal_or_cutShort_of_launch (faultsOnly_real DiskTree) wellFormed
        (perform_result plan options disk h)

theorem Refused.not_cutShort {dryRun : Bool} (h : plan.Refused options disk failure) :
    ¬plan.CutShort names dryRun failure := by
  rintro ⟨⟨_, _, _, _, _, -, -, -, -, rfl, -⟩, -⟩
  rcases h.kind with ⟨_, same⟩ | ⟨_, same⟩ <;> cases same

theorem refused_iff (wellFormed : plan.WellFormed) :
    plan.Refused options disk failure ↔ plan.Refusal options.phases disk failure := by
  refine ⟨?_, Refusal.refused⟩
  intro refused
  have failed : (plan.execute options disk).result = .error failure := by
    rw [refused.execution]
  exact (refusal_or_cutShort_of_execute wellFormed failed).resolve_right refused.not_cutShort

theorem xor_of_refusal_or_cutShort {dryRun : Bool}
    (h : plan.Refusal options.phases disk failure ∨
      plan.CutShort options.phases dryRun failure) :
    Xor (plan.Refused options disk failure) (plan.CutShort options.phases dryRun failure) := by
  rcases h with refusal | cut
  · exact .inl ⟨refusal.refused, refusal.refused.not_cutShort⟩
  · exact .inr ⟨cut, fun refused => refused.not_cutShort cut⟩

/-- An execution that fails is either refused or cut short. The trees of the second part
fail as they like. -/
theorem refused_or_cutShort (plan : Plan) (wellFormed : plan.WellFormed) (options : RunOptions)
    (disk : Disk) :
    (∀ failure, (plan.execute options disk).result = .error failure →
      Xor (plan.Refused options disk failure)
        (plan.CutShort options.phases options.dryRun failure)) ∧
    (∀ {τ : Type} [SourceTree τ] (tree : τ) (failure : Failure),
      Ending.answer (plan.launch options disk tree) = .error failure →
        Xor (plan.Refused options disk failure)
          (plan.CutShort options.phases false failure)) ∧
    (∀ failure, plan.Refused options disk failure ↔
      plan.Refusal options.phases disk failure) ∧
    ((∃ failure, plan.Refused options disk failure) ↔
      hasErrors plan.validate = true ∨ disk.isDirectory plan.root = false ∨
        ∃ name ∈ options.phases, plan.phase? name = none) := by
  refine ⟨?_, ?_, fun _ => refused_iff wellFormed, ?_⟩
  · intro failure failed
    exact xor_of_refusal_or_cutShort (refusal_or_cutShort_of_execute wellFormed failed)
  · intro τ _ tree failure failed
    exact xor_of_refusal_or_cutShort
      (refusal_or_cutShort_of_launch (faultsOnly_real τ) wellFormed failed)
  · simp only [refused_iff wellFormed]
    exact exists_refusal_iff

/-- A file stands where the directory for the destination has to be. -/
def intoFile : Plan where
  root := "."
  phases := [{ name := "move", rules := [], manifest := [⟨"a", "b/a", some ⟨"p", "q"⟩⟩] }]

def twoFiles : Disk :=
  ⟨.file "a" "package p;".toUTF8 (.file "b" .empty .empty), []⟩

theorem refused_or_cutShort_intoFile :
    intoFile.WellFormed ∧
      (∃ failure, (intoFile.execute {} twoFiles).result = .error failure ∧
        intoFile.CutShort [] false failure) ∧
      ∃ failure, intoFile.Refused { phases := ["copy"] } twoFiles failure := by
  have wellFormed : intoFile.WellFormed := by decide
  have fails : (intoFile.execute {} twoFiles).result.isOk = false := by decide +kernel
  have cleared : ¬(hasErrors intoFile.validate = true ∨
      twoFiles.isDirectory intoFile.root = false ∨
        ∃ name ∈ ([] : List String), intoFile.phase? name = none) := by
    decide +kernel
  obtain ⟨ended, -, -, refused⟩ := refused_or_cutShort intoFile wellFormed {} twoFiles
  obtain ⟨-, -, -, unknown⟩ :=
    refused_or_cutShort intoFile wellFormed { phases := ["copy"] } twoFiles
  refine ⟨wellFormed, ?_, unknown.mpr (.inr (.inr ⟨"copy", List.mem_singleton_self _, rfl⟩))⟩
  cases result : (intoFile.execute {} twoFiles).result with
  | ok _ => cases (congrArg Except.isOk result).symm.trans fails
  | error failure =>
      exact ⟨failure, rfl, (ended failure result).or.resolve_left fun h =>
        cleared (refused.mp ⟨failure, h⟩)⟩

end Plan
end Repackage
