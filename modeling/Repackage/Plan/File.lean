import Repackage.Plan.Draft
import Repackage.Toml.Document
import Repackage.Toml.Record
import Repackage.Tree.Disk

/-!
Plan files. A plan file is a TOML document with the root of the tree and the phases.
Its root is seen from the directory that holds the file.
-/

namespace Repackage

open Toml (FieldForm RecordForm Mismatch)

/-- Why a text is no draft of a plan. -/
inductive DraftFault where
  /-- It is no TOML document. -/
  | illFormed
  | noPlan (cause : Mismatch)

def DraftFault.message : DraftFault → String
  | .illFormed => "(syntax)"
  | .noPlan cause => cause.message

/-- A field with a string that must be there. -/
def requiredText {α : Type} (name : String) (set : String → α → α) : FieldForm α where
  name
  isRequired := true
  fill value record := (Toml.text value).map (set · record)

/-- A field that may be left out. -/
def optionalField {α β : Type} (name : String) (read : Toml.Value → Except Mismatch β)
    (set : β → α → α) : FieldForm α where
  name
  isRequired := false
  fill value record := (read value).map (set · record)

def Rule.form : RecordForm Rule where
  name := "RewriteRule"
  blank := ⟨"", ""⟩
  fields :=
    [requiredText "from" fun text rule => { rule with pattern := text },
     requiredText "to" fun text rule => { rule with replacement := text }]
  ignoresUnknown := true

def RelocationDraft.form : RecordForm RelocationDraft where
  name := "RelocationFile"
  blank := ⟨"", "", "", ""⟩
  fields :=
    [requiredText "source" fun text draft => { draft with source := text },
     requiredText "dest" fun text draft => { draft with dest := text },
     requiredText "old_package" fun text draft => { draft with oldPackage := text },
     requiredText "new_package" fun text draft => { draft with newPackage := text }]

def PhaseDraft.form : RecordForm PhaseDraft where
  name := "PhaseFile"
  blank := ⟨"", none, [], [], []⟩
  fields :=
    [requiredText "name" fun text draft => { draft with name := text },
     optionalField "description" Toml.text fun text draft =>
       { draft with description := some text },
     optionalField "rules" (Toml.listOf Rule.form.ofValue) fun rules draft =>
       { draft with rules },
     optionalField "relocate" (Toml.listOf RelocationDraft.form.ofValue) fun relocate draft =>
       { draft with relocate },
     optionalField "fixup" (Toml.listOf Toml.text) fun fixup draft => { draft with fixup }]

namespace PlanDraft

def form : RecordForm PlanDraft where
  name := "PlanFile"
  blank := ⟨none, []⟩
  fields :=
    [optionalField "root" Toml.path fun root draft => { draft with root := some root },
     optionalField "phase" (Toml.listOf PhaseDraft.form.ofValue) fun phases draft =>
       { draft with phases }]

def parse (document : String) : Except DraftFault PlanDraft :=
  match Toml.parse? document with
  | none => .error .illFormed
  | some entries => (form.ofTable entries).mapError .noPlan

end PlanDraft

namespace Plan

/-- The plan that a document describes, with its root seen from `base`. -/
def parse (document base : String) : Except Failure Plan :=
  match PlanDraft.parse document with
  | .error fault => .error (.invalidPlan s!"failed to parse plan: {fault.message}")
  | .ok draft => draft.toPlan base

def withRoot (plan : Plan) (root : String) : Plan :=
  { plan with root }

/-- Loads a plan file. A root that is given takes the place of the plan's own. -/
def load (disk : Disk) (path : String) (root : Option String) : Except Failure Plan :=
  match disk.readText path with
  | .error cause => .error (.invalidPlan s!"failed to read {path}: {cause.message}")
  | .ok document =>
      match parse document (Path.directory path) with
      | .error failure => .error failure
      | .ok plan => .ok ((root.map plan.withRoot).getD plan)

end Plan
end Repackage
