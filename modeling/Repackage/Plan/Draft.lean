import Repackage.Plan.Basic
import Repackage.Text.Blank

/-!
Drafts: plans as they are written down, before their paths are checked. A draft
becomes a plan if every phase has a name and every path is safe. The first fault in
the order of the draft is reported, where a phase is read name first, then its
relocations, then its fixups.
-/

namespace Repackage

structure RelocationDraft where
  source : String
  dest : String
  oldPackage : String
  newPackage : String
  deriving DecidableEq, Repr

structure PhaseDraft where
  name : String
  description : Option String
  rules : RuleTable
  relocate : List RelocationDraft
  fixup : List String
  deriving DecidableEq, Repr

structure PlanDraft where
  root : Option String
  phases : List PhaseDraft
  deriving DecidableEq, Repr

def Failure.ofUnsafePath (refused : UnsafePath) : Failure :=
  .unsafePath refused.path refused.fault.message

def RelocationDraft.toEntry (draft : RelocationDraft) : Except Failure Entry :=
  (Entry.relocation draft.source draft.dest draft.oldPackage draft.newPackage).mapError
    Failure.ofUnsafePath

def fixupEntry (path : String) : Except Failure Entry :=
  (Entry.fixup path).mapError Failure.ofUnsafePath

namespace PhaseDraft

def hasBlankName (draft : PhaseDraft) : Bool :=
  (Text.trim draft.name.toList).isEmpty

/-- The phase with its relocations before its fixups, each in the order of the draft. -/
def toPhase (draft : PhaseDraft) : Except Failure Phase := do
  if draft.hasBlankName then
    throw (.invalidPlan "phase name must not be empty")
  let relocations ← draft.relocate.mapM RelocationDraft.toEntry
  let fixups ← draft.fixup.mapM fixupEntry
  return ⟨draft.name, draft.description, draft.rules, relocations ++ fixups⟩

end PhaseDraft

/-- The plan of the draft. Its root is seen from `base`. -/
def PlanDraft.toPlan (draft : PlanDraft) (base : String) : Except Failure Plan := do
  let phases ← draft.phases.mapM PhaseDraft.toPhase
  return ⟨(draft.root.map (Path.join base)).getD base, phases⟩

end Repackage
