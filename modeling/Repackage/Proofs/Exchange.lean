import Repackage.Proofs.Turn
import Repackage.Tree.Memory

/-!
Exchanges with a tree: an access and the answer to it. A list of them replays from one tree to
another if each happens as it says, and a tree that records its accesses records just these.
-/

namespace Repackage

/-- An access to a tree, and the answer to it. -/
inductive Exchange where
  | isFile (path : String) (found : Bool)
  | read (path : String) (answer : Except FileError String)
  | createDirs (path : String) (answer : Except FileError Unit)
  | write (path content : String) (answer : Except FileError Unit)

namespace Exchange

def call : Exchange → Call
  | .isFile path _ => .isFile path
  | .read path _ => .read path
  | .createDirs path _ => .createDirs path
  | .write path content _ => .write path content

def isWrite : Exchange → Bool
  | .write _ _ _ => true
  | _ => false

/-- Whether the tree is asked for no more than what is there. -/
def isQuiet : Exchange → Bool
  | .isFile _ _ | .read _ _ => true
  | .createDirs _ _ | .write _ _ _ => false

/-- The directory for a file is made, unless it needs none. -/
def preparing (path : String) : List Exchange :=
  if Path.parent path = "" then [] else [.createDirs (Path.parent path) (.ok ())]

variable {τ : Type} [SourceTree τ]

/-- The tree answers so, and is left so. -/
def Happens (tree next : τ) : Exchange → Prop
  | .isFile path found => SourceTree.isFile path tree = (found, next)
  | .read path answer => SourceTree.read path tree = (answer, next)
  | .createDirs path answer => SourceTree.createDirs path tree = (answer, next)
  | .write path content answer => SourceTree.write path content tree = (answer, next)

theorem Happens.record {tree next : τ} {exchange : Exchange} (h : exchange.Happens tree next)
    (calls : List Call) :
    exchange.Happens (⟨tree, calls⟩ : Recorded τ) ⟨next, calls ++ [exchange.call]⟩ := by
  cases exchange <;>
    simp only [Happens, SourceTree.isFile, SourceTree.read, SourceTree.createDirs,
      SourceTree.write, Recorded.record, call] at h ⊢ <;>
    rw [h]

end Exchange

section Replays

variable {τ : Type} [SourceTree τ]

/-- The exchanges happen one after the other, and lead from a tree to another. -/
inductive Replays : τ → List Exchange → τ → Prop
  | nil {tree : τ} : Replays tree [] tree
  | cons {tree next tree' : τ} {exchange : Exchange} {exchanges : List Exchange}
      (first : exchange.Happens tree next) (rest : Replays next exchanges tree') :
      Replays tree (exchange :: exchanges) tree'

namespace Replays

theorem one {tree next : τ} {exchange : Exchange} (h : exchange.Happens tree next) :
    Replays tree [exchange] next :=
  .cons h .nil

theorem append {tree between tree' : τ} {exchanges others : List Exchange}
    (h : Replays tree exchanges between) (h' : Replays between others tree') :
    Replays tree (exchanges ++ others) tree' := by
  induction h with
  | nil => exact h'
  | cons first _ ih => exact .cons first (ih h')

theorem split {tree tree' : τ} {exchanges others : List Exchange}
    (h : Replays tree (exchanges ++ others) tree') :
    ∃ between, Replays tree exchanges between ∧ Replays between others tree' := by
  induction exchanges generalizing tree with
  | nil => exact ⟨tree, .nil, h⟩
  | cons exchange exchanges ih =>
      cases h with
      | cons first rest =>
          obtain ⟨between, before, after⟩ := ih rest
          exact ⟨between, .cons first before, after⟩

theorem happens {tree next : τ} {exchange : Exchange} (h : Replays tree [exchange] next) :
    exchange.Happens tree next := by
  cases h with
  | cons first rest =>
      cases rest
      exact first

theorem record {tree tree' : τ} {exchanges : List Exchange} (h : Replays tree exchanges tree')
    (calls : List Call) : Replays (⟨tree, calls⟩ : Recorded τ) exchanges
      ⟨tree', calls ++ exchanges.map Exchange.call⟩ := by
  induction h generalizing calls with
  | nil => simpa using Replays.nil
  | @cons _ _ _ exchange _ first _ ih =>
      have onward := ih (calls ++ [exchange.call])
      rw [List.append_assoc] at onward
      exact .cons (first.record calls) onward

end Replays

theorem replays_preparing_iff {path : String} {tree ready : τ} :
    Replays tree (Exchange.preparing path) ready ↔ Prepared path tree ready := by
  rw [Exchange.preparing]
  constructor
  · intro replayed
    split at replayed
    · rename_i top
      cases replayed
      exact .atTop top
    · rename_i nested
      exact .made nested replayed.happens
  · intro prepared
    cases prepared with
    | atTop top =>
        rw [if_pos top]
        exact .nil
    | made nested made =>
        rw [if_neg nested]
        exact .one made

theorem replays_loading_iff {path content : String} {tree read : τ} :
    Replays tree [.isFile path true, .read path (.ok content)] read ↔
      Loaded path tree content read := by
  constructor
  · intro replayed
    cases replayed with
    | cons found rest => exact ⟨found, rest.happens⟩
  · rintro ⟨found, read⟩
    exact .cons found (.one read)

end Replays

end Repackage
