import Repackage.Proofs.Course
import Repackage.Tree.Memory

/-!
What a run asks of its tree. The turn of an entry asks for its source, for the directory that
holds its destination and for the destination, and for nothing else. So trees that such accesses
keep within a set are kept within it by a course of turns.
-/

namespace Repackage

variable {τ : Type} [SourceTree τ]

def Call.path : Call → String
  | .isFile path | .read path | .createDirs path | .write path _ => path

/-- The accesses that the turn of an entry may make. -/
inductive Entry.Asks (entry : Entry) : Call → Prop
  | isFile : Asks entry (.isFile entry.source)
  | read : Asks entry (.read entry.source)
  | createDirs (nested : Path.parent entry.output ≠ "") :
      Asks entry (.createDirs (Path.parent entry.output))
  | write (content : String) : Asks entry (.write entry.output content)

/-- A set of trees that no access of a kind leaves. -/
structure ClosedUnder (asked : Call → Prop) (P : τ → Prop) : Prop where
  isFile : ∀ {tree : τ} {path : String}, asked (.isFile path) → P tree →
    P (SourceTree.isFile path tree).2
  read : ∀ {tree : τ} {path : String}, asked (.read path) → P tree →
    P (SourceTree.read path tree).2
  createDirs : ∀ {tree : τ} {path : String}, asked (.createDirs path) → P tree →
    P (SourceTree.createDirs path tree).2
  write : ∀ {tree : τ} {path content : String}, asked (.write path content) → P tree →
    P (SourceTree.write path content tree).2

namespace ClosedUnder

variable {asked : Call → Prop} {P : τ → Prop} {tree tree' : τ}

theorem loaded (closed : ClosedUnder asked P) {path content : String}
    (found : asked (.isFile path)) (due : asked (.read path)) (h : P tree)
    (loaded : Loaded path tree content tree') : P tree' := by
  obtain ⟨isFile, read⟩ := loaded
  have done := closed.read due (isFile ▸ closed.isFile found h)
  rwa [read] at done

theorem prepared (closed : ClosedUnder asked P) {path : String}
    (due : Path.parent path ≠ "" → asked (.createDirs (Path.parent path))) (h : P tree)
    (prepared : Prepared path tree tree') : P tree' := by
  cases prepared with
  | atTop _ => exact h
  | made nested made =>
      have done := closed.createDirs (due nested) h
      rwa [made] at done

theorem turn (closed : ClosedUnder asked P) {entry : Entry} {rules : RuleTable}
    (asks : ∀ call, entry.Asks call → asked call) (h : P tree)
    {result : EStateM.Result Failure τ Relocated} (turn : Turn entry rules tree result) :
    P (Ending.state result) := by
  have found := asks _ .isFile
  have due := asks _ .read
  have made (nested : Path.parent entry.output ≠ "") := asks _ (.createDirs nested)
  cases turn with
  | missing absent =>
      have done := closed.isFile found h
      rwa [absent] at done
  | unreadable there unread =>
      have done := closed.read due (there ▸ closed.isFile found h)
      rwa [unread] at done
  | kept loaded _ => exact closed.loaded found due h loaded
  | unprepared loaded _ nested unmade =>
      have done := closed.createDirs (made nested) (closed.loaded found due h loaded)
      rwa [unmade] at done
  | @unwritten _ _ _ content _ loaded _ prepared refused =>
      have ready := closed.prepared made (closed.loaded found due h loaded) prepared
      have done := closed.write (asks _ (.write (entry.rewrite rules content).after)) ready
      rwa [refused] at done
  | @written _ _ _ content loaded _ prepared stored =>
      have ready := closed.prepared made (closed.loaded found due h loaded) prepared
      have done := closed.write (asks _ (.write (entry.rewrite rules content).after)) ready
      rwa [stored] at done

theorem course (closed : ClosedUnder asked P) {visits : List Visit}
    (asks : ∀ visit ∈ visits, ∀ call, visit.entry.Asks call → asked call) (h : P tree)
    (course : Course tree visits tree') : P tree' := by
  induction course with
  | nil => exact h
  | cons turn _ ih =>
      obtain ⟨first, others⟩ := List.forall_mem_cons.mp asks
      exact ih others (closed.turn first h turn)

end ClosedUnder
end Repackage
