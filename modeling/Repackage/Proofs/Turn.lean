import Repackage.Run

/-!
The turn of an entry: which accesses it makes to the tree, in which order, and how it ends.
`Turn` lists the ways a turn can go, and the run of an entry is exactly one of them
(`turn_iff`). Nothing is assumed of the tree, so an access may fail at any time.
-/

namespace Repackage

variable {τ : Type} [SourceTree τ]

namespace Entry

def output (entry : Entry) : String :=
  match entry.kind with
  | .relocation => entry.dest
  | .importFixup => entry.source

/-- Whether a turn writes the result: always for a relocation. -/
def mustWrite (entry : Entry) (result : Rewritten) : Bool :=
  entry.kind = .relocation || result.changed

def settled (entry : Entry) (result : Rewritten) : Relocated :=
  match entry.kind with
  | .relocation => .created result
  | .importFixup => .updated result

/-- What the turn of the entry does with the tree, before it is reported. -/
def relocate (entry : Entry) (rules : RuleTable) : TreeM τ Relocated :=
  match entry.kind with
  | .relocation => TreeM.relocate entry.source entry.dest (entry.rewrite rules)
  | .importFixup => TreeM.rewriteInPlace entry.source (entry.rewrite rules)

theorem run_eq_bind (entry : Entry) (rules : RuleTable) :
    entry.run (τ := τ) rules
      = EStateM.bind (entry.relocate rules) fun relocated =>
        pure (EntryReport.of entry relocated) := by
  cases hk : entry.kind <;> simp only [run, relocate, hk] <;> rfl

theorem run_of_ok {entry : Entry} {rules : RuleTable} {tree tree' : τ} {relocated : Relocated}
    (h : entry.relocate rules tree = .ok relocated tree') :
    entry.run rules tree = .ok (EntryReport.of entry relocated) tree' := by
  rw [run_eq_bind]
  simp only [EStateM.bind, h]
  rfl

theorem run_of_error {entry : Entry} {rules : RuleTable} {tree tree' : τ} {failure : Failure}
    (h : entry.relocate rules tree = .error failure tree') :
    entry.run rules tree = .error failure tree' := by
  rw [run_eq_bind]
  simp only [EStateM.bind, h]

end Entry

/-- The path names a file, and the file is read. -/
inductive Loaded (path : String) (tree : τ) (content : String) (tree' : τ) : Prop
  | intro {asked : τ} (found : SourceTree.isFile path tree = (true, asked))
      (read : SourceTree.read path asked = (.ok content, tree'))

/-- The directory for a file is there: it needs none, or it has been made. -/
inductive Prepared (path : String) (tree : τ) : τ → Prop
  | atTop (top : Path.parent path = "") : Prepared path tree tree
  | made {tree' : τ} (nested : Path.parent path ≠ "")
      (made : SourceTree.createDirs (Path.parent path) tree = (.ok (), tree')) :
      Prepared path tree tree'

/-- How the turn of an entry can go, from a tree to its result. -/
inductive Turn (entry : Entry) (rules : RuleTable) (tree : τ) :
    EStateM.Result Failure τ Relocated → Prop
  | missing {tree' : τ} (absent : SourceTree.isFile entry.source tree = (false, tree')) :
      Turn entry rules tree (.ok (.skipped .notFound) tree')
  | unreadable {asked tree' : τ} {cause : FileError}
      (found : SourceTree.isFile entry.source tree = (true, asked))
      (unread : SourceTree.read entry.source asked = (.error cause, tree')) :
      Turn entry rules tree (.error (.readFailure entry.source cause) tree')
  | kept {tree' : τ} {content : String} (loaded : Loaded entry.source tree content tree')
      (idle : entry.mustWrite (entry.rewrite rules content) = false) :
      Turn entry rules tree (.ok (.unchanged (entry.rewrite rules content)) tree')
  | unprepared {read tree' : τ} {content : String} {cause : FileError}
      (loaded : Loaded entry.source tree content read)
      (due : entry.mustWrite (entry.rewrite rules content) = true)
      (nested : Path.parent entry.output ≠ "")
      (unmade : SourceTree.createDirs (Path.parent entry.output) read = (.error cause, tree')) :
      Turn entry rules tree (.error (.writeFailure (Path.parent entry.output) cause) tree')
  | unwritten {read ready tree' : τ} {content : String} {cause : FileError}
      (loaded : Loaded entry.source tree content read)
      (due : entry.mustWrite (entry.rewrite rules content) = true)
      (prepared : Prepared entry.output read ready)
      (refused : SourceTree.write entry.output (entry.rewrite rules content).after ready
        = (.error cause, tree')) :
      Turn entry rules tree (.error (.writeFailure entry.output cause) tree')
  | written {read ready tree' : τ} {content : String}
      (loaded : Loaded entry.source tree content read)
      (due : entry.mustWrite (entry.rewrite rules content) = true)
      (prepared : Prepared entry.output read ready)
      (stored : SourceTree.write entry.output (entry.rewrite rules content).after ready
        = (.ok (), tree')) :
      Turn entry rules tree (.ok (entry.settled (entry.rewrite rules content)) tree')

namespace TreeM

theorem load_of_absent {path : String} {tree tree' : τ}
    (h : SourceTree.isFile path tree = (false, tree')) :
    load path tree = .ok none tree' := by
  simp only [load, ask, bind, EStateM.bind, h]
  rfl

theorem load_of_unread {path : String} {tree asked tree' : τ} {cause : FileError}
    (h : SourceTree.isFile path tree = (true, asked))
    (hr : SourceTree.read path asked = (.error cause, tree')) :
    load path tree = .error (.readFailure path cause) tree' := by
  simp only [load, ask, attempt, bind, EStateM.bind, h, if_true, hr]

theorem load_of_loaded {path content : String} {tree tree' : τ}
    (h : Loaded path tree content tree') : load path tree = .ok (some content) tree' := by
  obtain ⟨found, read⟩ := h
  simp only [load, ask, attempt, bind, EStateM.bind, found, if_true, read]
  rfl

theorem persist_of_unmade {path content : String} {tree tree' : τ} {cause : FileError}
    (nested : Path.parent path ≠ "")
    (h : SourceTree.createDirs (Path.parent path) tree = (.error cause, tree')) :
    persist path content tree = .error (.writeFailure (Path.parent path) cause) tree' := by
  have : (!(Path.parent path).isEmpty) = true := by simpa using nested
  simp only [persist, this, if_true, bind, EStateM.bind, attempt, h]

theorem persist_of_prepared {path content : String} {tree ready : τ}
    (h : Prepared path tree ready) :
    persist path content tree
      = attempt (.writeFailure path) (SourceTree.write path content) ready := by
  cases h with
  | atTop top =>
      have : (!(Path.parent path).isEmpty) = false := by simpa using top
      simp only [persist, this]
      rfl
  | made nested made =>
      have : (!(Path.parent path).isEmpty) = true := by simpa using nested
      simp only [persist, this, if_true, bind, EStateM.bind, attempt, made]

end TreeM

namespace Entry

theorem relocate_of_loaded {entry : Entry} {rules : RuleTable} {tree read : τ}
    {content : String} (loaded : Loaded entry.source tree content read) :
    entry.relocate rules tree =
      if entry.mustWrite (entry.rewrite rules content) then
        (TreeM.persist entry.output (entry.rewrite rules content).after >>= fun _ =>
          pure (entry.settled (entry.rewrite rules content))) read
      else .ok (.unchanged (entry.rewrite rules content)) read := by
  have load := TreeM.load_of_loaded loaded
  cases hk : entry.kind with
  | relocation =>
      simp [relocate, TreeM.relocate, mustWrite, output, settled, hk, bind, EStateM.bind, load]
  | importFixup =>
      cases hc : (entry.rewrite rules content).changed <;>
        simp [relocate, TreeM.rewriteInPlace, mustWrite, output, settled, hk, hc, bind,
          EStateM.bind, load, pure, EStateM.pure]

theorem relocate_of_turn {entry : Entry} {rules : RuleTable} {tree : τ}
    {result : EStateM.Result Failure τ Relocated} (h : Turn entry rules tree result) :
    entry.relocate rules tree = result := by
  cases h with
  | missing absent =>
      have load := TreeM.load_of_absent absent
      cases hk : entry.kind <;>
        simp [relocate, TreeM.relocate, TreeM.rewriteInPlace, hk, bind, EStateM.bind, load,
          pure, EStateM.pure]
  | unreadable found unread =>
      have load := TreeM.load_of_unread found unread
      cases hk : entry.kind <;>
        simp [relocate, TreeM.relocate, TreeM.rewriteInPlace, hk, bind, EStateM.bind, load]
  | kept loaded idle =>
      rw [relocate_of_loaded loaded, if_neg (by simp [idle])]
  | unprepared loaded due nested unmade =>
      rw [relocate_of_loaded loaded, if_pos due]
      simp only [bind, EStateM.bind, TreeM.persist_of_unmade nested unmade]
  | unwritten loaded due prepared refused =>
      rw [relocate_of_loaded loaded, if_pos due]
      simp only [bind, EStateM.bind, TreeM.persist_of_prepared prepared, TreeM.attempt, refused]
  | written loaded due prepared stored =>
      rw [relocate_of_loaded loaded, if_pos due]
      simp only [bind, EStateM.bind, TreeM.persist_of_prepared prepared, TreeM.attempt, stored]
      rfl

private theorem exists_prepared (path : String) (tree : τ) :
    (∃ ready, Prepared path tree ready) ∨
      ∃ cause tree', Path.parent path ≠ "" ∧
        SourceTree.createDirs (Path.parent path) tree = (.error cause, tree') := by
  by_cases top : Path.parent path = ""
  · exact .inl ⟨tree, .atTop top⟩
  · cases h : SourceTree.createDirs (Path.parent path) tree with
    | mk answer tree' =>
        cases answer with
        | ok _ => exact .inl ⟨tree', .made top h⟩
        | error cause => exact .inr ⟨cause, tree', top, rfl⟩

private theorem exists_turn (entry : Entry) (rules : RuleTable) (tree : τ) :
    ∃ result, Turn entry rules tree result := by
  cases hf : SourceTree.isFile entry.source tree with
  | mk found asked =>
      cases found with
      | false => exact ⟨_, .missing hf⟩
      | true =>
          cases hr : SourceTree.read entry.source asked with
          | mk answer read =>
              cases answer with
              | error cause => exact ⟨_, .unreadable hf hr⟩
              | ok content =>
                  have loaded : Loaded entry.source tree content read := ⟨hf, hr⟩
                  cases due : entry.mustWrite (entry.rewrite rules content) with
                  | false => exact ⟨_, .kept loaded due⟩
                  | true =>
                      rcases exists_prepared entry.output read with
                        ⟨ready, prepared⟩ | ⟨cause, tree', nested, unmade⟩
                      · cases hw : SourceTree.write entry.output
                            (entry.rewrite rules content).after ready with
                        | mk answer tree' =>
                            cases answer with
                            | error cause => exact ⟨_, .unwritten loaded due prepared hw⟩
                            | ok _ => exact ⟨_, .written loaded due prepared hw⟩
                      · exact ⟨_, .unprepared loaded due nested unmade⟩

/-- The turn of an entry goes in one of the listed ways, and only in one. -/
theorem turn_iff {entry : Entry} {rules : RuleTable} {tree : τ}
    {result : EStateM.Result Failure τ Relocated} :
    Turn entry rules tree result ↔ entry.relocate rules tree = result := by
  refine ⟨relocate_of_turn, ?_⟩
  rintro rfl
  obtain ⟨result, h⟩ := exists_turn entry rules tree
  rwa [relocate_of_turn h]

end Entry
end Repackage
