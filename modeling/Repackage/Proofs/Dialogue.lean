import Repackage.Proofs.Asks
import Repackage.Proofs.Exchange
import Repackage.Proofs.WellFormed

/-!
The dialogues that the turn of an entry can have with its tree. A tree takes part in one of them
exactly if it is the turn. What every dialogue keeps to is said of the list of its exchanges:
when nothing is changed, what is written where and how often, and what an outcome stands for.
-/

namespace Repackage

/-- What the turn of an entry may ask and be told, and what comes of it. -/
inductive Dialogue (entry : Entry) (rules : RuleTable) :
    List Exchange → Except Failure Relocated → Prop
  | missing : Dialogue entry rules [.isFile entry.source false] (.ok (.skipped .notFound))
  | unreadable (cause : FileError) : Dialogue entry rules
      [.isFile entry.source true, .read entry.source (.error cause)]
      (.error (.readFailure entry.source cause))
  | kept {content : String} (idle : entry.mustWrite (entry.rewrite rules content) = false) :
      Dialogue entry rules [.isFile entry.source true, .read entry.source (.ok content)]
        (.ok (.unchanged (entry.rewrite rules content)))
  | unprepared {content : String} (cause : FileError)
      (due : entry.mustWrite (entry.rewrite rules content) = true)
      (nested : Path.parent entry.dest ≠ "") : Dialogue entry rules
        ([.isFile entry.source true, .read entry.source (.ok content)] ++
          [.createDirs (Path.parent entry.dest) (.error cause)])
        (.error (.writeFailure (Path.parent entry.dest) cause))
  | unwritten {content : String} (cause : FileError)
      (due : entry.mustWrite (entry.rewrite rules content) = true) : Dialogue entry rules
        ([.isFile entry.source true, .read entry.source (.ok content)] ++
          (Exchange.preparing entry.dest ++
            [.write entry.dest (entry.rewrite rules content).after (.error cause)]))
        (.error (.writeFailure entry.dest cause))
  | written {content : String} (due : entry.mustWrite (entry.rewrite rules content) = true) :
      Dialogue entry rules
        ([.isFile entry.source true, .read entry.source (.ok content)] ++
          (Exchange.preparing entry.dest ++
            [.write entry.dest (entry.rewrite rules content).after (.ok ())]))
        (.ok (entry.settled (entry.rewrite rules content)))

section Turns

variable {τ : Type} [SourceTree τ] {entry : Entry} {rules : RuleTable}

theorem Turn.exists_dialogue (wellFormed : entry.WellFormed) {tree : τ}
    {result : EStateM.Result Failure τ Relocated} (turn : Turn entry rules tree result) :
    ∃ exchanges, Dialogue entry rules exchanges (Ending.answer result) ∧
      Replays tree exchanges (Ending.state result) := by
  have output := wellFormed.output_eq
  cases turn with
  | missing absent => exact ⟨_, .missing, .one absent⟩
  | unreadable found unread => exact ⟨_, .unreadable _, .cons found (.one unread)⟩
  | kept loaded idle => exact ⟨_, .kept idle, replays_loading_iff.mpr loaded⟩
  | unprepared loaded due nested unmade =>
      rw [output] at nested unmade ⊢
      exact ⟨_, .unprepared _ due nested, (replays_loading_iff.mpr loaded).append (.one unmade)⟩
  | unwritten loaded due prepared refused =>
      rw [output] at prepared refused ⊢
      exact ⟨_, .unwritten _ due, (replays_loading_iff.mpr loaded).append
        ((replays_preparing_iff.mpr prepared).append (.one refused))⟩
  | written loaded due prepared stored =>
      rw [output] at prepared stored
      exact ⟨_, .written due, (replays_loading_iff.mpr loaded).append
        ((replays_preparing_iff.mpr prepared).append (.one stored))⟩

/-- The ending with this answer, in this state. -/
def Ending.of {ε σ α : Type} : Except ε α → σ → EStateM.Result ε σ α
  | .ok value, state => .ok value state
  | .error failure, state => .error failure state

/-- A dialogue that the tree takes part in is a turn of the entry. -/
theorem Dialogue.turn (wellFormed : entry.WellFormed) {exchanges : List Exchange}
    {outcome : Except Failure Relocated} (dialogue : Dialogue entry rules exchanges outcome)
    {tree tree' : τ} (replayed : Replays tree exchanges tree') :
    Turn entry rules tree (Ending.of outcome tree') := by
  have output := wellFormed.output_eq
  cases dialogue with
  | missing => exact .missing replayed.happens
  | unreadable cause =>
      cases replayed with
      | cons found rest => exact .unreadable found rest.happens
  | kept idle => exact .kept (replays_loading_iff.mp replayed) idle
  | unprepared cause due nested =>
      obtain ⟨read, loading, rest⟩ := replayed.split
      rw [← output] at nested rest ⊢
      exact .unprepared (replays_loading_iff.mp loading) due nested rest.happens
  | unwritten cause due =>
      obtain ⟨read, loading, rest⟩ := replayed.split
      obtain ⟨ready, preparing, refused⟩ := rest.split
      rw [← output] at preparing refused ⊢
      exact .unwritten (replays_loading_iff.mp loading) due (replays_preparing_iff.mp preparing)
        refused.happens
  | written due =>
      obtain ⟨read, loading, rest⟩ := replayed.split
      obtain ⟨ready, preparing, stored⟩ := rest.split
      rw [← output] at preparing stored
      exact .written (replays_loading_iff.mp loading) due (replays_preparing_iff.mp preparing)
        stored.happens

end Turns

namespace Exchange

theorem mem_preparing {path : String} {exchange : Exchange} : exchange ∈ preparing path ↔
    Path.parent path ≠ "" ∧ exchange = .createDirs (Path.parent path) (.ok ()) := by
  rw [preparing]
  split <;> simp_all

theorem countP_preparing (path : String) : (preparing path).countP isWrite = 0 :=
  List.countP_eq_zero.mpr fun exchange h => by simp [(mem_preparing.mp h).2, isWrite]

end Exchange

/-- What an entry may be relied on in a dialogue. A missing, unreadable or unchanged source leaves
the tree alone. There is at most one write, to the destination and of what becomes of the text
that was read, and its directory has been made before. Each outcome of a write stands for one. -/
structure Entry.Disciplined (entry : Entry) (rules : RuleTable) (exchanges : List Exchange)
    (outcome : Except Failure Relocated) : Prop where
  quiet : outcome.map Relocated.outcome = .ok .notFound ∨
    outcome.map Relocated.outcome = .ok .unchanged ∨
    (∃ cause, outcome = .error (.readFailure entry.source cause)) →
      ∀ exchange ∈ exchanges, exchange.isQuiet = true
  writesOnce : exchanges.countP Exchange.isWrite ≤ 1
  writesResult : ∀ path content answer, .write path content answer ∈ exchanges →
    path = entry.dest ∧ ∃ text, .read entry.source (.ok text) ∈ exchanges ∧
      content = (entry.rewrite rules text).after
  created_iff : outcome.map Relocated.outcome = .ok .created ↔ entry.kind = .relocation ∧
    ∃ path content, .write path content (.ok ()) ∈ exchanges
  updated_iff : outcome.map Relocated.outcome = .ok .updated ↔ entry.kind = .importFixup ∧
    (∃ text, .read entry.source (.ok text) ∈ exchanges ∧
      (entry.rewrite rules text).changed = true) ∧
    ∃ path content, .write path content (.ok ()) ∈ exchanges
  prepared : ∀ before path content answer after,
    exchanges = before ++ .write path content answer :: after → Path.parent path ≠ "" →
      ∃ front, before = front ++ [.createDirs (Path.parent path) (.ok ())]

namespace Dialogue

variable {entry : Entry} {rules : RuleTable} {exchanges : List Exchange}
  {outcome : Except Failure Relocated}

theorem asks (wellFormed : entry.WellFormed) (dialogue : Dialogue entry rules exchanges outcome)
    {exchange : Exchange} (h : exchange ∈ exchanges) : entry.Asks exchange.call := by
  have output := wellFormed.output_eq
  have created (nested : Path.parent entry.dest ≠ "") :
      entry.Asks (.createDirs (Path.parent entry.dest)) := by
    rw [← output] at nested ⊢
    exact .createDirs nested
  have written (content : String) : entry.Asks (.write entry.dest content) := by
    rw [← output]
    exact .write content
  cases dialogue with
  | missing =>
      obtain rfl := List.mem_singleton.mp h
      exact .isFile
  | unreadable | kept =>
      simp only [List.mem_cons, List.not_mem_nil, or_false] at h
      rcases h with rfl | rfl
      · exact .isFile
      · exact .read
  | unprepared cause due nested =>
      simp only [List.mem_append, List.mem_cons, List.not_mem_nil, or_false] at h
      rcases h with (rfl | rfl) | rfl
      · exact .isFile
      · exact .read
      · exact created nested
  | unwritten | written =>
      simp only [List.mem_append, List.mem_cons, List.not_mem_nil, or_false,
        Exchange.mem_preparing] at h
      rcases h with (rfl | rfl) | ⟨nested, rfl⟩ | rfl
      · exact .isFile
      · exact .read
      · exact created nested
      · exact written _

theorem quiet (dialogue : Dialogue entry rules exchanges outcome)
    (h : outcome.map Relocated.outcome = .ok .notFound ∨
      outcome.map Relocated.outcome = .ok .unchanged ∨
      (∃ cause, outcome = .error (.readFailure entry.source cause))) :
    ∀ exchange ∈ exchanges, exchange.isQuiet = true := by
  cases dialogue with
  | missing | unreadable | kept => simp [Exchange.isQuiet]
  | unprepared | unwritten => simp [Except.map] at h
  | written =>
      cases hk : entry.kind <;>
        simp [Except.map, Entry.settled, hk, Relocated.outcome] at h

theorem countP_isWrite (dialogue : Dialogue entry rules exchanges outcome) :
    exchanges.countP Exchange.isWrite ≤ 1 := by
  cases dialogue <;> simp [Exchange.isWrite, Exchange.countP_preparing]

theorem write_eq (dialogue : Dialogue entry rules exchanges outcome) {path content : String}
    {answer : Except FileError Unit} (h : .write path content answer ∈ exchanges) :
    path = entry.dest ∧ ∃ text, .read entry.source (.ok text) ∈ exchanges ∧
      content = (entry.rewrite rules text).after := by
  cases dialogue with
  | missing | unreadable | kept | unprepared => simp at h
  | @unwritten text | @written text =>
      have here : path = entry.dest ∧ content = (entry.rewrite rules text).after := by
        simp only [List.mem_append, List.mem_cons, List.not_mem_nil, or_false, reduceCtorEq,
          Exchange.mem_preparing, and_false, false_or, Exchange.write.injEq] at h
        exact ⟨h.1, h.2.1⟩
      exact ⟨here.1, text, by simp, here.2⟩

theorem created_iff (dialogue : Dialogue entry rules exchanges outcome) :
    outcome.map Relocated.outcome = .ok .created ↔ entry.kind = .relocation ∧
      ∃ path content, .write path content (.ok ()) ∈ exchanges := by
  cases dialogue with
  | missing | unreadable | kept | unprepared | unwritten =>
      simp [Except.map, Relocated.outcome, Exchange.mem_preparing]
  | written =>
      cases hk : entry.kind <;>
        simp [Except.map, Entry.settled, hk, Relocated.outcome, Exchange.mem_preparing]

theorem updated_iff (dialogue : Dialogue entry rules exchanges outcome) :
    outcome.map Relocated.outcome = .ok .updated ↔ entry.kind = .importFixup ∧
      (∃ text, .read entry.source (.ok text) ∈ exchanges ∧
        (entry.rewrite rules text).changed = true) ∧
      ∃ path content, .write path content (.ok ()) ∈ exchanges := by
  cases dialogue with
  | missing | unreadable | kept | unprepared | unwritten =>
      simp [Except.map, Relocated.outcome, Exchange.mem_preparing]
  | written due =>
      cases hk : entry.kind with
      | relocation => simp [Except.map, Entry.settled, hk, Relocated.outcome]
      | importFixup =>
          have changed := due
          simp only [Entry.mustWrite, hk, Bool.or_eq_true, decide_eq_true_eq, reduceCtorEq,
            false_or] at changed
          simp [Except.map, Entry.settled, hk, Relocated.outcome, Exchange.mem_preparing, changed]

/-- A write stands at the end, and so what comes before it is what the dialogue says it is. -/
private theorem eq_of_append_write {front before after : List Exchange} {path content : String}
    {answer : Except FileError Unit} {last : Exchange}
    (noWrite : ∀ exchange ∈ front, exchange.isWrite = false)
    (same : front ++ [last] = before ++ .write path content answer :: after) :
    before = front ∧ last = .write path content answer := by
  rcases List.append_eq_append_iff.mp same with ⟨more, rfl, tail⟩ | ⟨more, rfl, tail⟩
  · cases more with
    | nil => exact ⟨List.append_nil front, (List.cons.inj tail).1⟩
    | cons _ more => simp at tail
  · cases more with
    | nil => exact ⟨(List.append_nil before).symm, (List.cons.inj tail).1.symm⟩
    | cons exchange more =>
        obtain rfl := (List.cons.inj tail).1
        exact absurd (noWrite (.write path content answer) (by simp)) (by simp [Exchange.isWrite])

theorem prepared (dialogue : Dialogue entry rules exchanges outcome)
    {before after : List Exchange} {path content : String} {answer : Except FileError Unit}
    (same : exchanges = before ++ .write path content answer :: after)
    (nested : Path.parent path ≠ "") :
    ∃ front, before = front ++ [.createDirs (Path.parent path) (.ok ())] := by
  have there : .write path content answer ∈ exchanges := by simp [same]
  cases dialogue with
  | missing | unreadable | kept | unprepared => simp at there
  | @unwritten text | @written text =>
      have noWrite : ∀ exchange ∈ [.isFile entry.source true, .read entry.source (.ok text)] ++
          Exchange.preparing entry.dest, exchange.isWrite = false := by
        simp [Exchange.mem_preparing, Exchange.isWrite]
      rw [← List.append_assoc] at same
      obtain ⟨rfl, last⟩ := eq_of_append_write noWrite same
      obtain ⟨rfl, -⟩ := Exchange.write.inj last
      rw [Exchange.preparing, if_neg nested]
      exact ⟨_, rfl⟩

theorem disciplined (dialogue : Dialogue entry rules exchanges outcome) :
    entry.Disciplined rules exchanges outcome where
  quiet := dialogue.quiet
  writesOnce := dialogue.countP_isWrite
  writesResult _ _ _ := dialogue.write_eq
  created_iff := dialogue.created_iff
  updated_iff := dialogue.updated_iff
  prepared _ _ _ _ _ := dialogue.prepared

end Dialogue

end Repackage
