import Repackage.Proofs.Confinement
import Repackage.Proofs.Dialogue

/-!
Sessions: the dialogues of a pass, one for each entry until one fails. A pass over well-formed
entries is such a session whatever the tree answers, and its calls are recorded in that order.
-/

namespace Repackage

/-- What a pass over entries may ask and be told: a dialogue for each, until one fails. -/
inductive Session (phase : Phase) :
    List Entry → List (List Exchange) → Except Failure (List EntryReport) → Prop
  | done : Session phase [] [] (.ok [])
  | next {entry : Entry} {entries : List Entry} {exchanges : List Exchange}
      {talks : List (List Exchange)} {relocated : Relocated}
      {result : Except Failure (List EntryReport)}
      (dialogue : Dialogue entry phase.rules exchanges (.ok relocated))
      (rest : Session phase entries talks result) :
      Session phase (entry :: entries) (exchanges :: talks)
        (result.map (EntryReport.of entry relocated :: ·))
  | stop {entry : Entry} {entries : List Entry} {exchanges : List Exchange} {failure : Failure}
      (dialogue : Dialogue entry phase.rules exchanges (.error failure)) :
      Session phase (entry :: entries) [exchanges]
        (.error (.aborted phase.name entry.source failure))

namespace Session

variable {τ : Type} [SourceTree τ] {phase : Phase} {entries : List Entry}
  {talks : List (List Exchange)} {result : Except Failure (List EntryReport)}

/-- Each talk of a session is the dialogue of an entry. -/
theorem exists_dialogue (session : Session phase entries talks result) {talk : List Exchange}
    (h : talk ∈ talks) :
    ∃ entry ∈ entries, ∃ outcome, Dialogue entry phase.rules talk outcome := by
  induction session with
  | done => cases h
  | next dialogue _ ih =>
      rcases List.mem_cons.mp h with rfl | later
      · exact ⟨_, List.mem_cons_self, _, dialogue⟩
      · obtain ⟨entry, listed, spoken⟩ := ih later
        exact ⟨entry, List.mem_cons_of_mem _ listed, spoken⟩
  | stop dialogue =>
      obtain rfl := List.mem_singleton.mp h
      exact ⟨_, List.mem_cons_self, _, dialogue⟩

/-- Whatever the tree answers, there is a session that it takes part in. -/
theorem exists_replayed (wellFormed : ∀ entry ∈ entries, entry.WellFormed) (tree : τ) :
    ∃ talks result tree', Session phase entries talks result ∧
      Replays tree talks.flatten tree' := by
  induction entries generalizing tree with
  | nil => exact ⟨[], _, tree, .done, .nil⟩
  | cons entry rest ih =>
      obtain ⟨first, others⟩ := List.forall_mem_cons.mp wellFormed
      have turn : Turn entry phase.rules tree (entry.relocate phase.rules tree) :=
        Entry.turn_iff.mpr rfl
      obtain ⟨exchanges, dialogue, replayed⟩ := turn.exists_dialogue first
      cases ended : entry.relocate phase.rules tree with
      | error failure tree' =>
          rw [ended] at dialogue replayed
          refine ⟨[exchanges], _, tree', .stop dialogue, ?_⟩
          rwa [List.flatten_singleton]
      | ok relocated next =>
          rw [ended] at dialogue replayed
          obtain ⟨talks, result, tree', session, onward⟩ := ih others next
          exact ⟨exchanges :: talks, _, tree', .next dialogue session, replayed.append onward⟩

/-- A session that the tree takes part in is a run of the entries. -/
theorem runEntries (session : Session phase entries talks result)
    (wellFormed : ∀ entry ∈ entries, entry.WellFormed) {tree tree' : τ}
    (replayed : Replays tree talks.flatten tree') (events : List Event) :
    Ending.answer (phase.runEntries entries ⟨tree, events⟩) = result ∧
      (Ending.state (phase.runEntries entries ⟨tree, events⟩)).tree = tree' := by
  induction session generalizing tree events with
  | done =>
      cases replayed
      exact ⟨rfl, rfl⟩
  | next dialogue _ ih =>
      obtain ⟨first, others⟩ := List.forall_mem_cons.mp wellFormed
      obtain ⟨next, here, onward⟩ := Replays.split replayed
      rw [Phase.runEntries_of_ok (dialogue.turn first here)]
      obtain ⟨answer, state⟩ := ih others onward _
      rw [Ending.answer_map, Ending.state_map, answer]
      exact ⟨rfl, state⟩
  | stop dialogue =>
      rw [List.flatten_singleton] at replayed
      have turn := dialogue.turn (List.forall_mem_cons.mp wellFormed).1 replayed
      rw [Phase.runEntries_of_error turn]
      exact ⟨rfl, rfl⟩

theorem run (session : Session phase phase.manifest talks result) (wellFormed : phase.WellFormed)
    {tree tree' : τ} (replayed : Replays tree talks.flatten tree') :
    Ending.answer (phase.run { tree }) =
        result.map (fun reports => ⟨phase.name, reports, Summary.ofReports reports⟩) ∧
      (Ending.state (phase.run { tree })).tree = tree' := by
  obtain ⟨answer, state⟩ := session.runEntries wellFormed replayed []
  rw [← answer, ← state]
  simp only [Phase.run, bind, EStateM.bind]
  cases phase.runEntries phase.manifest ⟨tree, []⟩ <;> exact ⟨rfl, rfl⟩

/-- Also across its dialogues a session has made the directory of what it writes just before. -/
theorem prepared (session : Session phase entries talks result) {before after : List Exchange}
    {path content : String} {answer : Except FileError Unit}
    (same : talks.flatten = before ++ .write path content answer :: after)
    (nested : Path.parent path ≠ "") :
    ∃ front, before = front ++ [.createDirs (Path.parent path) (.ok ())] := by
  have inTalk (front back : List Exchange)
      (h : front ++ .write path content answer :: back ∈ talks) :
      ∃ front', front = front' ++ [.createDirs (Path.parent path) (.ok ())] := by
    obtain ⟨_, _, _, dialogue⟩ := session.exists_dialogue h
    exact dialogue.prepared rfl nested
  rcases List.flatten_eq_append_iff.mp same with
    ⟨earlier, later, rfl, rfl, tail⟩ | ⟨earlier, front, first, back, later, rfl, rfl, tail⟩
  · obtain ⟨_, back, _, rfl, _, _⟩ := List.flatten_eq_cons_iff.mp tail.symm
    obtain ⟨_, none⟩ := inTalk [] back (by simp)
    simp at none
  · obtain rfl := (List.cons.inj tail).1
    obtain ⟨front', rfl⟩ := inTalk front back (by simp)
    exact ⟨earlier.flatten ++ front', by simp⟩

theorem path_normal (session : Session phase entries talks result)
    (wellFormed : ∀ entry ∈ entries, entry.WellFormed) {exchange : Exchange}
    (h : exchange ∈ talks.flatten) : Path.IsNormal exchange.call.path := by
  obtain ⟨talk, spoken, there⟩ := List.mem_flatten.mp h
  obtain ⟨entry, listed, _, dialogue⟩ := session.exists_dialogue spoken
  exact (dialogue.asks (wellFormed entry listed) there).path_normal (wellFormed entry listed)

end Session

namespace DiskTree

theorem keeps_of_happens {tree next : DiskTree} {exchange : Exchange}
    (normal : Path.IsNormal exchange.call.path) (h : exchange.Happens tree next) :
    ∃ disk', next = { tree with disk := disk' } ∧ tree.disk.Keeps disk' := by
  cases exchange with
  | isFile path found | read path answer =>
      obtain rfl := congrArg Prod.snd h
      exact ⟨_, rfl, .refl _⟩
  | createDirs path answer =>
      have here : Path.IsNormal path := normal
      have made : SourceTree.createDirs path tree = (answer, next) := h
      obtain ⟨disk', rfl, keeps, -⟩ := createDirs_keeps here made
      exact ⟨disk', rfl, keeps⟩
  | write path content answer =>
      have here : Path.IsNormal path := normal
      have ended : SourceTree.write path content tree = (answer, next) := h
      cases answer with
      | error cause =>
          obtain rfl := write_error ended
          exact ⟨_, rfl, .refl _⟩
      | ok _ =>
          obtain ⟨_, disk', rfl, _, _, keeps, _⟩ := write_places here ended
          exact ⟨disk', rfl, keeps⟩

theorem keeps_of_replays {tree tree' : DiskTree} {exchanges : List Exchange}
    (replayed : Replays tree exchanges tree')
    (normal : ∀ exchange ∈ exchanges, Path.IsNormal exchange.call.path) :
    ∃ disk', tree' = { tree with disk := disk' } ∧ tree.disk.Keeps disk' := by
  induction replayed with
  | nil => exact ⟨_, rfl, .refl _⟩
  | cons first _ ih =>
      obtain ⟨here, others⟩ := List.forall_mem_cons.mp normal
      obtain ⟨between, rfl, keeps⟩ := keeps_of_happens here first
      obtain ⟨disk', rfl, keeps'⟩ := ih others
      exact ⟨disk', rfl, keeps.trans keeps'⟩

/-- On a disk whose working directory is there, every directory above a file is there when a
session comes to write the file. -/
theorem folders_of_session {phase : Phase} (wellFormed : phase.WellFormed)
    {talks : List (List Exchange)} {result : Except Failure (List EntryReport)}
    (session : Session phase phase.manifest talks result) {disk between : DiskTree}
    (start : disk.disk.IsFolderAt (disk.disk.start disk.root)) {before after : List Exchange}
    {path content : String} {answer : Except FileError Unit}
    (same : talks.flatten = before ++ .write path content answer :: after)
    (nested : Path.parent path ≠ "") (replayed : Replays disk before between) :
    ∃ root, between.RootedAt root ∧ ∀ names, names <+: Path.components (Path.parent path) →
      between.disk.IsFolderAt (root ++ names) := by
  obtain ⟨front, rfl⟩ := session.prepared same nested
  have normal (exchange : Exchange) (h : exchange ∈ talks.flatten) :
      Path.IsNormal exchange.call.path :=
    session.path_normal wellFormed h
  obtain ⟨mid, fronted, made⟩ := replayed.split
  obtain ⟨disk', rfl, keeps⟩ := keeps_of_replays fronted fun exchange there =>
    normal exchange (by simp [same, there])
  have dirNormal : Path.IsNormal (Path.parent path) :=
    normal (.createDirs (Path.parent path) (.ok ())) (by simp [same])
  have makes : SourceTree.createDirs (Path.parent path) { disk with disk := disk' }
      = (.ok (), between) :=
    made.happens
  exact (createDirs_makes dirNormal (keeps.isFolderAt_start start) makes).2

end DiskTree

namespace Phase

variable {τ : Type} [SourceTree τ]

/-- A pass over well-formed entries is a session with the tree, whatever that answers, and makes
the calls of the session in their order. In each dialogue the tree is dealt with carefully. On a
disk every directory above a file is there before the file is written. -/
theorem run_session (phase : Phase) (wellFormed : phase.WellFormed) (tree : τ) :
    let ended := phase.run { tree }
    let recorded := phase.run { tree := ({ tree } : Recorded τ) }
    (∃ talks result, Session phase phase.manifest talks result ∧
      Replays tree talks.flatten (Ending.state ended).tree ∧
      Ending.answer ended =
        result.map (fun reports => ⟨phase.name, reports, Summary.ofReports reports⟩) ∧
      Ending.answer recorded = Ending.answer ended ∧
      (Ending.state recorded).tree =
        ⟨(Ending.state ended).tree, talks.flatten.map Exchange.call⟩) ∧
    (∀ entry ∈ phase.manifest, ∀ exchanges outcome,
      Dialogue entry phase.rules exchanges outcome →
        entry.Disciplined phase.rules exchanges outcome) ∧
    ∀ (disk between : DiskTree) talks result before path content answer after,
      disk.disk.IsFolderAt (disk.disk.start disk.root) →
      Session phase phase.manifest talks result →
      talks.flatten = before ++ .write path content answer :: after →
      Path.parent path ≠ "" → Replays disk before between →
        ∃ root, between.RootedAt root ∧ ∀ names, names <+: Path.components (Path.parent path) →
          between.disk.IsFolderAt (root ++ names) := by
  intro ended recorded
  obtain ⟨talks, result, tree', session, replayed⟩ := Session.exists_replayed wellFormed tree
  obtain ⟨answer, state⟩ := session.run wellFormed replayed
  obtain ⟨answer', state'⟩ := session.run wellFormed (replayed.record [])
  refine ⟨⟨talks, result, session, ?_, answer, answer'.trans answer.symm, ?_⟩,
    fun _ _ _ _ dialogue => dialogue.disciplined, ?_⟩
  · exact state ▸ replayed
  · exact state'.trans (by rw [state]; rfl)
  · intro disk between talks result before path content reply after start session same nested
      replayed
    exact DiskTree.folders_of_session wellFormed session start same nested replayed

/-- A relocation into a directory of its own, a fixup that changes nothing, one whose source is
missing, one that cannot be written and one that has no turn any more. -/
def halting : Phase where
  name := "halt"
  rules := [⟨"old.", "new."⟩]
  manifest := [⟨"a", "b/c", some ⟨"p", "q"⟩⟩, ⟨"d", "d", none⟩, ⟨"e", "e", none⟩,
    ⟨"f", "f", none⟩, ⟨"g", "g", none⟩]

def partlyWritable : MemoryTree where
  files := ⟨[("a", "package p;"), ("d", "plain"), ("f", "old.X"), ("g", "old.Y")]⟩
  badWrite := ⟨[("f", .noSpace)]⟩

def partlyThere : DiskTree where
  root := "."
  disk :=
    { top := .file "a" "package p;".toUTF8 (.file "d" "plain".toUTF8 .empty)
      working := [] }

theorem run_session_halting :
    halting.WellFormed ∧
      (∃ talks result, Session halting halting.manifest talks result ∧
        (Ending.answer (halting.run { tree := partlyWritable })).toOption = none ∧
        talks.flatten.map Exchange.call =
          [.isFile "a", .read "a", .createDirs "b", .write "b/c" "package q;", .isFile "d",
            .read "d", .isFile "e", .isFile "f", .read "f", .write "f" "new.X"] ∧
        ∀ talk ∈ talks, ∃ entry ∈ halting.manifest, ∃ outcome,
          entry.Disciplined halting.rules talk outcome) ∧
      ∃ before between root, before.map Exchange.call =
          [.isFile "a", .read "a", .createDirs "b"] ∧
        Replays partlyThere before between ∧ between.RootedAt root ∧
        between.disk.IsFolderAt (root ++ ["b"]) := by
  have wellFormed : halting.WellFormed := by decide
  have fails : (Ending.answer (halting.run { tree := partlyWritable })).toOption = none := by
    decide +kernel
  have calls : (Ending.state (halting.run
      { tree := ({ tree := partlyWritable } : Recorded MemoryTree) })).tree.calls =
        [.isFile "a", .read "a", .createDirs "b", .write "b/c" "package q;", .isFile "d",
          .read "d", .isFile "e", .isFile "f", .read "f", .write "f" "new.X"] := by
    decide +kernel
  have diskCalls : (Ending.state (halting.run
      { tree := ({ tree := partlyThere } : Recorded DiskTree) })).tree.calls =
        [.isFile "a", .read "a", .createDirs "b"] ++ .write "b/c" "package q;" ::
          [.isFile "d", .read "d", .isFile "e", .isFile "f", .isFile "g"] := by
    decide +kernel
  obtain ⟨⟨talks, result, session, -, -, -, recorded⟩, disciplined, folders⟩ :=
    run_session halting wellFormed partlyWritable
  obtain ⟨⟨diskTalks, diskResult, diskSession, replayed, -, -, diskRecorded⟩, -⟩ :=
    run_session halting wellFormed partlyThere
  refine ⟨wellFormed, ⟨talks, result, session, fails, ?_, fun talk spoken => ?_⟩, ?_⟩
  · rw [← calls, recorded]
  · obtain ⟨entry, listed, outcome, dialogue⟩ := session.exists_dialogue spoken
    exact ⟨entry, listed, outcome, disciplined entry listed talk outcome dialogue⟩
  · rw [diskRecorded] at diskCalls
    obtain ⟨before, rest, cut, asked, others⟩ := List.map_eq_append_iff.mp diskCalls
    obtain ⟨last, after, rfl, written, -⟩ := List.map_eq_cons_iff.mp others
    rw [cut] at replayed
    obtain ⟨between, begun, -⟩ := replayed.split
    cases last with
    | isFile | read | createDirs => cases written
    | write path content answer =>
        obtain ⟨rfl, rfl⟩ := Call.write.inj written
        obtain ⟨root, rooted, there⟩ := folders partlyThere between diskTalks diskResult before
          "b/c" "package q;" answer after ⟨_, rfl⟩ diskSession cut (by decide) begun
        exact ⟨before, between, root, asked, begun, rooted, there ["b"] (by decide)⟩

end Phase
end Repackage
