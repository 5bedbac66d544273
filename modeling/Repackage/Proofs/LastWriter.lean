import Repackage.Proofs.Store
import Repackage.Proofs.WellFormed

/-!
What a file holds in the course of a run: what the last visit put there that processed a
file for it, or else what it held at first. A turn that fails changes no file, so this is
true at the end of every run, however it ends.
-/

namespace Repackage

open FileStore (files)

/-- What a turn of the entry comes to that finds this at its source. -/
def Entry.outcome (entry : Entry) (rules : RuleTable) : Option String → Relocated
  | none => .skipped .notFound
  | some content =>
      if entry.mustWrite (entry.rewrite rules content) then
        entry.settled (entry.rewrite rules content)
      else .unchanged (entry.rewrite rules content)

namespace Entry

theorem result?_settled (entry : Entry) (result : Rewritten) :
    (entry.settled result).result? = some result := by
  cases hk : entry.kind <;> simp [settled, hk, Relocated.result?]

theorem result?_outcome (entry : Entry) (rules : RuleTable) (found : Option String) :
    (entry.outcome rules found).result? = found.map (entry.rewrite rules) := by
  cases found with
  | none => rfl
  | some content =>
      simp only [outcome]
      split
      · exact entry.result?_settled _
      · rfl

theorem before_outcome (entry : Entry) (rules : RuleTable) (found : Option String) :
    (entry.outcome rules found).result?.map Rewritten.before = found := by
  rw [result?_outcome]
  cases found <;> rfl

theorem after_eq_of_idle {entry : Entry} {result : Rewritten}
    (idle : entry.mustWrite result = false) : result.after = result.before := by
  simp only [mustWrite, Rewritten.changed, Bool.or_eq_false_iff] at idle
  simpa using idle.2

end Entry

theorem Relocated.outcome_eq_notFound_iff {relocated : Relocated} :
    relocated.outcome = .notFound ↔ relocated.result? = none := by
  cases relocated <;> simp [Relocated.outcome, Relocated.result?]

namespace EntryReport

theorem beforeDigest_outcome (entry : Entry) (rules : RuleTable) (found : Option String) :
    (EntryReport.of entry (entry.outcome rules found)).beforeDigest = found.map Digest.ofText := by
  simp only [EntryReport.of, Entry.result?_outcome, Option.map_map]
  rfl

theorem outcome_eq_notFound_iff {entry : Entry} {rules : RuleTable} {found : Option String} :
    (EntryReport.of entry (entry.outcome rules found)).outcome = .notFound ↔ found = none := by
  rw [EntryReport.of, Relocated.outcome_eq_notFound_iff, Entry.result?_outcome,
    Option.map_eq_none_iff]

end EntryReport

/-- What a visit puts at a path: what it made of a file whose destination that is. -/
def Visit.output? (visit : Visit) (path : String) : Option String :=
  if visit.entry.dest = path then visit.relocated.result?.map (·.after) else none

/-- What is at a path after visits: the last that they put there, or what was there. -/
def contentAfter (files : String → Option String) (visits : List Visit) (path : String) :
    Option String :=
  (visits.filterMap (·.output? path)).getLast?.or (files path)

section ContentAfter

variable (files : String → Option String)

theorem contentAfter_append (first second : List Visit) :
    contentAfter files (first ++ second) = contentAfter (contentAfter files first) second := by
  funext path
  simp only [contentAfter, List.filterMap_append, List.getLast?_append, Option.or_assoc]

theorem contentAfter_one (visit : Visit) (path : String) :
    contentAfter files [visit] path = (visit.output? path).or (files path) := by
  simp only [contentAfter, List.filterMap_cons, List.filterMap_nil]
  cases visit.output? path <;> rfl

theorem contentAfter_of_untouched {visits : List Visit} {path : String}
    (h : ∀ visit ∈ visits, visit.entry.dest ≠ path) :
    contentAfter files visits path = files path := by
  have none : visits.filterMap (·.output? path) = [] :=
    List.filterMap_eq_nil_iff.mpr fun visit hv => if_neg (h visit hv)
  rw [contentAfter, none]
  rfl

/-- Where no two visits have the same destination, each decides what its own holds. -/
theorem contentAfter_of_mem {visits : List Visit} (distinct : (visits.map (·.entry.dest)).Nodup)
    {visit : Visit} (h : visit ∈ visits) :
    contentAfter files visits visit.entry.dest
      = (visit.relocated.result?.map (·.after)).or (files visit.entry.dest) := by
  obtain ⟨before, after, rfl⟩ := List.append_of_mem h
  simp only [List.map_append, List.map_cons, List.nodup_append, List.nodup_cons,
    List.mem_map, List.mem_cons] at distinct
  obtain ⟨-, ⟨notAfter, -⟩, notBefore⟩ := distinct
  have untouched : contentAfter files before visit.entry.dest = files visit.entry.dest :=
    contentAfter_of_untouched _ fun other ho same =>
      notBefore _ ⟨other, ho, same⟩ _ (.inl rfl) rfl
  rw [← List.singleton_append, contentAfter_append, contentAfter_append,
    contentAfter_of_untouched _ fun other ho same => notAfter ⟨other, ho, same⟩,
    contentAfter_one, untouched, Visit.output?, if_pos rfl]

end ContentAfter

section Store

variable {τ : Type} [SourceTree τ] [FileStore τ]

theorem Loaded.files_eq {path content : String} {tree tree' : τ} (normal : Path.IsNormal path)
    (h : Loaded path tree content tree') :
    files tree path = some content ∧ files tree' = files tree := by
  obtain ⟨found, read⟩ := h
  have asked := FileStore.files_isFile normal found
  exact ⟨asked ▸ FileStore.present normal read, (FileStore.files_read normal read).trans asked⟩

theorem Prepared.files_eq {source path content : String} {tree tree' : τ}
    (sourceNormal : Path.IsNormal source) (held : files tree source = some content)
    (normal : Path.IsNormal path) (h : Prepared path tree tree') :
    files tree' = files tree := by
  cases h with
  | atTop _ => rfl
  | made nested made =>
      exact FileStore.files_createDirs sourceNormal held (Path.isNormal_parent normal nested) made

/-- A turn that goes well is decided by what it finds, and puts its output in place. -/
theorem Turn.files_of_ok {phase : Phase} {entry : Entry} {relocated : Relocated} {tree tree' : τ}
    (wellFormed : entry.WellFormed) (h : Turn entry phase.rules tree (.ok relocated tree')) :
    relocated = entry.outcome phase.rules (files tree entry.source) ∧
      files tree' = contentAfter (files tree) [⟨phase, entry, relocated⟩] := by
  have sourceNormal := wellFormed.source_normal
  cases h with
  | missing absent =>
      rw [FileStore.absent sourceNormal absent, FileStore.files_isFile sourceNormal absent]
      refine ⟨rfl, ?_⟩
      funext path
      simp [contentAfter_one, Visit.output?, Relocated.result?]
  | @kept _ content loaded idle =>
      obtain ⟨held, read⟩ := loaded.files_eq sourceNormal
      constructor
      · rw [held, Entry.outcome, if_neg (by simp [idle])]
      · -- the output stands at the destination already, which is the source
        have fixup : entry.kind = .importFixup := by
          cases hk : entry.kind with
          | relocation => simp [Entry.mustWrite, hk] at idle
          | importFixup => rfl
        have inPlace := wellFormed.source_eq_dest fixup
        have same : (entry.rewrite phase.rules content).after = content :=
          Entry.after_eq_of_idle idle
        funext path
        rw [read, contentAfter_one, Visit.output?]
        split
        · rename_i there
          rw [← there, ← inPlace, held]
          simp [Relocated.result?, same]
        · rfl
  | @written _ _ _ content loaded due prepared stored =>
      obtain ⟨held, read⟩ := loaded.files_eq sourceNormal
      have ready := prepared.files_eq sourceNormal (read ▸ held) wellFormed.output_normal
      constructor
      · rw [held, Entry.outcome, if_pos due]
      · funext path
        rw [FileStore.files_write wellFormed.output_normal stored, ready, read,
          wellFormed.output_eq, contentAfter_one, Visit.output?]
        by_cases there : path = entry.dest
        · simp [there, Entry.result?_settled]
        · simp [there, Ne.symm there]

theorem Turn.files_of_error {entry : Entry} {rules : RuleTable} {tree tree' : τ}
    {failure : Failure} (wellFormed : entry.WellFormed)
    (h : Turn entry rules tree (.error failure tree')) : files tree' = files tree := by
  have sourceNormal := wellFormed.source_normal
  cases h with
  | unreadable found unread =>
      exact (FileStore.files_read sourceNormal unread).trans
        (FileStore.files_isFile sourceNormal found)
  | unprepared loaded _ nested unmade =>
      obtain ⟨held, read⟩ := loaded.files_eq sourceNormal
      have made := FileStore.files_createDirs sourceNormal (read ▸ held)
        (Path.isNormal_parent wellFormed.output_normal nested) unmade
      exact made.trans read
  | unwritten loaded _ prepared refused =>
      obtain ⟨held, read⟩ := loaded.files_eq sourceNormal
      have ready := prepared.files_eq sourceNormal (read ▸ held) wellFormed.output_normal
      have kept := FileStore.files_write_error wellFormed.output_normal refused
      exact kept.trans (ready.trans read)

theorem Course.files_eq {tree tree' : τ} {visits : List Visit}
    (wellFormed : ∀ visit ∈ visits, visit.entry.WellFormed) (h : Course tree visits tree') :
    files tree' = contentAfter (files tree) visits := by
  induction h with
  | nil => rfl
  | @cons _ _ _ visit visits turn _ ih =>
      obtain ⟨first, others⟩ := List.forall_mem_cons.mp wellFormed
      rw [ih others, (turn.files_of_ok first).2, ← contentAfter_append, List.singleton_append]

/-- Every visit is decided by what the visits before it have left at its source. -/
theorem Course.relocated_eq {tree tree' : τ} {before after : List Visit} {visit : Visit}
    (h : Course tree (before ++ visit :: after) tree')
    (wellFormed : ∀ v ∈ before ++ visit :: after, v.entry.WellFormed) :
    visit.relocated = visit.entry.outcome visit.phase.rules
      (contentAfter (files tree) before visit.entry.source) := by
  obtain ⟨between, next, front, turn, -⟩ := h.at_visit
  have ofBefore := front.files_eq fun v hv => wellFormed v (List.mem_append_left _ hv)
  have ofVisit := wellFormed visit (List.mem_append_right _ List.mem_cons_self)
  rw [← ofBefore]
  exact (turn.files_of_ok ofVisit).1

theorem Phase.run_files {phase : Phase} (wellFormed : phase.WellFormed) (tree : τ) :
    ∃ done visits reached, done <+: phase.manifest ∧
      visits.map Visit.stop = done.map (phase, ·) ∧ Course tree visits reached ∧
      entriesHeard (Ending.state (phase.run { tree })).events = visits.map Visit.heard ∧
      files (Ending.state (phase.run { tree })).tree = contentAfter (files tree) visits := by
  obtain ⟨visits, reached, stops, course, heard, ended⟩ := phase.run_trace tree
  obtain ⟨done, front, stops⟩ := List.prefix_map_iff.mp stops
  refine ⟨done, visits, reached, front, stops, course, heard, ?_⟩
  have ofVisits : ∀ visit ∈ visits, visit.entry.WellFormed := fun visit hv =>
    wellFormed _ (front.subset (Visit.entry_mem stops hv))
  rw [← course.files_eq ofVisits]
  rcases ended with same | ⟨entry, listed, _, turn⟩
  · rw [same]
  · exact turn.files_of_error (wellFormed entry listed)

namespace Plan

/-- However a run ends, it leaves what its visits put in place. -/
theorem Trace.files_eq {plan : Plan} (wellFormed : plan.WellFormed) {names : List String}
    {tree : τ} {visits : List Visit} {result : EStateM.Result Failure (Progress τ) RunReport}
    (h : plan.Trace names tree visits result) :
    files (Ending.state result).tree = contentAfter (files tree) visits := by
  have ofVisits := h.wellFormed wellFormed
  cases h with
  | refused _ idle => rw [idle]; rfl
  | finished course _ _ => exact course.files_eq ofVisits
  | cut course before turn _ =>
      have ofEntry := wellFormed_of_mem_stops wellFormed
        (before ▸ List.mem_append_right _ List.mem_cons_self)
      exact (turn.files_of_error ofEntry).trans (course.files_eq ofVisits)

/-- The visits that a run reports decide every file, in the end and at each of them. A visit
finds at its source what the visits before it have left there, it is a miss exactly when that
is nothing, and it changes its destination alone. -/
theorem run_lastWriter (plan : Plan) (wellFormed : plan.WellFormed) (names : List String)
    (tree : τ) :
    ∃ visits : List Visit,
      visits.map Visit.stop <+: plan.stops names ∧
      entriesHeard (Ending.state (plan.run names { tree })).events = visits.map Visit.heard ∧
      files (Ending.state (plan.run names { tree })).tree = contentAfter (files tree) visits ∧
      (∀ path, (∀ visit ∈ visits, visit.entry.dest ≠ path) →
        files (Ending.state (plan.run names { tree })).tree path = files tree path) ∧
      ∀ before visit after, visits = before ++ visit :: after → ∃ between next,
        Course tree before between ∧
        Turn visit.entry visit.phase.rules between (.ok visit.relocated next) ∧
        files between = contentAfter (files tree) before ∧
        visit.relocated
          = visit.entry.outcome visit.phase.rules (files between visit.entry.source) ∧
        visit.relocated.result?.map Rewritten.before = files between visit.entry.source ∧
        visit.report.beforeDigest = (files between visit.entry.source).map Digest.ofText ∧
        (visit.report.outcome = .notFound ↔ files between visit.entry.source = none) ∧
        ∀ path, visit.entry.dest ≠ path → files next path = files between path := by
  obtain ⟨visits, trace⟩ := plan.run_trace names tree
  have ofVisits := trace.wellFormed wellFormed
  refine ⟨visits, trace.stops_prefix, trace.heard_eq, trace.files_eq wellFormed, ?_, ?_⟩
  · intro path untouched
    rw [trace.files_eq wellFormed, contentAfter_of_untouched _ untouched]
  · rintro before visit after rfl
    obtain ⟨reached, course⟩ := trace.course
    obtain ⟨between, next, front, turn, -⟩ := course.at_visit
    have ofVisit := ofVisits visit (List.mem_append_right _ List.mem_cons_self)
    obtain ⟨decided, left⟩ := turn.files_of_ok ofVisit
    refine ⟨between, next, front, turn, ?_, decided, ?_, ?_, ?_, ?_⟩
    · exact front.files_eq fun v hv => ofVisits v (List.mem_append_left _ hv)
    · rw [decided, Entry.before_outcome]
    · rw [Visit.report, decided, EntryReport.beforeDigest_outcome]
    · rw [Visit.report, decided, EntryReport.outcome_eq_notFound_iff]
    · intro path elsewhere
      rw [left, contentAfter_of_untouched _ (by simpa using elsewhere)]

end Plan
end Store

namespace Plan

/-- A relocation, a fixup of the new file, and a relocation that cannot be written. -/
def twoPhases : Plan where
  root := "."
  phases :=
    [{ name := "copy", rules := [⟨"x", "y"⟩], manifest := [⟨"a", "b", some ⟨"p", "q"⟩⟩] },
      { name := "fix", rules := [⟨"y", "z"⟩],
        manifest := [⟨"b", "b", none⟩, ⟨"b", "c", some ⟨"p", "q"⟩⟩] }]

def fullAtC : MemoryTree where
  files := ⟨[("a", "x")]⟩
  badWrite := ⟨[("c", .noSpace)]⟩

theorem run_lastWriter_twoPhases :
    twoPhases.WellFormed ∧ ∃ visits : List Visit, visits.length = 2 ∧
      files (Ending.state (twoPhases.run [] { tree := fullAtC })).tree
        = contentAfter (files fullAtC) visits := by
  have wellFormed : twoPhases.WellFormed := by decide
  have two : (entriesHeard (Ending.state (twoPhases.run [] { tree := fullAtC })).events).length
      = 2 := by
    decide +kernel
  obtain ⟨visits, -, heard, left, -⟩ := run_lastWriter twoPhases wellFormed [] fullAtC
  refine ⟨wellFormed, visits, ?_, left⟩
  rwa [heard, List.length_map] at two

end Plan
end Repackage
