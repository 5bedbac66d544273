import Repackage.Proofs.Accounts
import Repackage.Proofs.Refusal

/-!
What a run prints, and the code that the program ends with. A sink takes a text if it has room
for it, and takes several one after the other if it has room for all. Where the output takes what
a run prints, the code of a strict run says whether an entry lacked its source; where it does not,
the code is that of the refused output.
-/

namespace Repackage

namespace Sink

/-- There is room for the text. -/
def HasRoom (sink : Sink) (text : String) : Prop :=
  ∀ room, sink.room = some room → text.utf8ByteSize ≤ room

theorem HasRoom.front {sink : Sink} {text more : String} (h : sink.HasRoom (text ++ more)) :
    sink.HasRoom text := by
  intro room limited
  have all := h room limited
  rw [String.utf8ByteSize_append] at all
  omega

/-- A text that has room is taken, and what still has room behind it had room with it. -/
theorem write_of_room {sink : Sink} {text : String} (h : sink.HasRoom text) :
    ∃ after, sink.write text = (.ok (), after) ∧ after.badFlush = sink.badFlush ∧
      ∀ more, after.HasRoom more ↔ sink.HasRoom (text ++ more) := by
  have size : text.toUTF8.size = text.utf8ByteSize := rfl
  rw [write]
  split
  · rename_i unlimited
    exact ⟨_, rfl, rfl, fun more => by simp [HasRoom, unlimited]⟩
  · rename_i room limited
    have fits := h room limited
    simp only [if_pos (show text.toUTF8.size ≤ room from fits)]
    refine ⟨_, rfl, rfl, fun more => ?_⟩
    simp only [HasRoom, limited, Option.some.injEq, forall_eq', String.utf8ByteSize_append, size]
    omega

theorem write_of_no_room {sink : Sink} {text : String} (h : ¬ sink.HasRoom text) :
    ∃ after, sink.write text = (.error sink.full, after) := by
  have size : text.toUTF8.size = text.utf8ByteSize := rfl
  simp only [HasRoom, not_forall] at h
  obtain ⟨room, limited, less⟩ := h
  simp only [write, limited]
  exact ⟨_, by rw [if_neg (size ▸ less)]⟩

end Sink

namespace Console

theorem hearAll_of_failure {console : Console} {cause : FileError}
    (failed : console.failure = some cause) (events : List Event) :
    console.hearAll events = console := by
  induction events with
  | nil => rfl
  | cons event events ih =>
      have same : console.hear event = console := by simp only [hear, failed]
      rw [hearAll, List.foldl_cons, same]
      exact ih

/-- The console prints the events to the end if there is room for all of them. -/
theorem hearAll_of_room {sink : Sink} {events : List Event}
    (h : sink.HasRoom (String.join (events.map Event.text))) :
    ∃ after, ({ sink } : Console).hearAll events = ⟨after, none⟩ ∧
      after.badFlush = sink.badFlush ∧
      ∀ more, after.HasRoom more
        ↔ sink.HasRoom (String.join (events.map Event.text) ++ more) := by
  induction events generalizing sink with
  | nil => exact ⟨sink, rfl, rfl, fun more => by simp⟩
  | cons event events ih =>
      rw [List.map_cons, String.join_cons] at h
      obtain ⟨between, taken, flush, room⟩ := Sink.write_of_room h.front
      obtain ⟨after, heard, flush', room'⟩ := ih ((room _).mpr h)
      refine ⟨after, ?_, flush'.trans flush, fun more => ?_⟩
      · rw [hearAll, List.foldl_cons, hear]
        simp only [taken]
        exact heard
      · rw [room', room, List.map_cons, String.join_cons, String.append_assoc]

theorem hearAll_of_no_room {sink : Sink} {events : List Event}
    (h : ¬ sink.HasRoom (String.join (events.map Event.text))) :
    ∃ cause, (({ sink } : Console).hearAll events).failure = some cause := by
  induction events generalizing sink with
  | nil => exact absurd (fun room _ => by simp) h
  | cons event events ih =>
      rw [List.map_cons, String.join_cons] at h
      rw [hearAll, List.foldl_cons, hear]
      by_cases first : sink.HasRoom event.text
      · obtain ⟨between, taken, -, room⟩ := Sink.write_of_room first
        simp only [taken]
        exact ih fun rest => h ((room _).mp rest)
      · obtain ⟨after, refused⟩ := Sink.write_of_no_room first
        simp only [refused]
        exact ⟨_, congrArg Console.failure (hearAll_of_failure rfl events)⟩

end Console

namespace Program

open CommandLine (Format Invocation)

/-- What a run that was not cut short prints. -/
def runText (format : Format) (options : RunOptions) (execution : Execution)
    (outcome : RunOutcome) : String :=
  match format with
  | .text => String.join (execution.events.map Event.text) ++
      footerText outcome.report.passes.length outcome.report.summary options.dryRun outcome.diffs
  | .json => (Response.run outcome.report options.dryRun outcome.diffs).render

/-- The output takes the text of a run. Lines for people are flushed. -/
def Takes (output : Sink) (format : Format) (text : String) : Prop :=
  output.HasRoom text ∧ (format = .text → output.badFlush = none)

theorem exitCode_answer_of_room {output : Sink} {text : String} (h : output.HasRoom text)
    (disk : Disk) (code : Option ExitCode) :
    (finish (answer output disk text code)).exitCode = (code.map ExitCode.toNat).getD 0 := by
  obtain ⟨after, taken, -⟩ := Sink.write_of_room h
  simp only [answer, taken]
  rfl

theorem exitCode_answer_of_no_room {output : Sink} {text : String} (h : ¬ output.HasRoom text)
    (disk : Disk) (code : Option ExitCode) :
    (finish (answer output disk text code)).exitCode = 10 := by
  obtain ⟨after, refused⟩ := Sink.write_of_no_room h
  simp only [answer, refused]
  rfl

section Runs

variable {plan : Plan} {options : RunOptions} {disk : Disk} {output : Sink} {outcome : RunOutcome}
  (done : (plan.execute options disk).result = .ok outcome)

include done

theorem exitCode_of_takes {format : Format}
    (taken : Takes output format (runText format options (plan.execute options disk) outcome))
    (strict : Bool) :
    (finish (carryOut plan (.run options strict) format disk output)).exitCode
      = ((runCode strict outcome.report).map ExitCode.toNat).getD 0 := by
  obtain ⟨room, flushed⟩ := taken
  cases format with
  | json =>
      simp only [carryOut, respondRun, done]
      exact exitCode_answer_of_room room _ _
  | text =>
      obtain ⟨after, heard, flush, behind⟩ := Console.hearAll_of_room room.front
      have finishes : Console.finish ⟨after, none⟩ = .ok () := by
        simp only [Console.finish, Sink.flush, flush, flushed rfl]
      simp only [carryOut, printRun, done, heard, finishes]
      exact exitCode_answer_of_room ((behind _).mpr room) _ _

theorem exitCode_of_not_takes {format : Format}
    (refused : ¬ Takes output format (runText format options (plan.execute options disk) outcome))
    (strict : Bool) :
    (finish (carryOut plan (.run options strict) format disk output)).exitCode = 10 := by
  cases format with
  | json =>
      simp only [carryOut, respondRun, done]
      exact exitCode_answer_of_no_room (fun room => refused ⟨room, by simp⟩) _ _
  | text =>
      simp only [carryOut, printRun, done]
      by_cases told : output.HasRoom
          (String.join ((plan.execute options disk).events.map Event.text))
      · obtain ⟨after, heard, flush, behind⟩ := Console.hearAll_of_room told
        rw [heard]
        cases flushed : output.badFlush with
        | some cause =>
            simp only [Console.finish, Sink.flush, flush, flushed]
            rfl
        | none =>
            simp only [Console.finish, Sink.flush, flush, flushed]
            exact exitCode_answer_of_no_room
              (fun room => refused ⟨(behind _).mp room, fun _ => flushed⟩) _ _
      · obtain ⟨cause, failed⟩ := Console.hearAll_of_no_room told
        simp only [Console.finish, failed]
        rfl

end Runs

theorem runCode_eq_incomplete_iff {strict : Bool} {report : RunReport} {phases : List Phase}
    (accounts : report.AccountsFor phases) :
    ((runCode strict report).map ExitCode.toNat).getD 0 = 3 ↔ strict = true ∧ report.Lacks := by
  have complete := report.isComplete_iff accounts
  cases strict <;> cases h : report.summary.isComplete <;>
    simp_all [runCode, ExitCode.toNat]

end Program

namespace Plan

open CommandLine (Format)

theorem run_of_launch {τ : Type} [SourceTree τ] {plan : Plan} {options : RunOptions} {disk : Disk}
    {tree : τ} {report : RunReport} {progress : Progress τ}
    (launched : plan.launch options disk tree = .ok report progress) :
    plan.run options.phases { tree } = .ok report progress := by
  rw [launch] at launched
  split at launched
  · cases launched
  · cases launched
  · exact launched

theorem accountsFor_of_execute {plan : Plan} {options : RunOptions} {disk : Disk}
    {outcome : RunOutcome} (done : (plan.execute options disk).result = .ok outcome) :
    ∃ phases, plan.select options.phases = .ok phases ∧ outcome.report.AccountsFor phases := by
  rw [execute] at done
  split at done
  · rw [rehearse] at done
    split at done
    · rename_i launched
      obtain rfl := Except.ok.inj done
      exact accountsFor_of_run (run_of_launch launched)
    · cases done
  · rw [perform] at done
    split at done
    · rename_i launched
      obtain rfl := Except.ok.inj done
      exact accountsFor_of_run (run_of_launch launched)
    · cases done

/-- A run that goes through accounts for the phases that were asked for, in the order of the plan,
and answers as incomplete exactly if an entry lacked its source. The program that made it ends
with the code for that exactly if it was to be strict, an entry lacked its source, and the output
took what it printed; where the output refused it, the code is that of an internal error. -/
theorem run_reports_every_entry (plan : Plan) :
    (∀ {τ : Type} [SourceTree τ] (tree : τ) (names : List String) (report : RunReport)
      (progress : Progress τ), plan.run names { tree } = .ok report progress →
        ∃ phases, plan.select names = .ok phases ∧
          phases = plan.phases.filter (fun phase => names.isEmpty || names.contains phase.name) ∧
          report.AccountsFor phases ∧
          ∀ dryRun diffs, (Response.run report dryRun diffs).status = "incomplete" ↔
            report.Lacks) ∧
    ∀ (arguments : List String) (disk : Disk) (output : Sink)
      (invocation : CommandLine.Invocation) (options : RunOptions) (strict : Bool)
      (outcome : RunOutcome), CommandLine.parse arguments = .ok invocation →
      Plan.load disk invocation.plan invocation.root = .ok plan →
      invocation.task = .run options strict →
      (plan.execute options disk).result = .ok outcome →
        let text := Program.runText invocation.format options (plan.execute options disk) outcome
        let code := (Program.run arguments disk output).exitCode
        (∃ phases, plan.select options.phases = .ok phases ∧
          outcome.report.AccountsFor phases) ∧
        (code = 3 ↔ strict = true ∧ outcome.report.Lacks ∧
          Program.Takes output invocation.format text) ∧
        (¬ Program.Takes output invocation.format text → code = 10) := by
  refine ⟨?_, ?_⟩
  · intro τ _ tree names report progress ran
    obtain ⟨phases, selected, accounts⟩ := accountsFor_of_run ran
    refine ⟨phases, selected, select_eq_ok selected, accounts, fun dryRun diffs => ?_⟩
    have complete := report.isComplete_iff accounts
    cases h : report.summary.isComplete <;> simp_all [Response.status]
  · intro arguments disk output invocation options strict outcome parsed loaded task done text code
    have ran : code = (Program.finish (Program.carryOut plan (.run options strict)
        invocation.format disk output)).exitCode := by
      simp only [code, Program.run, parsed, Program.invoke, loaded, task]
    obtain ⟨phases, selected, accounts⟩ := accountsFor_of_execute done
    refine ⟨⟨phases, selected, accounts⟩, ?_, fun refused => ?_⟩
    · by_cases taken : Program.Takes output invocation.format text
      · rw [ran, Program.exitCode_of_takes done taken, Program.runCode_eq_incomplete_iff accounts]
        simp [taken]
      · rw [ran, Program.exitCode_of_not_takes done taken]
        simp [taken]
    · rw [ran, Program.exitCode_of_not_takes done refused]

/-- A plan with one fixup, whose file is not there. -/
def lacking : Plan where
  root := "."
  phases := [{ name := "fix", rules := [], manifest := [⟨"A.java", "A.java", none⟩] }]

def lackingDisk : Disk :=
  ⟨.file "plan.toml" "[[phase]]\nname = \"fix\"\nfixup = [\"A.java\"]\n".toUTF8 .empty, []⟩

def lackingOutcome : RunOutcome :=
  ⟨RunReport.ofPasses
    [⟨"fix", [EntryReport.of ⟨"A.java", "A.java", none⟩ (.skipped .notFound)], { skipped := 1 }⟩],
    []⟩

private theorem load_lackingDisk : Plan.load lackingDisk "plan.toml" none = .ok lacking :=
  toOption_eq_some_iff.mp (by decide +kernel)

private theorem execute_lacking : (lacking.execute {} lackingDisk).result = .ok lackingOutcome :=
  toOption_eq_some_iff.mp (by decide +kernel)

private theorem lacks_lackingOutcome : lackingOutcome.report.Lacks :=
  ⟨_, List.mem_singleton_self _, _, List.mem_singleton_self _, rfl⟩

theorem run_reports_every_entry_lacking :
    Plan.load lackingDisk "plan.toml" none = .ok lacking ∧
      (lacking.execute {} lackingDisk).result = .ok lackingOutcome ∧
      (∃ phases, lacking.select [] = .ok phases ∧ lackingOutcome.report.AccountsFor phases) ∧
      lackingOutcome.report.Lacks ∧
      (Response.run lackingOutcome.report false []).status = "incomplete" ∧
      (Program.run ["run", "plan.toml", "--strict"] lackingDisk {}).exitCode = 3 := by
  have parsed : CommandLine.parse ["run", "plan.toml", "--strict"]
      = .ok ⟨"plan.toml", .run {} true, none, .text⟩ :=
    toOption_eq_some_iff.mp (by decide +kernel)
  obtain ⟨answers, ends⟩ := run_reports_every_entry lacking
  obtain ⟨_, -, -, -, status⟩ :=
    answers ({} : MemoryTree) [] lackingOutcome.report _ rfl
  obtain ⟨accounts, incomplete, -⟩ :=
    ends _ lackingDisk {} _ {} true lackingOutcome parsed load_lackingDisk rfl execute_lacking
  have unlimited (text : String) : Program.Takes ({} : Sink) .text text :=
    And.intro (fun room limited => nomatch limited) (fun _ => rfl)
  exact ⟨load_lackingDisk, execute_lacking, accounts, lacks_lackingOutcome,
    (status _ _).mpr lacks_lackingOutcome,
    incomplete.mpr ⟨rfl, lacks_lackingOutcome, unlimited _⟩⟩

/-- The code of a refused output stands before that of a missing source. -/
theorem refused_output_hides_lack :
    Plan.load lackingDisk "plan.toml" none = .ok lacking ∧
      (lacking.execute {} lackingDisk).result = .ok lackingOutcome ∧
      lackingOutcome.report.Lacks ∧
      (Program.run ["run", "plan.toml", "--strict"] lackingDisk { room := some 0 }).exitCode
        = 10 :=
  ⟨load_lackingDisk, execute_lacking, lacks_lackingOutcome, by decide +kernel⟩

end Plan
end Repackage
