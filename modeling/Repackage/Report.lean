import Repackage.Relocation

/-!
Reports of what a run did: one for each entry, one for each pass, and one for the
run. The same outcomes reach an observer as events while the run goes on.
-/

namespace Repackage

/-- What became of one entry. -/
inductive EntryOutcome where
  | created
  | updated
  | unchanged
  | notFound
  deriving DecidableEq, Repr

def Relocated.outcome : Relocated → EntryOutcome
  | .created _ => .created
  | .updated _ => .updated
  | .unchanged _ => .unchanged
  | .skipped .notFound => .notFound

/-- What happened to one entry. The digests are those of the content before and after,
if there was a content. -/
structure EntryReport where
  source : String
  dest : String
  kind : EntryKind
  outcome : EntryOutcome
  hits : List Hit
  beforeDigest : Option String
  afterDigest : Option String
  deriving DecidableEq, Repr

def EntryReport.of (entry : Entry) (relocated : Relocated) : EntryReport where
  source := entry.source
  dest := entry.dest
  kind := entry.kind
  outcome := relocated.outcome
  hits := (relocated.result?.map (·.hits)).getD []
  beforeDigest := relocated.result?.map (·.beforeDigest)
  afterDigest := relocated.result?.map (·.afterDigest)

/-- How many entries had each outcome. -/
structure Summary where
  created : Nat := 0
  updated : Nat := 0
  unchanged : Nat := 0
  skipped : Nat := 0
  deriving DecidableEq, Repr

namespace Summary

def record (summary : Summary) : EntryOutcome → Summary
  | .created => { summary with created := summary.created + 1 }
  | .updated => { summary with updated := summary.updated + 1 }
  | .unchanged => { summary with unchanged := summary.unchanged + 1 }
  | .notFound => { summary with skipped := summary.skipped + 1 }

def merge (summary other : Summary) : Summary where
  created := summary.created + other.created
  updated := summary.updated + other.updated
  unchanged := summary.unchanged + other.unchanged
  skipped := summary.skipped + other.skipped

def total (summary : Summary) : Nat :=
  summary.created + summary.updated + summary.unchanged + summary.skipped

/-- Whether no entry lacked its source. -/
def isComplete (summary : Summary) : Bool :=
  summary.skipped = 0

def ofReports (reports : List EntryReport) : Summary :=
  reports.foldl (fun summary report => summary.record report.outcome) {}

end Summary

structure PassReport where
  phase : String
  entries : List EntryReport
  summary : Summary
  deriving DecidableEq, Repr

structure RunReport where
  passes : List PassReport
  summary : Summary
  deriving DecidableEq, Repr

def RunReport.ofPasses (passes : List PassReport) : RunReport where
  passes
  summary := passes.foldl (fun summary pass => summary.merge pass.summary) {}

/-- What an observer of a run hears of. -/
inductive Event where
  | entry (phase : String) (report : EntryReport)
  | passFinished (report : PassReport)
  deriving DecidableEq, Repr

/-- Gathers events into passes, among them one that was cut short. -/
structure Collector where
  passes : List PassReport := []
  /-- Whether the last pass is still to be finished. -/
  inPass : Bool := false
  deriving DecidableEq, Repr

namespace Collector

def addEntry (report : EntryReport) (pass : PassReport) : PassReport :=
  { pass with
    entries := pass.entries ++ [report]
    summary := pass.summary.record report.outcome }

/-- The first entry of a pass opens it, and the report of a finished pass takes the
place of the pass that its entries opened. -/
def hear (collector : Collector) : Event → Collector
  | .entry phase report =>
      let opened :=
        if collector.inPass then collector.passes else collector.passes ++ [⟨phase, [], {}⟩]
      ⟨opened.dropLast ++ (opened.getLast?.map (addEntry report)).toList, true⟩
  | .passFinished report =>
      let closed := if collector.inPass then collector.passes.dropLast else collector.passes
      ⟨closed ++ [report], false⟩

def hearAll (collector : Collector) (events : List Event) : Collector :=
  events.foldl hear collector

end Collector
end Repackage
