import Repackage.Binary64
import Repackage.CommandLine.Grammar
import Repackage.CommandLine.Invocation
import Repackage.Console
import Repackage.Diff
import Repackage.Digest
import Repackage.Entry
import Repackage.Execution
import Repackage.Failure
import Repackage.Glob.Basic
import Repackage.Glob.Lexeme
import Repackage.Glob.Pattern
import Repackage.Json.Basic
import Repackage.Json.Printer
import Repackage.Json.Reader
import Repackage.Json.Shape
import Repackage.Main
import Repackage.Path
import Repackage.PathMap
import Repackage.Plan.Basic
import Repackage.Plan.Draft
import Repackage.Plan.File
import Repackage.Plan.Issue
import Repackage.Program
import Repackage.Relocation
import Repackage.Report
import Repackage.Residue
import Repackage.Response
import Repackage.Rewrite
import Repackage.Rule
import Repackage.Run
import Repackage.Text.Blank
import Repackage.Text.Hex
import Repackage.Text.Lines
import Repackage.Text.Printable
import Repackage.Text.Quoted
import Repackage.Text.Reader
import Repackage.Text.Replace
import Repackage.Text.Utf8
import Repackage.Toml.Blank
import Repackage.Toml.Document
import Repackage.Toml.Moment
import Repackage.Toml.Node
import Repackage.Toml.Number
import Repackage.Toml.Quoted
import Repackage.Toml.Record
import Repackage.Toml.Value
import Repackage.Tree.Basic
import Repackage.Tree.Disk
import Repackage.Tree.DiskTree
import Repackage.Tree.FileName
import Repackage.Tree.Listing
import Repackage.Tree.Memory
import Repackage.Tree.Overlay
import Repackage.Tree.Walk
import Repackage.Proofs.Utf8
import Repackage.Proofs.FileName
import Repackage.Proofs.NormalPath
import Repackage.Proofs.Answers
import Repackage.Proofs.CanonicalPath
import Repackage.Proofs.WellFormed
import Repackage.Proofs.Turn
import Repackage.Proofs.Course
import Repackage.Proofs.Asks
import Repackage.Proofs.Disk.Node
import Repackage.Proofs.Disk.Follow
import Repackage.Proofs.Disk.Tree
import Repackage.Proofs.Trace
import Repackage.Proofs.PathMap
import Repackage.Proofs.Overlay
import Repackage.Proofs.Store
import Repackage.Proofs.Rehearsal
import Repackage.Proofs.LastWriter
import Repackage.Proofs.Occurrences
import Repackage.Proofs.Clash
import Repackage.Proofs.RuleTable
import Repackage.Proofs.Settled
import Repackage.Proofs.Composition
import Repackage.Proofs.Declaration
import Repackage.Proofs.Independence
import Repackage.Proofs.Validation
import Repackage.Proofs.Isolation
import Repackage.Proofs.Rerun
import Repackage.Proofs.Hits
import Repackage.Proofs.HitTrace
import Repackage.Proofs.Length
import Repackage.Proofs.Shadow
import Repackage.Proofs.Disk.Walk
import Repackage.Proofs.Residue
import Repackage.Proofs.Collector
import Repackage.Proofs.SharedCollector
import Repackage.Proofs.Refusal
import Repackage.Proofs.Reordering
import Repackage.Proofs.PhaseByPhase
import Repackage.Proofs.Confinement
import Repackage.Proofs.Diff.Patch
import Repackage.Proofs.Diff.Hunks
import Repackage.Proofs.Diff.ReadBack
import Repackage.Proofs.Diff.RoundTrip
import Repackage.Proofs.Previews
import Repackage.Proofs.ErrorCount
import Repackage.Proofs.Disk.Order
import Repackage.Proofs.Matches
import Repackage.Proofs.Scan
import Repackage.Proofs.Exchange
import Repackage.Proofs.Dialogue
import Repackage.Proofs.Session
import Repackage.Proofs.Accounts
import Repackage.Proofs.Output
import Repackage.Proofs.Diff.Headers
import Repackage.Proofs.Draft
import Repackage.Proofs.Creation
import Repackage.Proofs.Disk.Folders
import Repackage.Proofs.CreatedDirs
import Repackage.Proofs.Diff.Tight
