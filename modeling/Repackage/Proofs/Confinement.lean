import Repackage.Proofs.Disk.Tree
import Repackage.Proofs.Trace

/-!
No run leaves the root of its tree. A normal path resolves to the root and then its names, and
what is read or written there lies where these names lead from the root. Every path that a run
hands to its tree is normal: it is that of the source or the destination of an entry, or of the
directory that holds a destination. So a run on a disk changes no file but destinations.
-/

namespace Repackage

namespace Path

theorem directory_of_pieces {path last name : String} {front : List String}
    (split : pieces path = front ++ [name] ++ [last]) (nonempty : name ≠ "")
    (notHere : name ≠ ".") : directory path = ofComponents (front ++ [name]) := by
  have kept (rest : List String) :
      ((rest ++ [name]).reverse.dropWhile fun n => n = "" || n = ".").reverse
        = rest ++ [name] := by
    simp [nonempty, notHere]
  rw [directory, split, List.dropLast_concat]
  cases front with
  | nil => simp [nonempty]
  | cons first rest =>
      simp only [List.cons_append, kept]
      simp

/-- A path that ends in a name is the directory of what is joined to it. -/
theorem directory_join {base name last : String} {front : List String}
    (split : pieces base = front ++ [name]) (nonempty : name ≠ "") (notHere : name ≠ ".")
    (noSlash : '/' ∉ last.toList) : directory (join base last) = base := by
  have joined : join base last = base ++ "/" ++ last := by
    rcases join_cases noSlash base with ⟨rfl, -⟩ | ⟨before, rfl, -⟩ | joined
    · rw [pieces_empty, ← List.nil_append [""]] at split
      exact absurd (List.append_inj_right' split rfl) (by simpa using nonempty.symm)
    · rw [pieces_append_slash, pieces_empty] at split
      exact absurd (List.append_inj_right' split rfl) (by simpa using nonempty.symm)
    · exact joined
  have pieces_joined : pieces (join base last) = front ++ [name] ++ [last] := by
    rw [joined, pieces_append_slash, split, pieces_of_noSlash noSlash]
  rw [directory_of_pieces pieces_joined nonempty notHere, ← split, ofComponents_pieces]

/-- A joined name is the last piece of the text. -/
theorem pieces_join {name : String} (noSlash : '/' ∉ name.toList) (base : String) :
    ∃ front, pieces (join base name) = front ++ [name] := by
  have one := pieces_of_noSlash noSlash
  rcases join_cases noSlash base with ⟨-, joined⟩ | ⟨before, -, joined⟩ | joined
  · exact ⟨[], by rw [joined, one]; rfl⟩
  · exact ⟨_, by rw [joined, pieces_append_slash, one]⟩
  · exact ⟨_, by rw [joined, pieces_append_slash, one]⟩

theorem pieces_parent {path : String} (nested : parent path ≠ "") :
    pieces (parent path) = (pieces path).dropLast := by
  refine pieces_ofComponents ?_ ?_
  · intro none
    exact nested (by simp [parent, none])
  · intro name hn hs
    exact (mem_of_mem_pieces (List.dropLast_subset _ hn) hs).2 rfl

end Path

namespace DiskTree

theorem resolve_concat (tree : DiskTree) {path last : String} {above : List String}
    (split : Path.components path = above ++ [last]) :
    tree.resolve path = Path.join (above.foldl Path.join tree.root) last := by
  rw [resolve, split, List.foldl_append]
  rfl

/-- The path of the directory that holds a file resolves to the directory that holds it. -/
theorem directory_resolve (tree : DiskTree) {path : String} (normal : Path.IsNormal path)
    (nested : Path.parent path ≠ "") :
    Path.directory (tree.resolve path) = tree.resolve (Path.parent path) := by
  have parentNormal := Path.isNormal_parent normal nested
  obtain ⟨above, last, hl⟩ :=
    (List.eq_nil_or_concat (Path.components path)).resolve_left (components_ne_nil normal)
  rw [List.concat_eq_append] at hl
  have names : Path.components (Path.parent path) = above := by
    rw [Path.components_of_isNormal parentNormal, Path.pieces_parent nested,
      ← Path.components_of_isNormal normal, hl, List.dropLast_concat]
  obtain ⟨higher, name, ha⟩ :=
    (List.eq_nil_or_concat (Path.components (Path.parent path))).resolve_left
      (components_ne_nil parentNormal)
  rw [List.concat_eq_append] at ha
  have holder : Path.IsName name ∧ '/' ∉ name.toList :=
    name_of_mem_components parentNormal (by simp [ha])
  have noSlash : '/' ∉ last.toList := (name_of_mem_components normal (by simp [hl])).2
  have parentResolved := tree.resolve_concat ha
  obtain ⟨front, split⟩ := Path.pieces_join holder.2 (higher.foldl Path.join tree.root)
  rw [← parentResolved] at split
  rw [tree.resolve_concat hl, ← names]
  exact Path.directory_join split holder.1.1 holder.1.2.1 noSlash

end DiskTree

/-- The path has names, none of which leads up, and stands for a place strictly below the root
of every tree: that of the root and then its names. -/
structure Path.BelowRoot (path : String) : Prop where
  nonempty : pieces path ≠ []
  names : ∀ name ∈ pieces path, IsName name
  resolved : ∀ tree : DiskTree,
    components (tree.resolve path) = components tree.root ++ pieces path ∧
      Disk.isAbsolute (tree.resolve path) = Disk.isAbsolute tree.root
  directory : parent path ≠ "" → ∀ tree : DiskTree,
    Path.directory (tree.resolve path) = tree.resolve (parent path)
  read : ∀ (tree : DiskTree) (content : ByteArray), tree.file? path = some content →
    ∃ root, tree.RootedAt root ∧ tree.disk.fileAt? (root ++ pieces path) = some content
  written : ∀ (tree tree' : DiskTree) (content : String),
    SourceTree.write path content tree = (.ok (), tree') →
      ∃ root, tree.RootedAt root ∧ ∀ location, location ≠ root ++ pieces path →
        tree'.disk.fileAt? location = tree.disk.fileAt? location

theorem Path.belowRoot_of_isNormal {path : String} (normal : IsNormal path) : BelowRoot path where
  nonempty := pieces_ne_nil path
  names := normal
  resolved tree := by
    have plain : ∀ name ∈ components path, name ≠ "" ∧ '/' ∉ name.toList := fun name hn =>
      ⟨(DiskTree.name_of_mem_components normal hn).1.1,
        (DiskTree.name_of_mem_components normal hn).2⟩
    obtain ⟨split, absolute, -⟩ := DiskTree.resolve_of_names tree.root plain
    rw [← components_of_isNormal normal]
    exact ⟨split, absolute⟩
  directory nested tree := tree.directory_resolve normal nested
  read tree content there := by
    obtain ⟨-, root, rooted, held⟩ := (DiskTree.file?_eq_some_iff normal).mp there
    exact ⟨root, rooted, components_of_isNormal normal ▸ held⟩
  written tree tree' content stored := by
    obtain ⟨root, disk', rfl, rooted, -, -, placed⟩ := DiskTree.write_places normal stored
    refine ⟨root, rooted, fun location elsewhere => ?_⟩
    rw [placed, components_of_isNormal normal, if_neg elsewhere]

/-- A disk as turns of entries may leave it: no file is changed but at their destinations. -/
structure DiskTree.Framed (entries : Entry → Prop) (before after : DiskTree) : Prop where
  root : after.root = before.root
  keeps : before.disk.Keeps after.disk
  files : ∀ location, after.disk.fileAt? location = before.disk.fileAt? location ∨
    ∃ root entry, after.RootedAt root ∧ entries entry ∧ after.Admits entry.dest ∧
      location = root ++ Path.components entry.dest

namespace DiskTree.Framed

variable {entries : Entry → Prop} {before after : DiskTree}

theorem of_keeps (h : Framed entries before after) {disk' : Disk} (keeps : after.disk.Keeps disk')
    (files : ∀ location, disk'.fileAt? location = after.disk.fileAt? location ∨
      ∃ root entry, after.RootedAt root ∧ entries entry ∧ after.Admits entry.dest ∧
        location = root ++ Path.components entry.dest) :
    Framed entries before { after with disk := disk' } where
  root := h.root
  keeps := h.keeps.trans keeps
  files location := by
    have stays {root : Location} {entry : Entry} : after.RootedAt root ∧ entries entry ∧
        after.Admits entry.dest ∧ location = root ++ Path.components entry.dest →
        ∃ root entry, RootedAt { after with disk := disk' } root ∧ entries entry ∧
          after.Admits entry.dest ∧ location = root ++ Path.components entry.dest :=
      fun ⟨rooted, which⟩ => ⟨root, entry, rooted.of_keeps keeps, which⟩
    rcases files location with same | ⟨_, _, there⟩
    · rw [same]
      exact (h.files location).imp_right fun ⟨_, _, there⟩ => stays there
    · exact .inr (stays there)

theorem closed (wellFormed : ∀ entry, entries entry → entry.WellFormed) (before : DiskTree) :
    ClosedUnder (fun call => ∃ entry, entries entry ∧ entry.Asks call)
      (Framed entries before) where
  isFile _ h := h
  read _ h := h
  createDirs := by
    rintro tree path ⟨entry, allowed, asks⟩ h
    cases asks with
    | createDirs nested =>
        have normal := Path.isNormal_parent (wellFormed entry allowed).output_normal nested
        cases made : SourceTree.createDirs (Path.parent entry.output) tree with
        | mk answer tree' =>
            obtain ⟨disk', rfl, keeps, files⟩ := createDirs_keeps normal made
            exact h.of_keeps keeps fun location => .inl (files location)
  write := by
    rintro tree path content ⟨entry, allowed, asks⟩ h
    cases asks with
    | write _ =>
        rw [(wellFormed entry allowed).output_eq]
        have normal := (wellFormed entry allowed).dest_normal
        cases stored : SourceTree.write entry.dest content tree with
        | mk answer tree' =>
            cases answer with
            | error cause => exact write_error stored ▸ h
            | ok _ =>
                obtain ⟨root, disk', rfl, rooted, admits, keeps, placed⟩ :=
                  write_places normal stored
                refine h.of_keeps keeps fun location => ?_
                rw [placed]
                split
                · rename_i there
                  exact .inr ⟨root, entry, rooted, allowed, admits, there⟩
                · exact .inl rfl

end DiskTree.Framed

section Calls

variable {τ : Type} [SourceTree τ]

/-- Trees that have recorded only calls of a kind. -/
theorem Recorded.closed (asked : Call → Prop) :
    ClosedUnder asked fun recorded : Recorded τ => ∀ call ∈ recorded.calls, asked call where
  isFile due h := List.forall_mem_append.mpr ⟨h, by simpa using due⟩
  read due h := List.forall_mem_append.mpr ⟨h, by simpa using due⟩
  createDirs due h := List.forall_mem_append.mpr ⟨h, by simpa using due⟩
  write due h := List.forall_mem_append.mpr ⟨h, by simpa using due⟩

namespace Entry

variable {entry : Entry} {call : Call}

theorem Asks.path_eq (wellFormed : entry.WellFormed) (h : entry.Asks call) :
    call.path = entry.source ∨ call.path = entry.dest ∨
      call.path = Path.parent entry.dest ∧ Path.parent entry.dest ≠ "" := by
  have output := wellFormed.output_eq
  cases h with
  | isFile | read => exact .inl rfl
  | createDirs nested => exact .inr (.inr (output ▸ ⟨rfl, nested⟩))
  | write _ => exact .inr (.inl output)

theorem Asks.path_normal (wellFormed : entry.WellFormed) (h : entry.Asks call) :
    Path.IsNormal call.path := by
  rcases h.path_eq wellFormed with same | same | ⟨same, nested⟩
  · exact same ▸ wellFormed.source_normal
  · exact same ▸ wellFormed.dest_normal
  · exact same ▸ Path.isNormal_parent wellFormed.dest_normal nested

end Entry

namespace Plan

/-- The run of the plan would visit the entry. -/
def Visits (plan : Plan) (names : List String) (entry : Entry) : Prop :=
  ∃ phase, (phase, entry) ∈ plan.stops names

theorem wellFormed_of_visits {plan : Plan} (wellFormed : plan.WellFormed) {names : List String}
    {entry : Entry} (h : plan.Visits names entry) : entry.WellFormed := by
  obtain ⟨_, stop⟩ := h
  exact wellFormed_of_mem_stops wellFormed stop

theorem run_framed {plan : Plan} (wellFormed : plan.WellFormed) (names : List String)
    (disk : DiskTree) :
    DiskTree.Framed (plan.Visits names) disk
      (Ending.state (plan.run names { tree := disk })).tree := by
  refine (DiskTree.Framed.closed (fun _ => wellFormed_of_visits wellFormed) disk).run ?_ ?_
  · exact fun phase entry stop call asks => ⟨entry, ⟨phase, stop⟩, asks⟩
  · exact ⟨rfl, .refl _, fun _ => .inl rfl⟩

/-- What normalizing accepts lies below every root, and no two such paths at one place. Every
access of a run is one for an entry that it visits, to its source, to its destination or to the
directory above that, and all of these are such paths. On a disk the run changes no file but the
destinations of these entries. -/
theorem run_stays_below_root (plan : Plan) (wellFormed : plan.WellFormed) (names : List String)
    (tree : τ) (disk : DiskTree) :
    (∀ raw path, Path.normalize raw = .ok path → Path.BelowRoot path ∧
      ∀ raw' other, Path.normalize raw' = .ok other → ∀ any : DiskTree,
        Path.components (any.resolve path) = Path.components (any.resolve other) →
          path = other) ∧
    (∀ call ∈ (Ending.state (plan.run names { tree := ({ tree } : Recorded τ) })).tree.calls,
      ∃ phase entry, (phase, entry) ∈ plan.stops names ∧ entry.Asks call ∧
        (call.path = entry.source ∨ call.path = entry.dest ∨
          call.path = Path.parent entry.dest ∧ Path.parent entry.dest ≠ "") ∧
        Path.BelowRoot call.path) ∧
    let after := (Ending.state (plan.run names { tree := disk })).tree
    ∀ location, after.disk.fileAt? location ≠ disk.disk.fileAt? location →
      ∃ root phase entry, after.RootedAt root ∧ (phase, entry) ∈ plan.stops names ∧
        location = root ++ Path.pieces entry.dest := by
  refine ⟨?_, ?_, ?_⟩
  · intro raw path accepted
    have below := Path.belowRoot_of_isNormal (Path.isNormal_of_normalize accepted)
    refine ⟨below, fun raw' other accepted' any same => ?_⟩
    have below' := Path.belowRoot_of_isNormal (Path.isNormal_of_normalize accepted')
    rw [(below.resolved any).1, (below'.resolved any).1] at same
    exact Path.pieces_injective (List.append_cancel_left same)
  · intro call called
    have unasked : ∀ call ∈ ({ tree } : Recorded τ).calls,
        ∃ phase entry, (phase, entry) ∈ plan.stops names ∧ entry.Asks call :=
      List.forall_mem_nil _
    obtain ⟨phase, entry, stop, asks⟩ := (Recorded.closed _).run
      (fun phase entry stop _ asks => ⟨phase, entry, stop, asks⟩) unasked call called
    have ofEntry := wellFormed_of_mem_stops wellFormed stop
    exact ⟨phase, entry, stop, asks, asks.path_eq ofEntry,
      Path.belowRoot_of_isNormal (asks.path_normal ofEntry)⟩
  · intro after location changed
    obtain ⟨root, entry, rooted, ⟨phase, stop⟩, -, there⟩ :=
      ((run_framed wellFormed names disk).files location).resolve_left changed
    have normal := (wellFormed_of_mem_stops wellFormed stop).dest_normal
    exact ⟨root, phase, entry, rooted, stop, Path.components_of_isNormal normal ▸ there⟩

/-- A relocation into a directory that has to be made. -/
def nesting : Plan where
  root := "."
  phases := [{ name := "nest", rules := [], manifest := [⟨"a", "b/c", some ⟨"p", "q"⟩⟩] }]

def flat : MemoryTree where
  files := ⟨[("a", "package p;")]⟩

theorem run_stays_below_root_nesting :
    nesting.WellFormed ∧ Path.normalize " b\\.//c " = .ok "b/c" ∧ Path.BelowRoot "b/c" ∧
      ∃ call ∈ (Ending.state (nesting.run [] { tree := ({ tree := flat } : Recorded MemoryTree) })
          ).tree.calls, call.path = "b" ∧ Path.BelowRoot call.path := by
  have wellFormed : nesting.WellFormed := by decide
  have accepted : Path.normalize " b\\.//c " = .ok "b/c" := by decide +kernel
  have made : Call.createDirs "b" ∈ (Ending.state
      (nesting.run [] { tree := ({ tree := flat } : Recorded MemoryTree) })).tree.calls := by
    decide +kernel
  obtain ⟨paths, calls, -⟩ :=
    run_stays_below_root nesting wellFormed [] flat ⟨".", ⟨.empty, []⟩⟩
  obtain ⟨_, _, _, _, _, below⟩ := calls _ made
  exact ⟨wellFormed, accepted, (paths _ _ accepted).1, _, made, rfl, below⟩

end Plan
end Calls
end Repackage
