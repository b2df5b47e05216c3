import Harmonia.Nar.Dumper

/-!
# The events of a tree

What a dumper is for: one event for a file or a symbolic link, and for a directory a start, the events
of what it contains in the order of the names, and an end. The dumper rebuilds the nesting from a flat
list of paths; going through the part of the walk that belongs to a node leaves it where it was.
-/

namespace Harmonia.Nar

open Fs

section Events

variable (rename : Bytes → Bytes)

mutual

/-- The events of what is at a path, under a name. -/
def treeEvents (path : Path) (name : Bytes) : Node → List (NarEvent DumpedFile)
  | .file mode contents =>
    [.file name (mode &&& 0o100 == 0o100) (UInt64.ofNat contents.length)
      ⟨path, UInt64.ofNat contents.length⟩]
  | .symlink target => [.symlink name target]
  | .directory entries => .startDirectory name :: (entriesEvents path entries ++ [.endDirectory])
  | .special _ => []

/-- The events of the entries of a directory. -/
def entriesEvents (path : Path) : Entries → List (NarEvent DumpedFile)
  | .nil => []
  | .cons name node rest =>
    treeEvents (path.join name) (rename name) node ++ entriesEvents path rest

end

end Events

/-- The entries that the walk through a node comes to. -/
def walked (entries : List DirEntry) : List (Except IoError Entry) :=
  entries.map fun entry => Entry.ofItem (.ok entry)

@[simp] theorem walked_append (left right : List DirEntry) :
    walked (left ++ right) = walked left ++ walked right := List.map_append

/-- The next entry is not below a path. -/
def Outside (path : Path) : List (Except IoError Entry) → Prop
  | [] => True
  | .ok entry :: _ => entry.path.startsWith path = false
  | .error _ :: _ => False

/-- The walk through a node that is not special begins with an entry at its path. -/
theorem walked_head {node : Node} (ordinary : node.isSpecial = false) (path : Path) :
    ∃ entry rest, walked (node.walk path) = .ok entry :: rest ∧ entry.path = path := by
  obtain ⟨rest, walk⟩ := node.walk_head path
  rw [walk]
  cases node with
  | file mode contents => exact ⟨_, walked rest, rfl, rfl⟩
  | symlink target => exact ⟨_, walked rest, rfl, rfl⟩
  | directory entries => exact ⟨_, walked rest, rfl, rfl⟩
  | special mode => cases ordinary

/-- What is outside a directory is outside what the directory contains. -/
theorem Outside.child {path : Path} {rest : List (Except IoError Entry)} (outside : Outside path rest)
    (name : Bytes) : Outside (path.child name) rest := by
  match rest, outside with
  | [], _ => exact trivial
  | .ok entry :: _, outside =>
    apply Bool.eq_false_iff.mpr
    intro below
    exact Bool.eq_false_iff.mp outside (Path.startsWith_of_child below)

/-- The next entry of a directory is outside another one. -/
theorem outside_sibling {path : Path} {name other : Bytes} {node : Node} (legal : LegalName other)
    (ordinary : node.isSpecial = false) (apart : other ≠ name) (entries : Entries)
    (rest : List (Except IoError Entry)) :
    Outside (path.child name) (walked ((Entries.cons other node entries).walk path) ++ rest) := by
  obtain ⟨entry, more, head, same⟩ := walked_head ordinary (path.join other)
  rw [Entries.walk, walked_append, head]
  show entry.path.startsWith (path.child name) = false
  rw [same, legal.join]
  exact Path.child_apart apart (Path.startsWith_self _)

/-- The entries behind the first of a directory are outside it. -/
theorem outside_walked {path : Path} {name : Bytes} {entries : Entries}
    {rest : List (Except IoError Entry)} (legal : entries.Legal) (plain : entries.Plain)
    (fresh : name ∉ entries.names) (outside : Outside (path.child name) rest) :
    Outside (path.child name) (walked (entries.walk path) ++ rest) := by
  cases entries with
  | nil => exact outside
  | cons other node entries =>
    have apart : other ≠ name := fun equal => fresh (equal ▸ List.mem_cons_self)
    exact outside_sibling legal.1 plain.1.ordinary apart entries rest

namespace Cursor

/-- An entry below the directory is emitted. -/
theorem step_emit (entry : Entry) {dir : Path} {level : Nat} {useCaseHack : Bool}
    {rest : List (Except IoError Entry)} (below : entry.path.startsWith dir = true) :
    step ⟨dir, level, useCaseHack, .ok entry :: rest⟩ =
      emit ⟨dir, level, useCaseHack, rest⟩ entry := by
  rw [step]
  exact if_pos below

/-- The directory is left when the next entry is not below it. -/
theorem step_leave {dir : Path} {level : Nat} {useCaseHack : Bool}
    {rest : List (Except IoError Entry)} (outside : Outside dir rest) :
    step ⟨dir, level + 1, useCaseHack, rest⟩ =
      (.ready (some .endDirectory), ⟨dir.pop, level, useCaseHack, rest⟩) := by
  match rest, outside with
  | [], _ => rfl
  | .ok entry :: rest, outside =>
    rw [step]
    show (if entry.path.startsWith dir then _ else _) = _
    rw [if_neg (Bool.eq_false_iff.mp outside)]
    rfl

/-- The name of an entry in an open directory. -/
theorem name_child {useCaseHack : Bool} {level : Nat} {dir : Path} {name : Bytes} {entry : Entry}
    (same : entry.path = dir.child name) :
    entry.name useCaseHack (level + 1) = some (dumpedName useCaseHack name) := by
  rw [Entry.name, if_pos (Nat.succ_pos level), same, Path.fileName_child]
  rfl

mutual

/-- Going through a node in an open directory yields its events and returns to the directory. -/
theorem yields_node {dir : Path} {level : Nat} {useCaseHack : Bool} {name : Bytes}
    {rest : List (Except IoError Entry)} : ∀ {node : Node}, node.Legal → node.Plain →
      Outside (dir.child name) rest →
      Yields ⟨dir, level + 1, useCaseHack, walked (node.walk (dir.child name)) ++ rest⟩
        (treeEvents (dumpedName useCaseHack) (dir.child name) (dumpedName useCaseHack name) node)
        ⟨dir, level + 1, useCaseHack, rest⟩
  | .file mode contents, _, _, _ => by
    let entry := Entry.file (dir.child name) (UInt64.ofNat contents.length) (mode &&& 0o100 == 0o100)
    apply Yields.one
    refine (step_emit entry (Path.child_startsWith dir name)).trans ?_
    rw [emit, name_child rfl]
    rfl
  | .symlink target, _, _, _ => by
    apply Yields.one
    refine (step_emit (.symlink (dir.child name) target) (Path.child_startsWith dir name)).trans ?_
    rw [emit, name_child rfl]
    rfl
  | .directory entries, legal, plain, outside => by
    have starts : step ⟨dir, level + 1, useCaseHack,
        walked ((Node.directory entries).walk (dir.child name)) ++ rest⟩ =
          (.ready (some (.startDirectory (dumpedName useCaseHack name))),
            ⟨dir.child name, level + 1 + 1, useCaseHack,
              walked (entries.walk (dir.child name)) ++ rest⟩) := by
      refine (step_emit (.directory (dir.child name)) (Path.child_startsWith dir name)).trans ?_
      rw [emit, name_child rfl]
      rfl
    have inside := @yields_entries (dir.child name) (level + 1) useCaseHack rest entries legal plain
      (fun other _ => outside.child other)
    have leaves := @step_leave (dir.child name) (level + 1) useCaseHack rest outside
    rw [Path.pop_child] at leaves
    exact .step starts (inside.trans (.one leaves))

/-- Going through the entries of an open directory yields their events and returns to it. -/
theorem yields_entries {dir : Path} {level : Nat} {useCaseHack : Bool}
    {rest : List (Except IoError Entry)} : ∀ {entries : Entries}, entries.Legal → entries.Plain →
      (∀ name ∈ entries.names, Outside (dir.child name) rest) →
      Yields ⟨dir, level + 1, useCaseHack, walked (entries.walk dir) ++ rest⟩
        (entriesEvents (dumpedName useCaseHack) dir entries) ⟨dir, level + 1, useCaseHack, rest⟩
  | .nil, _, _, _ => .refl _
  | .cons name node entries, legal, plain, outside => by
    have behind := outside_walked legal.2.2.2 plain.2 legal.2.1 (outside name List.mem_cons_self)
    have first := @yields_node dir level useCaseHack name _ node legal.2.2.1 plain.1 behind
    have others := @yields_entries dir level useCaseHack rest entries legal.2.2.2 plain.2
      (fun other member => outside other (List.mem_cons_of_mem _ member))
    rw [Entries.walk, walked_append, List.append_assoc, entriesEvents, legal.1.join]
    exact first.trans others

end

/-- An error is reported at once, whatever directory is open. -/
theorem step_error {this : Cursor} {error : IoError} {rest : List (Except IoError Entry)}
    (first : this.rest = .error error :: rest) : this.step = (.error error, { this with rest := rest }) := by
  rw [step, first]

mutual

/-- Whatever comes behind a plain node is reached. -/
theorem reaches_node {dir : Path} {level : Nat} {useCaseHack : Bool} {name : Bytes}
    {rest : List (Except IoError Entry)} : ∀ {node : Node}, node.Legal → node.Plain →
      ∃ events last, Yields ⟨dir, level + 1, useCaseHack, walked (node.walk (dir.child name)) ++ rest⟩
        events last ∧ last.rest = rest
  | .file mode contents, _, _ => by
    let entry := Entry.file (dir.child name) (UInt64.ofNat contents.length) (mode &&& 0o100 == 0o100)
    have emits := @step_emit entry dir (level + 1) useCaseHack rest (Path.child_startsWith dir name)
    rw [emit, name_child rfl] at emits
    exact ⟨_, _, .one emits, rfl⟩
  | .symlink target, _, _ => by
    have emits := @step_emit (.symlink (dir.child name) target) dir (level + 1) useCaseHack rest
      (Path.child_startsWith dir name)
    rw [emit, name_child rfl] at emits
    exact ⟨_, _, .one emits, rfl⟩
  | .directory entries, legal, plain => by
    have emits := @step_emit (.directory (dir.child name)) dir (level + 1) useCaseHack
      (walked (entries.walk (dir.child name)) ++ rest) (Path.child_startsWith dir name)
    rw [emit, name_child rfl] at emits
    obtain ⟨events, last, inside, same⟩ :=
      @reaches_entries (dir.child name) (level + 1) useCaseHack rest entries legal plain
    exact ⟨_, last, .step emits inside, same⟩

/-- Whatever comes behind plain entries is reached. -/
theorem reaches_entries {dir : Path} {level : Nat} {useCaseHack : Bool}
    {rest : List (Except IoError Entry)} : ∀ {entries : Entries}, entries.Legal → entries.Plain →
      ∃ events last, Yields ⟨dir, level + 1, useCaseHack, walked (entries.walk dir) ++ rest⟩
        events last ∧ last.rest = rest
  | .nil, _, _ => ⟨[], _, .refl _, rfl⟩
  | .cons name node .nil, legal, plain => by
    rw [Entries.walk, Entries.walk, List.append_nil, legal.1.join]
    exact reaches_node legal.2.2.1 plain.1
  | .cons name node (.cons other node' entries), legal, plain => by
    have apart : other ≠ name := fun equal => legal.2.1 (equal ▸ List.mem_cons_self)
    have behind := @outside_sibling dir name other node' legal.2.2.2.1 plain.2.1.ordinary apart
      entries rest
    have first := @yields_node dir level useCaseHack name _ node legal.2.2.1 plain.1 behind
    obtain ⟨events, last, others, ends⟩ :=
      @reaches_entries dir level useCaseHack rest (.cons other node' entries) legal.2.2.2 plain.2
    rw [Entries.walk, walked_append, List.append_assoc, legal.1.join]
    exact ⟨_, last, first.trans others, ends⟩

end

/-- The cursor comes to an error. -/
def Fails (this : Cursor) (error : IoError) : Prop :=
  ∃ events last next, Yields this events last ∧ last.step = (.error error, next)

/-- A cursor that comes to another one that fails fails. -/
theorem Yields.fails {this next : Cursor} {events : List (NarEvent DumpedFile)} {error : IoError}
    (yields : Yields this events next) (fails : next.Fails error) : this.Fails error := by
  obtain ⟨later, last, final, yields', failed⟩ := fails
  exact ⟨events ++ later, last, final, yields.trans yields', failed⟩

mutual

/-- A node that is not plain makes the cursor fail. -/
theorem fails_node {dir : Path} {level : Nat} {useCaseHack : Bool} {name : Bytes}
    {rest : List (Except IoError Entry)} : ∀ {node : Node}, node.Legal → ¬ node.Plain →
      Fails ⟨dir, level + 1, useCaseHack, walked (node.walk (dir.child name)) ++ rest⟩ unsupported
  | .file _ _, _, rough => absurd trivial rough
  | .symlink _, _, rough => absurd trivial rough
  | .special mode, _, _ => ⟨[], _, _, .refl _, step_error rfl⟩
  | .directory entries, legal, rough => by
    have emits := @step_emit (.directory (dir.child name)) dir (level + 1) useCaseHack
      (walked (entries.walk (dir.child name)) ++ rest) (Path.child_startsWith dir name)
    rw [emit, name_child rfl] at emits
    exact (Yields.one emits).fails (fails_entries legal rough)

/-- Entries that are not plain make the cursor fail. -/
theorem fails_entries {dir : Path} {level : Nat} {useCaseHack : Bool}
    {rest : List (Except IoError Entry)} : ∀ {entries : Entries}, entries.Legal → ¬ entries.Plain →
      Fails ⟨dir, level + 1, useCaseHack, walked (entries.walk dir) ++ rest⟩ unsupported
  | .nil, _, rough => absurd trivial rough
  | .cons name node entries, legal, rough => by
    rw [Entries.walk, walked_append, List.append_assoc, legal.1.join]
    by_cases plain : node.Plain
    · have later : ¬ entries.Plain := fun others => rough ⟨plain, others⟩
      cases entries with
      | nil => exact absurd trivial later
      | cons other node' entries =>
        cases kind : node'.isSpecial with
        | true =>
          -- The error comes before the directories in front of it are left.
          obtain ⟨events, last, reached, same⟩ := @reaches_node dir level useCaseHack name
            (walked ((Entries.cons other node' entries).walk dir) ++ rest) node legal.2.2.1 plain
          cases node' with
          | special mode => exact ⟨events, last, _, reached, step_error same⟩
          | _ => cases kind
        | false =>
          have apart : other ≠ name := fun equal => legal.2.1 (equal ▸ List.mem_cons_self)
          have behind := @outside_sibling dir _ _ _ legal.2.2.2.1 kind apart entries rest
          exact (yields_node legal.2.2.1 plain behind).fails (fails_entries legal.2.2.2 later)
    · exact fails_node legal.2.2.1 plain

end

/-- The directory a dumper is in at the end. -/
def resting (root : Path) : Node → Path
  | .directory _ => root.pop
  | _ => root

/-- Going through a whole tree yields its events, the root under an empty name. -/
theorem yields_root (root : Path) (useCaseHack : Bool) {node : Node} (legal : node.Legal)
    (plain : node.Plain) :
    Yields ⟨root, 0, useCaseHack, walked (node.walk root)⟩
      (treeEvents (dumpedName useCaseHack) root [] node) ⟨resting root node, 0, useCaseHack, []⟩ := by
  have below := Path.startsWith_self root
  cases node with
  | file mode contents =>
    let entry := Entry.file root (UInt64.ofNat contents.length) (mode &&& 0o100 == 0o100)
    exact .one (step_emit entry below)
  | symlink target => exact .one (step_emit (.symlink root target) below)
  | directory entries =>
    have inside := @yields_entries root 0 useCaseHack [] entries legal plain (fun _ _ => trivial)
    have leaves := @step_leave root 0 useCaseHack [] trivial
    rw [List.append_nil] at inside
    exact .step (step_emit (.directory root) below) (inside.trans (.one leaves))
  | special mode => exact plain.elim

/-- A tree that is not plain makes the cursor fail. -/
theorem fails_root (root : Path) (useCaseHack : Bool) {node : Node} (legal : node.Legal)
    (rough : ¬ node.Plain) :
    Fails ⟨root, 0, useCaseHack, walked (node.walk root)⟩ unsupported := by
  cases node with
  | file mode contents => exact absurd trivial rough
  | symlink target => exact absurd trivial rough
  | special mode => exact ⟨[], _, _, .refl _, step_error rfl⟩
  | directory entries =>
    have inside := @fails_entries root 0 useCaseHack [] entries legal rough
    rw [List.append_nil] at inside
    exact (Yields.one (step_emit (.directory root) (Path.startsWith_self root))).fails inside

end Cursor

/-- A new dumper is at the root, with the whole walk in front of it. -/
theorem NarDumper.new_cursor (root : Path) (key : Bytes → Bytes) (tree : Node) (useCaseHack : Bool)
    (tasks : List Task) (chunkSize : Nat) :
    (NarDumper.new root (tree.walkdir key root) useCaseHack tasks chunkSize).cursor =
      ⟨root, 0, useCaseHack, walked ((tree.sorted key).walk root)⟩ := by
  simp [NarDumper.new, NarDumper.cursor, WalkState.rest, Node.walkdir, walked, Function.comp_def]

section Dump

variable {root : Path} {tree : Node} {tasks : List Task} {chunkSize : Nat}

/-- Dumping a tree yields the events of the tree in the order of the walk. -/
theorem dump_yields (legal : tree.Legal) (plain : tree.Plain) (useCaseHack : Bool)
    (key : Bytes → Bytes) (kept : ∀ task ∈ tasks, task.Kept) (positive : 0 < chunkSize) :
    ∃ enough final, final.level = 0 ∧ final.dir = Cursor.resting root tree ∧
      ∀ polls, enough ≤ polls →
        (NarDumper.new root (tree.walkdir key root) useCaseHack tasks chunkSize).collect polls =
          (treeEvents (dumpedName useCaseHack) root [] (tree.sorted key), .ready (), final) := by
  have sound : (NarDumper.new root (tree.walkdir key root) useCaseHack tasks chunkSize).Sound :=
    ⟨positive, kept, trivial⟩
  have yields := Cursor.yields_root root useCaseHack (@Node.sorted_legal key tree legal)
    (Node.sorted_plain.mpr plain)
  rw [← NarDumper.new_cursor root key tree useCaseHack tasks chunkSize] at yields
  obtain ⟨enough, final, same, _, collects⟩ := NarDumper.collect_ends sound yields rfl
  have dir : Cursor.resting root (tree.sorted key) = Cursor.resting root tree := by
    cases tree <;> rfl
  exact ⟨enough, final, congrArg Cursor.level same, dir ▸ congrArg Cursor.dir same, collects⟩

/-- Dumping a tree that is not plain comes to an error. -/
theorem dump_fails (legal : tree.Legal) (rough : ¬ tree.Plain) (useCaseHack : Bool)
    (key : Bytes → Bytes) (kept : ∀ task ∈ tasks, task.Kept) (positive : 0 < chunkSize) :
    ∃ enough events final, ∀ polls, enough ≤ polls →
      (NarDumper.new root (tree.walkdir key root) useCaseHack tasks chunkSize).collect polls =
        (events, .error unsupported, final) := by
  have sound : (NarDumper.new root (tree.walkdir key root) useCaseHack tasks chunkSize).Sound :=
    ⟨positive, kept, trivial⟩
  obtain ⟨events, last, next, yields, failed⟩ := Cursor.fails_root root useCaseHack
    (@Node.sorted_legal key tree legal) (fun plain => rough (Node.sorted_plain.mp plain))
  rw [← NarDumper.new_cursor root key tree useCaseHack tasks chunkSize] at yields
  obtain ⟨enough, final, _, collects⟩ := NarDumper.collect_fails sound yields failed
  exact ⟨enough, events, final, collects⟩

/-- Without the case hack a name is left as it is. -/
theorem dumpedName_false : dumpedName false = id := rfl

/-- Dumping a tree without the case hack yields its events with siblings in strictly increasing order
of their names, for any batches and any polls that are put off. At the end no directory is open; a
dumper of a directory has left it, and one of anything else is where it began. -/
theorem dump_canonical (legal : tree.Legal) (plain : tree.Plain)
    (kept : ∀ task ∈ tasks, task.Kept) (positive : 0 < chunkSize) :
    (tree.sorted id).Ascends id ∧
      ∃ enough final, final.level = 0 ∧ final.dir = Cursor.resting root tree ∧
        ∀ polls, enough ≤ polls →
          (NarDumper.new root (tree.walkdir id root) false tasks chunkSize).collect polls =
            (treeEvents id root [] (tree.sorted id), .ready (), final) := by
  refine ⟨Node.sorted_ascends legal.apart, ?_⟩
  have yields := @dump_yields root tree tasks chunkSize legal plain false id kept positive
  rw [dumpedName_false] at yields
  exact yields

end Dump

/-- A directory with a file, and a directory whose name comes first and begins that of the file. -/
def sampleTree : Node :=
  .directory (.cons [0x62, 0x63] (.file 0o755 [0x21])
    (.cons [0x62] (.directory (.cons [0x78] (.symlink [0x79]) .nil)) .nil))

/-- Where a sample is. -/
def sampleRoot : Path := ⟨[.rootDir, .normal [0x72]]⟩

/-- Batches of one entry, and a task that is not done at once. -/
theorem dump_canonical_sample : (sampleTree.sorted id).Ascends id ∧
    ∃ enough final, final.level = 0 ∧ final.dir = ⟨[.rootDir]⟩ ∧ ∀ polls, enough ≤ polls →
      (NarDumper.new sampleRoot (sampleTree.walkdir id sampleRoot) false [.done 2] 1).collect polls =
        (treeEvents id sampleRoot [] (sampleTree.sorted id), .ready (), final) := by
  have legal : sampleTree.Legal :=
    ⟨by decide, by decide, trivial, by decide, by decide, ⟨by decide, by decide, trivial, trivial⟩,
      trivial⟩
  have plain : sampleTree.Plain := ⟨trivial, ⟨trivial, trivial⟩, trivial⟩
  have kept : ∀ task ∈ [Task.done 2], task.Kept := by
    intro task member
    rw [List.mem_singleton.mp member]
    trivial
  exact @dump_canonical sampleRoot _ _ _ legal plain kept Nat.one_pos

/-- A dumper of a file is not in the parent of the initial directory at the end. -/
theorem dump_file_stays :
    (NarDumper.new sampleRoot ((Node.file 0o644 []).walkdir id sampleRoot) false [] 25).collect 2 =
        ([.file [] false 0 ⟨sampleRoot, 0⟩], .ready (),
          ⟨.idle [] [] false, none, 0, sampleRoot, false, [], 25⟩) ∧
      sampleRoot ≠ sampleRoot.pop :=
  ⟨rfl, by decide⟩

end Harmonia.Nar
