import Harmonia.Nar.Dumping

/-!
# Listings

`harmonia-cache/src/narlist.rs`. A listing describes a tree without its contents. It is made with a
stack of open directories of its own, apart from the dumper that makes the archive: it names what it
finds by texts, takes any execute bit for executable, and passes over what is neither a file, a
symbolic link nor a directory.
-/

namespace Harmonia.Cache

open Fs Nar Library

/-- `NarEntry`; the entries of a directory are a `HashMap`. -/
inductive NarEntry where
  /-- `Directory`. -/
  | directory (entries : List (Bytes × NarEntry))
  /-- `Regular`. -/
  | regular (narOffset : Option UInt64) (size : UInt64) (executable : Bool)
  /-- `Symlink`. -/
  | symlink (target : Bytes)

/-- `NarList`. -/
structure NarList where
  /-- The version of the format. -/
  version : UInt16
  /-- What is at the root. -/
  root : NarEntry

/-- The errors of `get_nar_list`, but for those of the file system. -/
inductive ListError where
  /-- `ServeFailed`: `Unsupported file type for path: {path}`. -/
  | unsupported (path : Path)
  /-- `AccessDenied`. -/
  | accessDenied (path : Path)
  deriving DecidableEq, Repr

/-- `Frame`: a directory that is being read. -/
structure Frame where
  /-- Its path. -/
  path : Path
  /-- What has been found in it. -/
  entries : List (Bytes × NarEntry)
  /-- What is still to be read. -/
  dirEntry : Entries

/-- `file_entry`. -/
def fileEntry (metadata : Metadata) : NarEntry :=
  .regular none metadata.len (metadata.mode &&& 0o111 != 0)

/-- `symlink_entry`. -/
def symlinkEntry (target : Bytes) : NarEntry := .symlink (Utf8.lossy target)

/-- Put an entry into a directory. -/
def Frame.insert (this : Frame) (name : Bytes) (entry : NarEntry) : Frame :=
  { this with entries := inserted this.entries (name, entry) }

/-- The loop over the open directories. It gives nothing if it does not end. -/
def listLoop : Nat → Option NarEntry → List Frame → Option (Except ListError NarEntry)
  | 0, _, _ => none
  | _ + 1, root, [] => root.map .ok
  | fuel + 1, root, frame :: stack =>
    match frame.dirEntry with
    | .cons name node rest =>
      let frame := { frame with dirEntry := rest }
      match node with
      | .file mode contents =>
        let entry := fileEntry (Node.file mode contents).metadata
        listLoop fuel root (frame.insert (Utf8.lossy name) entry :: stack)
      | .symlink target =>
        listLoop fuel root (frame.insert (Utf8.lossy name) (symlinkEntry target) :: stack)
      | .directory entries =>
        listLoop fuel root (⟨frame.path.join name, [], entries⟩ :: frame :: stack)
      | .special _ => listLoop fuel root (frame :: stack)
    | .nil =>
      match stack with
      | [] => listLoop fuel (some (.directory frame.entries)) []
      | parent :: stack =>
        match frame.path.fileName with
        | none => some (.error (.accessDenied frame.path))
        | some name =>
          listLoop fuel root (parent.insert (Utf8.lossy name) (.directory frame.entries) :: stack)

mutual

/-- The rounds that a node takes. -/
def rounds : Node → Nat
  | .directory entries => entriesRounds entries + 2
  | .file _ _ => 1
  | .symlink _ => 1
  | .special _ => 1

/-- The rounds that the entries of a directory take. -/
def entriesRounds : Entries → Nat
  | .nil => 0
  | .cons _ node rest => rounds node + entriesRounds rest

end

/-- `get_nar_list`. -/
def getNarList (path : Path) (tree : Node) : Option (Except ListError NarList) :=
  match tree with
  | .file mode contents => some (.ok ⟨1, fileEntry (Node.file mode contents).metadata⟩)
  | .symlink target => some (.ok ⟨1, symlinkEntry target⟩)
  | .directory entries =>
    (listLoop (entriesRounds entries + 2) none [⟨path, [], entries⟩]).map fun root =>
      root.map (NarList.mk 1)
  | .special _ => some (.error (.unsupported path))

/-! ## What a listing says -/

section Summary

variable (rename : Bytes → Bytes) (executable : UInt32 → Bool)

mutual

/-- What a listing says of a node, if it says anything. -/
def summary : Node → Option NarEntry
  | .file mode contents => some (.regular none (UInt64.ofNat contents.length) (executable mode))
  | .symlink target => some (.symlink (rename target))
  | .directory entries => some (.directory (gathered (summaries entries)))
  | .special _ => none

/-- What a listing says of the entries of a directory. -/
def summaries : Entries → List (Bytes × NarEntry)
  | .nil => []
  | .cons name node rest =>
    match summary node with
    | some entry => (rename name, entry) :: summaries rest
    | none => summaries rest

end

end Summary

/-- Any execute bit. -/
def anyExecute (mode : UInt32) : Bool := mode &&& 0o111 != 0

/-- The execute bit of the owner. -/
def ownerExecute (mode : UInt32) : Bool := mode &&& 0o100 == 0o100

/-- Going through the entries of a directory puts what is said of them into it. -/
theorem listLoop_entries {fuel : Nat} {root : Option NarEntry} {stack : List Frame} {path : Path}
    {map : List (Bytes × NarEntry)} : ∀ {entries : Entries}, entries.Legal →
      listLoop (entriesRounds entries + fuel) root (⟨path, map, entries⟩ :: stack) =
        listLoop fuel root
          (⟨path, (summaries Utf8.lossy anyExecute entries).foldl inserted map, .nil⟩ :: stack)
  | .nil, _ => by
    rw [entriesRounds, Nat.zero_add]
    rfl
  | .cons name (.file mode contents) rest, legal => by
    rw [entriesRounds, rounds, Nat.add_assoc, Nat.add_comm 1]
    exact listLoop_entries legal.2.2.2
  | .cons name (.symlink target) rest, legal => by
    rw [entriesRounds, rounds, Nat.add_assoc, Nat.add_comm 1]
    exact listLoop_entries legal.2.2.2
  | .cons name (.special mode) rest, legal => by
    rw [entriesRounds, rounds, Nat.add_assoc, Nat.add_comm 1]
    exact listLoop_entries legal.2.2.2
  | .cons name (.directory inner) rest, legal => by
    have rearranged : entriesRounds (.cons name (.directory inner) rest) + fuel =
        entriesRounds inner + (entriesRounds rest + fuel + 1) + 1 := by
      rw [entriesRounds, rounds]
      omega
    have named : (path.join name).fileName = some name := by
      rw [legal.1.join, Path.fileName_child]
    rw [rearranged]
    show listLoop _ root (⟨path.join name, [], inner⟩ :: ⟨path, map, rest⟩ :: stack) = _
    rw [listLoop_entries legal.2.2.1, listLoop]
    simp only [named]
    exact listLoop_entries legal.2.2.2

/-- A listing says what it says of the root. -/
theorem getNarList_eq (path : Path) {tree : Node} (legal : tree.Legal) :
    getNarList path tree = some (match summary Utf8.lossy anyExecute tree with
      | some root => .ok ⟨1, root⟩
      | none => .error (.unsupported path)) := by
  cases tree with
  | file mode contents => rfl
  | symlink target => rfl
  | special mode => rfl
  | directory entries =>
    rw [getNarList, listLoop_entries legal]
    rfl

/-! ## What an archive says -/

/-- The directories that some events have opened, and the root once it is closed. -/
structure Builder where
  /-- What is at the root. -/
  root : Option NarEntry
  /-- The open directories, with their names. -/
  stack : List (Bytes × List (Bytes × NarEntry))

/-- Put an entry into the directory that was opened last. -/
def Builder.add (this : Builder) (name : Bytes) (entry : NarEntry) : Option Builder :=
  match this.root, this.stack with
  | none, [] => some ⟨some entry, []⟩
  | none, (dir, entries) :: stack => some ⟨none, (dir, inserted entries (name, entry)) :: stack⟩
  | some _, _ => none

/-- One event. -/
def Builder.event {C : Type} (this : Builder) : NarEvent C → Option Builder
  | .file name executable size _ => this.add name (.regular none size executable)
  | .symlink name target => this.add name (.symlink target)
  | .startDirectory name =>
    match this.root with
    | none => some ⟨none, (name, []) :: this.stack⟩
    | some _ => none
  | .endDirectory =>
    match this.stack with
    | [] => none
    | (name, entries) :: stack => Builder.add ⟨this.root, stack⟩ name (.directory entries)

/-- The tree that some events encode. -/
def treeOf {C : Type} (events : List (NarEvent C)) : Option NarEntry :=
  (events.foldlM Builder.event ⟨none, []⟩).bind fun this =>
    if this.stack.isEmpty then this.root else none

mutual

/-- The events of a node add what is said of it. -/
theorem build_node {path : Path} {name : Bytes} : ∀ {node : Node}, node.Plain →
    ∃ entry, summary id ownerExecute node = some entry ∧ ∀ stack,
      (treeEvents id path name node).foldlM Builder.event ⟨none, stack⟩ =
        Builder.add ⟨none, stack⟩ name entry
  | .file mode contents, _ => by
    refine ⟨_, rfl, ?_⟩
    intro stack
    exact bind_pure _
  | .symlink target, _ => by
    refine ⟨_, rfl, ?_⟩
    intro stack
    exact bind_pure _
  | .directory entries, plain => by
    refine ⟨_, rfl, ?_⟩
    intro stack
    rw [treeEvents, List.foldlM_cons]
    show (entriesEvents id path entries ++ [NarEvent.endDirectory]).foldlM Builder.event
      ⟨none, (name, []) :: stack⟩ = _
    rw [List.foldlM_append, build_entries plain]
    exact bind_pure (m := Option) _

/-- The events of the entries of a directory put what is said of them into it. -/
theorem build_entries {path : Path} {dir : Bytes} {map : List (Bytes × NarEntry)}
    {stack : List (Bytes × List (Bytes × NarEntry))} : ∀ {entries : Entries}, entries.Plain →
      (entriesEvents id path entries).foldlM Builder.event ⟨none, (dir, map) :: stack⟩ =
        some ⟨none, (dir, (summaries id ownerExecute entries).foldl inserted map) :: stack⟩
  | .nil, _ => rfl
  | .cons name node rest, plain => by
    obtain ⟨entry, said, built⟩ := @build_node (path.join name) name node plain.1
    have first : (treeEvents id (path.join name) (id name) node).foldlM Builder.event
        ⟨none, (dir, map) :: stack⟩ = some ⟨none, (dir, inserted map (name, entry)) :: stack⟩ :=
      built _
    rw [entriesEvents, List.foldlM_append, first, summaries, said]
    exact build_entries plain.2

end

/-- The events of a tree encode what is said of it. -/
theorem treeOf_events (root : Path) {tree : Node} (plain : tree.Plain) :
    treeOf (treeEvents id root [] tree) = summary id ownerExecute tree := by
  obtain ⟨entry, said, built⟩ := @build_node root [] tree plain
  rw [treeOf, built, said]
  rfl

/-! ## The order of the entries -/

/-- The entries of a directory with their names. -/
def listed : Entries → List (Bytes × Node)
  | .nil => []
  | .cons name node rest => (name, node) :: listed rest

/-- The names of legal entries are distinct. -/
theorem names_nodup : ∀ {entries : Entries}, entries.Legal → entries.names.Nodup
  | .nil, _ => List.nodup_nil
  | .cons _ _ _, legal => List.nodup_cons.mpr ⟨legal.2.1, names_nodup legal.2.2.2⟩

section Order

variable {executable : UInt32 → Bool} {key : Bytes → Bytes}

/-- Nothing is said under a name that is not there. -/
theorem summaries_names (entries : Entries) :
    ((summaries id executable entries).map Prod.fst).Sublist entries.names := by
  cases entries with
  | nil => exact .slnil
  | cons name node rest =>
    rw [summaries]
    split
    · exact (summaries_names rest).cons_cons name
    · exact (summaries_names rest).cons name

/-- What is said of legal entries is said under distinct names. -/
theorem summaries_nodup {entries : Entries} (legal : entries.Legal) :
    ((summaries id executable entries).map Prod.fst).Nodup :=
  (summaries_names entries).nodup (names_nodup legal)

/-- An entry at its place changes nothing but the order. -/
theorem summaries_place (name : Bytes) (node : Node) (entries : Entries) :
    (summaries id executable (entries.place key name node)).Perm
      (summaries id executable (.cons name node entries)) := by
  cases entries with
  | nil => exact List.Perm.refl _
  | cons first other rest =>
    rw [Entries.place]
    split
    · have later := summaries_place name node rest
      rw [summaries] at later ⊢
      rw [summaries, summaries]
      cases summary id executable other with
      | none => exact later
      | some entry =>
        refine (later.cons _).trans ?_
        cases summary id executable node with
        | none => exact List.Perm.refl _
        | some entry' => exact List.Perm.swap _ _ _
    · exact List.Perm.refl _

mutual

/-- The order of the entries changes nothing of what is said of a tree. -/
theorem summary_sorted : ∀ {node : Node}, node.Legal →
    summary id executable (node.sorted key) = summary id executable node
  | .file _ _, _ => rfl
  | .symlink _, _ => rfl
  | .special _, _ => rfl
  | .directory entries, legal => by
    have same := gathered_perm (summaries_sorted legal) (summaries_nodup (Entries.sorted_legal legal))
    rw [Node.sorted, summary, summary, same]

/-- The order of the entries changes only the order in which it is said. -/
theorem summaries_sorted : ∀ {entries : Entries}, entries.Legal →
    (summaries id executable (entries.sorted key)).Perm (summaries id executable entries)
  | .nil, _ => List.Perm.refl _
  | .cons name node rest, legal => by
    refine (summaries_place name (node.sorted key) (rest.sorted key)).trans ?_
    have later := summaries_sorted legal.2.2.2
    rw [summaries, summaries, summary_sorted legal.2.2.1]
    cases summary id executable node with
    | none => exact later
    | some entry => exact later.cons _

end

end Order

/-! ## When a listing and an archive say the same -/

mutual

/-- The names and the targets are texts, and a file that someone may execute its owner may. -/
def Faithful : Node → Prop
  | .file mode _ => mode &&& 0o111 ≠ 0 → mode &&& 0o100 = 0o100
  | .symlink target => Utf8.Valid target
  | .directory entries => EntriesFaithful entries
  | .special _ => True

/-- The names are texts, and so on below them. -/
def EntriesFaithful : Entries → Prop
  | .nil => True
  | .cons name node rest => Utf8.Valid name ∧ Faithful node ∧ EntriesFaithful rest

end

/-- The two ways to tell an executable file agree where the bits do. -/
theorem execute_iff (mode : UInt32) :
    anyExecute mode = ownerExecute mode ↔ (mode &&& 0o111 ≠ 0 → mode &&& 0o100 = 0o100) := by
  have owner : mode &&& 0o111 = 0 → mode &&& 0o100 = 0 := by
    intro none
    have narrower : (0o100 : UInt32) = 0o111 &&& 0o100 := by decide
    rw [narrower, ← UInt32.and_assoc, none, UInt32.zero_and]
  unfold anyExecute ownerExecute
  constructor
  · intro same some
    have left : (mode &&& 0o111 != 0) = true := bne_iff_ne.mpr some
    exact beq_iff_eq.mp (same ▸ left)
  · intro implies
    by_cases none : mode &&& 0o111 = 0
    · rw [none, owner none]
      rfl
    · rw [implies none]
      exact bne_iff_ne.mpr none

mutual

/-- What is said of a faithful tree does not depend on who says it. -/
theorem summary_faithful : ∀ {node : Node}, Faithful node →
    summary Utf8.lossy anyExecute node = summary id ownerExecute node
  | .file mode _, faithful => by rw [summary, summary, (execute_iff mode).mpr faithful]
  | .symlink _, faithful => by
    rw [summary, summary, Utf8.lossy_of_valid faithful]
    rfl
  | .special _, _ => rfl
  | .directory _, faithful => by rw [summary, summary, summaries_faithful faithful]

/-- What is said of faithful entries does not depend on who says it. -/
theorem summaries_faithful : ∀ {entries : Entries}, EntriesFaithful entries →
    summaries Utf8.lossy anyExecute entries = summaries id ownerExecute entries
  | .nil, _ => rfl
  | .cons name node rest, faithful => by
    rw [summaries, summaries, summary_faithful faithful.2.1, summaries_faithful faithful.2.2,
      Utf8.lossy_of_valid faithful.1]
    rfl

end

/-- The summaries of plain entries name each of them. -/
theorem summaries_mem {rename : Bytes → Bytes} {executable : UInt32 → Bool} {name : Bytes}
    {node : Node} : ∀ {entries : Entries}, entries.Plain → (name, node) ∈ listed entries →
      ∃ entry, summary rename executable node = some entry ∧
        (rename name, entry) ∈ summaries rename executable entries
  | .nil, _, member => by cases member
  | .cons first other rest, plain, member => by
    have said : ∃ entry, summary rename executable other = some entry := by
      cases other with
      | special mode => exact plain.1.elim
      | _ => exact ⟨_, rfl⟩
    obtain ⟨entry, said⟩ := said
    rw [summaries, said]
    rcases List.mem_cons.mp member with same | later
    · obtain ⟨rfl, rfl⟩ := Prod.mk.inj same
      exact ⟨entry, said, List.mem_cons_self⟩
    · obtain ⟨entry', said', member'⟩ := summaries_mem plain.2 later
      exact ⟨entry', said', List.mem_cons_of_mem _ member'⟩

/-- Nothing is said but under the names of the entries. -/
theorem summaries_key {rename : Bytes → Bytes} {executable : UInt32 → Bool}
    {item : Bytes × NarEntry} : ∀ {entries : Entries}, item ∈ summaries rename executable entries →
      ∃ name, item.1 = rename name
  | .nil, member => by cases member
  | .cons first other rest, member => by
    rw [summaries] at member
    split at member
    · rcases List.mem_cons.mp member with rfl | later
      · exact ⟨first, rfl⟩
      · exact summaries_key later
    · exact summaries_key member

/-- If the same is said of the entries, their names are texts. -/
theorem names_valid {entries : Entries} (legal : entries.Legal) (plain : entries.Plain)
    (same : gathered (summaries Utf8.lossy anyExecute entries) =
      gathered (summaries id ownerExecute entries)) :
    ∀ item ∈ listed entries, Utf8.Valid item.1 := by
  rintro ⟨name, node⟩ member
  obtain ⟨entry, _, said⟩ := @summaries_mem id ownerExecute name node entries plain member
  have kept := (mem_gathered (summaries_nodup legal)).mpr said
  rw [← same] at kept
  obtain ⟨other, key⟩ := summaries_key (mem_of_mem_gathered kept)
  show Utf8.Valid name
  rw [show name = Utf8.lossy other from key]
  exact Utf8.valid_lossy other

/-- Where the names are texts, something is said under each of them. -/
theorem summaries_valid_names {executable : UInt32 → Bool} : ∀ {entries : Entries}, entries.Plain →
    (∀ item ∈ listed entries, Utf8.Valid item.1) →
      (summaries Utf8.lossy executable entries).map Prod.fst = entries.names
  | .nil, _, _ => rfl
  | .cons name node rest, plain, valid => by
    obtain ⟨entry, said, _⟩ := @summaries_mem Utf8.lossy executable name node (.cons name node rest)
      plain List.mem_cons_self
    have later := @summaries_valid_names executable rest plain.2
      (fun item member => valid item (List.mem_cons_of_mem _ member))
    rw [summaries, said, List.map_cons, later, Utf8.lossy_of_valid (valid _ List.mem_cons_self)]
    rfl

/-- If the same is said of the entries, it is said of each of them. -/
theorem summary_of_summaries {entries : Entries} (legal : entries.Legal) (plain : entries.Plain)
    (same : gathered (summaries Utf8.lossy anyExecute entries) =
      gathered (summaries id ownerExecute entries)) :
    ∀ item ∈ listed entries, Utf8.Valid item.1 ∧
      summary Utf8.lossy anyExecute item.2 = summary id ownerExecute item.2 := by
  rintro ⟨name, node⟩ member
  have valid := names_valid legal plain same
  refine ⟨valid _ member, ?_⟩
  obtain ⟨entry, said, listed⟩ := @summaries_mem Utf8.lossy anyExecute name node entries plain member
  obtain ⟨entry', said', listed'⟩ := @summaries_mem id ownerExecute name node entries plain member
  have distinct : ((summaries Utf8.lossy anyExecute entries).map Prod.fst).Nodup := by
    rw [summaries_valid_names plain valid]
    exact names_nodup legal
  have left := (mem_gathered distinct).mpr listed
  have right := (mem_gathered (summaries_nodup legal)).mpr listed'
  rw [same] at left
  have key : Utf8.lossy name = name := Utf8.lossy_of_valid (valid _ member)
  have equal := (gathered_ascending _).unique left right key
  rw [said, said', (Prod.mk.inj equal).2]

mutual

/-- Only of a faithful tree the same is said. -/
theorem faithful_of_summary : ∀ {node : Node}, node.Legal → node.Plain →
    summary Utf8.lossy anyExecute node = summary id ownerExecute node → Faithful node
  | .file mode _, _, _, same => by
    rw [summary, summary] at same
    exact (execute_iff mode).mp (NarEntry.regular.inj (Option.some.inj same)).2.2
  | .symlink target, _, _, same => by
    rw [summary, summary] at same
    exact Utf8.lossy_eq_self.mp (NarEntry.symlink.inj (Option.some.inj same))
  | .special _, _, _, _ => trivial
  | .directory entries, legal, plain, same => by
    rw [summary, summary] at same
    have equal := NarEntry.directory.inj (Option.some.inj same)
    exact faithful_of_summaries legal plain (summary_of_summaries legal plain equal)

/-- Only of faithful entries the same is said. -/
theorem faithful_of_summaries : ∀ {entries : Entries}, entries.Legal → entries.Plain →
    (∀ item ∈ listed entries, Utf8.Valid item.1 ∧
      summary Utf8.lossy anyExecute item.2 = summary id ownerExecute item.2) →
    EntriesFaithful entries
  | .nil, _, _, _ => trivial
  | .cons name node rest, legal, plain, same => by
    obtain ⟨valid, first⟩ := same (name, node) List.mem_cons_self
    refine ⟨valid, faithful_of_summary legal.2.2.1 plain.1 first, ?_⟩
    exact faithful_of_summaries legal.2.2.2 plain.2
      (fun item member => same item (List.mem_cons_of_mem _ member))

end

section Agreement

variable {root : Path} {tree : Node} {tasks : List Task} {chunkSize : Nat}

/-- The listing is made if and only if the dump comes to its end, and then they describe the same
tree. -/
def Agrees (root : Path) (tree : Node) (tasks : List Task) (chunkSize : Nat) : Prop :=
  let dumper := NarDumper.new root (tree.walkdir id root) false tasks chunkSize
  (∃ list, getNarList root tree = some (.ok list) ∧ ∃ enough events final,
    (∀ polls, enough ≤ polls → dumper.collect polls = (events, .ready (), final)) ∧
      treeOf events = some list.root) ∨
  (∃ error, getNarList root tree = some (.error error)) ∧ ∃ enough events error final,
    ∀ polls, enough ≤ polls → dumper.collect polls = (events, .error error, final)

/-- Where both succeed, they agree if and only if the tree is faithful. -/
theorem agrees_plain (legal : tree.Legal) (plain : tree.Plain) (kept : ∀ task ∈ tasks, task.Kept)
    (positive : 0 < chunkSize) : Agrees root tree tasks chunkSize ↔ Faithful tree := by
  have made := getNarList_eq root legal
  obtain ⟨enough, final, _, _, collects⟩ :=
    @dump_yields root tree tasks chunkSize legal plain false id kept positive
  obtain ⟨entry, said⟩ : ∃ entry, summary Utf8.lossy anyExecute tree = some entry := by
    cases tree with
    | special mode => exact plain.elim
    | _ => exact ⟨_, rfl⟩
  have encoded : treeOf (treeEvents id root [] (tree.sorted id)) = summary id ownerExecute tree := by
    rw [treeOf_events root (Node.sorted_plain.mpr plain), summary_sorted legal]
  rw [said] at made
  constructor
  · rintro (⟨list, ok, enough', events, final', collects', same⟩ | ⟨⟨error, failed⟩, _⟩)
    · have both := (collects _ (Nat.le_max_left enough enough')).symm.trans
        (collects' _ (Nat.le_max_right enough enough'))
      have found : list.root = entry := by
        rw [made] at ok
        injection ok with ok
        injection ok with ok
        rw [← ok]
      rw [← (Prod.mk.inj both).1, found, ← said] at same
      exact faithful_of_summary legal plain (same.symm.trans encoded)
    · rw [made] at failed
      cases failed
  · intro faithful
    refine .inl ⟨⟨1, entry⟩, made, enough, _, final, collects, ?_⟩
    rw [dumpedName_false, encoded, ← summary_faithful faithful, said]

/-- Where the dump fails, they agree if and only if the root itself is special. -/
theorem agrees_rough (legal : tree.Legal) (rough : ¬ tree.Plain) (kept : ∀ task ∈ tasks, task.Kept)
    (positive : 0 < chunkSize) : Agrees root tree tasks chunkSize ↔ tree.isSpecial = true := by
  have made := getNarList_eq root legal
  obtain ⟨enough, events, final, collects⟩ :=
    @dump_fails root tree tasks chunkSize legal rough false id kept positive
  constructor
  · rintro (⟨list, ok, enough', events', final', collects', _⟩ | ⟨⟨error, failed⟩, _⟩)
    · have both := (collects _ (Nat.le_max_left enough enough')).symm.trans
        (collects' _ (Nat.le_max_right enough enough'))
      cases (Prod.mk.inj (Prod.mk.inj both).2).1
    · cases tree with
      | special mode => rfl
      | file mode contents => exact absurd trivial rough
      | symlink target => exact absurd trivial rough
      | directory entries =>
        rw [made] at failed
        cases failed
  · intro special
    cases tree with
    | special mode => exact .inr ⟨⟨_, rfl⟩, enough, events, _, final, collects⟩
    | _ => cases special

/-- A listing and an archive agree if the tree is plain, its names and targets are texts, and a file
that someone may execute its owner may; and they agree to reject what is special itself. They
agree in no other case. -/
theorem agrees_iff (legal : tree.Legal) (kept : ∀ task ∈ tasks, task.Kept)
    (positive : 0 < chunkSize) :
    Agrees root tree tasks chunkSize ↔ tree.isSpecial = true ∨ tree.Plain ∧ Faithful tree := by
  by_cases plain : tree.Plain
  · rw [agrees_plain legal plain kept positive, plain.ordinary]
    simp [plain]
  · rw [agrees_rough legal plain kept positive]
    simp [plain]

end Agreement

/-- A listing and an archive agree on a directory with a file that its owner may execute, and a directory with
a symbolic link. -/
theorem agrees_iff_sampleTree : Agrees sampleRoot sampleTree [.done 1] 25 := by
  have kept : ∀ task ∈ [Task.done 1], task.Kept := by
    intro task member
    rw [List.mem_singleton.mp member]
    trivial
  have legal : sampleTree.Legal :=
    ⟨by decide, by decide, trivial, by decide, by decide, ⟨by decide, by decide, trivial, trivial⟩,
      trivial⟩
  have plain : sampleTree.Plain := ⟨trivial, ⟨trivial, trivial⟩, trivial⟩
  have texts : Utf8.Valid [0x62, 0x63] ∧ Utf8.Valid [0x62] ∧ Utf8.Valid [0x78] ∧ Utf8.Valid [0x79] := by decide
  have faithful : Faithful sampleTree :=
    ⟨texts.1, fun _ => by decide, texts.2.1, ⟨texts.2.2.1, texts.2.2.2, trivial⟩, trivial⟩
  exact (agrees_iff legal kept (by decide)).mpr (.inr ⟨plain, faithful⟩)

/-- The listing and the archive do not agree on a file that others may execute, but not its owner. -/
theorem disagrees_on_execute : ¬ Agrees sampleRoot (.file 0o655 [0x21]) [] 25 := by
  intro agrees
  have none : ∀ task ∈ ([] : List Task), task.Kept := fun _ member => by cases member
  have faithful := (@agrees_plain sampleRoot (.file 0o655 [0x21]) _ _ trivial trivial none
    (by decide)).mp agrees
  exact absurd (faithful (by decide)) (by decide)

end Harmonia.Cache
