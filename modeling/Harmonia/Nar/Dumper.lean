import Harmonia.Fs.Tree
import Harmonia.Nar.Parser

/-!
# Dumping a tree

`archive/dumper.rs`. A background task walks through the tree a batch of entries at a time, and the
dumper turns the entries into events. It has no tree to follow: it knows the directory it is in, looks
one entry ahead, and leaves the directory when the entry is not below it. The batches and the polls
that find the background task unfinished do not show in the events: each poll is pending or makes
the step of a cursor over the entries that are left.
-/

namespace Harmonia.Nar

open Fs

/-! ## The case hack -/

/-- `CASE_HACK_SUFFIX`. -/
def caseHackSuffix : Bytes := Library.asciiBytes "~nix~case~hack~"

/-- `rfind`: where the last occurrence begins. -/
def rfind (needle : Bytes) : Bytes → Option Nat
  | [] => if needle = [] then some 0 else none
  | byte :: rest =>
    match rfind needle rest with
    | some pos => some (pos + 1)
    | none => if needle.isPrefixOf (byte :: rest) then some 0 else none

/-- `remove_case_hack`. -/
def removeCaseHack (name : Bytes) : Bytes :=
  match rfind caseHackSuffix name with
  | some pos => name.take pos
  | none => name

/-- What the dumper makes of a name. -/
def dumpedName (useCaseHack : Bool) (name : Bytes) : Bytes :=
  if useCaseHack then removeCaseHack name else name

/-! ## The background walk -/

/-- A `DumpedFile` that nothing has been read of. -/
structure DumpedFile where
  /-- The path to open. -/
  path : Path
  /-- The length it had when its metadata was read. -/
  size : UInt64
  deriving DecidableEq, Repr

/-- `Entry`. -/
inductive Entry where
  /-- A regular file. -/
  | file (path : Path) (size : UInt64) (executable : Bool)
  /-- A symbolic link. -/
  | symlink (path : Path) (target : Bytes)
  /-- A directory. -/
  | directory (path : Path)
  deriving DecidableEq, Repr

/-- `path`. -/
def Entry.path : Entry → Path
  | .file path _ _ => path
  | .symlink path _ => path
  | .directory path => path

/-- The name of an entry inside some open directories: nothing at the root, and the last component of
the path below it. -/
def Entry.name (useCaseHack : Bool) (level : Nat) (entry : Entry) : Option Bytes :=
  if level > 0 then entry.path.fileName.map (dumpedName useCaseHack) else some []

/-- The error of a file that an archive cannot have. -/
def unsupported : IoError :=
  ⟨.other, "unsupported file type FileType \x7b is_file: false, is_dir: false, is_symlink: false, .. \x7d"⟩

/-- The entry of an item of the walk. -/
def Entry.ofItem (item : Except IoError DirEntry) : Except IoError Entry := do
  let entry ← item
  let metadata ← entry.metadata
  match metadata.fileType with
  | .dir => return .directory entry.path
  | .file => return .file entry.path metadata.len (metadata.mode &&& 0o100 == 0o100)
  | .symlink =>
    let target ← entry.link
    return .symlink entry.path target
  | .special => throw unsupported

/-- `next_chunk`: whether there may be more, the entries, and the rest of the walk. -/
def nextChunk : Nat → List (Except IoError Entry) → List (Except IoError DirEntry) →
    Bool × List (Except IoError Entry) × List (Except IoError DirEntry)
  | 0, buf, walker => (true, buf, walker)
  | _ + 1, buf, [] => (false, buf, [])
  | size + 1, buf, item :: walker => nextChunk size (buf ++ [Entry.ofItem item]) walker

/-- How a background task fares. -/
inductive Task where
  /-- It is done after so many polls. -/
  | done (delay : Nat)
  /-- It is lost after so many polls. -/
  | lost (delay : Nat)
  /-- Its loss has been reported. -/
  | gone
  deriving DecidableEq, Repr

/-- The error of a lost task. -/
def taskLost : IoError := ⟨.other, "task panicked"⟩

/-- `State`. -/
inductive WalkState where
  /-- `Idle`. -/
  | idle (buf : List (Except IoError Entry)) (walker : List (Except IoError DirEntry)) (remain : Bool)
  /-- `Pending`, with what the task returns. -/
  | pending (task : Task) (buf : List (Except IoError Entry))
    (walker : List (Except IoError DirEntry)) (remain : Bool)

/-- The loop of `poll_next` of a `State`; the tasks that will be spawned are given. -/
def WalkState.loop (chunkSize : Nat) : Nat → List Task → WalkState →
    Poll (Option Entry) × List Task × WalkState
  | 0, tasks, this => (.panic, tasks, this)
  | _ + 1, tasks, .idle (.ok entry :: buf) walker remain =>
    (.ready (some entry), tasks, .idle buf walker remain)
  | _ + 1, tasks, .idle (.error error :: buf) walker remain =>
    (.error error, tasks, .idle buf walker remain)
  | _ + 1, tasks, .idle [] walker false => (.ready none, tasks, .idle [] walker false)
  | fuel + 1, tasks, .idle [] walker true =>
    let (remain, buf, walker) := nextChunk chunkSize [] walker
    loop chunkSize fuel tasks.tail (.pending (tasks.headD (.done 0)) buf walker remain)
  | fuel + 1, tasks, .pending (.done 0) buf walker remain =>
    loop chunkSize fuel tasks (.idle buf walker remain)
  | _ + 1, tasks, .pending (.done (delay + 1)) buf walker remain =>
    (.pending, tasks, .pending (.done delay) buf walker remain)
  | _ + 1, tasks, .pending (.lost 0) buf walker remain =>
    (.error taskLost, tasks, .pending .gone buf walker remain)
  | _ + 1, tasks, .pending (.lost (delay + 1)) buf walker remain =>
    (.pending, tasks, .pending (.lost delay) buf walker remain)
  | _ + 1, tasks, .pending .gone buf walker remain =>
    (.panic, tasks, .pending .gone buf walker remain)

/-- `poll_next` of a `State`: from one batch to the next there are three rounds. -/
def WalkState.pollNext (chunkSize : Nat) (tasks : List Task) (this : WalkState) :
    Poll (Option Entry) × List Task × WalkState :=
  this.loop chunkSize 3 tasks

/-! ## The dumper -/

/-- `NarDumper`. -/
structure NarDumper where
  /-- The background walk. -/
  state : WalkState
  /-- The entry looked ahead to. -/
  next : Option Entry
  /-- Open directories. -/
  level : Nat
  /-- The directory the dumper is in. -/
  dir : Path
  /-- Whether names lose the suffix of the case hack. -/
  useCaseHack : Bool
  /-- The tasks that will be spawned. -/
  tasks : List Task
  /-- `CHUNK_SIZE`. -/
  chunkSize : Nat

namespace NarDumper

/-- `DumpOptions::dump`, with the walk that `walkdir` makes. -/
def new (root : Path) (walker : List (Except IoError DirEntry)) (useCaseHack : Bool)
    (tasks : List Task) (chunkSize : Nat) : NarDumper :=
  ⟨.idle [] walker true, none, 0, root, useCaseHack, tasks, chunkSize⟩

/-- Leave the directory; the subtraction of a level is checked. -/
def leave (this : NarDumper) : Poll (Option (NarEvent DumpedFile)) × NarDumper :=
  if this.level = 0 then (.panic, this)
  else (.ready (some .endDirectory), { this with dir := this.dir.pop, level := this.level - 1 })

/-- The event of an entry; the last component of its path has to be a name. -/
def emit (this : NarDumper) (entry : Entry) : Poll (Option (NarEvent DumpedFile)) × NarDumper :=
  match entry.name this.useCaseHack this.level with
  | none => (.panic, this)
  | some name =>
    match entry with
    | .directory path =>
      (.ready (some (.startDirectory name)), { this with dir := path, level := this.level + 1 })
    | .file path size executable =>
      (.ready (some (.file name executable size ⟨path, size⟩)), this)
    | .symlink _ target => (.ready (some (.symlink name target)), this)

/-- The loop of `poll_next`. -/
def loop : Nat → NarDumper → Poll (Option (NarEvent DumpedFile)) × NarDumper
  | 0, this => (.panic, this)
  | fuel + 1, this =>
    match this.next with
    | some entry =>
      if entry.path.startsWith this.dir then { this with next := none }.emit entry else this.leave
    | none =>
      match this.state.pollNext this.chunkSize this.tasks with
      | (.ready (some entry), tasks, state) =>
        loop fuel { this with next := some entry, state := state, tasks := tasks }
      | (.ready none, tasks, state) =>
        if this.level > 0 then { this with state := state, tasks := tasks }.leave
        else (.ready none, { this with state := state, tasks := tasks })
      | (.pending, tasks, state) => (.pending, { this with state := state, tasks := tasks })
      | (.error error, tasks, state) => (.error error, { this with state := state, tasks := tasks })
      | (.panic, tasks, state) => (.panic, { this with state := state, tasks := tasks })

/-- `poll_next`: an entry is looked ahead to in one round and emitted in the next. -/
def pollNext (this : NarDumper) : Poll (Option (NarEvent DumpedFile)) × NarDumper := this.loop 2

/-- Poll so many times at most, and gather the events up to the end or an error. -/
def collect : Nat → NarDumper → List (NarEvent DumpedFile) × Poll Unit × NarDumper
  | 0, this => ([], .pending, this)
  | polls + 1, this =>
    match this.pollNext with
    | (.ready (some event), next) =>
      let (events, result) := collect polls next
      (event :: events, result)
    | (.ready none, next) => ([], .ready (), next)
    | (.pending, next) => collect polls next
    | (.error error, next) => ([], .error error, next)
    | (.panic, next) => ([], .panic, next)

end NarDumper

/-! ## The entries that are left -/

/-- Where a dumper is, without the batches of its walk. -/
structure Cursor where
  /-- The directory it is in. -/
  dir : Path
  /-- Open directories. -/
  level : Nat
  /-- Whether names lose the suffix of the case hack. -/
  useCaseHack : Bool
  /-- The entries to come. -/
  rest : List (Except IoError Entry)

namespace Cursor

/-- Leave the directory. -/
def leave (this : Cursor) : Poll (Option (NarEvent DumpedFile)) × Cursor :=
  if this.level = 0 then (.panic, this)
  else (.ready (some .endDirectory), { this with dir := this.dir.pop, level := this.level - 1 })

/-- The event of an entry. -/
def emit (this : Cursor) (entry : Entry) : Poll (Option (NarEvent DumpedFile)) × Cursor :=
  match entry.name this.useCaseHack this.level with
  | none => (.panic, this)
  | some name =>
    match entry with
    | .directory path =>
      (.ready (some (.startDirectory name)), { this with dir := path, level := this.level + 1 })
    | .file path size executable =>
      (.ready (some (.file name executable size ⟨path, size⟩)), this)
    | .symlink _ target => (.ready (some (.symlink name target)), this)

/-- One event. -/
def step (this : Cursor) : Poll (Option (NarEvent DumpedFile)) × Cursor :=
  match this.rest with
  | [] => if this.level > 0 then this.leave else (.ready none, this)
  | .error error :: rest => (.error error, { this with rest := rest })
  | .ok entry :: rest =>
    if entry.path.startsWith this.dir then { this with rest := rest }.emit entry else this.leave

/-- The cursor goes through these events. -/
inductive Yields : Cursor → List (NarEvent DumpedFile) → Cursor → Prop
  | refl (this : Cursor) : Yields this [] this
  | step {this next last : Cursor} {event : NarEvent DumpedFile} {events : List (NarEvent DumpedFile)}
    (stepped : this.step = (.ready (some event), next)) (later : Yields next events last) :
    Yields this (event :: events) last

/-- One event after the other. -/
theorem Yields.trans {first second third : Cursor} {left right : List (NarEvent DumpedFile)}
    (before : Yields first left second) (after : Yields second right third) :
    Yields first (left ++ right) third := by
  induction before with
  | refl => exact after
  | step stepped _ ih => exact .step stepped (ih after)

/-- A single event. -/
theorem Yields.one {this next : Cursor} {event : NarEvent DumpedFile}
    (stepped : this.step = (.ready (some event), next)) : Yields this [event] next :=
  .step stepped (.refl next)

end Cursor

/-- The entries a walk still has. -/
def WalkState.rest : WalkState → List (Except IoError Entry)
  | .idle buf walker remain => buf ++ if remain then walker.map Entry.ofItem else []
  | .pending _ buf walker remain => buf ++ if remain then walker.map Entry.ofItem else []

/-- The polls a task puts off. -/
def Task.delay : Task → Nat
  | .done delay => delay
  | .lost delay => delay
  | .gone => 0

/-- The polls of a state that its task puts off. -/
def WalkState.delay : WalkState → Nat
  | .idle _ _ _ => 0
  | .pending task _ _ _ => task.delay

/-- A task that is not lost. -/
def Task.Kept : Task → Prop
  | .done _ => True
  | _ => False

/-- The task of a state is not lost, and it has an entry if there may be more. -/
def WalkState.Kept : WalkState → Prop
  | .idle _ _ _ => True
  | .pending task buf _ remain => task.Kept ∧ (remain = true → buf ≠ [])

/-- A batch takes entries from the walk, and there is none in it only at the end. -/
theorem nextChunk_takes (size : Nat) (buf : List (Except IoError Entry))
    (walker : List (Except IoError DirEntry)) :
    ∃ taken remain walker', nextChunk size buf walker = (remain, buf ++ taken, walker') ∧
      taken ++ (if remain then walker'.map Entry.ofItem else []) = walker.map Entry.ofItem ∧
      (remain = true → taken.length = size) := by
  induction size generalizing buf walker with
  | zero => exact ⟨[], true, walker, by rw [List.append_nil]; rfl, rfl, fun _ => rfl⟩
  | succ size ih =>
    cases walker with
    | nil => exact ⟨[], false, [], by rw [List.append_nil]; rfl, rfl, fun no => by cases no⟩
    | cons item walker =>
      obtain ⟨taken, remain, walker', chunk, same, full⟩ := ih (buf ++ [Entry.ofItem item]) walker
      refine ⟨Entry.ofItem item :: taken, remain, walker', ?_, ?_, ?_⟩
      · rw [nextChunk, chunk, List.append_assoc]
        rfl
      · rw [List.cons_append, same, List.map_cons]
      · intro more
        rw [List.length_cons, full more]

/-- What a poll of the walk does. -/
inductive Walks (this : WalkState) (tasks : List Task) :
    Poll (Option Entry) × List Task × WalkState → Prop
  | entry {tasks' : List Task} {next : WalkState} {entry : Entry}
    (taken : this.rest = .ok entry :: next.rest) (kept : next.Kept) (all : ∀ task ∈ tasks', task.Kept)
    (spent : next.delay + (tasks'.map Task.delay).sum ≤ this.delay + (tasks.map Task.delay).sum) :
    Walks this tasks (.ready (some entry), tasks', next)
  | done {tasks' : List Task} {next : WalkState} (ended : this.rest = []) (same : next.rest = [])
    (kept : next.Kept) (all : ∀ task ∈ tasks', task.Kept)
    (spent : next.delay + (tasks'.map Task.delay).sum ≤ this.delay + (tasks.map Task.delay).sum) :
    Walks this tasks (.ready none, tasks', next)
  | error {tasks' : List Task} {next : WalkState} {error : IoError}
    (taken : this.rest = .error error :: next.rest) (kept : next.Kept)
    (all : ∀ task ∈ tasks', task.Kept)
    (spent : next.delay + (tasks'.map Task.delay).sum ≤ this.delay + (tasks.map Task.delay).sum) :
    Walks this tasks (.error error, tasks', next)
  | pending {tasks' : List Task} {next : WalkState} (same : next.rest = this.rest) (kept : next.Kept)
    (all : ∀ task ∈ tasks', task.Kept)
    (less : next.delay + (tasks'.map Task.delay).sum < this.delay + (tasks.map Task.delay).sum) :
    Walks this tasks (.pending, tasks', next)

/-- A state with entries at hand gives the first. -/
theorem WalkState.loop_idle {chunkSize fuel : Nat} {tasks : List Task}
    {buf : List (Except IoError Entry)} {walker : List (Except IoError DirEntry)} {remain : Bool}
    (all : ∀ task ∈ tasks, task.Kept) (full : remain = true → buf ≠ []) :
    Walks (.idle buf walker remain) tasks
      (WalkState.loop chunkSize (fuel + 1) tasks (.idle buf walker remain)) := by
  cases buf with
  | nil =>
    cases remain with
    | true => exact absurd rfl (full rfl)
    | false => exact .done rfl rfl trivial all (Nat.le_refl _)
  | cons first buf =>
    cases first with
    | ok entry => exact .entry rfl trivial all (Nat.le_refl _)
    | error error => exact .error rfl trivial all (Nat.le_refl _)

/-- A state that waits for its task. -/
theorem WalkState.loop_pending {chunkSize fuel : Nat} {tasks : List Task} {task : Task}
    {buf : List (Except IoError Entry)} {walker : List (Except IoError DirEntry)} {remain : Bool}
    (all : ∀ task ∈ tasks, task.Kept) (kept : (WalkState.pending task buf walker remain).Kept) :
    Walks (.pending task buf walker remain) tasks
      (WalkState.loop chunkSize (fuel + 2) tasks (.pending task buf walker remain)) := by
  obtain ⟨notLost, full⟩ := kept
  cases task with
  | done delay =>
    cases delay with
    | zero =>
      -- The task is done: the state is idle with the same entries.
      rw [loop]
      have idle := @loop_idle chunkSize fuel tasks buf walker remain all full
      generalize WalkState.loop chunkSize (fuel + 1) tasks (.idle buf walker remain) = result at idle
      cases idle with
      | entry taken kept all spent => exact .entry taken kept all spent
      | done ended same kept all spent => exact .done ended same kept all spent
      | error taken kept all spent => exact .error taken kept all spent
      | pending same kept all less => exact .pending same kept all less
    | succ delay =>
      refine .pending rfl ⟨trivial, full⟩ all ?_
      show delay + _ < delay + 1 + _
      omega
  | lost delay => exact notLost.elim
  | gone => exact notLost.elim

/-- A poll of the walk gives its next entry, unless it is put off. -/
theorem WalkState.pollNext_walks {chunkSize : Nat} (positive : 0 < chunkSize) {tasks : List Task}
    (all : ∀ task ∈ tasks, task.Kept) {this : WalkState} (kept : this.Kept) :
    Walks this tasks (this.pollNext chunkSize tasks) := by
  cases this with
  | pending task buf walker remain => exact loop_pending all kept
  | idle buf walker remain =>
    by_cases full : remain = true → buf ≠ []
    · exact loop_idle all full
    · obtain ⟨rfl, rfl⟩ : remain = true ∧ buf = [] := by
        simpa only [Classical.not_imp, not_not] using full
      -- Nothing is at hand: a task is spawned for the next batch.
      obtain ⟨taken, remain, walker', chunk, same, full⟩ := nextChunk_takes chunkSize [] walker
      have first : (tasks.headD (.done 0)).Kept := by
        cases tasks with
        | nil => trivial
        | cons task tasks => exact all task List.mem_cons_self
      have others : ∀ task ∈ tasks.tail, task.Kept :=
        fun task member => all task (List.mem_of_mem_tail member)
      have some : remain = true → taken ≠ [] := by
        intro more none
        have length := full more
        rw [none] at length
        exact absurd length (Nat.ne_of_lt positive)
      have spent : (tasks.headD (.done 0)).delay + (tasks.tail.map Task.delay).sum =
          (tasks.map Task.delay).sum := by
        cases tasks with
        | nil => rfl
        | cons task tasks => simp
      have rest : WalkState.rest (.pending (tasks.headD (.done 0)) taken walker' remain) =
          WalkState.rest (.idle [] walker true) := same
      rw [pollNext, loop, chunk]
      have waits := @loop_pending chunkSize 0 tasks.tail _ taken walker' remain others ⟨first, some⟩
      show Walks _ _ (WalkState.loop chunkSize 2 tasks.tail (.pending _ taken walker' remain))
      generalize WalkState.loop chunkSize 2 tasks.tail (.pending _ taken walker' remain) = result at waits
      have before : ∀ {total : Nat}, total ≤ WalkState.delay (.pending (tasks.headD (.done 0)) taken walker' remain) + (tasks.tail.map Task.delay).sum → total ≤ WalkState.delay (.idle [] walker true) + (tasks.map Task.delay).sum := by
        intro total le
        change total ≤ (tasks.headD (.done 0)).delay + _ at le
        show total ≤ 0 + _
        omega
      cases waits with
      | entry taken kept all spent => exact .entry (rest ▸ taken) kept all (before spent)
      | done ended same kept all spent => exact .done (rest ▸ ended) same kept all (before spent)
      | error taken kept all spent => exact .error (rest ▸ taken) kept all (before spent)
      | pending same kept all less => exact .pending (rest ▸ same) kept all (before less)

namespace NarDumper

/-- Where the dumper is. -/
def cursor (this : NarDumper) : Cursor :=
  ⟨this.dir, this.level, this.useCaseHack, this.next.toList.map Except.ok ++ this.state.rest⟩

/-- The batches are not empty, and no task is lost. -/
structure Sound (this : NarDumper) : Prop where
  /-- A batch has some entries. -/
  positive : 0 < this.chunkSize
  /-- No task will be lost. -/
  tasks : ∀ task ∈ this.tasks, task.Kept
  /-- The task at work is not lost. -/
  state : this.state.Kept

/-- The polls that will be put off. -/
def delay (this : NarDumper) : Nat := this.state.delay + (this.tasks.map Task.delay).sum

/-- What a poll does: the step of the cursor, or nothing yet. -/
inductive Follows (this : NarDumper) : Poll (Option (NarEvent DumpedFile)) × NarDumper → Prop
  | step {answer : Poll (Option (NarEvent DumpedFile))} {next : NarDumper}
    (stepped : this.cursor.step = (answer, next.cursor)) (sound : next.Sound)
    (spent : next.delay ≤ this.delay) : Follows this (answer, next)
  | pending {next : NarDumper} (same : next.cursor = this.cursor) (sound : next.Sound)
    (less : next.delay < this.delay) : Follows this (.pending, next)

/-- Leaving a directory is a step of the cursor that leaves. -/
theorem leave_follows (this : NarDumper) {first : NarDumper} (sound : this.Sound)
    (leaves : first.cursor.step = this.cursor.leave) (spent : this.delay ≤ first.delay) :
    Follows first this.leave := by
  have same : (this.leave.1, this.leave.2.cursor) = this.cursor.leave := by
    by_cases zero : this.level = 0
    · rw [leave, if_pos zero, Cursor.leave, if_pos (show this.cursor.level = 0 from zero)]
    · rw [leave, if_neg zero, Cursor.leave, if_neg (show ¬ this.cursor.level = 0 from zero)]
      rfl
  have unchanged : this.leave.2.Sound ∧ this.leave.2.delay = this.delay := by
    unfold leave
    split
    · exact ⟨sound, rfl⟩
    · exact ⟨⟨sound.positive, sound.tasks, sound.state⟩, rfl⟩
  exact .step (leaves.trans same.symm) unchanged.1 (unchanged.2 ▸ spent)

/-- Emitting an entry is a step of the cursor that emits it. -/
theorem emit_follows (this : NarDumper) {first : NarDumper} {entry : Entry} (sound : this.Sound)
    (emits : first.cursor.step = this.cursor.emit entry) (spent : this.delay ≤ first.delay) :
    Follows first (this.emit entry) := by
  have same : ((this.emit entry).1, (this.emit entry).2.cursor) = this.cursor.emit entry := by
    cases named : entry.name this.useCaseHack this.level with
    | none => simp only [emit, Cursor.emit, cursor, named]
    | some name => cases entry <;> simp only [emit, Cursor.emit, cursor, named]
  have unchanged : (this.emit entry).2.Sound ∧ (this.emit entry).2.delay = this.delay := by
    unfold emit
    split
    · exact ⟨sound, rfl⟩
    · cases entry with
      | directory path => exact ⟨⟨sound.positive, sound.tasks, sound.state⟩, rfl⟩
      | file path size executable => exact ⟨sound, rfl⟩
      | symlink path target => exact ⟨sound, rfl⟩
  exact .step (emits.trans same.symm) unchanged.1 (unchanged.2 ▸ spent)

/-- A dumper that has looked ahead to an entry. -/
theorem loop_next (this : NarDumper) (fuel : Nat) {first : NarDumper} {entry : Entry} (sound : this.Sound)
    (ahead : this.next = some entry) (same : first.cursor = this.cursor)
    (spent : this.delay ≤ first.delay) : Follows first (this.loop (fuel + 1)) := by
  have step : this.cursor.step =
      if entry.path.startsWith this.dir then { this with next := none }.cursor.emit entry
      else this.cursor.leave := by
    simp only [Cursor.step, cursor, ahead, Option.toList_some, List.map_cons, List.map_nil,
      List.cons_append, List.nil_append, Option.toList_none]
  simp only [loop, ahead]
  split
  case isTrue below =>
    rw [if_pos below] at step
    exact emit_follows { this with next := none } ⟨sound.positive, sound.tasks, sound.state⟩
      (same ▸ step) spent
  case isFalse outside =>
    rw [if_neg outside] at step
    exact leave_follows this sound (same ▸ step) spent

/-- Each poll makes a step of the cursor, unless it is put off. -/
theorem pollNext_follows {this : NarDumper} (sound : this.Sound) : Follows this this.pollNext := by
  obtain ⟨state, next, level, dir, useCaseHack, tasks, chunkSize⟩ := this
  cases next with
  | some entry => exact loop_next _ 1 sound rfl rfl (Nat.le_refl _)
  | none =>
    have walked := WalkState.pollNext_walks sound.positive sound.tasks sound.state
    simp only [pollNext, loop]
    generalize state.pollNext chunkSize tasks = result at walked
    cases walked with
    | @entry tasks' state' entry taken kept all spent =>
      apply loop_next ⟨state', some entry, level, dir, useCaseHack, tasks', chunkSize⟩ 0
        ⟨sound.positive, all, kept⟩ rfl ?_ spent
      show Cursor.mk dir level useCaseHack state.rest = _
      rw [taken]
      rfl
    | @done tasks' state' ended same kept all spent =>
      have after : cursor ⟨state', none, level, dir, useCaseHack, tasks', chunkSize⟩ =
          cursor ⟨state, none, level, dir, useCaseHack, tasks, chunkSize⟩ := by
        show Cursor.mk dir level useCaseHack state'.rest = ⟨dir, level, useCaseHack, state.rest⟩
        rw [ended, same]
      have sound' : Sound ⟨state', none, level, dir, useCaseHack, tasks', chunkSize⟩ :=
        ⟨sound.positive, all, kept⟩
      have step : Cursor.step ⟨dir, level, useCaseHack, state.rest⟩ =
          if level > 0 then Cursor.leave ⟨dir, level, useCaseHack, state.rest⟩
          else (.ready none, ⟨dir, level, useCaseHack, state.rest⟩) := by
        rw [ended]
        rfl
      dsimp only
      split
      case isTrue positive =>
        rw [if_pos positive] at step
        exact leave_follows _ sound' (after.symm ▸ step) spent
      case isFalse zero =>
        rw [if_neg zero] at step
        exact .step (after.symm ▸ step) sound' spent
    | @error tasks' state' error taken kept all spent =>
      refine .step ?_ ⟨sound.positive, all, kept⟩ spent
      show Cursor.step ⟨dir, level, useCaseHack, state.rest⟩ = _
      rw [taken]
      rfl
    | @pending tasks' state' same kept all less =>
      refine .pending ?_ ⟨sound.positive, all, kept⟩ less
      show Cursor.mk dir level useCaseHack state'.rest = ⟨dir, level, useCaseHack, state.rest⟩
      rw [same]

/-- After some polls that are put off, one makes the step of the cursor. -/
theorem collect_waits {this : NarDumper} (sound : this.Sound) :
    ∃ polls waiting answer next, waiting.pollNext = (answer, next) ∧
      this.cursor.step = (answer, next.cursor) ∧ next.Sound ∧
      ∀ more, collect (polls + more) this = collect more waiting := by
  induction measured : this.delay using Nat.strongRecOn generalizing this with
  | _ delay ih =>
    have polled := pollNext_follows sound
    generalize answered : this.pollNext = result at polled
    cases polled with
    | @step answer next stepped sound' spent =>
      refine ⟨0, this, answer, next, answered, stepped, sound', ?_⟩
      intro more
      rw [Nat.zero_add]
    | @pending next same sound' less =>
      obtain ⟨polls, waiting, answer, last, answered', stepped, sound'', collects⟩ :=
        ih next.delay (measured ▸ less) sound' rfl
      refine ⟨polls + 1, waiting, answer, last, answered', same ▸ stepped, sound'', ?_⟩
      intro more
      rw [Nat.add_right_comm, collect, answered]
      exact collects more

/-- What the cursor yields is collected, after enough polls. -/
theorem collect_yields {this : NarDumper} (sound : this.Sound) {last : Cursor}
    {events : List (NarEvent DumpedFile)} (yields : Cursor.Yields this.cursor events last) :
    ∃ polls next, next.cursor = last ∧ next.Sound ∧ ∀ more, collect (polls + more) this =
      (events ++ (collect more next).1, (collect more next).2) := by
  generalize starts : this.cursor = first at yields
  induction yields generalizing this with
  | refl =>
    refine ⟨0, this, starts, sound, ?_⟩
    intro more
    rw [Nat.zero_add]
    rfl
  | @step _ _ _ event events stepped later ih =>
    obtain ⟨polls, waiting, answer, next, answered, stepped', sound', collects⟩ :=
      collect_waits sound
    rw [starts, stepped] at stepped'
    obtain ⟨rfl, rfl⟩ := Prod.mk.inj stepped'
    obtain ⟨polls', final, ends, sound'', collects'⟩ := ih sound' rfl
    refine ⟨polls + (polls' + 1), final, ends, sound'', ?_⟩
    intro more
    rw [Nat.add_assoc, collects, Nat.add_right_comm, collect, answered]
    simp only [collects' more, List.cons_append]

/-- The events up to the end are collected, after enough polls. -/
theorem collect_ends {this : NarDumper} (sound : this.Sound) {last : Cursor}
    {events : List (NarEvent DumpedFile)} (yields : Cursor.Yields this.cursor events last)
    (ends : last.step = (.ready none, last)) :
    ∃ enough final, final.cursor = last ∧ final.Sound ∧
      ∀ polls, enough ≤ polls → collect polls this = (events, .ready (), final) := by
  obtain ⟨polls, next, same, sound', collects⟩ := collect_yields sound yields
  obtain ⟨polls', waiting, answer, final, answered, stepped, sound'', collects'⟩ :=
    collect_waits sound'
  rw [same, ends] at stepped
  obtain ⟨rfl, finals⟩ := Prod.mk.inj stepped
  refine ⟨polls + (polls' + 1), final, finals.symm, sound'', ?_⟩
  intro total enough
  obtain ⟨more, rfl⟩ := Nat.exists_eq_add_of_le enough
  have last' : collect (polls' + 1 + more) next = ([], .ready (), final) := by
    rw [Nat.add_assoc, collects', Nat.add_comm 1 more, collect, answered]
  rw [Nat.add_assoc, collects, last', List.append_nil]

/-- The events up to an error are collected, after enough polls. -/
theorem collect_fails {this : NarDumper} (sound : this.Sound) {last next : Cursor} {error : IoError}
    {events : List (NarEvent DumpedFile)} (yields : Cursor.Yields this.cursor events last)
    (fails : last.step = (.error error, next)) :
    ∃ enough final, final.cursor = next ∧
      ∀ polls, enough ≤ polls → collect polls this = (events, .error error, final) := by
  obtain ⟨polls, before, same, sound', collects⟩ := collect_yields sound yields
  obtain ⟨polls', waiting, answer, final, answered, stepped, _, collects'⟩ := collect_waits sound'
  rw [same, fails] at stepped
  obtain ⟨rfl, finals⟩ := Prod.mk.inj stepped
  refine ⟨polls + (polls' + 1), final, finals.symm, ?_⟩
  intro total enough
  obtain ⟨more, rfl⟩ := Nat.exists_eq_add_of_le enough
  have last' : collect (polls' + 1 + more) before = ([], .error error, final) := by
    rw [Nat.add_assoc, collects', Nat.add_comm 1 more, collect, answered]
  rw [Nat.add_assoc, collects, last', List.append_nil]

end NarDumper

end Harmonia.Nar
