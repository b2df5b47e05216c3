import Harmonia.Nar.ChannelWriter
import Harmonia.Nar.Dumping
import Harmonia.Nar.Sending

/-!
# A stream of archive bytes

`archive/byte_stream.rs`. A background task dumps a path and writes the archive into a channel, and
the stream gives what comes out of the channel. An error ends the task, and with it the channel: what
the consumer sees is a stream that is over. So the chunks are the whole archive exactly if nothing
failed.
-/

namespace Harmonia.Nar

open Fs

/-! ## Reading a dumped file -/

/-- What opening and reading a file comes to. -/
structure Opening where
  /-- The polls until there is a permit. -/
  permit : Nat
  /-- The polls until the background task has read the file. -/
  delay : Nat
  /-- What the background task returns. -/
  outcome : Except IoError Bytes
  deriving DecidableEq, Repr

/-- `DumpedFileStates`. -/
inductive DumpedFileStates where
  /-- `WaitPermit`. -/
  | waitPermit (permit delay : Nat) (outcome : Except IoError Bytes)
  /-- `OpenFile`. -/
  | openFile (delay : Nat) (outcome : Except IoError Bytes)
  /-- `Reading`, with the bytes behind the offset. -/
  | reading (data : Bytes)
  /-- `Eof`. -/
  | eof
  deriving DecidableEq, Repr

namespace DumpedFileStates

/-- `poll_read` of data that has been loaded. -/
def readData (data : Bytes) (room : Nat) : Poll Bytes × DumpedFileStates :=
  if data = [] then (.ready [], .eof) else (.ready (data.take room), .reading (data.drop room))

/-- `poll_read` of a file that is being opened. -/
def readOpen (delay : Nat) (outcome : Except IoError Bytes) (room : Nat) :
    Poll Bytes × DumpedFileStates :=
  match delay with
  | delay + 1 => (.pending, .openFile delay outcome)
  | 0 =>
    match outcome with
    | .ok data => readData data room
    | .error error => (.error error, .eof)

/-- `poll_read`. -/
def pollRead (this : DumpedFileStates) (room : Nat) : Poll Bytes × DumpedFileStates :=
  match this with
  | .waitPermit (permit + 1) delay outcome => (.pending, .waitPermit permit delay outcome)
  | .waitPermit 0 delay outcome => readOpen delay outcome room
  | .openFile delay outcome => readOpen delay outcome room
  | .reading data => readData data room
  | .eof => (.ready [], .eof)

/-- What an outcome gives. -/
def held : Except IoError Bytes → Bytes
  | .ok data => data
  | .error _ => []

/-- The answer of a source behind those that put the caller off. -/
def failure : Except IoError Bytes → List Turn
  | .ok _ => []
  | .error error => [.fail error]

/-- The source that a dumped file is, with reads of at most some size. -/
def source (most : Nat) : DumpedFileStates → Source
  | .waitPermit permit delay outcome =>
    ⟨held outcome, List.replicate (permit + delay) .pending ++ failure outcome, most⟩
  | .openFile delay outcome => ⟨held outcome, List.replicate delay .pending ++ failure outcome, most⟩
  | .reading data => ⟨data, [], most⟩
  | .eof => ⟨[], [], most⟩

/-- Data that has been loaded is read as the source is. -/
theorem readData_source {most room : Nat} (within : room ≤ most + 1) (data : Bytes) :
    ((readData data room).1, (readData data room).2.source most) =
      Source.pollRead ⟨data, [], most⟩ room := by
  have all : min room (most + 1) = room := Nat.min_eq_left within
  rw [readData]
  split
  case isTrue none =>
    subst none
    simp [source, Source.pollRead, Source.give]
  case isFalse =>
    simp only [Source.pollRead, Source.give, all]
    rfl

/-- A file that is being opened is read as the source is. -/
theorem readOpen_source {most room : Nat} (within : room ≤ most + 1) (delay : Nat)
    (outcome : Except IoError Bytes) :
    ((readOpen delay outcome room).1, (readOpen delay outcome room).2.source most) =
      ((openFile delay outcome).source most).pollRead room := by
  cases delay with
  | succ delay => rfl
  | zero =>
    cases outcome with
    | ok data => exact readData_source within data
    | error error => rfl

/-- A dumped file is read as its source is, as long as the room is not too large. -/
theorem pollRead_source {most room : Nat} (within : room ≤ most + 1) (this : DumpedFileStates) :
    ((this.pollRead room).1, (this.pollRead room).2.source most) =
      (this.source most).pollRead room := by
  cases this with
  | waitPermit permit delay outcome =>
    cases permit with
    | zero =>
      have same : (waitPermit 0 delay outcome).source most = (openFile delay outcome).source most := by
        rw [source, source, Nat.zero_add]
      rw [same]
      exact readOpen_source within delay outcome
    | succ permit =>
      rw [source, Nat.add_right_comm, List.replicate_succ]
      rfl
  | openFile delay outcome => exact readOpen_source within delay outcome
  | reading data => exact readData_source within data
  | eof => simp [pollRead, source, Source.pollRead, Source.give]

end DumpedFileStates

/-- The default capacity of a `BufReader`. -/
def bufferSize : Nat := 8192

/-- The reader of a dumped file: a `BufReader` in front of it. -/
def Opening.reader (opening : Opening) : BufReader :=
  .new bufferSize
    ((DumpedFileStates.waitPermit opening.permit opening.delay opening.outcome).source bufferSize)

/-! ## The stream -/

/-- A writer of an archive into a channel. -/
abbrev StreamWriter : Type := NarWriter BufReader ChannelWriter

/-- The background task: every event is sent before the dumper is asked for the next. -/
def streamTask (opened : DumpedFile → Opening) (patience : Nat) :
    Nat → NarDumper → StreamWriter → Poll Unit × StreamWriter
  | 0, _, this => (.pending, this)
  | polls + 1, events, this =>
    match events.pollNext with
    | (.ready (some event), events) =>
      match send patience (event.map fun file => (opened file).reader) this with
      | (.ready _, this) => streamTask opened patience polls events this
      | result => result
    | (.ready none, _) => await NarWriter.pollSettle patience this
    | (.pending, events) => streamTask opened patience polls events this
    | (.error error, _) => (.error error, this)
    | (.panic, _) => (.panic, this)

/-- `CHUNK_SIZE` of the dumper. -/
def dumperChunkSize : Nat := 25

/-- What a `NarByteStream` is made of, and what happens to it. -/
structure StreamRun where
  /-- The path. -/
  root : Path
  /-- What the walk through it yields. -/
  walker : List (Except IoError DirEntry)
  /-- `use_case_hack` of the platform. -/
  useCaseHack : Bool
  /-- How the background tasks of the walk fare. -/
  tasks : List Task
  /-- What reading a file comes to. -/
  opened : DumpedFile → Opening
  /-- The size of a chunk. -/
  chunkSize : Nat
  /-- How the channel answers. -/
  slots : List Slot

namespace StreamRun

/-- The background task of `NarByteStream::with_chunk_size`. -/
def task (this : StreamRun) (patience polls : Nat) : Poll Unit × StreamWriter :=
  streamTask this.opened patience polls
    (NarDumper.new this.root this.walker this.useCaseHack this.tasks dumperChunkSize)
    (NarWriter.new (ChannelWriter.new ⟨this.slots, []⟩ this.chunkSize))

/-- The items of the stream up to its end, if the task is over after so many polls. However it ended,
the sender is gone with it, and what is still in the buffers is lost. -/
def items (this : StreamRun) (patience polls : Nat) : Option (List (Except IoError Bytes)) :=
  match this.task patience polls with
  | (.pending, _) => none
  | (_, writer) => some (writer.writer.sender.sent.map Except.ok)

/-- The stream ends after these items. -/
def Ends (this : StreamRun) (items : List (Except IoError Bytes)) : Prop :=
  ∃ enough, ∀ patience, enough ≤ patience → ∀ polls, enough ≤ polls →
    this.items patience polls = some items

end StreamRun

/-- The bytes of the items of a stream. -/
def joined : List (Except IoError Bytes) → Bytes
  | [] => []
  | .ok chunk :: items => chunk ++ joined items
  | .error _ :: items => joined items

/-- The items of a stream are never errors, and their bytes are those of the chunks. -/
theorem joined_ok (chunks : List Bytes) : joined (chunks.map Except.ok) = chunks.flatten := by
  induction chunks with
  | nil => rfl
  | cons chunk chunks ih => rw [List.map_cons, joined, ih, List.flatten_cons]

/-! ## What an archive of a tree is -/

/-- The contents of the files are what reading them gave, where that did not fail. -/
def Agreeing (opened : DumpedFile → Opening) (contents : DumpedFile → Bytes) : Prop :=
  ∀ file bytes, (opened file).outcome = .ok bytes → contents file = bytes

/-- The order in which a walk goes through a directory, and the names that come of it. -/
def StreamRun.rename (this : StreamRun) : Bytes → Bytes := dumpedName this.useCaseHack

/-- The events of a tree. -/
def StreamRun.events (this : StreamRun) (tree : Node) : List (NarEvent DumpedFile) :=
  treeEvents this.rename this.root [] (tree.sorted this.rename)

/-- Some bytes are the archive of a tree, for some contents of the files that cannot be read. There
is no archive of a tree with sockets, pipes or devices. -/
def StreamRun.Archive (this : StreamRun) (tree : Node) (bytes : Bytes) : Prop :=
  tree.Plain ∧ ∃ contents, Agreeing this.opened contents ∧
    bytes = encode 0 ((this.events tree).map (NarEvent.map contents))

/-- What `walkdir` may yield for a tree: all of its entries, or as many as it comes to before
something fails. Behind the only entry of what is no directory nothing can fail. -/
inductive WalkOf (key : Bytes → Bytes) (root : Path) (tree : Node) :
    List (Except IoError DirEntry) → Prop
  | whole : WalkOf key root tree (tree.walkdir key root)
  | broken {seen rest : List DirEntry} {item : Except IoError DirEntry}
    {more : List (Except IoError DirEntry)} {error : IoError}
    (walk : (tree.sorted key).walk root = seen ++ rest) (fails : Entry.ofItem item = .error error)
    (inside : rest = [] → ∃ entries, tree = .directory entries) :
    WalkOf key root tree (seen.map Except.ok ++ item :: more)

/-- The file of an event can be read. -/
def NarEvent.Opens (opened : DumpedFile → Opening) : NarEvent DumpedFile → Prop
  | .file _ _ _ dumped => ∃ bytes, (opened dumped).outcome = .ok bytes
  | _ => True

/-- Nothing fails: not the walk, nor the metadata of what it comes to, nor the reading of a file. -/
structure StreamRun.Flawless (this : StreamRun) (tree : Node) : Prop where
  /-- Every item of the walk has an entry. -/
  walk : ∀ item ∈ this.walker, ∃ entry, Entry.ofItem item = .ok entry
  /-- Every file can be read. -/
  reads : ∀ event ∈ this.events tree, event.Opens this.opened

/-! ## Readers of dumped files -/

/-- A reader that is put off until it fails. -/
def FileDoomed (reader : BufReader) : Prop :=
  reader.buffer = [] ∧ reader.inner.stream = [] ∧
    ∃ delay error, reader.inner.plan = List.replicate delay .pending ++ [.fail error]

/-- A doomed file gives nothing. -/
theorem file_doom : Doom FileDoomed := by
  constructor
  rintro ⟨capacity, buffer, stream, plan, most⟩ ⟨none, ended, delay, error, turns⟩
  obtain rfl : buffer = [] := none
  obtain rfl : stream = [] := ended
  obtain rfl : plan = _ := turns
  cases delay with
  | zero => exact .inr ⟨error, ⟨capacity, [], [], [], most⟩, rfl⟩
  | succ delay =>
    refine .inl ⟨⟨capacity, [], [], List.replicate delay .pending ++ [.fail error], most⟩, rfl, ?_⟩
    exact ⟨rfl, rfl, delay, error, rfl⟩

/-- The reader of a file is sound. -/
theorem Opening.reader_valid (opening : Opening) : view.Valid opening.reader :=
  (by decide : 0 < bufferSize)

/-- The reader of a file that can be read does not fail, and has its bytes. -/
theorem Opening.reader_reads {opening : Opening} {bytes : Bytes} (reads : opening.outcome = .ok bytes) :
    view.Regular opening.reader ∧ view.unread opening.reader = bytes := by
  obtain ⟨permit, delay, outcome⟩ := opening
  obtain rfl : outcome = .ok bytes := reads
  refine ⟨?_, rfl⟩
  intro turn member
  have pending : turn ∈ List.replicate (permit + delay) Turn.pending := by
    have listed : turn ∈ List.replicate (permit + delay) Turn.pending ++ [] := member
    rwa [List.append_nil] at listed
  rw [(List.mem_replicate.mp pending).2]
  rfl

/-- The reader of a file that cannot be read is put off until it fails. -/
theorem Opening.reader_doomed {opening : Opening} {error : IoError}
    (fails : opening.outcome = .error error) :
    FileDoomed opening.reader ∧ view.unread opening.reader = [] := by
  obtain ⟨permit, delay, outcome⟩ := opening
  obtain rfl : outcome = .error error := fails
  exact ⟨⟨rfl, rfl, permit + delay, error, rfl⟩, rfl⟩

/-! ## Encodings -/

/-- Closing tokens are some bytes. -/
theorem closing_pos (level : Nat) : 0 < (closing level).length := by
  rw [closing, List.length_append]
  exact Nat.lt_of_lt_of_le (by decide : 0 < tokPar.length) (Nat.le_add_right _ _)

/-- An event is some bytes. -/
theorem encodeEvent_pos (level : Nat) (event : NarEvent Bytes) :
    0 < (encodeEvent level event).length := by
  cases event with
  | file name executable size contents =>
    have closes := closing_pos level
    simp only [encodeEvent, List.length_append]
    omega
  | symlink name target =>
    have closes := closing_pos level
    simp only [encodeEvent, List.length_append]
    omega
  | startDirectory name =>
    have opens : 0 < tokDir.length := by decide
    simp only [encodeEvent, List.length_append]
    omega
  | endDirectory =>
    have closes := closing_pos (level - 1)
    simp only [encodeEvent, List.length_append]
    omega

/-- Contents take room in an encoding. -/
theorem encodeEvent_le (level : Nat) (name : Bytes) (executable : Bool) (size : UInt64)
    (contents : Bytes) :
    (encodeEvent level (.file name executable size [])).length ≤
      (encodeEvent level (.file name executable size contents)).length := by
  simp only [encodeEvent, List.length_append, List.length_nil]
  omega

/-- The open directories behind some events. -/
def levelBehind {C : Type} : Nat → List (NarEvent C) → Nat
  | level, [] => level
  | level, event :: events => levelBehind (event.levelAfter level) events

/-- An encoding in two parts. -/
theorem encode_append (level : Nat) (left right : List (NarEvent Bytes)) :
    encode level (left ++ right) = encode level left ++ encode (levelBehind level left) right := by
  induction left generalizing level with
  | nil => rfl
  | cons event left ih => rw [List.cons_append, encode, encode, ih, List.append_assoc, levelBehind]

/-- The beginning of some events is encoded in fewer bytes. -/
theorem encode_short (level : Nat) (left : List (NarEvent Bytes)) {right : List (NarEvent Bytes)}
    (some : right ≠ []) : (encode level left).length < (encode level (left ++ right)).length := by
  cases right with
  | nil => exact absurd rfl some
  | cons event right =>
    have more := encodeEvent_pos (levelBehind level left) event
    rw [encode_append, encode, List.length_append, List.length_append]
    omega

/-! ## Sending the events of a tree -/

section Events

variable {opened : DumpedFile → Opening} {contents : DumpedFile → Bytes}

/-- An event with the reader of its file. -/
def NarEvent.opening (opened : DumpedFile → Opening) (event : NarEvent DumpedFile) :
    NarEvent BufReader :=
  event.map fun file => (opened file).reader

/-- The answers that the readers of some events still give. -/
def patienceOf (opened : DumpedFile → Opening) (events : List (NarEvent DumpedFile)) : Nat :=
  (events.map fun event => (event.opening opened).patience).sum

/-- The reader of an event that opens does not fail, and has the contents. -/
theorem NarEvent.Opens.reads {event : NarEvent DumpedFile} (opens : event.Opens opened)
    (agreeing : Agreeing opened contents) :
    (event.opening opened).Regular ∧ (event.opening opened).contents = event.map contents := by
  cases event with
  | file name executable size dumped =>
    obtain ⟨bytes, reads⟩ := opens
    obtain ⟨regular, unread⟩ := Opening.reader_reads reads
    refine ⟨regular, ?_⟩
    show NarEvent.file name executable size (view.unread (opened dumped).reader) =
      .file name executable size (contents dumped)
    rw [unread, agreeing dumped bytes reads]
  | _ => exact ⟨trivial, rfl⟩

/-- The reader of any event is sound. -/
theorem NarEvent.opening_valid (event : NarEvent DumpedFile) : (event.opening opened).Valid := by
  cases event with
  | file name executable size dumped => exact Opening.reader_valid _
  | _ => trivial

/-- Sending events that all open delivers their encoding. -/
theorem sendEvents_delivers (agreeing : Agreeing opened contents) {patience : Nat}
    {events : List (NarEvent DumpedFile)} {this : StreamWriter} (idle : this.Idle)
    (opens : ∀ event ∈ events, event.Opens opened) (nested : Nested this.level events)
    (enough : turns this.writer + patienceOf opened events < patience) :
    ∃ next, sendEvents patience (events.map (NarEvent.opening opened)) this = (.ready (), next) ∧
      next.Idle ∧ written next.writer =
        written this.writer ++ encode this.level (events.map (NarEvent.map contents)) ∧
      turns next.writer ≤ turns this.writer + patienceOf opened events ∧
      (events ≠ [] → ∃ before, pollFlush before = (.ready (), next.writer)) := by
  induction events generalizing this with
  | nil =>
    exact ⟨this, rfl, idle, (List.append_nil _).symm, Nat.le_refl _, fun some => absurd rfl some⟩
  | cons event events ih =>
    obtain ⟨first, others⟩ := List.forall_mem_cons.mp opens
    obtain ⟨regular, same⟩ := first.reads agreeing
    obtain ⟨inside, nested'⟩ := nested.cons
    have total : patienceOf opened (event :: events) =
        (event.opening opened).patience + patienceOf opened events := rfl
    have inside' : event.opening opened = .endDirectory → 0 < this.level := by
      intro closes
      apply inside
      cases event <;> first | rfl | cases closes
    obtain ⟨next, sent, idle', level, taken, spent, flushed⟩ :=
      send_delivers idle (NarEvent.opening_valid event) regular inside'
        (by omega : turns this.writer + (event.opening opened).patience < patience)
    have after : (event.opening opened).levelAfter this.level = event.levelAfter this.level := by
      cases event <;> rfl
    have enough' : turns next.writer + patienceOf opened events < patience := by omega
    obtain ⟨last, sent', idle'', taken', spent', flushed'⟩ :=
      ih idle' others (by rw [level, after]; exact nested') enough'
    refine ⟨last, ?_, idle'', ?_, by omega, ?_⟩
    · rw [List.map_cons, sendEvents, sent]
      exact sent'
    · have level' : next.level = (event.map contents).levelAfter this.level := by
        rw [level]
        cases event <;> rfl
      rw [taken', taken, same, level', List.map_cons, encode, List.append_assoc]
    · intro _
      cases events with
      | nil =>
        cases sent'
        exact flushed
      | cons other events => exact flushed' (List.cons_ne_nil _ _)

/-- Sending events of which one does not open fails, short of their encoding. -/
theorem sendEvents_fails (agreeing : Agreeing opened contents) {patience : Nat}
    {events : List (NarEvent DumpedFile)} {this : StreamWriter} (idle : this.Idle)
    (closed : ¬ ∀ event ∈ events, event.Opens opened) (nested : Nested this.level events)
    (enough : turns this.writer + patienceOf opened events < patience) :
    ∃ error next,
      sendEvents patience (events.map (NarEvent.opening opened)) this = (.error error, next) ∧
      (written next.writer).length < (written this.writer ++
        encode this.level (events.map (NarEvent.map contents))).length := by
  induction events generalizing this with
  | nil => exact absurd (fun _ member => absurd member List.not_mem_nil) closed
  | cons event events ih =>
    have total : patienceOf opened (event :: events) =
        (event.opening opened).patience + patienceOf opened events := rfl
    by_cases first : event.Opens opened
    · have others : ¬ ∀ event ∈ events, event.Opens opened :=
        fun all => closed (List.forall_mem_cons.mpr ⟨first, all⟩)
      obtain ⟨regular, same⟩ := first.reads agreeing
      obtain ⟨inside, nested'⟩ := nested.cons
      have inside' : event.opening opened = .endDirectory → 0 < this.level := by
        intro closes
        apply inside
        cases event <;> first | rfl | cases closes
      obtain ⟨next, sent, idle', level, taken, spent, _⟩ :=
        send_delivers idle (NarEvent.opening_valid event) regular inside'
        (by omega : turns this.writer + (event.opening opened).patience < patience)
      have after : (event.opening opened).levelAfter this.level = event.levelAfter this.level := by
        cases event <;> rfl
      have enough' : turns next.writer + patienceOf opened events < patience := by omega
      obtain ⟨error, last, sent', short⟩ :=
        ih idle' others (by rw [level, after]; exact nested') enough'
      have level' : next.level = (event.map contents).levelAfter this.level := by
        rw [level]
        cases event <;> rfl
      refine ⟨error, last, ?_, ?_⟩
      · rw [List.map_cons, sendEvents, sent]
        exact sent'
      · rw [taken, same, level', List.append_assoc] at short
        exact short
    · cases event with
      | file name executable size dumped =>
        have unreadable : ∃ error, (opened dumped).outcome = .error error := by
          cases outcome : (opened dumped).outcome with
          | ok bytes => exact absurd ⟨bytes, outcome⟩ first
          | error error => exact ⟨error, rfl⟩
        obtain ⟨error, fails⟩ := unreadable
        obtain ⟨doomed, none⟩ := Opening.reader_doomed fails
        have spent : (NarEvent.opening opened (.file name executable size dumped)).patience =
            budget (opened dumped).reader := rfl
        obtain ⟨error, next, sent, short⟩ := @send_fails BufReader ChannelWriter _ _ _ _ _ _ _
          file_doom patience name executable size _ this idle (Opening.reader_valid _) doomed
          (by omega)
        refine ⟨error, next, ?_, ?_⟩
        · have sent' : send patience (NarEvent.opening opened (.file name executable size dumped)) this =
              (.error error, next) := sent
          rw [List.map_cons, sendEvents, sent']
        · rw [none] at short
          have room := encodeEvent_le this.level name executable size (contents dumped)
          refine Nat.lt_of_lt_of_le short ?_
          show _ ≤ (written this.writer ++ (encodeEvent this.level
            (.file name executable size (contents dumped)) ++ _)).length
          simp only [List.length_append] at room ⊢
          omega
      | symlink name target => exact absurd trivial first
      | startDirectory name => exact absurd trivial first
      | endDirectory => exact absurd trivial first

end Events

/-! ## The events that are dumped -/

namespace Cursor

/-- No directory is closed that is not open. -/
theorem Yields.nested {this last : Cursor} {events : List (NarEvent DumpedFile)}
    (yields : Yields this events last) : Nested this.level events := by
  induction yields with
  | refl => exact trivial
  | @step this next last event events stepped later ih =>
    -- A step that gives an event leaves a directory or emits an entry.
    have left {cursor : Cursor} (leaves : cursor.leave = (.ready (some event), next)) :
        Nested cursor.level (event :: events) := by
      rw [leave] at leaves
      split at leaves
      case isTrue => cases leaves
      case isFalse positive =>
        cases leaves
        exact ⟨Nat.pos_of_ne_zero positive, ih⟩
    have emitted {cursor : Cursor} {entry : Entry} (emits : cursor.emit entry = (.ready (some event), next)) :
        Nested cursor.level (event :: events) := by
      rw [emit] at emits
      split at emits
      case h_1 => cases emits
      case h_2 =>
        cases entry with
        | directory path =>
          cases emits
          exact ih
        | file path size executable =>
          cases emits
          exact ih
        | symlink path target =>
          cases emits
          exact ih
    rw [Cursor.step] at stepped
    split at stepped
    case h_1 =>
      split at stepped
      case isTrue => exact left stepped
      case isFalse => cases stepped
    case h_2 => cases stepped
    case h_3 entry rest _ =>
      split at stepped
      case isTrue => exact @emitted { this with rest := rest } entry stepped
      case isFalse => exact left stepped

/-- What a step of a cursor with an entry in front of it depends on. -/
theorem step_front {dir : Path} {level : Nat} {useCaseHack : Bool} {entry : Entry}
    {rest : List (Except IoError Entry)} {event : NarEvent DumpedFile} {next : Cursor}
    (stepped : step ⟨dir, level, useCaseHack, .ok entry :: rest⟩ = (.ready (some event), next)) :
    (next.rest = rest ∧ event ≠ .endDirectory ∧ ∀ other,
        step ⟨dir, level, useCaseHack, .ok entry :: other⟩ =
          (.ready (some event), { next with rest := other })) ∨
      (next.rest = .ok entry :: rest ∧ ∀ other,
        step ⟨dir, level, useCaseHack, .ok entry :: other⟩ =
          (.ready (some event), { next with rest := .ok entry :: other })) := by
  rw [step] at stepped
  dsimp only at stepped
  split at stepped
  case isTrue below =>
    left
    have emits (other : List (Except IoError Entry)) :
        step ⟨dir, level, useCaseHack, .ok entry :: other⟩ = emit ⟨dir, level, useCaseHack, other⟩ entry :=
      step_emit entry below
    rw [emit] at stepped
    simp only [emits, emit]
    cases named : entry.name useCaseHack level with
    | none =>
      rw [named] at stepped
      cases stepped
    | some name =>
      rw [named] at stepped
      cases entry with
      | directory path =>
        cases stepped
        exact ⟨rfl, (by rintro ⟨⟩), fun _ => rfl⟩
      | file path size executable =>
        cases stepped
        exact ⟨rfl, (by rintro ⟨⟩), fun _ => rfl⟩
      | symlink path target =>
        cases stepped
        exact ⟨rfl, (by rintro ⟨⟩), fun _ => rfl⟩
  case isFalse outside =>
    right
    have leaves (other : List (Except IoError Entry)) :
        step ⟨dir, level, useCaseHack, .ok entry :: other⟩ =
          leave ⟨dir, level, useCaseHack, .ok entry :: other⟩ := by
      rw [step]
      exact if_neg outside
    rw [leave] at stepped
    simp only [leaves, leave]
    dsimp only at stepped
    split at stepped
    case isTrue => cases stepped
    case isFalse positive =>
      cases stepped
      exact ⟨rfl, fun _ => if_neg positive⟩

/-- A run through some entries and what is behind them, cut where the first entries have been emitted:
up to there it does not depend on what is behind. -/
theorem Yields.cut {this last : Cursor} {events : List (NarEvent DumpedFile)}
    {seen : List Entry} {rest : List (Except IoError Entry)} (yields : Yields this events last)
    (entries : this.rest = seen.map Except.ok ++ rest) (ended : last.rest = []) :
    ∃ before after, ∃ middle : Cursor, events = before ++ after ∧ (rest ≠ [] → after ≠ []) ∧
      (seen ≠ [] → before ≠ []) ∧ (∀ front, before ≠ front ++ [.endDirectory]) ∧ ∀ other,
        Yields { this with rest := seen.map Except.ok ++ other } before { middle with rest := other } := by
  have nothing {front : List (NarEvent DumpedFile)} : [] ≠ front ++ [NarEvent.endDirectory] :=
    fun same => List.append_ne_nil_of_right_ne_nil _ (List.cons_ne_nil _ _) same.symm
  induction yields generalizing seen with
  | refl this =>
    rw [entries] at ended
    obtain ⟨none, rfl⟩ := List.append_eq_nil_iff.mp ended
    obtain rfl : seen = [] := List.map_eq_nil_iff.mp none
    exact ⟨[], [], this, rfl, fun some => absurd rfl some, fun some => absurd rfl some,
      fun _ => nothing, fun other => .refl _⟩
  | @step this next last event events stepped later ih =>
    cases seen with
    | nil =>
      exact ⟨[], event :: events, this, rfl, fun _ => List.cons_ne_nil _ _,
        fun some => absurd rfl some, fun _ => nothing, fun other => .refl _⟩
    | cons entry seen =>
      obtain ⟨dir, level, useCaseHack, whole⟩ := this
      have front : whole = .ok entry :: (seen.map Except.ok ++ rest) := entries
      subst front
      rcases step_front stepped with ⟨popped, notEnd, same⟩ | ⟨still, same⟩
      · obtain ⟨before, after, middle, rfl, some, _, final, begins⟩ := ih popped ended
        refine ⟨event :: before, after, middle, rfl, some, fun _ => List.cons_ne_nil _ _, ?_, ?_⟩
        · intro front
          cases front with
          | nil =>
            intro equal
            exact notEnd (List.cons.inj equal).1
          | cons first front =>
            intro equal
            exact final front (List.cons.inj equal).2
        · exact fun other => .step (same _) (begins other)
      · obtain ⟨before, after, middle, rfl, some, emits, final, begins⟩ :=
          @ih (entry :: seen) still ended
        refine ⟨event :: before, after, middle, rfl, some, fun _ => List.cons_ne_nil _ _, ?_, ?_⟩
        · intro front
          cases front with
          | nil =>
            -- A directory is left only to emit an entry.
            intro equal
            exact emits (List.cons_ne_nil _ _) (List.cons.inj equal).2
          | cons first front =>
            intro equal
            exact final front (List.cons.inj equal).2
        · exact fun other => .step (same _) (begins other)

/-- A step gives an event, or it is the last. -/
def Stops (answer : Poll (Option (NarEvent DumpedFile))) : Prop :=
  answer ≠ .pending ∧ ∀ event, answer ≠ .ready (some event)

/-- Entries and open directories still to go through. -/
def remaining (this : Cursor) : Nat := 2 * this.rest.length + this.level

/-- A step that gives an event leaves less to go through. -/
theorem step_less {this next : Cursor} {event : NarEvent DumpedFile}
    (stepped : this.step = (.ready (some event), next)) : next.remaining < this.remaining := by
  obtain ⟨dir, level, useCaseHack, rest⟩ := this
  have left {rest : List (Except IoError Entry)}
      (leaves : leave ⟨dir, level, useCaseHack, rest⟩ = (.ready (some event), next)) :
      next.remaining < remaining ⟨dir, level, useCaseHack, rest⟩ := by
    rw [leave] at leaves
    dsimp only at leaves
    split at leaves
    case isTrue => cases leaves
    case isFalse positive =>
      cases leaves
      show 2 * rest.length + (level - 1) < 2 * rest.length + level
      omega
  rw [step] at stepped
  dsimp only at stepped
  split at stepped
  case h_1 =>
    split at stepped
    case isTrue => exact left stepped
    case isFalse => cases stepped
  case h_2 => cases stepped
  case h_3 entry rest =>
    split at stepped
    case isFalse => exact left stepped
    case isTrue =>
      rw [emit] at stepped
      dsimp only at stepped
      split at stepped
      case h_1 => cases stepped
      case h_2 name named =>
        cases entry with
        | directory path =>
          cases stepped
          show 2 * rest.length + (level + 1) < 2 * (rest.length + 1) + level
          omega
        | file path size executable =>
          cases stepped
          show 2 * rest.length + level < 2 * (rest.length + 1) + level
          omega
        | symlink path target =>
          cases stepped
          show 2 * rest.length + level < 2 * (rest.length + 1) + level
          omega

/-- A step is never put off. -/
theorem step_answers (this : Cursor) : this.step.1 ≠ .pending := by
  rw [step]
  split
  case h_1 =>
    split
    case isTrue =>
      rw [leave]
      split <;> rintro ⟨⟩
    case isFalse => rintro ⟨⟩
  case h_2 => rintro ⟨⟩
  case h_3 entry rest _ =>
    split
    case isTrue =>
      rw [emit]
      split
      case h_1 => rintro ⟨⟩
      case h_2 => cases entry <;> rintro ⟨⟩
    case isFalse =>
      rw [leave]
      split <;> rintro ⟨⟩

/-- A cursor comes to a last step. -/
theorem comes_to_stop (this : Cursor) :
    ∃ events last answer next, Yields this events last ∧ last.step = (answer, next) ∧ Stops answer := by
  induction measured : this.remaining using Nat.strongRecOn generalizing this with
  | _ remaining ih =>
    have answered := this.step_answers
    generalize stepped : this.step = result at answered
    obtain ⟨answer, next⟩ := result
    by_cases more : ∃ event, answer = .ready (some event)
    · obtain ⟨event, rfl⟩ := more
      obtain ⟨events, last, answer, final, yields, stopped, stops⟩ :=
        ih next.remaining (measured ▸ step_less stepped) next rfl
      exact ⟨event :: events, last, answer, final, .step stepped yields, stopped, stops⟩
    · exact ⟨[], this, answer, next, .refl _, stepped, answered, fun event same => more ⟨event, same⟩⟩

end Cursor

/-- How a dump ends with an answer. -/
def Poll.ended {α : Type} : Poll (Option α) → Poll Unit
  | .ready _ => .ready ()
  | .pending => .pending
  | .error error => .error error
  | .panic => .panic

/-- The events up to the last step are collected, after enough polls. -/
theorem NarDumper.collect_stops {this : NarDumper} (sound : this.Sound) {last next : Cursor}
    {events : List (NarEvent DumpedFile)} {answer : Poll (Option (NarEvent DumpedFile))}
    (yields : Cursor.Yields this.cursor events last) (stopped : last.step = (answer, next))
    (stops : Cursor.Stops answer) :
    ∃ enough final, ∀ polls, enough ≤ polls →
      collect polls this = (events, Poll.ended answer, final) := by
  obtain ⟨polls, before, same, sound', collects⟩ := collect_yields sound yields
  obtain ⟨polls', waiting, answer', final, answered, stepped, _, collects'⟩ := collect_waits sound'
  rw [same, stopped] at stepped
  obtain ⟨rfl, finals⟩ := Prod.mk.inj stepped
  refine ⟨polls + (polls' + 1), final, ?_⟩
  intro total enough
  obtain ⟨more, rfl⟩ := Nat.exists_eq_add_of_le enough
  have last' : collect (polls' + 1 + more) before = ([], Poll.ended answer, final) := by
    rw [Nat.add_assoc, collects', Nat.add_comm 1 more, collect, answered]
    cases answer with
    | ready item =>
      cases item with
      | none => rfl
      | some event => exact absurd rfl (stops.2 event)
    | pending => exact absurd rfl stops.1
    | error error => rfl
    | panic => rfl
  rw [Nat.add_assoc, collects, last', List.append_nil]

/-- How the background task ends once all events have been sent. -/
def concluded (patience : Nat) (result : Poll Unit) (this : StreamWriter) : Poll Unit × StreamWriter :=
  match result with
  | .ready _ => await NarWriter.pollSettle patience this
  | _ => (result, this)

/-- The background task sends what the dumper yields. -/
theorem streamTask_collect (opened : DumpedFile → Opening) (patience polls : Nat) (dumper : NarDumper)
    (this : StreamWriter) :
    streamTask opened patience polls dumper this =
      match sendEvents patience ((dumper.collect polls).1.map (NarEvent.opening opened)) this with
      | (.ready _, next) => concluded patience (dumper.collect polls).2.1 next
      | result => result := by
  induction polls generalizing dumper this with
  | zero => rfl
  | succ polls ih =>
    rw [streamTask, NarDumper.collect]
    generalize dumper.pollNext = result
    obtain ⟨answer, next⟩ := result
    cases answer with
    | ready item =>
      cases item with
      | none => rfl
      | some event =>
        simp only [List.map_cons, sendEvents]
        show (match send patience (event.opening opened) this with
          | (.ready _, this) => streamTask opened patience polls next this
          | result => result) = _
        generalize send patience (event.opening opened) this = result
        obtain ⟨answer, sent⟩ := result
        cases answer with
        | ready _ => exact ih next sent
        | _ => rfl
    | pending => exact ih next this
    | error error => rfl
    | panic => rfl

mutual

/-- The walk through a plain node comes to entries only. -/
theorem walked_plain (path : Path) : ∀ {node : Node}, node.Plain →
    ∃ entries : List Entry, walked (node.walk path) = entries.map Except.ok
  | .file _ _, _ => ⟨[_], rfl⟩
  | .symlink _, _ => ⟨[_], rfl⟩
  | .special _, plain => plain.elim
  | .directory _, plain => by
    obtain ⟨entries, inside⟩ := walked_entries_plain path plain
    refine ⟨.directory path :: entries, ?_⟩
    rw [Node.walk]
    show .ok (.directory path) :: walked _ = _
    rw [inside, List.map_cons]

/-- The walk through plain entries comes to entries only. -/
theorem walked_entries_plain (path : Path) : ∀ {entries : Entries}, entries.Plain →
    ∃ listed : List Entry, walked (entries.walk path) = listed.map Except.ok
  | .nil, _ => ⟨[], rfl⟩
  | .cons name _ _, plain => by
    obtain ⟨first, walked_first⟩ := walked_plain (path.join name) plain.1
    obtain ⟨others, walked_others⟩ := walked_entries_plain path plain.2
    exact ⟨first ++ others, by rw [Entries.walk, walked_append, walked_first, walked_others,
      List.map_append]⟩

end

mutual

/-- A node is plain if the walk through it comes to entries only. -/
theorem plain_of_walked (path : Path) : ∀ {node : Node},
    (∀ item ∈ walked (node.walk path), ∃ entry, item = .ok entry) → node.Plain
  | .file _ _, _ => trivial
  | .symlink _, _ => trivial
  | .special _, all => by
    obtain ⟨entry, same⟩ := all _ List.mem_cons_self
    cases same
  | .directory _, all => plain_of_walked_entries path fun item member => all item (.tail _ member)

/-- Entries are plain if the walk through them comes to entries only. -/
theorem plain_of_walked_entries (path : Path) : ∀ {entries : Entries},
    (∀ item ∈ walked (entries.walk path), ∃ entry, item = .ok entry) → entries.Plain
  | .nil, _ => trivial
  | .cons name node entries, all => by
    rw [Entries.walk, walked_append] at all
    exact ⟨plain_of_walked (path.join name) fun item member => all item (List.mem_append_left _ member),
      plain_of_walked_entries path fun item member => all item (List.mem_append_right _ member)⟩

end

/-- The events of a directory end with its end. -/
theorem treeEvents_directory (rename : Bytes → Bytes) (path : Path) (name : Bytes) (entries : Entries) :
    ∃ front, treeEvents rename path name (.directory entries) = front ++ [.endDirectory] :=
  ⟨.startDirectory name :: entriesEvents rename path entries, by rw [treeEvents, List.cons_append]⟩

/-! ## Whole or not -/

namespace StreamRun

/-- The dumper of a run. -/
def dumper (this : StreamRun) : NarDumper :=
  NarDumper.new this.root this.walker this.useCaseHack this.tasks dumperChunkSize

/-- The writer of a run, at the beginning. -/
def begin (this : StreamRun) : StreamWriter :=
  NarWriter.new (ChannelWriter.new ⟨this.slots, []⟩ this.chunkSize)

/-- What a run relies on: no background task of the walk is lost, chunks are not empty, and the
receiver is there until the stream has ended. -/
structure Fair (this : StreamRun) : Prop where
  /-- No task is lost. -/
  kept : ∀ task ∈ this.tasks, task.Kept
  /-- Chunks are not empty. -/
  positive : 0 < this.chunkSize
  /-- The receiver is there. -/
  received : .closed ∉ this.slots

/-- A stream ends in one way. -/
theorem Ends.unique {this : StreamRun} {left right : List (Except IoError Bytes)}
    (one : this.Ends left) (other : this.Ends right) : left = right := by
  obtain ⟨enough, ends⟩ := one
  obtain ⟨enough', ends'⟩ := other
  have first := ends (max enough enough') (Nat.le_max_left _ _) (max enough enough') (Nat.le_max_left _ _)
  have second :=
    ends' (max enough enough') (Nat.le_max_right _ _) (max enough enough') (Nat.le_max_right _ _)
  exact Option.some.inj (first.symm.trans second)

section Run

variable {this : StreamRun} {contents : DumpedFile → Bytes}

/-- The dumper of a run is sound. -/
theorem Fair.dumper (fair : this.Fair) : this.dumper.Sound :=
  ⟨(by decide : 0 < dumperChunkSize), fair.kept, trivial⟩

/-- The writer of a run is idle. -/
theorem Fair.idle (fair : this.Fair) : this.begin.Idle :=
  NarWriter.new_idle (R := BufReader) (W := ChannelWriter) ⟨fair.received, fair.positive⟩

/-- The items of a stream whose task is over. -/
theorem ends_of {chunks : List Bytes} {enough : Nat} {next : StreamWriter} {answer : Poll Unit}
    (tasks : ∀ patience, enough ≤ patience → ∀ polls, enough ≤ polls →
      this.task patience polls = (answer, next))
    (settled : answer ≠ .pending) (sent : next.writer.sender.sent = chunks) :
    this.Ends (chunks.map Except.ok) := by
  refine ⟨enough, ?_⟩
  intro patience large polls many
  rw [items, tasks patience large polls many, ← sent]
  cases answer with
  | pending => exact absurd rfl settled
  | _ => rfl

/-- The task of a run, once the dumper has come to its last step. -/
theorem task_eq {patience polls : Nat} {events : List (NarEvent DumpedFile)} {result : Poll Unit}
    {final : NarDumper} (collected : this.dumper.collect polls = (events, result, final)) :
    this.task patience polls =
      match sendEvents patience (events.map (NarEvent.opening this.opened)) this.begin with
      | (.ready _, next) => concluded patience result next
      | result => result := by
  have task := streamTask_collect this.opened patience polls this.dumper this.begin
  rw [collected] at task
  exact task

/-- When all events of a dump have been sent and the dump ends without an error, the chunks are their
encoding. -/
theorem ends_whole (fair : this.Fair) (agreeing : Agreeing this.opened contents)
    {last next : Cursor} {events : List (NarEvent DumpedFile)}
    (yields : Cursor.Yields this.dumper.cursor events last) (done : last.step = (.ready none, next))
    (opens : ∀ event ∈ events, event.Opens this.opened) :
    ∃ chunks : List Bytes, this.Ends (chunks.map Except.ok) ∧
      chunks.flatten = encode 0 (events.map (NarEvent.map contents)) := by
  obtain ⟨enough, final, collects⟩ :=
    NarDumper.collect_stops fair.dumper yields done ⟨nofun, nofun⟩
  have nested : Nested this.begin.level events := yields.nested
  obtain ⟨sent, sends, idle, taken, spent, _⟩ := sendEvents_delivers agreeing fair.idle opens nested
    (Nat.lt_succ_self (turns this.begin.writer + patienceOf this.opened events))
  obtain ⟨before, after, awaited, sound, answer, keeps, free, rests, _⟩ :=
    NarWriter.await_ready (fun sound => (NarWriter.pollSettle_readies sound).1)
      (turns this.begin.writer + patienceOf this.opened events + 1) idle.sound idle.steady
      (by rw [idle.patience]; omega)
  obtain ⟨none, flushing, flushed⟩ := (NarWriter.pollSettle_readies sound).2 after answer
  have idle' : after.Idle := ⟨keeps.sound, free, rests, none⟩
  have joined := keeps.joined
  rw [idle.outstanding, idle'.outstanding, List.append_nil, List.append_nil, taken] at joined
  have whole : after.writer.sender.sent.flatten = encode 0 (events.map (NarEvent.map contents)) := by
    rw [ChannelWriter.flushed_sent flushed]
    exact joined
  refine ⟨_, @ends_of this _ (max enough (turns this.begin.writer +
    patienceOf this.opened events + 1)) after (.ready ()) ?_ nofun rfl, whole⟩
  intro patience large polls many
  have large' := Nat.le_trans (Nat.le_max_right _ _) large
  rw [task_eq (collects polls (Nat.le_trans (Nat.le_max_left _ _) many)),
    sendEvents_more sends nofun large']
  exact await_more awaited nofun large'

/-- In any case the stream ends. Where a file cannot be read, or the dump ends with an error, the
chunks are no more than the encoding of the events of the dump, and less in the first case. -/
theorem ends_short (fair : this.Fair) (agreeing : Agreeing this.opened contents)
    {last next : Cursor} {events : List (NarEvent DumpedFile)}
    {answer : Poll (Option (NarEvent DumpedFile))}
    (yields : Cursor.Yields this.dumper.cursor events last) (stopped : last.step = (answer, next))
    (stops : Cursor.Stops answer)
    (flawed : answer = .ready none → ¬ ∀ event ∈ events, event.Opens this.opened) :
    ∃ chunks : List Bytes, this.Ends (chunks.map Except.ok) ∧
      chunks.flatten.length ≤ (encode 0 (events.map (NarEvent.map contents))).length ∧
      ((¬ ∀ event ∈ events, event.Opens this.opened) →
        chunks.flatten.length < (encode 0 (events.map (NarEvent.map contents))).length) := by
  obtain ⟨enough, final, collects⟩ := NarDumper.collect_stops fair.dumper yields stopped stops
  have nested : Nested this.begin.level events := yields.nested
  by_cases opens : ∀ event ∈ events, event.Opens this.opened
  · obtain ⟨sent, sends, idle, taken, _, _⟩ := sendEvents_delivers agreeing fair.idle opens nested
      (Nat.lt_succ_self (turns this.begin.writer + patienceOf this.opened events))
    -- The task returns without closing the writer.
    have returns (patience : Nat) :
        concluded patience (Poll.ended answer) sent = (Poll.ended answer, sent) := by
      cases answer with
      | ready item =>
        cases item with
        | none => exact absurd opens (flawed rfl)
        | some event => exact absurd rfl (stops.2 event)
      | _ => rfl
    have settled : Poll.ended answer ≠ .pending := by
      have answered := stops.1
      cases answer with
      | pending => exact absurd rfl answered
      | _ => exact nofun
    refine ⟨_, @ends_of this _ (max enough (turns this.begin.writer +
      patienceOf this.opened events + 1)) sent (Poll.ended answer) ?_ settled rfl, ?_,
      fun closed => absurd opens closed⟩
    · intro patience large polls many
      rw [task_eq (collects polls (Nat.le_trans (Nat.le_max_left _ _) many)),
        sendEvents_more sends nofun (Nat.le_trans (Nat.le_max_right _ _) large)]
      exact returns patience
    · have less := sent.writer.sent_le_taken
      have same : sent.writer.taken = encode 0 (events.map (NarEvent.map contents)) := taken
      rwa [same] at less
  · obtain ⟨error, sent, sends, short⟩ := sendEvents_fails agreeing fair.idle opens nested
      (Nat.lt_succ_self (turns this.begin.writer + patienceOf this.opened events))
    have less : sent.writer.sender.sent.flatten.length <
        (encode 0 (events.map (NarEvent.map contents))).length :=
      Nat.lt_of_le_of_lt sent.writer.sent_le_taken short
    refine ⟨_, @ends_of this _ (max enough (turns this.begin.writer +
      patienceOf this.opened events + 1)) sent (.error error) ?_ nofun rfl,
      Nat.le_of_lt less, fun _ => less⟩
    intro patience large polls many
    rw [task_eq (collects polls (Nat.le_trans (Nat.le_max_left _ _) many)),
      sendEvents_more sends nofun (Nat.le_trans (Nat.le_max_right _ _) large)]

/-- A plain tree that is walked to the end is dumped whole. -/
theorem yields_whole {tree : Node} (legal : tree.Legal) (plain : tree.Plain)
    (whole : this.walker = tree.walkdir this.rename this.root) :
    Cursor.Yields this.dumper.cursor (this.events tree)
      ⟨Cursor.resting this.root (tree.sorted this.rename), 0, this.useCaseHack, []⟩ := by
  have start : this.dumper.cursor =
      ⟨this.root, 0, this.useCaseHack, walked ((tree.sorted this.rename).walk this.root)⟩ := by
    rw [dumper, whole]
    exact NarDumper.new_cursor _ _ _ _ _ _
  rw [start]
  exact Cursor.yields_root this.root this.useCaseHack (Node.sorted_legal legal)
    (Node.sorted_plain.mpr plain)

/-- A plain tree whose walk fails is dumped up to there, which is not the whole. -/
theorem yields_broken {tree : Node} (legal : tree.Legal) (plain : tree.Plain) {seen rest : List DirEntry}
    {item : Except IoError DirEntry} {more : List (Except IoError DirEntry)} {error : IoError}
    (walk : (tree.sorted this.rename).walk this.root = seen ++ rest)
    (fails : Entry.ofItem item = .error error)
    (inside : rest = [] → ∃ entries, tree = .directory entries)
    (broken : this.walker = seen.map Except.ok ++ item :: more) :
    ∃ before after last next, this.events tree = before ++ after ∧ after ≠ [] ∧
      Cursor.Yields this.dumper.cursor before last ∧ last.step = (.error error, next) := by
  have yields := Cursor.yields_root this.root this.useCaseHack
    (@Node.sorted_legal this.rename tree legal) (Node.sorted_plain.mpr plain)
  obtain ⟨entries, listed⟩ :=
    walked_plain this.root (@Node.sorted_plain this.rename tree |>.mpr plain)
  have listed' := listed
  rw [walk, walked_append] at listed'
  obtain ⟨first, others, rfl, begins, _⟩ := List.append_eq_map_iff.mp listed'
  obtain ⟨before, after, middle, events, some, _, final, cuts⟩ :=
    @Cursor.Yields.cut _ _ _ first (walked rest) yields (by rw [walk, walked_append, begins]) rfl
  refine ⟨before, after, { middle with rest := .error error :: more.map Entry.ofItem },
    { middle with rest := more.map Entry.ofItem }, events, ?_, ?_, Cursor.step_error rfl⟩
  · intro none
    by_cases last : rest = []
    · obtain ⟨entries', rfl⟩ := inside last
      obtain ⟨front, ends⟩ := treeEvents_directory this.rename this.root [] (entries'.sorted this.rename)
      rw [none, List.append_nil] at events
      exact final front (events.symm.trans ends)
    · apply some _ none
      intro empty
      exact last (List.map_eq_nil_iff.mp empty)
  · have start : this.dumper.cursor = ⟨this.root, 0, this.useCaseHack,
        first.map Except.ok ++ .error error :: more.map Entry.ofItem⟩ := by
      rw [dumper, broken, begins]
      simp [NarDumper.new, NarDumper.cursor, WalkState.rest, walked, fails, Function.comp_def]
    rw [start]
    exact cuts _

end Run

/-- If a stream ends without an error, its bytes are the archive of the tree. -/
def Honest (this : StreamRun) (tree : Node) : Prop :=
  ∀ items, this.Ends items → (∀ item ∈ items, ∃ chunk, item = .ok chunk) →
    this.Archive tree (joined items)

/-- The contents that reading the files gives, and none where it fails. -/
theorem agreeing_held (opened : DumpedFile → Opening) :
    Agreeing opened fun file => DumpedFileStates.held (opened file).outcome := by
  intro file bytes read
  show DumpedFileStates.held (opened file).outcome = bytes
  rw [read]
  rfl

/-- A stream that ends short of the archive ends with something else. -/
theorem ends_with_less {this : StreamRun} {tree : Node}
    (short : ∀ contents, tree.Plain → Agreeing this.opened contents → ∃ chunks : List Bytes,
      this.Ends (chunks.map Except.ok) ∧
        chunks.flatten.length < (encode 0 ((this.events tree).map (NarEvent.map contents))).length)
    (ends : ∃ chunks : List Bytes, this.Ends (chunks.map Except.ok)) :
    ∃ chunks : List Bytes, this.Ends (chunks.map Except.ok) ∧ ¬ this.Archive tree chunks.flatten := by
  obtain ⟨chunks, ended⟩ := ends
  refine ⟨chunks, ended, ?_⟩
  rintro ⟨plain, contents, agreeing, same⟩
  obtain ⟨others, ended', less⟩ := short contents plain agreeing
  have equal : joined (chunks.map Except.ok) = joined (others.map Except.ok) :=
    congrArg joined (ended.unique ended')
  rw [joined_ok, joined_ok] at equal
  rw [equal] at same
  rw [same] at less
  exact Nat.lt_irrefl _ less

/-- A stream that ends with something else than the archive is not honest. -/
theorem not_honest {this : StreamRun} {tree : Node}
    (less : ∃ chunks : List Bytes, this.Ends (chunks.map Except.ok) ∧
      ¬ this.Archive tree chunks.flatten) : ¬ this.Honest tree := by
  intro honest
  obtain ⟨chunks, ended, other⟩ := less
  apply other
  rw [← joined_ok]
  apply honest _ ended
  intro item member
  obtain ⟨chunk, _, rfl⟩ := List.mem_map.mp member
  exact ⟨chunk, rfl⟩

/-- Whatever happens, the stream ends, and without an error. -/
theorem ends_anyhow {this : StreamRun} (fair : this.Fair) :
    ∃ chunks : List Bytes, this.Ends (chunks.map Except.ok) := by
  have agreeing := agreeing_held this.opened
  obtain ⟨events, last, answer, next, yields, stopped, stops⟩ := this.dumper.cursor.comes_to_stop
  by_cases done : answer = .ready none ∧ ∀ event ∈ events, event.Opens this.opened
  · obtain ⟨rfl, opens⟩ := done
    obtain ⟨chunks, ended, _⟩ := ends_whole fair agreeing yields stopped opens
    exact ⟨chunks, ended⟩
  · obtain ⟨chunks, ended, _⟩ := ends_short fair agreeing yields stopped stops
      fun final opens => done ⟨final, opens⟩
    exact ⟨chunks, ended⟩

/-- Every stream ends, and it is honest exactly if nothing fails. -/
theorem honest_iff {this : StreamRun} {tree : Node} (legal : tree.Legal) (fair : this.Fair)
    (walks : WalkOf this.rename this.root tree this.walker) :
    (∃ items, this.Ends items) ∧ (this.Honest tree ↔ this.Flawless tree) := by
  have agreeing := agreeing_held this.opened
  have ends := ends_anyhow fair
  refine ⟨⟨_, ends.choose_spec⟩, ?_⟩
  constructor
  · intro honest
    by_contra flawed
    refine not_honest (ends_with_less ?_ ends) honest
    intro contents plain agreeing
    generalize walked_eq : this.walker = walker at walks
    cases walks with
    | whole =>
      have closed : ¬ ∀ event ∈ this.events tree, event.Opens this.opened := by
        intro opens
        refine flawed ⟨?_, opens⟩
        intro item member
        obtain ⟨entries, listed⟩ :=
          walked_plain this.root (@Node.sorted_plain this.rename tree |>.mpr plain)
        rw [walked_eq] at member
        obtain ⟨entry, inside, rfl⟩ := List.mem_map.mp member
        have listed' : Entry.ofItem (.ok entry) ∈ entries.map Except.ok :=
          listed ▸ List.mem_map_of_mem inside
        obtain ⟨made, _, same⟩ := List.mem_map.mp listed'
        exact ⟨made, same.symm⟩
      obtain ⟨chunks, ended, _, less⟩ := ends_short fair agreeing (yields_whole legal plain walked_eq)
        rfl ⟨nofun, nofun⟩ fun _ => closed
      exact ⟨chunks, ended, less closed⟩
    | broken walk fails inside =>
      obtain ⟨before, after, last, next, events, some, yields, stopped⟩ :=
        yields_broken legal plain walk fails inside walked_eq
      obtain ⟨chunks, ended, most, _⟩ :=
        ends_short fair agreeing yields stopped ⟨nofun, nofun⟩ nofun
      refine ⟨chunks, ended, Nat.lt_of_le_of_lt most ?_⟩
      rw [events, List.map_append]
      apply encode_short
      intro none
      exact some (List.map_eq_nil_iff.mp none)
  · intro flawless items ended _
    have walk := flawless.walk
    generalize walked_eq : this.walker = walker at walks walk
    cases walks with
    | whole =>
      have plain : tree.Plain := by
        rw [← @Node.sorted_plain this.rename]
        apply plain_of_walked this.root
        intro item member
        obtain ⟨entry, inside, rfl⟩ := List.mem_map.mp member
        obtain ⟨made, same⟩ := walk (.ok entry) (List.mem_map_of_mem inside)
        exact ⟨made, same⟩
      obtain ⟨chunks, ended', whole⟩ :=
        ends_whole fair agreeing (yields_whole legal plain walked_eq) rfl flawless.reads
      refine ⟨plain, _, agreeing, ?_⟩
      rw [ended.unique ended', joined_ok]
      exact whole
    | @broken seen rest item more error _ fails _ =>
      obtain ⟨entry, same⟩ := walk item (List.mem_append_right _ List.mem_cons_self)
      rw [fails] at same
      cases same

end StreamRun

/-- A directory with a file. -/
def streamedTree : Node := .directory (.cons [0x78] (.file 0o644 [0x21]) .nil)

/-- A run over the directory, with chunks of sixteen bytes and a channel that is full at first. -/
def streamedRun (outcome : Except IoError Bytes) : StreamRun :=
  ⟨sampleRoot, streamedTree.walkdir id sampleRoot, false, [.done 1], fun _ => ⟨1, 2, outcome⟩, 16,
    [.full, .free]⟩

/-- The tasks of the run are kept, and its receiver is there. -/
theorem streamedRun_fair (outcome : Except IoError Bytes) : (streamedRun outcome).Fair := by
  refine ⟨?_, (by decide : 0 < 16), (by decide : Slot.closed ∉ [Slot.full, .free])⟩
  intro task member
  rw [List.mem_singleton.mp member]
  trivial

/-- The directory is legal. -/
theorem streamedTree_legal : streamedTree.Legal :=
  ⟨by decide, by decide, trivial, trivial⟩

/-- The error of a file that one may not read. -/
def permissionDenied : IoError := ⟨.other, "Permission denied (os error 13)"⟩

/-- The file can be read, and so the stream gives its archive. -/
theorem honest_iff_sample : (streamedRun (.ok [0x21])).Honest streamedTree := by
  have both := StreamRun.honest_iff streamedTree_legal (streamedRun_fair (.ok [0x21]))
    (@WalkOf.whole id sampleRoot streamedTree)
  apply both.2.mpr
  constructor
  · intro item member
    obtain ⟨entry, inside, rfl⟩ := List.mem_map.mp member
    rcases List.mem_cons.mp inside with rfl | inside
    · exact ⟨_, rfl⟩
    · rw [List.mem_singleton.mp inside]
      exact ⟨_, rfl⟩
  · intro event _
    cases event with
    | file name executable size dumped => exact ⟨[0x21], rfl⟩
    | _ => trivial

/-- The file cannot be read: the stream ends without an error, and without the archive. -/
theorem unreadable_dishonest : ∃ chunks : List Bytes,
    (streamedRun (.error permissionDenied)).Ends (chunks.map Except.ok) ∧
      ¬ (streamedRun (.error permissionDenied)).Archive streamedTree chunks.flatten := by
  have fair := streamedRun_fair (.error permissionDenied)
  refine StreamRun.ends_with_less ?_ (StreamRun.ends_anyhow fair)
  intro contents plain agreeing
  have closed : ¬ ∀ event ∈ (streamedRun (.error permissionDenied)).events streamedTree,
      event.Opens (streamedRun (.error permissionDenied)).opened := by
    intro all
    obtain ⟨bytes, read⟩ := all (.file [0x78] false 1 ⟨sampleRoot.join [0x78], 1⟩)
      (List.mem_cons_of_mem _ List.mem_cons_self)
    cases read
  obtain ⟨chunks, ended, _, less⟩ := StreamRun.ends_short fair agreeing
    (StreamRun.yields_whole streamedTree_legal plain rfl) rfl ⟨nofun, nofun⟩ fun _ => closed
  exact ⟨chunks, ended, less closed⟩

end Harmonia.Nar
