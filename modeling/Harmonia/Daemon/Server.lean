import Harmonia.Daemon.Store
import Harmonia.Protocol.Framed

/-!
# The server

`DaemonConnection` of `server/mod.rs`: requests are read one after the other, handed to the store and
answered. An error is sent back to the client if it can be recovered from and ends the connection
if not; which of the two it is depends on the conversion that a question mark picks.
-/

namespace Harmonia.Daemon

open Library Store Protocol

section Server

variable [Layout] [DataEncoding]

/-- `RecoverableError`. -/
structure RecoverableError where
  /-- `can_recover`. -/
  canRecover : Bool
  /-- `source`. -/
  source : DaemonError

/-- `From<T> for RecoverableError`. -/
def RecoverableError.from (source : DaemonError) : RecoverableError := ⟨false, source⟩

/-- `recover`. -/
def RecoverableError.recover (source : DaemonError) : RecoverableError := ⟨true, source⟩

/-- `DaemonConnection`: its reader, and what it has written. -/
structure DaemonConnection (R : Type) where
  /-- `reader`. -/
  reader : NixReader R
  /-- What was written. -/
  written : Bytes

/-- How a request comes out. -/
inductive Processed where
  /-- `Ok(())`. -/
  | ok
  /-- `Err`. -/
  | err (error : RecoverableError)
  /-- It does not return. -/
  | panic

/-- How `process_requests` comes out. -/
inductive Stopped where
  /-- It has not come to an end. -/
  | running
  /-- There are no more requests. -/
  | done
  /-- `Err`. -/
  | failed (error : DaemonError)
  /-- It does not return. -/
  | panic

namespace DaemonConnection

variable {R : Type} [AsyncBytesRead R] [AsyncPrepare R] {op : Operation}

/-- Bytes are written. -/
def copy (conn : DaemonConnection R) (bytes : Bytes) : DaemonConnection R :=
  { conn with written := conn.written ++ bytes }

/-- `write_value`. -/
def writeValue {α : Type} [NixSerialize α] (ctx : Ctx) (value : α) (conn : DaemonConnection R) :
    DaemonConnection R :=
  conn.copy (encode (serialize ctx value))

/-- `write_log` for each message. -/
def writeLogs (ctx : Ctx) (logs : List LogMessage) (conn : DaemonConnection R) : DaemonConnection R :=
  logs.foldl (fun conn msg => conn.writeValue ctx msg) conn

/-- The function `process_logs`. -/
def processLogs (ctx : Ctx) (reaction : Reaction op) (conn : DaemonConnection R) :
    Except RecoverableError (Response op) × DaemonConnection R :=
  match reaction.result with
  | .error source => (.error (.recover source), conn.writeLogs ctx reaction.logs)
  | .ok value => (.ok value, conn.writeLogs ctx reaction.logs)

/-- The method `process_logs`, and what is done with the value. -/
def answer (ctx : Ctx) (reaction : Reaction op)
    (next : Response op → DaemonConnection R → DaemonConnection R) (conn : DaemonConnection R) :
    Processed × DaemonConnection R :=
  match conn.processLogs ctx reaction with
  | (.error err, conn) => (.err err, conn)
  | (.ok value, conn) => (.ok, next value (conn.writeValue ctx RawLogMessage.last))

/-- `drain_all`, which leaves the reader of the connection behind the body. -/
def drainBody (patience : Nat) (framed : FramedReader (AsyncBufReadCompat R))
    (conn : DaemonConnection R) : Poll Nat × DaemonConnection R :=
  match framed.drainAll patience 0 with
  | (answer, framed) => (answer, { conn with reader := { conn.reader with inner := framed.reader.reader } })

/-- `FramedReader::new(AsyncBufReadCompat::new(&mut self.reader))`. -/
def openBody (conn : DaemonConnection R) : FramedReader (AsyncBufReadCompat R) :=
  .new (.new conn.reader.inner)

/-- A request with a body: the store has read some of it, the rest is drained whether it returned
a value or an error, and then the value is answered. -/
def answerFramed (ctx : Ctx) (patience : Nat) (reaction : Reaction op)
    (next : Response op → DaemonConnection R → DaemonConnection R) (conn : DaemonConnection R) :
    Processed × DaemonConnection R :=
  match conn.openBody.readSome reaction.rooms [] with
  | none => (.panic, conn)
  | some (_, framed) =>
    match conn.processLogs ctx reaction with
    | (res, conn) =>
      match conn.drainBody patience framed, res with
      | (.panic, conn), _ | (.pending, conn), _ => (.panic, conn)
      | (_, conn), .error err => (.err err, conn)
      | (.error error, conn), .ok _ => (.err (.from (.fromIo error)), conn)
      | (.ready _, conn), .ok value => (.ok, next value (conn.writeValue ctx RawLogMessage.last))

/-- `read_number` of the reader in `AddMultipleToStore`: it polls the body, each time with room for
so many bytes, until it has a word. -/
def readCount : Nat → List Nat → Bytes → FramedReader (AsyncBufReadCompat R) →
    Poll UInt64 × List Nat × FramedReader (AsyncBufReadCompat R)
  | 0, rooms, _, framed => (.panic, rooms, framed)
  | patience + 1, rooms, read, framed =>
    if 8 ≤ read.length then (.ready (fromLeBytes (read.take 8)), rooms, framed)
    else
      match pollRead framed (rooms.headD 31 + 1) with
      | (.ready bytes, framed) =>
        if bytes = [] then
          if read = [] then (.error missingData, rooms.tail, framed)
          else (.error ⟨.unexpectedEof, "EOF reading u64"⟩, rooms.tail, framed)
        else readCount patience rooms.tail (read ++ bytes) framed
      | (.pending, framed) => readCount patience rooms.tail read framed
      | (.error error, framed) => (.error error, rooms.tail, framed)
      | (.panic, framed) => (.panic, rooms.tail, framed)

/-- `AddMultipleToStore`: a body without a count is an error that cannot be recovered from, and
the last message is written before the body is drained. -/
def addMultipleToStore (ctx : Ctx) (patience : Nat) (reaction : Reaction .addMultipleToStore)
    (conn : DaemonConnection R) : Processed × DaemonConnection R :=
  match readCount patience reaction.rooms [] conn.openBody with
  | (.ready _, rooms, framed) =>
    match framed.readSome rooms [] with
    | none => (.panic, conn)
    | some (_, framed) =>
      match conn.answer ctx reaction fun _ conn => conn with
      | (res, conn) =>
        match conn.drainBody patience framed, res with
        | (.panic, conn), _ | (.pending, conn), _ | (_, conn), .panic => (.panic, conn)
        | (_, conn), .err err => (.err err, conn)
        | (.error error, conn), .ok => (.err (.from (.fromIo error)), conn)
        | (.ready _, conn), .ok => (.ok, conn)
  | (.error error, _, framed) =>
    (.err (.from (.fromIo error)), { conn with reader := { conn.reader with inner := framed.reader.reader } })
  | (.pending, _, _) | (.panic, _, _) => (.panic, conn)

/-- `nar_from_path`: the error of the store cannot be recovered from. -/
def narFromPath (ctx : Ctx) (reaction : Reaction .narFromPath) (conn : DaemonConnection R) :
    Processed × DaemonConnection R :=
  let conn := conn.writeLogs ctx reaction.logs
  match reaction.result with
  | .error source => (.err (.from source), conn)
  | .ok nar =>
    let conn := (conn.writeValue ctx RawLogMessage.last).copy nar.bytes
    match nar.failure with
    | some error => (.err (.from (.fromIo error)), conn)
    | none => (.ok, conn)

/-- `process_request`. -/
def processRequest (ctx : Ctx) (patience : Nat) : (op : Operation) → Reaction op →
    DaemonConnection R → Processed × DaemonConnection R
  | .setOptions, reaction, conn => conn.answer ctx reaction fun _ conn => conn
  | .isValidPath, reaction, conn => conn.answer ctx reaction (writeValue ctx)
  | .queryValidPaths, reaction, conn => conn.answer ctx reaction (writeValue ctx)
  | .queryPathInfo, reaction, conn => conn.answer ctx reaction (writeValue ctx)
  | .narFromPath, reaction, conn => conn.narFromPath ctx reaction
  | .queryReferrers, reaction, conn => conn.answer ctx reaction (writeValue ctx)
  | .addToStore, reaction, conn => conn.answerFramed ctx patience reaction (writeValue ctx)
  | .buildPaths, reaction, conn => conn.answer ctx reaction fun _ => writeValue ctx IgnoredOne.ignored
  | .ensurePath, reaction, conn => conn.answer ctx reaction fun _ => writeValue ctx IgnoredOne.ignored
  | .addTempRoot, reaction, conn => conn.answer ctx reaction fun _ => writeValue ctx IgnoredOne.ignored
  | .addIndirectRoot, reaction, conn =>
    conn.answer ctx reaction fun _ => writeValue ctx IgnoredOne.ignored
  | .findRoots, reaction, conn => conn.answer ctx reaction (writeValue ctx)
  | .collectGarbage, reaction, conn => conn.answer ctx reaction (writeValue ctx)
  | .queryAllValidPaths, reaction, conn => conn.answer ctx reaction (writeValue ctx)
  | .queryPathFromHashPart, reaction, conn => conn.answer ctx reaction (writeValue ctx)
  | .querySubstitutablePaths, reaction, conn => conn.answer ctx reaction (writeValue ctx)
  | .queryValidDerivers, reaction, conn => conn.answer ctx reaction (writeValue ctx)
  | .optimiseStore, reaction, conn => conn.answer ctx reaction fun _ => writeValue ctx IgnoredOne.ignored
  | .verifyStore, reaction, conn => conn.answer ctx reaction (writeValue ctx)
  | .buildDerivation, reaction, conn => conn.answer ctx reaction (writeValue ctx)
  | .addSignatures, reaction, conn => conn.answer ctx reaction fun _ => writeValue ctx IgnoredOne.ignored
  | .addToStoreNar, reaction, conn => conn.answerFramed ctx patience reaction fun _ conn => conn
  | .queryMissing, reaction, conn => conn.answer ctx reaction (writeValue ctx)
  | .queryDerivationOutputMap, reaction, conn => conn.answer ctx reaction (writeValue ctx)
  | .registerDrvOutput, reaction, conn => conn.answer ctx reaction fun _ conn => conn
  | .queryRealisation, reaction, conn => conn.answer ctx reaction (writeValue ctx)
  | .addMultipleToStore, reaction, conn => conn.addMultipleToStore ctx patience reaction
  | .addBuildLog, reaction, conn =>
    conn.answerFramed ctx patience reaction fun _ => writeValue ctx IgnoredOne.ignored
  | .buildPathsWithResults, reaction, conn => conn.answer ctx reaction (writeValue ctx)
  | .addPermRoot, reaction, conn => conn.answer ctx reaction (writeValue ctx)

/-- `process_requests`, for so many requests. -/
def processRequests [Digest] {S : Type} (ctx : Ctx) (patience : Nat) (store : DaemonStore S) :
    Nat → S → DaemonConnection R → Stopped × S × DaemonConnection R
  | 0, state, conn => (.running, state, conn)
  | count + 1, state, conn =>
    match NixReader.run patience (tryDeserialize ctx) conn.reader with
    | (.ready (some request), reader) =>
      match store state request with
      | (reaction, state) =>
        match processRequest ctx patience request.operation reaction { conn with reader := reader } with
        | (.ok, conn) => processRequests ctx patience store count state conn
        | (.err err, conn) =>
          let source := err.source.fillOperation request.operation
          if err.canRecover then
            match logError source with
            | some error =>
              processRequests ctx patience store count state
                (conn.writeValue ctx (RawLogMessage.error error))
            | none => (.panic, state, conn)
          else (.failed source, state, conn)
        | (.panic, conn) => (.panic, state, conn)
    | (.ready none, reader) => (.done, state, { conn with reader := reader })
    | (.error error, reader) => (.failed (.fromIo error), state, { conn with reader := reader })
    | (.pending, reader) | (.panic, reader) => (.panic, state, { conn with reader := reader })

end DaemonConnection

/-! ## What is expected -/

/-- The operations whose request is followed by a body. -/
def hasBody : Operation → Bool
  | .addToStore | .addToStoreNar | .addMultipleToStore | .addBuildLog => true
  | _ => false

/-- What stands behind the last message when the store has returned a value. -/
def resultBytes (ctx : Ctx) : (op : Operation) → Response op → Bytes
  | .setOptions, _ | .addToStoreNar, _ | .registerDrvOutput, _ | .addMultipleToStore, _ => []
  | .buildPaths, _ | .ensurePath, _ | .addTempRoot, _ | .addIndirectRoot, _ | .optimiseStore, _
  | .addSignatures, _ | .addBuildLog, _ => encode (serialize ctx IgnoredOne.ignored)
  | .narFromPath, nar => nar.bytes
  | .isValidPath, value => encode (serialize ctx value)
  | .queryReferrers, value => encode (serialize ctx value)
  | .addToStore, value => encode (serialize ctx value)
  | .findRoots, value => encode (serialize ctx value)
  | .collectGarbage, value => encode (serialize ctx value)
  | .queryAllValidPaths, value => encode (serialize ctx value)
  | .queryPathInfo, value => encode (serialize ctx value)
  | .queryPathFromHashPart, value => encode (serialize ctx value)
  | .queryValidPaths, value => encode (serialize ctx value)
  | .querySubstitutablePaths, value => encode (serialize ctx value)
  | .queryValidDerivers, value => encode (serialize ctx value)
  | .verifyStore, value => encode (serialize ctx value)
  | .buildDerivation, value => encode (serialize ctx value)
  | .queryMissing, value => encode (serialize ctx value)
  | .queryDerivationOutputMap, value => encode (serialize ctx value)
  | .queryRealisation, value => encode (serialize ctx value)
  | .buildPathsWithResults, value => encode (serialize ctx value)
  | .addPermRoot, value => encode (serialize ctx value)

/-- The log messages of a store. -/
def logBytes (ctx : Ctx) (logs : List LogMessage) : Bytes := encode (logs.flatMap (serialize ctx))

/-- The terminal message: the last one and the result, or the error. -/
def terminal (ctx : Ctx) (op : Operation) : Except DaemonError (Response op) → Bytes
  | .ok value => encode (serialize ctx RawLogMessage.last) ++ resultBytes ctx op value
  | .error error =>
    (logError (error.fillOperation op)).elim [] fun error =>
      encode (serialize ctx (RawLogMessage.error error))

/-- The whole answer to a request. -/
def reply (ctx : Ctx) {op : Operation} (reaction : Reaction op) : Bytes :=
  logBytes ctx reaction.logs ++ terminal ctx op reaction.result

/-- The reactions after which the connection goes on: the archive of `nar_from_path` is there and can
be read, and the body of `add_multiple_to_store` has room for a count. -/
def Recoverable : (op : Operation) → Reaction op → List Frame → Prop
  | .narFromPath, reaction, _ => ∃ nar, reaction.result = .ok nar ∧ nar.failure = none
  | .addMultipleToStore, _, frames => 8 ≤ (contents frames).length
  | _, _, _ => True

namespace DaemonConnection

variable {R : Type} [AsyncBytesRead R] [LawfulBytesRead R] {op : Operation}

/-- What processing a request is expected to do. -/
inductive Answers (ctx : Ctx) (reaction : Reaction op) (after : Response op → Bytes) (tail : Bytes)
    (conn : DaemonConnection R) : Processed × DaemonConnection R → Prop
  | ok {value : Response op} {next : DaemonConnection R} (returned : reaction.result = .ok value)
    (leaves : conn.reader.Leaves next.reader tail)
    (wrote : next.written = conn.written ++ (logBytes ctx reaction.logs ++
      (encode (serialize ctx RawLogMessage.last) ++ after value))) :
    Answers ctx reaction after tail conn (.ok, next)
  | err {error : DaemonError} {next : DaemonConnection R} (returned : reaction.result = .error error)
    (leaves : conn.reader.Leaves next.reader tail)
    (wrote : next.written = conn.written ++ logBytes ctx reaction.logs) :
    Answers ctx reaction after tail conn (.err (.recover error), next)

omit [AsyncBytesRead R] [LawfulBytesRead R] in
/-- Log messages are written one after the other. -/
theorem writeLogs_eq (ctx : Ctx) (logs : List LogMessage) (conn : DaemonConnection R) :
    conn.writeLogs ctx logs = conn.copy (logBytes ctx logs) := by
  induction logs generalizing conn with
  | nil =>
    show conn = { conn with written := conn.written ++ [] }
    rw [List.append_nil]
  | cons msg rest ih =>
    show (conn.writeValue ctx msg).writeLogs ctx rest = _
    rw [ih, writeValue, copy, copy, copy, logBytes, logBytes, List.flatMap_cons, encode_append,
      List.append_assoc]

/-- Answering leaves the reader where it is. -/
theorem answer_answers {ctx : Ctx} {reaction : Reaction op} {after : Response op → Bytes}
    {next : Response op → DaemonConnection R → DaemonConnection R} {conn : DaemonConnection R}
    {tail : Bytes} (here : conn.reader.Leaves conn.reader tail)
    (writes : ∀ value conn, next value conn = conn.copy (after value)) :
    Answers ctx reaction after tail conn (conn.answer ctx reaction next) := by
  unfold answer processLogs
  cases returned : reaction.result with
  | error source =>
    rw [writeLogs_eq]
    exact .err returned here rfl
  | ok value =>
    rw [writeLogs_eq]
    simp only [writes]
    refine .ok returned here ?_
    simp only [writeValue, copy, List.append_assoc]

/-! ## Bodies -/

/-- A reader inside a body that was opened on a connection. -/
structure Within (tail content : Bytes) (conn : DaemonConnection R)
    (framed : FramedReader (AsyncBufReadCompat R)) : Prop where
  /-- It is inside a well-formed body. -/
  holds : framed.Holds tail content
  /-- The limit. -/
  limit : view.limit framed.reader = view.limit conn.reader.inner
  /-- The budget, which does not grow. -/
  spent : budget framed ≤ budget conn.reader.inner

omit [Layout] [DataEncoding] in
/-- A body that is opened. -/
theorem openBody_within {conn : DaemonConnection R} {frames : List Frame} {tail : Bytes}
    (here : conn.reader.Leaves conn.reader (framed frames ++ tail)) :
    Within tail (contents frames) conn conn.openBody := by
  have valid : view.Valid (AsyncBufReadCompat.new conn.reader.inner) := ⟨here.valid, List.nil_prefix⟩
  refine ⟨.length valid here.regular (by decide) ?_, rfl, ?_⟩
  · rw [List.nil_append, ← here.unread]
    exact AsyncBufReadCompat.compatView_unread valid
  · exact Nat.max_le.mpr ⟨Nat.zero_le _, Nat.le_refl _⟩

omit [Layout] [DataEncoding] in
/-- A body that the store reads some of. -/
theorem Within.readSome {tail content : Bytes} {conn : DaemonConnection R}
    {framed : FramedReader (AsyncBufReadCompat R)} (within : Within tail content conn framed)
    (rooms : List Nat) :
    ∃ read left next, framed.readSome rooms [] = some (read, next) ∧ Within tail left conn next := by
  obtain ⟨read, left, next, reads, joined, holds, limit, spent⟩ := within.holds.someRead rooms []
  exact ⟨_, left, next, reads, holds, limit.trans within.limit, Nat.le_trans spent within.spent⟩

omit [Layout] [DataEncoding] in
/-- The count of a body that has room for one. -/
theorem Within.readCount {tail content : Bytes} {conn : DaemonConnection R}
    {framed : FramedReader (AsyncBufReadCompat R)} {patience : Nat}
    (within : Within tail content conn framed) (patient : budget framed < patience)
    (rooms : List Nat) (read : Bytes) (long : 8 ≤ read.length + content.length) :
    ∃ count rooms' left next, DaemonConnection.readCount patience rooms read framed =
      (.ready count, rooms', next) ∧ Within tail left conn next := by
  induction patience generalizing framed content rooms read with
  | zero => cases patient
  | succ patience ih =>
    unfold DaemonConnection.readCount
    by_cases enough : 8 ≤ read.length
    · exact ⟨_, rooms, content, framed, if_pos enough, within⟩
    · rw [if_neg enough]
      have taken := within.holds.taken (rooms.headD 31 + 1)
      generalize pollRead framed (rooms.headD 31 + 1) = result at taken
      cases taken with
      | @ready next bytes left joined holds ends limit spent =>
        have some : bytes ≠ [] := by
          intro none
          rcases ends none with zero | nothing
          · cases zero
          · rw [nothing] at long
            exact enough long
        have positive := List.length_pos_of_ne_nil some
        have later : Within tail left conn next :=
          ⟨holds, limit.trans within.limit, by have := within.spent; omega⟩
        have lengths := congrArg List.length joined
        rw [List.length_append] at lengths
        obtain ⟨count, rooms', left', last, reads, within'⟩ :=
          ih later (by omega) rooms.tail (read ++ bytes) (by rw [List.length_append]; omega)
        exact ⟨count, rooms', left', last, by simp only [if_neg some, reads], within'⟩
      | @pending next holds limit less =>
        have later : Within tail content conn next :=
          ⟨holds, limit.trans within.limit, by have := within.spent; omega⟩
        exact ih later (by omega) rooms.tail read long

omit [Layout] [DataEncoding] in
/-- The rest of a body is drained. -/
theorem Within.drained {tail content : Bytes} {conn : DaemonConnection R}
    {framed : FramedReader (AsyncBufReadCompat R)} {patience : Nat}
    (within : Within tail content conn framed) (patient : budget conn.reader.inner < patience)
    {same : DaemonConnection R} (unmoved : same.reader = conn.reader) :
    ∃ count next, same.drainBody patience framed = (.ready count, next) ∧
      conn.reader.Leaves next.reader tail ∧ next.written = same.written := by
  obtain ⟨last, drains, valid, regular, unread, limit, spent⟩ :=
    @FramedReader.Holds.drained _ _ _ tail content patience 0 framed within.holds
      (Nat.lt_of_le_of_lt within.spent patient)
  rw [show view.unread last.reader = _ from AsyncBufReadCompat.compatView_unread valid] at unread
  have cost : budget last.reader.reader ≤ budget conn.reader.inner :=
    Nat.le_trans (Nat.le_max_right _ _) (Nat.le_trans spent within.spent)
  refine ⟨0 + content.length, { same with reader := { same.reader with inner := last.reader.reader } },
    ?_, ?_, rfl⟩
  · rw [drainBody, drains]
  · exact ⟨valid.1, regular, unread, limit.trans within.limit,
      show same.reader.maxBufSize = conn.reader.maxBufSize by rw [unmoved], cost⟩

/-- A body is drained whatever the store returned. -/
theorem answerFramed_answers {ctx : Ctx} {patience : Nat} {reaction : Reaction op}
    {after : Response op → Bytes} {next : Response op → DaemonConnection R → DaemonConnection R}
    {conn : DaemonConnection R} {frames : List Frame} {tail : Bytes}
    (here : conn.reader.Leaves conn.reader (framed frames ++ tail))
    (patient : budget conn.reader.inner < patience)
    (writes : ∀ value conn, next value conn = conn.copy (after value)) :
    Answers ctx reaction after tail conn (conn.answerFramed ctx patience reaction next) := by
  obtain ⟨read, left, body, reads, within⟩ := (openBody_within here).readSome reaction.rooms
  unfold answerFramed processLogs
  rw [reads]
  cases returned : reaction.result with
  | error source =>
    simp only [writeLogs_eq]
    obtain ⟨count, last, drains, leaves, wrote⟩ :=
      @Within.drained _ _ _ _ _ _ _ _ within patient (conn.copy (logBytes ctx reaction.logs)) rfl
    rw [drains]
    exact .err returned leaves wrote
  | ok value =>
    simp only [writeLogs_eq]
    obtain ⟨count, last, drains, leaves, wrote⟩ :=
      @Within.drained _ _ _ _ _ _ _ _ within patient (conn.copy (logBytes ctx reaction.logs)) rfl
    rw [drains]
    simp only [writes]
    refine .ok returned leaves ?_
    simp only [writeValue, copy, wrote, List.append_assoc]

/-- `AddMultipleToStore` with a body that has room for a count. -/
theorem addMultipleToStore_answers {ctx : Ctx} {patience : Nat}
    {reaction : Reaction .addMultipleToStore} {conn : DaemonConnection R} {frames : List Frame}
    {tail : Bytes} (here : conn.reader.Leaves conn.reader (framed frames ++ tail))
    (patient : budget conn.reader.inner < patience) (counted : 8 ≤ (contents frames).length) :
    Answers ctx reaction (fun _ => []) tail conn (conn.addMultipleToStore ctx patience reaction) := by
  have opened := openBody_within here
  obtain ⟨count, rooms, left, body, counts, within⟩ :=
    opened.readCount (Nat.lt_of_le_of_lt opened.spent patient) reaction.rooms [] (by simpa using counted)
  obtain ⟨read, left, body, reads, within⟩ := within.readSome rooms
  unfold addMultipleToStore answer processLogs
  rw [counts]
  simp only [reads]
  cases returned : reaction.result with
  | error source =>
    simp only [writeLogs_eq]
    obtain ⟨count, last, drains, leaves, wrote⟩ :=
      @Within.drained _ _ _ _ _ _ _ _ within patient (conn.copy (logBytes ctx reaction.logs)) rfl
    rw [drains]
    exact .err returned leaves wrote
  | ok value =>
    simp only [writeLogs_eq]
    obtain ⟨count, last, drains, leaves, wrote⟩ := @Within.drained _ _ _ _ _ _ _ _ within patient
      ((conn.copy (logBytes ctx reaction.logs)).writeValue ctx RawLogMessage.last) rfl
    rw [drains]
    refine .ok returned leaves ?_
    simp only [wrote, writeValue, copy, List.append_assoc, List.append_nil]

/-- `nar_from_path` with an archive that can be read. -/
theorem narFromPath_answers {ctx : Ctx} {reaction : Reaction .narFromPath}
    {conn : DaemonConnection R} {nar : NarSource} {tail : Bytes}
    (here : conn.reader.Leaves conn.reader tail) (returned : reaction.result = .ok nar)
    (readable : nar.failure = none) :
    Answers ctx reaction NarSource.bytes tail conn (conn.narFromPath ctx reaction) := by
  unfold narFromPath
  simp only [returned, readable, writeLogs_eq]
  refine .ok returned here ?_
  simp only [writeValue, copy, List.append_assoc]

/-- A request is answered, and the reader left behind its body. -/
theorem processRequest_answers {ctx : Ctx} {patience : Nat} {reaction : Reaction op}
    {conn : DaemonConnection R} {frames : List Frame} {tail : Bytes}
    (here : conn.reader.Leaves conn.reader ((if hasBody op then framed frames else []) ++ tail))
    (patient : budget conn.reader.inner < patience) (recoverable : Recoverable op reaction frames) :
    Answers ctx reaction (resultBytes ctx op) tail conn
      (processRequest ctx patience op reaction conn) := by
  have nothing (conn : DaemonConnection R) : conn = conn.copy [] := by
    rw [copy, List.append_nil]
  cases op with
  | setOptions | registerDrvOutput => exact answer_answers here fun _ => nothing
  | narFromPath =>
    obtain ⟨nar, returned, readable⟩ := recoverable
    exact narFromPath_answers here returned readable
  | addToStore => exact answerFramed_answers here patient fun _ _ => rfl
  | addToStoreNar => exact answerFramed_answers here patient fun _ => nothing
  | addBuildLog => exact answerFramed_answers here patient fun _ _ => rfl
  | addMultipleToStore => exact addMultipleToStore_answers here patient recoverable
  | _ => exact answer_answers here fun _ _ => rfl

end DaemonConnection

/-! ## Runs -/

/-- What a client sends for one request. -/
structure Exchange where
  /-- The request. -/
  request : Request
  /-- Its bytes. -/
  bytes : Bytes
  /-- The frames of its body, if it has one. -/
  frames : List Frame

/-- What arrives. -/
def Exchange.wire (exchange : Exchange) : Bytes :=
  exchange.bytes ++ if hasBody exchange.request.operation then framed exchange.frames else []

/-- The bytes are read as the request. -/
def Exchange.Decoded [Digest] (ctx : Ctx) (exchange : Exchange) : Prop :=
  ∀ tail, (tryDeserialize ctx).run ctx (exchange.bytes ++ tail) = .ok (some exchange.request) tail

section Runs

variable {S : Type} (store : DaemonStore S)

/-- The state of the store after some requests. -/
def states : S → List Exchange → S
  | state, [] => state
  | state, exchange :: rest => states (store state exchange.request).2 rest

/-- The answers to some requests. -/
def replies (ctx : Ctx) : S → List Exchange → Bytes
  | _, [] => []
  | state, exchange :: rest =>
    reply ctx (store state exchange.request).1 ++ replies ctx (store state exchange.request).2 rest

/-- Every error of the store has a text that fits into memory. -/
def Sayable : S → List Exchange → Prop
  | _, [] => True
  | state, exchange :: rest =>
    (∀ error, (store state exchange.request).1.result = .error error →
      logError (error.fillOperation exchange.request.operation) ≠ none) ∧
      Sayable (store state exchange.request).2 rest

/-- After every reaction of the store the connection goes on. -/
def Lasting : S → List Exchange → Prop
  | _, [] => True
  | state, exchange :: rest =>
    Recoverable exchange.request.operation (store state exchange.request).1 exchange.frames ∧
      Lasting (store state exchange.request).2 rest

end Runs

/-- Recoverable requests are answered, and the connection goes on behind them. -/
theorem DaemonConnection.processRequests_lasting [Digest] {R S : Type} [AsyncBytesRead R]
    [LawfulBytesRead R] [AsyncPrepare R] [LawfulPrepare R] {ctx : Ctx} {patience count : Nat}
    {store : DaemonStore S} {state : S} {conn : DaemonConnection R} {exchanges : List Exchange}
    {tail : Bytes} (fit : ProcessStderr.Fit ctx patience conn.reader)
    (arrives : view.unread conn.reader.inner = exchanges.flatMap Exchange.wire ++ tail)
    (decoded : ∀ exchange ∈ exchanges, exchange.Decoded ctx)
    (sayable : Sayable store state exchanges) (lasting : Lasting store state exchanges) :
    ∃ next, processRequests ctx patience store (exchanges.length + count) state conn =
        processRequests ctx patience store count (states store state exchanges) next ∧
      next.written = conn.written ++ replies store ctx state exchanges ∧
      conn.reader.Leaves next.reader tail := by
  induction exchanges generalizing state conn with
  | nil =>
    refine ⟨conn, ?_, (List.append_nil _).symm, fit.valid, fit.regular, arrives, rfl, rfl, Nat.le_refl _⟩
    rw [List.length_nil, Nat.zero_add]
    rfl
  | cons exchange rest ih =>
    obtain ⟨sayable, sayables⟩ := sayable
    obtain ⟨recoverable, lasting⟩ := lasting
    rw [List.flatMap_cons, Exchange.wire, List.append_assoc, List.append_assoc] at arrives
    have read := decoded exchange List.mem_cons_self
      ((if hasBody exchange.request.operation then framed exchange.frames else []) ++
        (rest.flatMap Exchange.wire ++ tail))
    rw [← arrives] at read
    obtain ⟨reader, ran, leaves⟩ := NixReader.run_ready fit.valid fit.regular fit.patient fit.within
      fit.half read
    have now := fit.leaves leaves
    have here : NixReader.Leaves reader reader _ :=
      ⟨now.valid, now.regular, leaves.unread, rfl, rfl, Nat.le_refl _⟩
    have answers := @processRequest_answers _ _ R _ _ exchange.request.operation ctx patience
      (store state exchange.request).1 { conn with reader := reader } exchange.frames
      (rest.flatMap Exchange.wire ++ tail) here now.patient recoverable
    -- Whatever was answered, the later requests are handled from there.
    have later {next : DaemonConnection R} (left : reader.Leaves next.reader
        (rest.flatMap Exchange.wire ++ tail))
        (wrote : next.written = conn.written ++ reply ctx (store state exchange.request).1) :
        ∃ last, processRequests ctx patience store (rest.length + count)
            (store state exchange.request).2 next =
          processRequests ctx patience store count (states store state (exchange :: rest)) last ∧
        last.written = conn.written ++ replies store ctx state (exchange :: rest) ∧
        conn.reader.Leaves last.reader tail := by
      obtain ⟨last, same, written, end_⟩ := ih (now.leaves left) left.unread
        (fun other member => decoded other (List.mem_cons_of_mem _ member)) sayables lasting
      refine ⟨last, same, ?_, end_.valid, end_.regular, end_.unread,
        end_.limit.trans (left.limit.trans leaves.limit), end_.same.trans (left.same.trans leaves.same),
        Nat.le_trans end_.spent (Nat.le_trans left.spent leaves.spent)⟩
      rw [written, wrote, List.append_assoc]
      rfl
    rw [List.length_cons, Nat.add_right_comm, processRequests, ran]
    simp only
    generalize processRequest ctx patience exchange.request.operation
      (store state exchange.request).1 { conn with reader := reader } = result at answers
    cases answers with
    | ok returned left wrote =>
      apply later left
      rw [wrote, reply, returned]
      rfl
    | @err error next returned left wrote =>
      simp only [RecoverableError.recover, if_true]
      cases said : logError (error.fillOperation exchange.request.operation) with
      | none => exact absurd said (sayable error returned)
      | some log =>
        apply @later (next.writeValue ctx (RawLogMessage.error log)) left
        show next.written ++ encode _ = _
        rw [wrote, reply, returned, terminal, said, List.append_assoc]
        rfl

/-- Requests that are all recoverable are each answered once and in order, and the connection goes on
with what follows them. If nothing does, the server is done. -/
theorem DaemonConnection.processRequests_replies [Digest] {R S : Type} [AsyncBytesRead R]
    [LawfulBytesRead R] [AsyncPrepare R] [LawfulPrepare R] {ctx : Ctx} {patience count : Nat}
    {store : DaemonStore S} {state : S} {conn : DaemonConnection R} {exchanges : List Exchange}
    {tail : Bytes} (fit : ProcessStderr.Fit ctx patience conn.reader)
    (arrives : view.unread conn.reader.inner = exchanges.flatMap Exchange.wire ++ tail)
    (decoded : ∀ exchange ∈ exchanges, exchange.Decoded ctx)
    (sayable : Sayable store state exchanges) (lasting : Lasting store state exchanges) :
    ∃ next, processRequests ctx patience store (exchanges.length + count) state conn =
        processRequests ctx patience store count (states store state exchanges) next ∧
      next.written = conn.written ++ replies store ctx state exchanges ∧
      conn.reader.Leaves next.reader tail ∧
      (tail = [] → 0 < count →
        (processRequests ctx patience store count (states store state exchanges) next).1 = .done) := by
  obtain ⟨next, ran, wrote, leaves⟩ := @processRequests_lasting _ _ _ R S _ _ _ _ ctx patience count
    store state conn exchanges tail fit arrives decoded sayable lasting
  refine ⟨next, ran, wrote, leaves, ?_⟩
  intro nothing positive
  obtain ⟨more, rfl⟩ := Nat.exists_eq_succ_of_ne_zero (Nat.ne_of_gt positive)
  have now := fit.leaves leaves
  have ended : (tryDeserialize ctx : Read (Option Request)).run ctx (view.unread next.reader.inner) =
      .ok none [] := by
    rw [leaves.unread, nothing]
    rfl
  obtain ⟨last, reads, -⟩ := NixReader.run_ready now.valid now.regular now.patient now.within now.half
    ended
  rw [processRequests, reads]

end Server

section Samples

attribute [local instance] Store.standard Digest.unasked Layout.least

/-- A connection with a default reader on which these bytes arrive, one at a time. -/
def arriving (bytes : Bytes) : DaemonConnection BytesReader :=
  ⟨⟨.build BytesReader.defaultReservedBufSize BytesReader.defaultMaxBufSize true ⟨bytes, [], 0⟩,
    BytesReader.defaultMaxBufSize, defaultMaxBufSize_small, [], []⟩, []⟩

/-- A connection on which a few bytes arrive is fit for them. -/
theorem arriving_fit {bytes : Bytes} {patience : Nat} (few : bytes.length < patience) :
    ProcessStderr.Fit ProcessStderr.shortTexts patience (arriving bytes).reader := by
  refine ⟨BytesReader.build_sound (by decide) _ _ _, ⟨List.forall_mem_nil _, ?_, rfl⟩, ?_, ?_, ?_⟩
  · show BytesReader.defaultReservedBufSize * 2 ≤ BytesReader.defaultMaxBufSize
    decide
  · show 0 + (bytes.length + 0) < patience
    omega
  · show 64 ≤ BytesReader.defaultMaxBufSize
    decide
  · show 2 * alignNat 64 ≤ BytesReader.defaultMaxBufSize - BytesReader.defaultReservedBufSize
    decide

/-- A store that refuses everything, after reading three bytes of a body. -/
def refusing : DaemonStore Unit := fun _ _ =>
  (⟨[], [3], .error ⟨none, [], .remote ⟨.error, ⟨[], ByteString.nil_small⟩, 1, ⟨[], Vec.nil_fits⟩⟩⟩⟩, ())

/-- The path of a package. -/
def somePath : StorePath := ⟨.zero, ⟨asciiBytes "a", isName_letter⟩⟩

/-- A request for the archive of the package. -/
def askNar : Exchange :=
  let request : Request := ⟨.narFromPath, somePath⟩
  ⟨request, encode (serialize ProcessStderr.shortTexts request), []⟩

/-- A request to add paths, whose body says that there are none. -/
def addNothing : Exchange :=
  let request : Request := ⟨.addMultipleToStore, ⟨false, false⟩⟩
  ⟨request, encode (serialize ProcessStderr.shortTexts request),
    [⟨toLeBytes 0, by decide, by decide⟩]⟩

/-- A request for all paths. -/
def askAll : Exchange :=
  let request : Request := ⟨.queryAllValidPaths, ()⟩
  ⟨request, encode (serialize ProcessStderr.shortTexts request), []⟩

/-- A server whose store refuses both of two requests answers both and waits for a third. -/
theorem DaemonConnection.processRequests_refusing :
    ∃ next, processRequests ProcessStderr.shortTexts 256 refusing 2 ()
        (arriving ([addNothing, askAll].flatMap Exchange.wire)) = (.running, (), next) ∧
      next.written = replies refusing ProcessStderr.shortTexts () [addNothing, askAll] ∧
      view.unread next.reader.inner = [] := by
  have few : ([addNothing, askAll].flatMap Exchange.wire).length < 256 := by decide +kernel
  have decoded : ∀ exchange ∈ [addNothing, askAll], exchange.Decoded ProcessStderr.shortTexts := by
    intro exchange member
    rcases List.mem_cons.mp member with rfl | listed
    · exact Sent.reads (show Understood _ (⟨.addMultipleToStore, ⟨false, false⟩⟩ : Request) from ⟨trivial, trivial⟩)
    · rw [List.mem_singleton.mp listed]
      exact Sent.reads (show Understood _ (⟨.queryAllValidPaths, ()⟩ : Request) from trivial)
  have sayable : Sayable refusing () [addNothing, askAll] := by
    refine ⟨?_, ?_, trivial⟩
    all_goals
      rintro error ⟨⟩
      exact Option.some_ne_none _
  obtain ⟨next, ran, wrote, leaves, -⟩ := @processRequests_replies _ _ _ BytesReader Unit _ _ _ _
    ProcessStderr.shortTexts 256 0 refusing () _ [addNothing, askAll] [] (arriving_fit few)
    (List.append_nil _).symm decoded sayable ⟨show 8 ≤ (contents _).length by decide, trivial, trivial⟩
  exact ⟨next, ran, wrote, leaves.unread⟩

/-- A request for an archive is understood. -/
theorem askNar_decoded : askNar.Decoded ProcessStderr.shortTexts := by
  have rooted : ProcessStderr.shortTexts.storeDir.Rooted := by decide
  have short : (ProcessStderr.shortTexts.storeDir.display somePath.display).length ≤ 64 := by
    decide +kernel
  exact Sent.reads (show Understood _ (⟨.narFromPath, somePath⟩ : Request) from ⟨rooted, short⟩)

/-- A server whose store has no archive for a path does not answer the request for it. -/
theorem DaemonConnection.processRequests_askNar :
    ¬ ∀ (patience : Nat) (store : DaemonStore Unit) (conn : DaemonConnection BytesReader)
      (exchange : Exchange), ProcessStderr.Fit ProcessStderr.shortTexts patience conn.reader →
      view.unread conn.reader.inner = exchange.wire →
      exchange.Decoded ProcessStderr.shortTexts → Sayable store () [exchange] →
      ∃ next, processRequests ProcessStderr.shortTexts patience store 1 () conn =
          (.running, (), next) ∧
        next.written = conn.written ++ reply ProcessStderr.shortTexts (store () exchange.request).1 := by
  intro every
  have fit : ProcessStderr.Fit ProcessStderr.shortTexts 256 (arriving askNar.wire).reader :=
    arriving_fit (by decide +kernel)
  have sayable : Sayable refusing () [askNar] := by
    refine ⟨?_, trivial⟩
    rintro error ⟨⟩
    exact Option.some_ne_none _
  obtain ⟨next, ran, -⟩ := every 256 refusing (arriving askNar.wire) askNar fit rfl askNar_decoded sayable
  have read := askNar_decoded []
  obtain ⟨reader, reads, -⟩ := NixReader.run_ready fit.valid fit.regular fit.patient fit.within
    fit.half read
  rw [processRequests, reads] at ran
  cases ran

end Samples

end Harmonia.Daemon
