import Harmonia.Daemon.Lending
import Harmonia.Daemon.Store

/-!
# The client

The methods of `DaemonClient` (`client.rs`), from the moment a request has been written: the log
messages are read, and then whatever the method takes the result to be. `nar_from_path` has a loop
of its own and lends the reader out for the archive.
-/

namespace Harmonia.Daemon

open Library Store Protocol Nar

section Client

variable [Layout] [DataEncoding]

/-- The result that a method reads. Without one, `()` is read, which is nothing. -/
def readResult (ctx : Ctx) : (op : Operation) → op ≠ .narFromPath → Read (Response op)
  | .narFromPath, other => absurd rfl other
  | .setOptions, _ => readValue Unit ctx
  | .isValidPath, _ => readValue Bool ctx
  | .queryValidPaths, _ => readValue StorePathSet ctx
  | .queryPathInfo, _ => readValue (Option UnkeyedValidPathInfo) ctx
  | .buildPaths, _ => do
    let _ ← readValue IgnoredOne ctx
    pure ()
  | .buildPathsWithResults, _ => readValue (Vec KeyedBuildResult) ctx
  | .buildDerivation, _ => readValue BuildResult ctx
  | .queryMissing, _ => readValue QueryMissingResult ctx
  | .addToStoreNar, _ => readValue Unit ctx
  | .addMultipleToStore, _ => readValue Unit ctx
  | .queryAllValidPaths, _ => readValue StorePathSet ctx
  | .queryReferrers, _ => readValue StorePathSet ctx
  | .ensurePath, _ => readValue Unit ctx
  | .addTempRoot, _ => readValue Unit ctx
  | .addIndirectRoot, _ => readValue Unit ctx
  | .findRoots, _ => readValue (BTreeMap ByteString StorePath) ctx
  | .collectGarbage, _ => readValue CollectGarbageResponse ctx
  | .queryPathFromHashPart, _ => readValue (Option StorePath) ctx
  | .querySubstitutablePaths, _ => readValue StorePathSet ctx
  | .queryValidDerivers, _ => readValue StorePathSet ctx
  | .optimiseStore, _ => readValue Unit ctx
  | .verifyStore, _ => readValue Bool ctx
  | .addSignatures, _ => readValue Unit ctx
  | .queryDerivationOutputMap, _ => readValue (BTreeMap OutputName (Option StorePath)) ctx
  | .registerDrvOutput, _ => readValue Unit ctx
  | .queryRealisation, _ => readValue (BTreeSet Realisation) ctx
  | .addBuildLog, _ => readValue Unit ctx
  | .addPermRoot, _ => readValue ByteString ctx
  | .addToStore, _ => readValue ValidPathInfo ctx

/-- `DaemonClient`: what it reads from. -/
structure DaemonClient (R : Type) where
  /-- `reader`, and the reader that was lent for an archive. -/
  reader : NixReader (Loan R)

namespace DaemonClient

variable {R : Type} [AsyncBytesRead R] [AsyncPrepare R]

/-- A client whose reader is lent or not. -/
def withLoan (client : DaemonClient R) (loan : Loan R) : DaemonClient R :=
  ⟨{ client.reader with inner := loan }⟩

/-- A client whose reader is available. -/
def withReader (client : DaemonClient R) (reader : NixReader R) : DaemonClient R :=
  ⟨⟨{ client.reader.inner with lending := .available reader.inner }, reader.maxBufSize, reader.small,
    reader.held, reader.requested⟩⟩

/-- Every read waits for the reader first. -/
def getReader (patience : Nat) (client : DaemonClient R) : Poll (NixReader R) × DaemonClient R :=
  match client.reader.inner.getReader patience with
  | (.ready reader, loan) =>
    (.ready ⟨reader, client.reader.maxBufSize, client.reader.small, client.reader.held,
      client.reader.requested⟩, client.withLoan loan)
  | (.pending, loan) => (.pending, client.withLoan loan)
  | (.error error, loan) => (.error error, client.withLoan loan)
  | (.panic, loan) => (.panic, client.withLoan loan)

/-- A method other than `nar_from_path`, whose request was written or `failed` to be. -/
def call (ctx : Ctx) (patience fuel : Nat) (failed : Option IoError) (op : Operation)
    (other : op ≠ .narFromPath) (client : DaemonClient R) :
    List LogMessage × Answer (Response op) × DaemonClient R :=
  match failed with
  | some error => ([], .err (.io error), client)
  | none =>
    match client.getReader patience with
    | (.ready reader, client) =>
      match ProcessStderr.receive (readResult ctx op other) ctx patience fuel reader with
      | (yielded, answer, reader) => (yielded, answer, client.withReader reader)
    | (.error error, client) => ([], .err (.io error), client)
    | (.pending, client) | (.panic, client) => ([], .panic, client)

/-- The loop of `nar_from_path`, with the messages it has yielded so far. -/
def narLogs (ctx : Ctx) (patience : Nat) :
    Nat → List LogMessage → NixReader R → List LogMessage × Answer Unit × NixReader R
  | 0, yielded, reader => (yielded, .panic, reader)
  | fuel + 1, yielded, reader =>
    match NixReader.run patience (readValue RawLogMessage ctx) reader with
    | (.ready msg, reader) =>
      match msg with
      | .next text => narLogs ctx patience fuel (yielded ++ [.message ⟨.error, text⟩]) reader
      | .result result => narLogs ctx patience fuel (yielded ++ [.result result]) reader
      | .startActivity act => narLogs ctx patience fuel (yielded ++ [.startActivity act]) reader
      | .stopActivity act => narLogs ctx patience fuel (yielded ++ [.stopActivity act]) reader
      | .read _ => narLogs ctx patience fuel yielded reader
      | .write _ => narLogs ctx patience fuel yielded reader
      | .last => (yielded, .ok (), reader)
      | .error err => (yielded, .err (.remote (.fromLog err)), reader)
    | (.error error, reader) => (yielded, .err (.io error), reader)
    | (.pending, reader) | (.panic, reader) => (yielded, .panic, reader)

/-- The stream of `nar_from_path`: it reads nothing if the request was not written. -/
def narStream (ctx : Ctx) (patience fuel : Nat) (failed : Option IoError) (client : DaemonClient R) :
    List LogMessage × Answer Unit × DaemonClient R :=
  match failed with
  | some error => ([], .err (.io error), client)
  | none =>
    match client.getReader patience with
    | (.ready reader, client) =>
      match narLogs ctx patience fuel [] reader with
      | (yielded, result, reader) => (yielded, result, client.withReader reader)
    | (.error error, client) => ([], .err (.io error), client)
    | (.pending, client) | (.panic, client) => ([], .panic, client)

/-- `nar_from_path`: whatever the result, the reader is lent. If it is an error the lent reader is
dropped at once. -/
def narFromPath (ctx : Ctx) (patience fuel : Nat) (failed : Option IoError)
    (client : DaemonClient R) : List LogMessage × Answer Unit × DaemonClient R :=
  match client.narStream ctx patience fuel failed with
  | (yielded, result, client) =>
    match result, client.reader.inner.lend with
    | .panic, _ | _, none => (yielded, .panic, client)
    | .ok (), some (nar, loan) =>
      (yielded, .ok (), client.withLoan { loan with lent := some ⟨some nar, []⟩ })
    | .err error, some (nar, loan) =>
      (yielded, .err error, client.withLoan { loan with lent := some ⟨some nar, []⟩ }.dropLent)

/-- Whoever asked for an archive reads some of it and drops the reader; `none` is a panic. -/
def readNar (rooms : List Nat) (client : DaemonClient R) : Option (Bytes × DaemonClient R) :=
  (client.reader.inner.readSome rooms []).map fun (read, loan) => (read, client.withLoan loan.dropLent)

/-! ## Where a client stands -/

section Standing

variable [LawfulBytesRead R]

/-- A client that next reads these bytes, with enough room and patience. -/
structure Stands (ctx : Ctx) (patience : Nat) (rest : Bytes) (client : DaemonClient R) : Prop where
  /-- Its reader stands before them. -/
  loan : ∃ limit cap, client.reader.inner.Stands rest limit cap ∧ cap < patience ∧
    2 * alignNat ctx.maxBufSize ≤ limit
  /-- Texts are within the limit of strings. -/
  within : ctx.maxBufSize ≤ client.reader.maxBufSize

/-- A client whose archive is being read, with these bytes behind it. -/
structure Reading (ctx : Ctx) (patience : Nat) (archive rest : Bytes) (client : DaemonClient R) :
    Prop where
  /-- Someone holds the archive. -/
  loan : ∃ limit cap, client.reader.inner.Holds archive rest [] limit cap ∧ cap < patience ∧
    2 * alignNat ctx.maxBufSize ≤ limit
  /-- Texts are within the limit of strings. -/
  within : ctx.maxBufSize ≤ client.reader.maxBufSize

omit [Layout] [DataEncoding] [AsyncPrepare R] in
/-- The reader a client gets, and where it stands once something was read. -/
theorem Stands.getReader {ctx : Ctx} {patience : Nat} {rest : Bytes} {client : DaemonClient R}
    (stands : client.Stands ctx patience rest) :
    ∃ reader next, client.getReader patience = (.ready reader, next) ∧
      ProcessStderr.Fit ctx patience reader ∧ view.unread reader.inner = rest ∧
      next.reader.inner.Released := by
  obtain ⟨⟨limit, cap, loan, patient, half⟩, within⟩ := stands
  obtain ⟨reader, ready, before⟩ := loan.getReader patient
  refine ⟨⟨reader, client.reader.maxBufSize, client.reader.small, client.reader.held,
    client.reader.requested⟩, client.withLoan { client.reader.inner with lending := .available reader },
    ?_, ⟨before.valid, before.regular, Nat.lt_of_le_of_lt before.spent patient, within,
      before.limit ▸ half⟩, before.unread, loan.released⟩
  rw [DaemonClient.getReader, ready]

omit [Layout] [DataEncoding] [AsyncPrepare R] in
/-- Where a client stands once its reader has read something. -/
theorem stands_withReader {ctx : Ctx} {patience : Nat} {rest : Bytes} {client : DaemonClient R}
    {reader next : NixReader R} (fit : ProcessStderr.Fit ctx patience reader)
    (released : client.reader.inner.Released) (leaves : reader.Leaves next rest) :
    (client.withReader next).Stands ctx patience rest := by
  have now := fit.leaves leaves
  refine ⟨⟨view.limit next.inner, budget next.inner, ⟨.available ?_, released⟩, now.patient, now.half⟩,
    now.within⟩
  exact ⟨leaves.valid, leaves.regular, leaves.unread, rfl, Nat.le_refl _⟩

variable [LawfulPrepare R]

/-- A method whose reply is a result. -/
theorem Stands.call_last {ctx : Ctx} {patience fuel : Nat} {op : Operation} {other : op ≠ .narFromPath}
    {client : DaemonClient R} {messages : List LogMessage} {value : Response op} {after tail : Bytes}
    (stands : client.Stands ctx patience (encode (messages.flatMap (serialize ctx)) ++
      (encode (serialize ctx RawLogMessage.last) ++ after)))
    (minor : 26 ≤ ctx.minor) (enough : messages.length < fuel)
    (carried : ∀ msg ∈ messages, msg.raw.Carried ctx)
    (reads : (readResult ctx op other).run ctx after = .ok value tail) :
    ∃ next, client.call ctx patience fuel none op other =
        (messages.map ProcessStderr.received, .ok value, next) ∧ next.Stands ctx patience tail := by
  obtain ⟨reader, mid, ready, fit, unread, released⟩ := stands.getReader
  obtain ⟨next, received, leaves⟩ := ProcessStderr.receive_last fit minor enough (fun _ => .inl rfl)
    carried reads unread
  refine ⟨mid.withReader next, ?_, stands_withReader fit released leaves⟩
  simp only [call, ready, received]

/-- A method whose reply is an error. -/
theorem Stands.call_failed {ctx : Ctx} {patience fuel : Nat} {op : Operation}
    {other : op ≠ .narFromPath} {client : DaemonClient R} {messages : List LogMessage}
    {error : RemoteError} {tail : Bytes}
    (stands : client.Stands ctx patience (encode (messages.flatMap (serialize ctx)) ++
      (encode (serialize ctx (RawLogMessage.error (.fromRemote error))) ++ tail)))
    (minor : 26 ≤ ctx.minor) (enough : messages.length < fuel)
    (carried : ∀ msg ∈ messages, msg.raw.Carried ctx)
    (carriedError : ProcessStderr.CarriedError ctx error) :
    ∃ next, client.call ctx patience fuel none op other =
        (messages.map ProcessStderr.received, .err (.remote { error with exitStatus := 1 }), next) ∧
      next.Stands ctx patience tail := by
  obtain ⟨reader, mid, ready, fit, unread, released⟩ := stands.getReader
  obtain ⟨next, received, leaves⟩ : ∃ next, ProcessStderr.receive (readResult ctx op other) ctx patience
      fuel reader = _ ∧ reader.Leaves next tail :=
    ProcessStderr.receive_failed fit minor enough (fun _ => .inl rfl) carried carriedError unread
  refine ⟨mid.withReader next, ?_, stands_withReader fit released leaves⟩
  simp only [call, ready, received]

/-- Log messages that are there are yielded by the loop of `nar_from_path`. -/
theorem narLogs_messages {ctx : Ctx} {patience fuel : Nat} {messages yielded : List LogMessage}
    {reader : NixReader R} {more : Bytes} (fit : ProcessStderr.Fit ctx patience reader)
    (minor : 26 ≤ ctx.minor) (carried : ∀ msg ∈ messages, msg.raw.Carried ctx)
    (arrives : view.unread reader.inner = encode (messages.flatMap (serialize ctx)) ++ more) :
    ∃ next, narLogs ctx patience (messages.length + fuel) yielded reader =
      narLogs ctx patience fuel (yielded ++ messages.map ProcessStderr.received) next ∧
      reader.Leaves next more := by
  induction messages generalizing yielded reader with
  | nil =>
    refine ⟨reader, ?_, fit.valid, fit.regular, arrives, rfl, rfl, Nat.le_refl _⟩
    rw [List.length_nil, Nat.zero_add, List.map_nil, List.append_nil]
  | cons msg rest ih =>
    rw [List.flatMap_cons, Protocol.encode_append, List.append_assoc, ← LogMessage.serialize_raw] at arrives
    obtain ⟨between, ran, leaves⟩ := fit.run_message minor (carried msg List.mem_cons_self) arrives
    obtain ⟨next, later, left⟩ := @ih (yielded ++ [ProcessStderr.received msg]) between
      (fit.leaves leaves) (fun other member => carried other (List.mem_cons_of_mem _ member)) leaves.unread
    refine ⟨next, ?_, left.valid, left.regular, left.unread, left.limit.trans leaves.limit,
      left.same.trans leaves.same, Nat.le_trans left.spent leaves.spent⟩
    rw [List.length_cons, Nat.add_right_comm, narLogs, ran]
    rw [List.append_assoc] at later
    cases msg <;> exact later

/-- An archive, as the format has it. -/
def Archive (bytes : Bytes) : Prop := Derives fieldAlign .root bytes ∧ bytes.length < 2 ^ 64

omit [Layout] [DataEncoding] [AsyncBytesRead R] [AsyncPrepare R] [LawfulBytesRead R] [LawfulPrepare R] in
/-- The automaton ends behind an archive, whatever follows it. -/
theorem Archive.ends {archive : Bytes} (is : Archive archive) (rest : Bytes) :
    ∃ level, drive true .start (archive ++ rest) = .done ⟨.eof, level⟩ archive.length := by
  obtain ⟨level, reads⟩ := derives_root_iff.mp is.1
  exact ⟨level, (reads.short is.2).finishes rest⟩

/-- `nar_from_path` when there is an archive. -/
theorem Stands.narFromPath_last {ctx : Ctx} {patience fuel : Nat} {client : DaemonClient R}
    {messages : List LogMessage} {archive rest : Bytes}
    (stands : client.Stands ctx patience (encode (messages.flatMap (serialize ctx)) ++
      (encode (serialize ctx RawLogMessage.last) ++ (archive ++ rest))))
    (minor : 26 ≤ ctx.minor) (enough : messages.length < fuel)
    (carried : ∀ msg ∈ messages, msg.raw.Carried ctx) (is : Archive archive) :
    ∃ next, client.narFromPath ctx patience fuel none =
        (messages.map ProcessStderr.received, .ok (), next) ∧
      next.Reading ctx patience archive rest := by
  obtain ⟨more, rfl⟩ : ∃ more, fuel = messages.length + (more + 1) := ⟨fuel - messages.length - 1, by omega⟩
  obtain ⟨reader, mid, ready, fit, unread, released⟩ := stands.getReader
  obtain ⟨between, looped, leaves⟩ :=
    @narLogs_messages _ _ R _ _ _ _ ctx patience (more + 1) messages [] reader _ fit minor carried unread
  have fit := fit.leaves leaves
  obtain ⟨next, ran, left⟩ := fit.run_message minor (show RawLogMessage.Carried ctx .last from trivial)
    leaves.unread
  have fit := fit.leaves left
  have before : Before (archive ++ rest) (view.limit next.inner) (budget next.inner) next.inner :=
    ⟨left.valid, left.regular, left.unread, rfl, Nat.le_refl _⟩
  refine ⟨(mid.withReader next).withLoan ⟨.lent none, some ⟨some (.new next.inner), []⟩⟩, ?_, ?_, fit.within⟩
  · rw [List.nil_append, narLogs, ran] at looped
    rw [narFromPath, narStream, ready]
    simp only [looped]
    rfl
  · exact ⟨_, _, .out rfl rfl (before.passes (is.ends rest)) (fun some => absurd rfl some),
      fit.patient, fit.half⟩

omit [Layout] [DataEncoding] [AsyncPrepare R] [LawfulPrepare R] in
/-- However much of an archive is read, the client then stands behind it. -/
theorem Reading.readNar {ctx : Ctx} {patience : Nat} {archive rest : Bytes} {client : DaemonClient R}
    (reading : client.Reading ctx patience archive rest) (rooms : List Nat) :
    ∃ read next, client.readNar rooms = some (read, next) ∧ read <+: archive ∧
      next.Stands ctx patience rest := by
  obtain ⟨⟨limit, cap, holds, patient, half⟩, within⟩ := reading
  obtain ⟨read, loan, reads, starts, holds⟩ := holds.readSome List.nil_prefix rooms []
  refine ⟨read, client.withLoan loan.dropLent, ?_, starts, ⟨limit, cap, holds.dropped, patient, half⟩,
    within⟩
  rw [DaemonClient.readNar, reads]
  rfl

end Standing

end DaemonClient

end Client

end Harmonia.Daemon
