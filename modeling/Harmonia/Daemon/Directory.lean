import Harmonia.Daemon.AddMultiple
import Harmonia.Daemon.Agreement
import Harmonia.Protocol.Placed

/-!
# One store directory for a connection

A `DaemonClient` and a `DaemonConnection` are given a store directory each, which their readers and writers hold.
The body of `AddMultipleToStore` has a reader and a writer of its own: both are built with the version of the
connection and nothing else. What `AddBuildLog` carries is written as a path and read as the name of one.
-/

namespace Harmonia.Daemon

open Library Store Protocol

/-- `builder().set_store_dir(dir)` after the versions were exchanged: the reader and the writer of a connection. -/
def connection (dir : StoreDir) (minor : Nat) : Ctx := { Ctx.standard with storeDir := dir, minor := minor }

/-- `builder().set_version(version)`: the reader and the writer of the body of `AddMultipleToStore`. -/
def nested (ctx : Ctx) : Ctx := { Ctx.standard with minor := ctx.minor }

section Directory

variable [Layout] [DataEncoding]

/-! ## What is on the wire -/

/-- The client's body of `AddMultipleToStore`. -/
def DaemonClient.writeBody {S : Type} (ctx : Ctx) (room : Nat → Nat → Nat) (size : UInt64)
    (stream : List (Except IoError (AddToStoreItem S))) : List (WriteStep S) :=
  writeAddMultipleToStoreStream (nested ctx) room size stream

/-- What the client writes in it of one store path. -/
def DaemonClient.writeItem (ctx : Ctx) (info : ValidPathInfo) : List Token := serialize (nested ctx) info

omit [Layout] in
/-- The body is the count, and what is written of each store path before its archive. -/
theorem DaemonClient.writeBody_items {S : Type} [AsyncBufRead S] [LawfulBufRead S] {ctx : Ctx}
    {room : Nat → Nat → Nat} {items : List (AddToStoreItem S)} (sendable : Sendable (nested ctx) room items) :
    WriteStep.Writing (toLeBytes (UInt64.ofNat items.length) ++ (items.map AddToStoreItem.content).flatMap
        fun item => encode (writeItem ctx item.1) ++ item.2)
      (writeBody ctx room (UInt64.ofNat items.length) (items.map .ok)) := by
  have writing := sendable.writing
  rwa [encodeStream, List.length_map] at writing

/-- How the server reads one store path in it: the reader that `parse_add_multiple_to_store` is given. -/
def DaemonConnection.readItem (ctx : Ctx) (input : Bytes) : Outcome ValidPathInfo :=
  (readValue ValidPathInfo (nested ctx)).run (nested ctx) input

/-- What the server writes of a result, but for an archive. -/
def resultTokens (ctx : Ctx) : (op : Operation) → Response op → List Token
  | .setOptions, _ | .addToStoreNar, _ | .registerDrvOutput, _ | .addMultipleToStore, _ | .narFromPath, _ => []
  | .buildPaths, _ | .ensurePath, _ | .addTempRoot, _ | .addIndirectRoot, _ | .optimiseStore, _
  | .addSignatures, _ | .addBuildLog, _ => serialize ctx IgnoredOne.ignored
  | .isValidPath, value => serialize ctx value
  | .queryReferrers, value => serialize ctx value
  | .addToStore, value => serialize ctx value
  | .findRoots, value => serialize ctx value
  | .collectGarbage, value => serialize ctx value
  | .queryAllValidPaths, value => serialize ctx value
  | .queryPathInfo, value => serialize ctx value
  | .queryPathFromHashPart, value => serialize ctx value
  | .queryValidPaths, value => serialize ctx value
  | .querySubstitutablePaths, value => serialize ctx value
  | .queryValidDerivers, value => serialize ctx value
  | .verifyStore, value => serialize ctx value
  | .buildDerivation, value => serialize ctx value
  | .queryMissing, value => serialize ctx value
  | .queryDerivationOutputMap, value => serialize ctx value
  | .queryRealisation, value => serialize ctx value
  | .buildPathsWithResults, value => serialize ctx value
  | .addPermRoot, value => serialize ctx value

/-- The archive in a result. -/
def resultArchive : (op : Operation) → Response op → Bytes
  | .narFromPath, nar => nar.bytes
  | _, _ => []

/-- What the server writes in reply to a request, but for an archive. -/
def replyTokens (ctx : Ctx) {op : Operation} (reaction : Reaction op) : List Token :=
  reaction.logs.flatMap (serialize ctx) ++
    match reaction.result with
    | .ok value => serialize ctx RawLogMessage.last ++ resultTokens ctx op value
    | .error error =>
      (logError (error.fillOperation op)).elim [] fun error => serialize ctx (RawLogMessage.error error)

/-- The archive in a reply. -/
def replyArchive {op : Operation} (reaction : Reaction op) : Bytes :=
  match reaction.result with
  | .ok value => resultArchive op value
  | .error _ => []

/-- A result is what is written of it, and its archive. -/
theorem resultBytes_eq (ctx : Ctx) (op : Operation) (value : Response op) :
    resultBytes ctx op value = encode (resultTokens ctx op value) ++ resultArchive op value := by
  cases op with
  | narFromPath => rfl
  | _ => exact (List.append_nil _).symm

/-- A reply is what is written of it, and its archive. -/
theorem reply_eq (ctx : Ctx) {op : Operation} (reaction : Reaction op) :
    reply ctx reaction = encode (replyTokens ctx reaction) ++ replyArchive reaction := by
  unfold reply replyTokens replyArchive terminal logBytes
  cases reaction.result with
  | ok value =>
    dsimp only
    rw [resultBytes_eq, encode_append, encode_append]
    simp only [List.append_assoc]
  | error error =>
    dsimp only
    rw [encode_append, List.append_nil]
    cases logError (error.fillOperation op) with
    | none => rfl
    | some log => rfl

/-- What is known of a store path in what a request carries. -/
def handed : (op : Operation) → op.Payload → Option UnkeyedValidPathInfo
  | .addToStoreNar, request => some request.pathInfo.info
  | _, _ => none

variable [Digest]

/-- Both ends use one store directory in everything that belongs to an operation. -/
structure OneStoreDir (ctx : Ctx) (op : Operation) : Prop where
  /-- A request names paths below it. -/
  requestRendered : ∀ payload : op.Payload, AllBelow ctx.storeDir (DaemonClient.writeRequest ctx ⟨op, payload⟩)
  /-- A request is read with the same paths, given what the server reads and the client does not write. -/
  requestParsed : ∀ payload : op.Payload, Understood ctx payload → ∃ more, ∀ tail,
    (tryDeserialize ctx).run ctx (encode (DaemonClient.writeRequest ctx ⟨op, payload⟩) ++ (more ++ tail)) =
      .ok (some (⟨op, payload⟩ : Request)) tail
  /-- What is known of a path in a request is known for it. -/
  requestReceived : ∀ (payload : op.Payload) (input rest : Bytes),
    (tryDeserialize ctx).run ctx input = .ok (some payload) rest →
      ∀ info ∈ handed op payload, info.storeDir = ctx.storeDir
  /-- A body names paths below it. -/
  bodyRendered : op = .addMultipleToStore → ∀ info : ValidPathInfo,
    AllBelow ctx.storeDir (DaemonClient.writeItem ctx info)
  /-- A body is read with the same paths. -/
  bodyParsed : op = .addMultipleToStore → ∀ info : ValidPathInfo,
    Carried { nested ctx with storeDir := ctx.storeDir } info → ∀ tail,
      DaemonConnection.readItem ctx (encode (DaemonClient.writeItem ctx info) ++ tail) = .ok info tail
  /-- What is known of a path in a body is known for it. -/
  bodyReceived : op = .addMultipleToStore → ∀ (info : ValidPathInfo) (input rest : Bytes),
    DaemonConnection.readItem ctx input = .ok info rest → info.info.storeDir = ctx.storeDir
  /-- A reply names paths below it. -/
  replyRendered : ∀ reaction : Reaction op, AllBelow ctx.storeDir (replyTokens ctx reaction)
  /-- A result is read with the same paths. -/
  resultParsed : ∀ (other : op ≠ .narFromPath) (value : Response op), CarriedResponse ctx op value →
    ∀ tail, ∃ rest, (readResult ctx op other).run ctx (resultBytes ctx op value ++ tail) = .ok value rest

/-! ## Rendering -/

omit [Digest] in
/-- What the server writes of a result lies below its directory. -/
theorem placed_result (ctx : Ctx) (op : Operation) (value : Response op) :
    AllBelow ctx.storeDir (resultTokens ctx op value) := by
  cases op with
  | setOptions | addToStoreNar | registerDrvOutput | addMultipleToStore | narFromPath => exact .nil
  | buildPaths | ensurePath | addTempRoot | addIndirectRoot | optimiseStore | addSignatures | addBuildLog =>
    exact placed ctx IgnoredOne.ignored
  | _ => exact placed ctx value

omit [Digest] in
/-- What the server writes in reply lies below its directory. -/
theorem placed_reply (ctx : Ctx) {op : Operation} (reaction : Reaction op) :
    AllBelow ctx.storeDir (replyTokens ctx reaction) := by
  have logs : AllBelow ctx.storeDir (reaction.logs.flatMap (serialize ctx)) := .flatMap fun msg _ => placed ctx msg
  apply logs.append
  cases reaction.result with
  | ok value => exact (placed ctx RawLogMessage.last).append (placed_result ctx op value)
  | error error =>
    dsimp only
    cases logError (error.fillOperation op) with
    | none => exact .nil
    | some log => exact placed ctx (RawLogMessage.error log)

/-! ## Parsing -/

/-- For every operation but one the client writes what the server reads, or the start of it. -/
theorem writeArguments_more (ctx : Ctx) {op : Operation} (named : op ≠ .addBuildLog) (payload : op.Payload) :
    ∃ more, DaemonClient.writeArguments ctx op payload ++ more = serialize ctx payload := by
  cases op with
  | addBuildLog => exact absurd rfl named
  | queryValidPaths =>
    by_cases minor : 27 ≤ ctx.minor
    · use []
      show (serialize ctx payload.paths ++ ite _ _ _) ++ [] = _
      rw [if_pos minor, List.append_nil]
      rfl
    · use serialize ctx payload.substitute
      show (serialize ctx payload.paths ++ ite _ _ _) ++ _ = _
      rw [if_neg minor, List.append_nil]
      rfl
  | collectGarbage =>
    use serialize ctx payload.removed1 ++ (serialize ctx payload.removed2 ++ serialize ctx payload.removed3)
    simp only [DaemonClient.writeArguments, List.append_assoc]
    rfl
  | addToStoreNar | addToStore =>
    use []
    simp only [DaemonClient.writeArguments, List.append_assoc, List.append_nil]
    rfl
  | _ => exact ⟨[], List.append_nil _⟩

/-- A request that is understood is read when what is missing follows. -/
theorem run_writeRequest {ctx : Ctx} {op : Operation} (named : op ≠ .addBuildLog) {payload : op.Payload}
    (understood : Understood ctx payload) :
    ∃ more, ∀ tail, (tryDeserialize ctx).run ctx
      (encode (DaemonClient.writeRequest ctx ⟨op, payload⟩) ++ (more ++ tail)) =
        .ok (some (⟨op, payload⟩ : Request)) tail := by
  obtain ⟨more, joined⟩ := writeArguments_more ctx named payload
  use encode more
  intro tail
  have arguments : encode (DaemonClient.writeArguments ctx op payload) ++ (encode more ++ tail) =
      encode (serialize ctx payload) ++ tail := by
    rw [← joined, encode_append, List.append_assoc]
  rw [DaemonClient.writeRequest, encode_append, List.append_assoc, arguments]
  exact run_request (Sent.reads understood tail)

/-- No request for a build log is read, whatever follows it. -/
theorem addBuildLog_unread {ctx : Ctx} (payload : Operation.Payload .addBuildLog) (tail rest : Bytes) :
    (tryDeserialize ctx).run ctx (encode (DaemonClient.writeRequest ctx ⟨.addBuildLog, payload⟩) ++ tail) ≠
      .ok (some (⟨.addBuildLog, payload⟩ : Request)) rest := by
  intro ran
  rw [DaemonClient.writeRequest, encode_append, List.append_assoc] at ran
  have ran := run_request_some ran
  exact addBuildLog_longer payload ran

omit [Digest] in
/-- A result is read, and where the client does not read a word that the server writes, the word is left. -/
theorem run_resultBytes {ctx : Ctx} {op : Operation} (other : op ≠ .narFromPath) {value : Response op}
    (carried : CarriedResponse ctx op value) (tail : Bytes) :
    ∃ rest, (readResult ctx op other).run ctx (resultBytes ctx op value ++ tail) = .ok value rest := by
  cases matched : Matched op with
  | true => exact ⟨tail, readResult_resultBytes other matched carried tail⟩
  | false =>
    cases op with
    | ensurePath | addTempRoot | addIndirectRoot | optimiseStore | addSignatures | addBuildLog =>
      exact ⟨_, rfl⟩
    | _ => cases matched

omit [Layout] [Digest] in
/-- What is known of a path is known for the directory of the reader that it was read by. -/
theorem storeDir_of_carried {ctx : Ctx} {info : ValidPathInfo} (carried : Carried ctx info) :
    info.info.storeDir = ctx.storeDir := by
  obtain ⟨-, -, -, -, -, -, -, -, -, same⟩ := carried
  exact same

omit [Digest] in
/-- What a store is handed with a request was read relative to the directory of the connection. -/
theorem handed_storeDir {ctx : Ctx} (large : 128 ≤ ctx.maxBufSize) {op : Operation} {payload : op.Payload}
    {input rest : Bytes} (ran : (tryDeserialize ctx).run ctx input = .ok (some payload) rest)
    {info : UnkeyedValidPathInfo} (member : info ∈ handed op payload) : info.storeDir = ctx.storeDir := by
  cases op with
  | addToStoreNar =>
    cases member
    have carried : Carried ctx payload := Wire.accepts large ran
    exact storeDir_of_carried carried.1
  | _ => cases member

/-! ## Where one directory is used -/

omit [Layout] [Digest] in
/-- The body of `AddMultipleToStore` names paths below the default directory. -/
theorem default_of_bodyRendered {ctx : Ctx} (info : ValidPathInfo)
    (below : AllBelow ctx.storeDir (DaemonClient.writeItem ctx info)) : ctx.storeDir = .default := by
  have first : Token.Below ctx.storeDir (.path .default info.path) := below _ List.mem_cons_self
  have same : StoreDir.default.text.bytes = ctx.storeDir.text.bytes := List.append_cancel_right first
  rcases dir : ctx.storeDir with ⟨⟨bytes, utf8, small⟩⟩
  rw [dir] at same
  cases same
  rfl

omit [Layout] [Digest] in
/-- The name of a path is short. -/
theorem carried_base (dir : StoreDir) (minor : Nat) (path : StorePath) :
    Carried (connection dir minor) (⟨path⟩ : BaseStorePath) := by
  have short := path.name.name.short
  have hash := path.hash.display_length
  have width : encodeLen 20 = 32 := by decide
  have most : maxNameLen = 211 := rfl
  have limit : (connection dir minor).maxBufSize = 1024 * 1024 * 8 := rfl
  refine ⟨trivial, ?_⟩
  show path.display.length ≤ (connection dir minor).maxBufSize
  rw [StorePath.display, List.length_append, List.length_cons]
  omega

/-- Client and server use one store directory for an operation if and only if it is not `AddBuildLog`, and the
directory is the default one if it is `AddMultipleToStore`. -/
theorem oneStoreDir_iff (dir : StoreDir) (minor : Nat) (op : Operation) :
    OneStoreDir (connection dir minor) op ↔
      op ≠ .addBuildLog ∧ (op = .addMultipleToStore → dir = .default) := by
  have large : 128 ≤ (connection dir minor).maxBufSize := show 128 ≤ 1024 * 1024 * 8 by decide
  have roomy : 128 ≤ (nested (connection dir minor)).maxBufSize := show 128 ≤ 1024 * 1024 * 8 by decide
  constructor
  · intro one
    constructor
    · rintro rfl
      have understood : Understood (connection dir minor) (⟨somePath⟩ : Operation.Payload .addBuildLog) :=
        carried_base dir minor somePath
      obtain ⟨more, reads⟩ := one.requestParsed ⟨somePath⟩ understood
      exact addBuildLog_unread ⟨somePath⟩ (more ++ []) [] (reads [])
    · intro multiple
      exact default_of_bodyRendered (someInfo .default) (one.bodyRendered multiple _)
  · rintro ⟨named, default⟩
    have shared (multiple : op = .addMultipleToStore) :
        (nested (connection dir minor)).storeDir = (connection dir minor).storeDir := (default multiple).symm
    constructor
    case requestRendered => exact fun payload => placed_writeRequest _ _
    case requestParsed => exact fun payload => run_writeRequest named
    case requestReceived => exact fun payload input rest ran info => handed_storeDir large ran
    case bodyRendered =>
      intro multiple info
      rw [← shared multiple]
      exact placed (nested (connection dir minor)) info
    case bodyParsed =>
      intro multiple info carried
      rw [← shared multiple] at carried
      exact run_readValue carried
    case bodyReceived =>
      intro multiple info input rest ran
      rw [← shared multiple]
      exact storeDir_of_carried (carried_of_readValue roomy ran)
    case replyRendered => exact placed_reply _
    case resultParsed => exact fun other value carried => run_resultBytes other carried

end Directory

section Samples

attribute [local instance] Store.standard Digest.unasked Layout.least

/-- On a connection for another directory many store paths are sent as paths below the default one, and a request
for a build log is not even read on a connection for the default one. -/
theorem not_oneStoreDir : ¬ OneStoreDir (connection elsewhere 37) .addMultipleToStore ∧
    ¬ OneStoreDir (connection .default 37) .addBuildLog := by
  constructor
  · intro one
    have default := default_of_bodyRendered (someInfo elsewhere) (one.bodyRendered rfl _)
    exact absurd default (by decide +kernel)
  · intro one
    obtain ⟨more, reads⟩ := one.requestParsed ⟨somePath⟩ (carried_base .default 37 somePath)
    exact addBuildLog_unread ⟨somePath⟩ (more ++ []) [] (reads [])

end Samples

end Harmonia.Daemon
