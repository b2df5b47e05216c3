import Harmonia.Db.Query
import Harmonia.Fs.Path
import Harmonia.Library.Lexicographic
import Harmonia.Protocol.Values
import Harmonia.Store.Sri

/-!
# The handler of the local store

`handler.rs`: requests that are answered from the database. A query runs on a thread of its own,
which may be lost; what it returns is converted to the types of the protocol, and what cannot be
converted is left out in most places.
-/

namespace Harmonia.Daemon

open Library Store Protocol Db

/-- `ProtocolError::custom`, by what is in its text. -/
inductive HandlerError where
  /-- `Task join error`. -/
  | taskJoin
  /-- `Database error`. -/
  | database (error : SqliteError)
  /-- `Failed to parse hash`. -/
  | parseHash
  /-- `Failed to convert hash`. -/
  | convertHash
  deriving DecidableEq, Repr

/-- `DaemonResult`. -/
abbrev HandlerResult (α : Type) := Except HandlerError α

/-- `LocalStoreHandler`, with the database behind its lock, the statements that fail there, and whether
the runtime brings the results of its tasks back. -/
structure LocalStoreHandler where
  /-- `store_dir`. -/
  storeDir : StoreDir
  /-- `db`. -/
  db : Database
  /-- Which statements fail. -/
  faults : Faults
  /-- No task is cancelled. -/
  kept : Bool

/-- `spawn_blocking`, awaited, with both kinds of errors mapped. A panic is the task's alone. -/
def spawnBlocking {α : Type} (kept : Bool) (outcome : Answer α) : HandlerResult α :=
  if kept then
    match outcome with
    | .ok value => .ok value
    | .error (.sqlite error) => .error (.database error)
    | .error .panicked => .error .taskJoin
  else .error .taskJoin

/-- `SystemTime::duration_since(UNIX_EPOCH)`, in seconds, unless the time is before it. -/
def registrationTimeOf (time : SystemTime) : Option NonZero :=
  if 0 ≤ time.secs.toInt then NonZero.new (.ofNat time.distance) else none

section Conversions

variable [DataEncoding]

/-- The base name of a path, parsed. -/
def parseBasePath (path : Bytes) : Option StorePath := (Fs.Path.new path).fileName.bind StorePath.fromBytes

/-- A written store path is a file name. -/
theorem display_legal (path : StorePath) : Fs.LegalName path.display := by
  have length : path.display.length = encodeLen 20 + 1 + path.name.bytes.length := by
    rw [StorePath.display, List.length_append, StorePathHash.display_length, List.length_cons]
    omega
  have long : 32 < path.display.length := by
    rw [length]
    have : encodeLen 20 = 32 := by decide
    omega
  have other {name : Bytes} (short : name.length ≤ 2) : path.display ≠ name := by
    intro same
    rw [same] at long
    omega
  constructor
  · exact other (by decide)
  · intro member
    exact (isNameByte_cases (path.display_symbols _ member)).2.2.2.1 rfl
  · exact other (by decide)
  · exact other (by decide)

/-- A path below a directory is parsed without the directory. -/
theorem parseBasePath_display (dir : StoreDir) (path : StorePath) :
    parseBasePath (dir.display path.display) = some path := by
  rw [parseBasePath, StoreDir.display, show (47 : UInt8) = Fs.slash from rfl,
    (display_legal path).fileName_new]
  exact path.fromBytes_display

/-- `Any<Hash>`, converted to a `NarHash`. -/
def parseNarHash (hash : Bytes) : HandlerResult NarHash :=
  match anyFromStr hash with
  | some (hash : Hash) =>
    match Sha256.tryFrom hash with
    | some sha256 => .ok ⟨sha256⟩
    | none => .error .convertHash
  | none => .error .parseHash

/-- `to_protocol_path_info`. -/
def toProtocolPathInfo (info : Db.ValidPathInfo) (storeDir : StoreDir) : HandlerResult UnkeyedValidPathInfo := do
  let narHash ← parseNarHash info.hash.bytes
  let references := info.references.items.filterMap fun path => parseBasePath path.bytes
  let signatures := (info.sigs.map fun sigs => (splitWhitespace sigs.bytes).filterMap Signature.fromStr).getD []
  pure
    { deriver := info.deriver.bind fun deriver => parseBasePath deriver.bytes
      narHash
      references := references.foldl .insert .empty
      registrationTime := registrationTimeOf info.registrationTime
      narSize := info.narSize.getD 0
      ultimate := info.ultimate
      signatures := signatures.foldl .insert .empty
      ca := info.ca.bind fun ca => ContentAddress.fromStr ca.bytes
      storeDir }

namespace LocalStoreHandler

variable (this : LocalStoreHandler)

/-- `is_valid_path`. -/
def isValidPath (path : StorePath) : HandlerResult Bool :=
  spawnBlocking this.kept (Db.isValidPath this.faults this.db (this.storeDir.display path.display))

/-- `query_path_info`. -/
def queryPathInfo (path : StorePath) : HandlerResult (Option UnkeyedValidPathInfo) := do
  let result ← spawnBlocking this.kept
    (Db.queryPathInfo this.faults this.db (this.storeDir.display path.display))
  match result with
  | some info => (toProtocolPathInfo info this.storeDir).map some
  | none => pure none

/-- `query_path_from_hash_part`. -/
def queryPathFromHashPart (hash : StorePathHash) : HandlerResult (Option StorePath) := do
  let result ← spawnBlocking this.kept
    (Db.queryPathFromHashPart this.faults this.db this.storeDir.text.bytes hash.display)
  pure (result.bind fun path => parseBasePath path.bytes)

/-- `query_valid_paths`. -/
def queryValidPaths (paths : BTreeSet StorePath) : HandlerResult (BTreeSet StorePath) :=
  paths.items.foldlM (fun valid path => do
    let isValid ← this.isValidPath path
    pure (if isValid then valid.insert path else valid)) .empty

end LocalStoreHandler

end Conversions

end Harmonia.Daemon
