import Harmonia.Db.Schema
import Harmonia.Store.Path

/-!
# Queries of the store database

`types.rs` and `query.rs`. A statement may fail when it is prepared or when it is stepped, for any
reason that is not the model's; which statements fail is a parameter. A row may fail to be read as
well: a column that is not UTF-8 is not a `String`, and a time may be too early to be converted.
-/

namespace Harmonia.Db

open Library Store

/-- `rusqlite::Error`. -/
inductive SqliteError where
  /-- `QueryReturnedNoRows`. -/
  | queryReturnedNoRows
  /-- `FromSqlConversionFailure` and `IntegralValueOutOfRange`. -/
  | conversion
  /-- `SqliteFailure`. -/
  | sqliteFailure
  deriving DecidableEq, Repr

/-- How a function does not return. -/
inductive Failure where
  /-- With an error. -/
  | sqlite (error : SqliteError)
  /-- It panics. -/
  | panicked
  deriving DecidableEq, Repr

/-- What a function returns. -/
abbrev Answer (α : Type) := Except Failure α

/-- `SystemTime`: seconds since the epoch, and nanoseconds that are added to them. -/
structure SystemTime where
  /-- `tv_sec`. -/
  secs : Int64
  /-- `tv_nsec`. -/
  nanos : Nat
  /-- They are less than a second. -/
  small : nanos < 10 ^ 9
  deriving DecidableEq

/-- The seconds between a time and the epoch, rounded down: `as_secs` of `duration_since`, or of the
duration its error holds. -/
def SystemTime.distance (time : SystemTime) : Nat :=
  if 0 ≤ time.secs.toInt then time.secs.toInt.toNat
  else (-time.secs.toInt).toNat - (if time.nanos = 0 then 0 else 1)

/-- `system_time_to_unix`. The distance to the least time is cast to the least number, which has no
negation. -/
def systemTimeToUnix (time : SystemTime) : Option Int64 :=
  if 0 ≤ time.secs.toInt then some (.ofNat time.distance)
  else if Int64.ofNat time.distance = Int64.minValue then none
  else some (-Int64.ofNat time.distance)

/-- A second is not over at its start. -/
theorem SystemTime.zero_small : 0 < 10 ^ 9 := by decide

/-- `unix_to_system_time`. -/
def unixToSystemTime (timestamp : Int64) : Option SystemTime :=
  if timestamp = Int64.minValue then none else some ⟨timestamp, 0, SystemTime.zero_small⟩

/-- `ValidPathInfo`. -/
structure ValidPathInfo where
  /-- `id`. -/
  id : Int
  /-- `path`. -/
  path : Text
  /-- `hash`. -/
  hash : Text
  /-- `registration_time`. -/
  registrationTime : SystemTime
  /-- `deriver`. -/
  deriver : Option Text
  /-- `nar_size`. -/
  narSize : Option UInt64
  /-- `ultimate`. -/
  ultimate : Bool
  /-- `sigs`. -/
  sigs : Option Text
  /-- `ca`. -/
  ca : Option Text
  /-- `references`. -/
  references : BTreeSet Text

/-- `DerivationOutput`. -/
structure DerivationOutput where
  /-- `drv_id`. -/
  drvId : Int
  /-- `output_id`. -/
  outputId : Text
  /-- `path`. -/
  path : Text

/-- `Realisation`. -/
structure Realisation where
  /-- `id`. -/
  id : Int
  /-- `drv_path`. -/
  drvPath : Text
  /-- `output_name`. -/
  outputName : Text
  /-- `output_path_id`. -/
  outputPathId : Int
  /-- `signatures`. -/
  signatures : Option Text

/-- The statements of the crate, with what is bound to them. -/
inductive Statement where
  | selectPathInfo (path : Bytes)
  | selectPathInfoById (id : Int)
  | selectFirstFrom (start : Bytes)
  | selectExists (path : Bytes)
  | selectReferences (path : Bytes)
  | selectReferencesById (id : Int)
  | selectReferrers (path : Bytes)
  | selectValidDerivers (outputPath : Bytes)
  | selectDerivationOutputs (drvPath : Bytes)
  | selectAllPaths
  | selectCount
  | selectRealisation (drvPath outputName : Bytes)
  | begin
  | insertPath (path : Bytes)
  | selectId (path : Bytes)
  | insertRef (referrer reference : Int)
  | commit
  | addReference (referrer reference : Bytes)
  | removeReference (referrer reference : Bytes)
  | insertOutput (drvPath outputId : Bytes)
  | deletePath (path : Bytes)
  | updateSigs (path : Bytes)
  | insertRealisation (drvPath outputName : Bytes)
  | insertRealisationRef (referrer reference : Int)
  deriving DecidableEq

/-- When a statement fails. -/
inductive Fault where
  | prepare
  | step
  deriving DecidableEq, Repr

/-- The statements that fail. -/
abbrev Faults := Statement → Option Fault

/-- No statement fails. -/
def Faults.none : Faults := fun _ => .none

/-- `prepare_cached`. -/
def prepareCached (faults : Faults) (statement : Statement) : Answer Unit :=
  if faults statement = some .prepare then .error (.sqlite .sqliteFailure) else .ok ()

/-- `query_row` of a prepared statement. -/
def queryRow {ρ α : Type} (faults : Faults) (statement : Statement) (rows : List ρ) (get : ρ → Answer α) :
    Answer α :=
  if faults statement = some .step then .error (.sqlite .sqliteFailure)
  else
    match rows with
    | [] => .error (.sqlite .queryReturnedNoRows)
    | row :: _ => get row

/-- `query` of a prepared statement, and `next` until there are no rows. -/
def queryAll {ρ α : Type} (faults : Faults) (statement : Statement) (rows : List ρ) (get : ρ → Answer α) :
    Answer (List α) :=
  if faults statement = some .step then .error (.sqlite .sqliteFailure) else rows.mapM get

/-- `query_row` of a connection, which prepares the statement too. -/
def prepareAndQueryRow {ρ α : Type} (faults : Faults) (statement : Statement) (rows : List ρ)
    (get : ρ → Answer α) : Answer α := do
  prepareCached faults statement
  queryRow faults statement rows get

/-- `get` of a `String`. -/
def getText (bytes : Bytes) : Answer Text :=
  match Text.fromUtf8 bytes with
  | some text => .ok text
  | none => .error (.sqlite .conversion)

/-- `get` of an `Option<String>`. -/
def getTextOption : Option Bytes → Answer (Option Text)
  | none => .ok none
  | some bytes => (getText bytes).map some

/-- `get` of an `Option<i32>`. -/
def getI32Option : Option Int64 → Answer (Option Int32)
  | none => .ok none
  | some number =>
    if number.toInt32.toInt64 = number then .ok (some number.toInt32) else .error (.sqlite .conversion)

/-- `unix_to_system_time` of a column. -/
def getTime (timestamp : Int64) : Answer SystemTime :=
  match unixToSystemTime timestamp with
  | some time => .ok time
  | none => .error .panicked

/-- The closure that reads a row of `ValidPaths`. -/
def readPathInfo (row : ValidPathsRow) : Answer ValidPathInfo := do
  let path ← getText row.path
  let hash ← getText row.hash
  let registrationTime ← getTime row.registrationTime
  let deriver ← getTextOption row.deriver
  let ultimate ← getI32Option row.ultimate
  let sigs ← getTextOption row.sigs
  let ca ← getTextOption row.ca
  pure ⟨row.id, path, hash, registrationTime, deriver, row.narSize.map Int64.toUInt64,
    ultimate.getD 0 ≠ 0, sigs, ca, .empty⟩

/-- `JOIN ValidPaths v ON … = v.id`: the paths of an id. -/
def Database.pathsOfId (db : Database) (id : Int) : List Bytes := (db.rowsOfId id).map ValidPathsRow.path

section Queries

variable (faults : Faults) (db : Database)

/-- `query_references_by_id`. -/
def queryReferencesById (id : Int) : Answer (BTreeSet Text) := do
  prepareCached faults (.selectReferencesById id)
  let paths ← queryAll faults (.selectReferencesById id)
    ((db.refs.filter fun row => row.referrer = id).flatMap fun row => db.pathsOfId row.reference) getText
  pure (paths.foldl .insert .empty)

/-- What `query_path_info` and `query_path_info_by_id` make of the row. -/
def pathInfoOf : Answer ValidPathInfo → Answer (Option ValidPathInfo)
  | .ok info => do
    let references ← queryReferencesById faults db info.id
    pure (some { info with references := references })
  | .error (.sqlite .queryReturnedNoRows) => pure none
  | .error failure => .error failure

/-- `query_path_info`. -/
def queryPathInfo (path : Bytes) : Answer (Option ValidPathInfo) := do
  prepareCached faults (.selectPathInfo path)
  pathInfoOf faults db (queryRow faults (.selectPathInfo path) (db.rowsOf path) readPathInfo)

/-- `query_path_info_by_id`. -/
def queryPathInfoById (id : Int) : Answer (Option ValidPathInfo) := do
  prepareCached faults (.selectPathInfoById id)
  pathInfoOf faults db (queryRow faults (.selectPathInfoById id) (db.rowsOfId id) readPathInfo)

/-- `query_path_from_hash_part`. -/
def queryPathFromHashPart (storeDir hashPart : Bytes) : Answer (Option Text) :=
  let start := storeDir ++ 47 :: hashPart
  do
    prepareCached faults (.selectFirstFrom start)
    let rows := db.pathIndex.filter fun path => start ≤ path
    -- `ok` takes any error for no row.
    match (queryRow faults (.selectFirstFrom start) rows getText).toOption with
    | some path => pure (if start.isPrefixOf path.bytes then some path else none)
    | none => pure none

/-- `is_valid_path`. -/
def isValidPath (path : Bytes) : Answer Bool := do
  prepareCached faults (.selectExists path)
  let row := queryRow faults (.selectExists path) (db.rowsOf path) fun _ => .ok ()
  -- `is_ok` takes any error for no row.
  pure row.isOk

/-- What a path refers to. -/
def referencesOf (path : Bytes) : List Bytes :=
  (db.refs.filter fun row => some row.referrer = db.idOf path).flatMap fun row => db.pathsOfId row.reference

/-- What refers to a path. -/
def referrersOf (path : Bytes) : List Bytes :=
  (db.refs.filter fun row => some row.reference = db.idOf path).flatMap fun row => db.pathsOfId row.referrer

/-- `query_references`. -/
def queryReferences (path : Bytes) : Answer (BTreeSet Text) := do
  prepareCached faults (.selectReferences path)
  let paths ← queryAll faults (.selectReferences path) (referencesOf db path) getText
  pure (paths.foldl .insert .empty)

/-- `query_referrers`. -/
def queryReferrers (path : Bytes) : Answer (BTreeSet Text) := do
  prepareCached faults (.selectReferrers path)
  let paths ← queryAll faults (.selectReferrers path) (referrersOf db path) getText
  pure (paths.foldl .insert .empty)

/-- `query_valid_derivers`. -/
def queryValidDerivers (outputPath : Bytes) : Answer (List Text) := do
  prepareCached faults (.selectValidDerivers outputPath)
  queryAll faults (.selectValidDerivers outputPath)
    ((db.derivationOutputs.filter fun row => row.path = outputPath).flatMap fun row =>
      db.pathsOfId row.drv) getText

/-- The closure that reads a row of `DerivationOutputs`. -/
def readDerivationOutput (row : DerivationOutputsRow) : Answer DerivationOutput := do
  let outputId ← getText row.id
  let path ← getText row.path
  pure ⟨row.drv, outputId, path⟩

/-- `query_derivation_outputs`. -/
def queryDerivationOutputs (drvPath : Bytes) : Answer (List DerivationOutput) := do
  prepareCached faults (.selectDerivationOutputs drvPath)
  queryAll faults (.selectDerivationOutputs drvPath)
    (db.derivationOutputs.filter fun row => (db.pathsOfId row.drv).contains drvPath)
    readDerivationOutput

/-- `query_all_valid_paths`. -/
def queryAllValidPaths : Answer (List Text) := do
  prepareCached faults .selectAllPaths
  queryAll faults .selectAllPaths (db.validPaths.map ValidPathsRow.path) getText

/-- `count_valid_paths`. -/
def countValidPaths : Answer UInt64 :=
  prepareAndQueryRow faults .selectCount [db.validPaths.length] fun count => .ok (.ofNat count)

/-- The closure that reads a row of `Realisations`. -/
def readRealisation (row : RealisationsRow) : Answer Realisation := do
  let drvPath ← getText row.drvPath
  let outputName ← getText row.outputName
  let signatures ← getTextOption row.signatures
  pure ⟨row.id, drvPath, outputName, row.outputPath, signatures⟩

/-- `query_realisation`. -/
def queryRealisation (drvPath outputName : Bytes) : Answer (Option Realisation) := do
  prepareCached faults (.selectRealisation drvPath outputName)
  let rows := db.realisations.filter fun row =>
    row.drvPath = drvPath ∧ row.outputName = outputName
  match queryRow faults (.selectRealisation drvPath outputName) rows readRealisation with
  | .ok realisation => pure (some realisation)
  | .error (.sqlite .queryReturnedNoRows) => pure none
  | .error failure => .error failure

end Queries

end Harmonia.Db
