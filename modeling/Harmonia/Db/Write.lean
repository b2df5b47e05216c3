import Harmonia.Db.Query

/-!
# Changes of the store database

`write.rs`. A statement outside a transaction is one by itself; `register_valid_path` is one
transaction, which is rolled back when it is dropped without having been committed.
-/

namespace Harmonia.Db

open Library Store

/-- `RegisterPathParams`. -/
structure RegisterPathParams where
  /-- `path`. -/
  path : Text
  /-- `hash`. -/
  hash : Text
  /-- `registration_time`. -/
  registrationTime : SystemTime
  /-- `deriver`. -/
  deriver : Option Text
  /-- `nar_size`. -/
  narSize : Option UInt64
  /-- `ultimate`. -/
  ultimate : Bool
  /-- `sigs`. -/
  sigs : Option Text
  /-- `ca`. -/
  ca : Option Text
  /-- `references`. -/
  references : BTreeSet Text

/-- `execute`: a statement is prepared and run. -/
def execute {α : Type} (faults : Faults) (statement : Statement) (change : Option α) : Answer α := do
  prepareCached faults statement
  if faults statement = some .step then .error (.sqlite .sqliteFailure)
  else
    match change with
    | some result => pure result
    | none => .error (.sqlite .sqliteFailure)

/-- What a function returns, with the database it leaves behind. -/
abbrev Change (α : Type) := Answer α × Database

/-- A function that fails leaves the database as it was: its transaction is rolled back. -/
def settle {α : Type} (db : Database) : Answer (α × Database) → Change α
  | .ok (value, db') => (.ok value, db')
  | .error failure => (.error failure, db)

/-- `system_time_to_unix`, which may panic. -/
def unixTime (time : SystemTime) : Answer Int64 :=
  match systemTimeToUnix time with
  | some seconds => .ok seconds
  | none => .error .panicked

/-- The row that `register_valid_path` inserts. -/
def RegisterPathParams.row (params : RegisterPathParams) (registrationTime : Int64) (id : Int) :
    ValidPathsRow :=
  { id
    path := params.path.bytes
    hash := params.hash.bytes
    registrationTime
    deriver := params.deriver.map Text.bytes
    narSize := params.narSize.map UInt64.toInt64
    ultimate := some (if params.ultimate then 1 else 0)
    sigs := params.sigs.map Text.bytes
    ca := params.ca.map Text.bytes }

section Changes

variable (faults : Faults) (db : Database)

/-- One turn of the loop over the references. -/
def registerReference (id : Int) (db : Database) (reference : Text) : Answer Database :=
  -- `ok` takes any error for no row.
  match (prepareAndQueryRow faults (.selectId reference.bytes) (db.rowsOf reference.bytes)
    fun row => .ok row.id).toOption with
  | some refId => execute faults (.insertRef id refId) (db.insertRef ⟨id, refId⟩)
  | none => .ok db

/-- `register_valid_path`. -/
def registerValidPath (params : RegisterPathParams) : Change Int :=
  settle db do
    execute faults .begin (some ())
    let registrationTime ← unixTime params.registrationTime
    let inserted ← execute faults (.insertPath params.path.bytes)
      (db.insertValidPath (params.row registrationTime))
    let id := inserted.lastPathId
    let referred ← params.references.items.foldlM (registerReference faults id) inserted
    execute faults .commit (some ())
    pure (id, referred)

/-- `add_reference`. The rows of both paths are joined. -/
def addReference (referrer reference : Bytes) : Change Unit :=
  settle db do
    let pairs := (db.rowsOf referrer).flatMap fun r => (db.rowsOf reference).map fun f => RefsRow.mk r.id f.id
    let changed ← execute faults (.addReference referrer reference)
      (pairs.foldlM (fun (db : Database) row => db.insertRef row) db)
    pure ((), changed)

/-- `remove_reference`. -/
def removeReference (referrer reference : Bytes) : Change Unit :=
  settle db do
    let changed ← execute faults (.removeReference referrer reference)
      (some (db.deleteRef (db.idOf referrer) (db.idOf reference)))
    pure ((), changed)

/-- `register_derivation_output`. -/
def registerDerivationOutput (drvPath : Bytes) (outputId outputPath : Text) : Change Unit :=
  settle db do
    let rows := (db.rowsOf drvPath).map fun v => DerivationOutputsRow.mk v.id outputId.bytes outputPath.bytes
    let changed ← execute faults (.insertOutput drvPath outputId.bytes)
      (rows.foldlM (fun (db : Database) row => db.insertDerivationOutput row) db)
    pure ((), changed)

/-- `invalidate_path`. -/
def invalidatePath (path : Bytes) : Change Bool :=
  settle db do
    let (rows, changed) ← execute faults (.deletePath path) (db.deletePath path)
    pure (decide (0 < rows), changed)

/-- `update_signatures`. -/
def updateSignatures (path : Bytes) (sigs : Text) : Change Unit :=
  settle db do
    let changed ← execute faults (.updateSigs path) (some (db.updateSigs path sigs.bytes))
    pure ((), changed)

/-- `register_realisation`. -/
def registerRealisation (drvPath outputName : Text) (outputPathId : Int) (signatures : Option Text) :
    Change Int :=
  settle db do
    let changed ← execute faults (.insertRealisation drvPath.bytes outputName.bytes)
      (db.insertRealisation fun id =>
        ⟨id, drvPath.bytes, outputName.bytes, outputPathId, signatures.map Text.bytes⟩)
    pure (changed.lastRealisationId, changed)

/-- `add_realisation_reference`. -/
def addRealisationReference (referrerId referenceId : Int) : Change Unit :=
  settle db do
    let changed ← execute faults (.insertRealisationRef referrerId referenceId)
      (db.insertRealisationRef ⟨referrerId, some referenceId⟩)
    pure ((), changed)

end Changes

end Harmonia.Db
