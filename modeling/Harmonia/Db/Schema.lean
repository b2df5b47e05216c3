import Harmonia.Io.Poll

/-!
# The tables of the store database

`schema.rs`: the five tables, and what SQLite's documentation says of the statements the crate runs
on them. A text column holds bytes, for a file that another program wrote need not hold UTF-8. A
statement that fails changes nothing, so it is a partial function on databases.
-/

namespace Harmonia.Db

/-- A row of `ValidPaths`. -/
structure ValidPathsRow where
  /-- `id`. -/
  id : Int
  /-- `path`. -/
  path : Bytes
  /-- `hash`. -/
  hash : Bytes
  /-- `registrationTime`. -/
  registrationTime : Int64
  /-- `deriver`. -/
  deriver : Option Bytes
  /-- `narSize`. -/
  narSize : Option Int64
  /-- `ultimate`. -/
  ultimate : Option Int64
  /-- `sigs`. -/
  sigs : Option Bytes
  /-- `ca`. -/
  ca : Option Bytes
  deriving DecidableEq

/-- A row of `Refs`. -/
structure RefsRow where
  /-- `referrer`. -/
  referrer : Int
  /-- `reference`. -/
  reference : Int
  deriving DecidableEq

/-- A row of `DerivationOutputs`. -/
structure DerivationOutputsRow where
  /-- `drv`. -/
  drv : Int
  /-- `id`. -/
  id : Bytes
  /-- `path`. -/
  path : Bytes
  deriving DecidableEq

/-- A row of `Realisations`. -/
structure RealisationsRow where
  /-- `id`. -/
  id : Int
  /-- `drvPath`. -/
  drvPath : Bytes
  /-- `outputName`. -/
  outputName : Bytes
  /-- `outputPath`. -/
  outputPath : Int
  /-- `signatures`. -/
  signatures : Option Bytes
  deriving DecidableEq

/-- A row of `RealisationsRefs`. -/
structure RealisationsRefsRow where
  /-- `referrer`. -/
  referrer : Int
  /-- `realisationReference`. -/
  realisationReference : Option Int
  deriving DecidableEq

/-- A database with `SCHEMA_SQL` and `CA_SCHEMA_SQL`. The rows of a table stand in the order they
were inserted in. -/
structure Database where
  /-- `ValidPaths`. -/
  validPaths : List ValidPathsRow
  /-- `Refs`. -/
  refs : List RefsRow
  /-- `DerivationOutputs`. -/
  derivationOutputs : List DerivationOutputsRow
  /-- `Realisations`. -/
  realisations : List RealisationsRow
  /-- `RealisationsRefs`. -/
  realisationsRefs : List RealisationsRefsRow
  /-- What `sqlite_sequence` holds for `ValidPaths`: the last id that was given. -/
  lastPathId : Int
  /-- What it holds for `Realisations`. -/
  lastRealisationId : Int
  deriving DecidableEq

/-- The greatest id. -/
def maxRowid : Int := 2 ^ 63 - 1

namespace Database

/-- `open_memory`: every table is empty. -/
def empty : Database := ⟨[], [], [], [], [], 0, 0⟩

/-- The rows of a path. -/
def rowsOf (db : Database) (path : Bytes) : List ValidPathsRow :=
  db.validPaths.filter fun row => row.path = path

/-- The rows of an id. -/
def rowsOfId (db : Database) (id : Int) : List ValidPathsRow :=
  db.validPaths.filter fun row => row.id = id

/-- `(SELECT id FROM ValidPaths WHERE path = ?1)` as a value: null, if there is no row. -/
def idOf (db : Database) (path : Bytes) : Option Int := (db.rowsOf path).head?.map ValidPathsRow.id

/-- What a foreign key to `ValidPaths(id)` asks for. -/
def hasPathId (db : Database) (id : Int) : Bool := db.validPaths.any fun row => row.id = id

/-- What a foreign key to `Realisations(id)` asks for. -/
def hasRealisationId (db : Database) (id : Int) : Bool := db.realisations.any fun row => row.id = id

/-- The index of `path`, which is scanned in the order of the bytes. -/
def pathIndex (db : Database) : List Bytes :=
  (db.validPaths.map ValidPathsRow.path).mergeSort fun left right => decide (left ≤ right)

/-- `INSERT INTO ValidPaths`. There must be an id left, and no row of the path. -/
def insertValidPath (db : Database) (row : Int → ValidPathsRow) : Option Database :=
  let new := row (db.lastPathId + 1)
  if db.lastPathId = maxRowid then none
  else if db.validPaths.any fun other => other.path = new.path then none
  else some { db with validPaths := db.validPaths ++ [new], lastPathId := db.lastPathId + 1 }

/-- `INSERT OR REPLACE INTO Refs`. -/
def insertRef (db : Database) (row : RefsRow) : Option Database :=
  if db.hasPathId row.referrer && db.hasPathId row.reference then
    some { db with refs := db.refs.filter (fun other => other ≠ row) ++ [row] }
  else none

/-- `DELETE FROM Refs`, where either side may be null. -/
def deleteRef (db : Database) (referrer reference : Option Int) : Database :=
  { db with
    refs := db.refs.filter fun row => ¬ (some row.referrer = referrer ∧ some row.reference = reference) }

/-- `INSERT OR REPLACE INTO DerivationOutputs`. -/
def insertDerivationOutput (db : Database) (row : DerivationOutputsRow) : Option Database :=
  if db.hasPathId row.drv then
    some { db with
      derivationOutputs :=
        db.derivationOutputs.filter (fun other => ¬ (other.drv = row.drv ∧ other.id = row.id)) ++ [row] }
  else none

/-- `UPDATE ValidPaths SET sigs = ?2 WHERE path = ?1`. -/
def updateSigs (db : Database) (path sigs : Bytes) : Database :=
  { db with
    validPaths := db.validPaths.map fun row =>
      if row.path = path then { row with sigs := some sigs } else row }

/-- `INSERT INTO Realisations`. -/
def insertRealisation (db : Database) (row : Int → RealisationsRow) : Option Database :=
  let new := row (db.lastRealisationId + 1)
  if db.lastRealisationId = maxRowid then none
  else if db.hasPathId new.outputPath then
    some { db with realisations := db.realisations ++ [new], lastRealisationId := db.lastRealisationId + 1 }
  else none

/-- `INSERT INTO RealisationsRefs`. A null reference is not looked up. -/
def insertRealisationRef (db : Database) (row : RealisationsRefsRow) : Option Database :=
  if db.hasRealisationId row.referrer && row.realisationReference.all db.hasRealisationId then
    some { db with realisationsRefs := db.realisationsRefs ++ [row] }
  else none

/-- The ids of the realisations of an output. -/
def realisationsOf (db : Database) (id : Int) : List Int :=
  (db.realisations.filter fun row => row.outputPath = id).map RealisationsRow.id

/-- The triggers `DeleteSelfRefs` and `DeleteSelfRefsViaRealisations`. -/
def beforeDelete (db : Database) (id : Int) : Database :=
  { db with
    refs := db.refs.filter fun row => ¬ (row.referrer = id ∧ row.reference = id)
    realisationsRefs := db.realisationsRefs.filter fun row =>
      ¬ row.realisationReference.any (db.realisationsOf id).contains }

/-- Realisations are deleted. A realisation that one in `RealisationsRefs` refers to is kept from it;
what refers from one is deleted with it. -/
def deleteRealisations (db : Database) (ids : List Int) : Option Database :=
  if db.realisationsRefs.any fun row => row.realisationReference.any ids.contains then none
  else
    some { db with
      realisations := db.realisations.filter fun row => ¬ ids.contains row.id
      realisationsRefs := db.realisationsRefs.filter fun row => ¬ ids.contains row.referrer }

/-- A row of `ValidPaths` is deleted: the triggers first, then the foreign keys, one of which keeps a
path that is referred to. -/
def deleteValidPath (db : Database) (id : Int) : Option Database :=
  let before := db.beforeDelete id
  if before.refs.any fun row => row.reference = id then none
  else
    { before with
      validPaths := before.validPaths.filter fun row => row.id ≠ id
      refs := before.refs.filter fun row => row.referrer ≠ id
      derivationOutputs := before.derivationOutputs.filter fun row => row.drv ≠ id
      }.deleteRealisations (before.realisationsOf id)

/-- `DELETE FROM ValidPaths WHERE path = ?1`, with the number of rows. -/
def deletePath (db : Database) (path : Bytes) : Option (Nat × Database) :=
  ((db.rowsOf path).foldlM (fun (db : Database) row => db.deleteValidPath row.id) db).map fun db' =>
    ((db.rowsOf path).length, db')

end Database

end Harmonia.Db
