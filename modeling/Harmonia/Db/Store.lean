import Mathlib.Data.Set.Basic
import Harmonia.Db.Write

/-!
# The store a database stands for

What the tables are for, without ids between them: which paths are valid and what is known of them, and
how paths, outputs and realisations are related. Each operation of the crate is a function on this.
-/

namespace Harmonia.Db

open Library Store

/-- A time in nanoseconds since the epoch. -/
def SystemTime.total (time : SystemTime) : Int := time.secs.toInt * 10 ^ 9 + time.nanos

/-- A time in whole seconds, truncated toward the epoch. -/
def SystemTime.truncated (time : SystemTime) : Int := time.total.tdiv (10 ^ 9)

/-- What is known of a valid path. -/
structure Entry where
  /-- Its id. -/
  id : Int
  /-- Its hash. -/
  hash : Bytes
  /-- When it was registered, in seconds. -/
  registrationTime : Int
  /-- What made it. -/
  deriver : Option Bytes
  /-- The size of its archive. -/
  narSize : Option UInt64
  /-- Whether it was built here. -/
  ultimate : Bool
  /-- Its signatures. -/
  sigs : Option Bytes
  /-- Its content address. -/
  ca : Option Bytes

/-- A realisation. -/
structure Realised where
  /-- Its id. -/
  id : Int
  /-- The derivation. -/
  drvPath : Bytes
  /-- The output. -/
  outputName : Bytes
  /-- The path that the output is. -/
  outputPath : Bytes
  /-- Its signatures. -/
  signatures : Option Bytes

/-- A store. -/
@[ext] structure StoreState where
  /-- The valid paths. -/
  info : Bytes → Option Entry
  /-- Which path refers to which. -/
  refs : Set (Bytes × Bytes)
  /-- The outputs of derivations: the derivation, the name of the output and its path. -/
  outputs : Set (Bytes × Bytes × Bytes)
  /-- The realisations. -/
  realisations : Set Realised
  /-- The last id of a path. -/
  lastPathId : Int
  /-- The last id of a realisation. -/
  lastRealisationId : Int

/-- The operations of `write.rs`. -/
inductive Operation where
  | registerValidPath (params : RegisterPathParams)
  | addReference (referrer reference : Bytes)
  | removeReference (referrer reference : Bytes)
  | registerDerivationOutput (drvPath : Bytes) (outputId outputPath : Text)
  | invalidatePath (path : Bytes)
  | updateSignatures (path : Bytes) (sigs : Text)
  | registerRealisation (drvPath outputName : Text) (outputPathId : Int) (signatures : Option Text)
  | addRealisationReference (referrerId referenceId : Int)

/-- What an operation returns. -/
inductive Reply where
  | id (id : Int)
  | unit
  | removed (removed : Bool)
  deriving DecidableEq, Repr

/-- An operation, of which no statement fails but by itself. -/
def Operation.run (db : Database) : Operation → Change Reply
  | registerValidPath params =>
    let (answer, db') := Db.registerValidPath .none db params
    (answer.map .id, db')
  | addReference referrer reference =>
    let (answer, db') := Db.addReference .none db referrer reference
    (answer.map fun _ => .unit, db')
  | removeReference referrer reference =>
    let (answer, db') := Db.removeReference .none db referrer reference
    (answer.map fun _ => .unit, db')
  | registerDerivationOutput drvPath outputId outputPath =>
    let (answer, db') := Db.registerDerivationOutput .none db drvPath outputId outputPath
    (answer.map fun _ => .unit, db')
  | invalidatePath path =>
    let (answer, db') := Db.invalidatePath .none db path
    (answer.map .removed, db')
  | updateSignatures path sigs =>
    let (answer, db') := Db.updateSignatures .none db path sigs
    (answer.map fun _ => .unit, db')
  | registerRealisation drvPath outputName outputPathId signatures =>
    let (answer, db') := Db.registerRealisation .none db drvPath outputName outputPathId signatures
    (answer.map .id, db')
  | addRealisationReference referrerId referenceId =>
    let (answer, db') := Db.addRealisationReference .none db referrerId referenceId
    (answer.map fun _ => .unit, db')

namespace StoreState

/-- Nothing is valid. -/
def empty : StoreState := ⟨fun _ => none, ∅, ∅, ∅, 0, 0⟩

/-- A path is valid. -/
def Valid (store : StoreState) (path : Bytes) : Prop := (store.info path).isSome = true

instance (store : StoreState) (path : Bytes) : Decidable (store.Valid path) :=
  inferInstanceAs (Decidable (_ = _))

/-- What is known of a path that is registered. -/
def entryOf (params : RegisterPathParams) (id : Int) : Entry where
  id
  hash := params.hash.bytes
  registrationTime := params.registrationTime.truncated
  deriver := params.deriver.map Text.bytes
  narSize := params.narSize
  ultimate := params.ultimate
  sigs := params.sigs.map Text.bytes
  ca := params.ca.map Text.bytes

/-- A path becomes known. -/
def learn (store : StoreState) (path : Bytes) (entry : Option Entry) : StoreState :=
  { store with info := fun other => if other = path then entry else store.info other }

/-- A path is registered, unless it is valid. Of its references those are kept that are valid, the path
itself among them. -/
def register (store : StoreState) (params : RegisterPathParams) : Option Reply × StoreState :=
  let path := params.path.bytes
  if store.Valid path ∨ store.lastPathId = maxRowid then (none, store)
  else
    let id := store.lastPathId + 1
    let known := store.learn path (some (entryOf params id))
    let added := { pair : Bytes × Bytes |
      pair.1 = path ∧ known.Valid pair.2 ∧ ∃ reference ∈ params.references.items, reference.bytes = pair.2 }
    (some (.id id), { known with refs := store.refs ∪ added, lastPathId := id })

/-- Between valid paths a reference is added. -/
def addReference (store : StoreState) (referrer reference : Bytes) : Option Reply × StoreState :=
  let added := { pair | pair = (referrer, reference) ∧ store.Valid referrer ∧ store.Valid reference }
  (some .unit, { store with refs := store.refs ∪ added })

/-- A reference is removed. -/
def removeReference (store : StoreState) (referrer reference : Bytes) : Option Reply × StoreState :=
  (some .unit, { store with refs := { pair ∈ store.refs | pair ≠ (referrer, reference) } })

/-- An output of a valid derivation takes the place of the one it had. -/
def registerDerivationOutput (store : StoreState) (drvPath outputId outputPath : Bytes) :
    Option Reply × StoreState :=
  if store.Valid drvPath then
    (some .unit, { store with
      outputs := { output ∈ store.outputs | ¬ (output.1 = drvPath ∧ output.2.1 = outputId) } ∪
        {(drvPath, outputId, outputPath)} })
  else (some .unit, store)

/-- Another path refers to a path. -/
def Referred (store : StoreState) (path : Bytes) : Prop :=
  ∃ referrer, referrer ≠ path ∧ (referrer, path) ∈ store.refs

open Classical in
/-- A path that no other one refers to is forgotten, with everything that belongs to it. -/
noncomputable def invalidate (store : StoreState) (path : Bytes) : Option Reply × StoreState :=
  if ¬ store.Valid path then (some (.removed false), store)
  else if store.Referred path then (none, store)
  else
    (some (.removed true), { store.learn path none with
      refs := { pair ∈ store.refs | pair.1 ≠ path ∧ pair.2 ≠ path }
      outputs := { output ∈ store.outputs | output.1 ≠ path }
      realisations := { realisation ∈ store.realisations | realisation.outputPath ≠ path } })

/-- The signatures of a path are replaced. -/
def updateSignatures (store : StoreState) (path sigs : Bytes) : Option Reply × StoreState :=
  (some .unit, store.learn path ((store.info path).map fun entry => { entry with sigs := some sigs }))

/-- The id of a valid path. -/
def HasId (store : StoreState) (path : Bytes) (id : Int) : Prop := (store.info path).map Entry.id = some id

open Classical in
/-- A realisation of a valid path is added. -/
noncomputable def registerRealisation (store : StoreState) (drvPath outputName : Bytes) (outputPathId : Int)
    (signatures : Option Bytes) : Option Reply × StoreState :=
  if store.lastRealisationId = maxRowid ∨ ¬ ∃ path, store.HasId path outputPathId then (none, store)
  else
    let id := store.lastRealisationId + 1
    (some (.id id), { store with
      realisations := store.realisations ∪ { realisation | store.HasId realisation.outputPath outputPathId ∧
        realisation = ⟨id, drvPath, outputName, realisation.outputPath, signatures⟩ }
      lastRealisationId := id })

open Classical in
/-- References between realisations are not seen again: both have to be there. -/
noncomputable def addRealisationReference (store : StoreState) (referrerId referenceId : Int) :
    Option Reply × StoreState :=
  if (∃ realisation ∈ store.realisations, realisation.id = referrerId) ∧
      ∃ realisation ∈ store.realisations, realisation.id = referenceId then (some .unit, store)
  else (none, store)

/-- What an operation is for. -/
noncomputable def apply (store : StoreState) : Operation → Option Reply × StoreState
  | .registerValidPath params => store.register params
  | .addReference referrer reference => store.addReference referrer reference
  | .removeReference referrer reference => store.removeReference referrer reference
  | .registerDerivationOutput drvPath outputId outputPath =>
    store.registerDerivationOutput drvPath outputId.bytes outputPath.bytes
  | .invalidatePath path => store.invalidate path
  | .updateSignatures path sigs => store.updateSignatures path sigs.bytes
  | .registerRealisation drvPath outputName outputPathId signatures =>
    store.registerRealisation drvPath.bytes outputName.bytes outputPathId (signatures.map Text.bytes)
  | .addRealisationReference referrerId referenceId => store.addRealisationReference referrerId referenceId

end StoreState

end Harmonia.Db
