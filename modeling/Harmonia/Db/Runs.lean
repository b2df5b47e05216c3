import Harmonia.Db.Refinement

/-!
# Runs of the store database

Every operation does on the tables what it is for, and returns what it is to return; so does every
sequence of operations on a new database. Registering a path at the least time there is does not return.
-/

namespace Harmonia.Db

open Library Store

/-! ## Times -/

/-- A time at or after the epoch is truncated down. -/
theorem SystemTime.truncated_of_nonneg {time : SystemTime} (after : 0 ≤ time.secs.toInt) :
    time.truncated = time.secs.toInt := by
  have small := time.small
  have positive : 0 ≤ time.total := by unfold total; omega
  rw [truncated, Int.tdiv_eq_ediv_of_nonneg positive, total]
  omega

/-- A time before the epoch is truncated up. -/
theorem SystemTime.truncated_of_neg {time : SystemTime} (before : time.secs.toInt < 0) :
    time.truncated = -(time.distance : Int) := by
  have small := time.small
  have positive : 0 ≤ -time.total := by unfold total; omega
  have turned : time.total = -(-time.total) := by omega
  rw [truncated, turned, Int.neg_tdiv, Int.tdiv_eq_ediv_of_nonneg positive, total, distance,
    if_neg (by omega)]
  split <;> omega

/-- The least time is too far from the epoch to be cast. -/
def SystemTime.Least (time : SystemTime) : Prop := time.secs = Int64.minValue ∧ time.nanos = 0

instance (time : SystemTime) : Decidable time.Least := inferInstanceAs (Decidable (_ ∧ _))

/-- Any other time is cast to its seconds, truncated toward the epoch. -/
theorem systemTimeToUnix_some {time : SystemTime} (later : ¬ time.Least) :
    ∃ seconds, systemTimeToUnix time = some seconds ∧ seconds.toInt = time.truncated ∧
      seconds ≠ Int64.minValue := by
  have low := time.secs.le_toInt
  have high := time.secs.toInt_lt
  have least := Int64.toInt_minValue
  by_cases after : 0 ≤ time.secs.toInt
  · have distance : time.distance = time.secs.toInt.toNat := if_pos after
    have cast : (Int64.ofNat time.distance).toInt = time.distance :=
      Int64.toInt_ofNat_of_lt (by omega)
    refine ⟨_, if_pos after, ?_, ?_⟩
    · rw [cast, SystemTime.truncated_of_nonneg after]
      omega
    · intro same
      rw [same] at cast
      omega
  · have before : time.secs.toInt < 0 := by omega
    have distance : time.distance = (-time.secs.toInt).toNat - (if time.nanos = 0 then 0 else 1) :=
      if_neg after
    have near : time.distance < 2 ^ 63 := by
      by_cases whole : time.nanos = 0
      · have other : time.secs.toInt ≠ -2 ^ 63 := by
          intro same
          exact later ⟨Int64.toInt_inj.mp (same.trans least.symm), whole⟩
        rw [if_pos whole] at distance
        omega
      · rw [if_neg whole] at distance
        omega
    have cast : (Int64.ofNat time.distance).toInt = time.distance := Int64.toInt_ofNat_of_lt near
    have castable : Int64.ofNat time.distance ≠ Int64.minValue := by
      intro same
      rw [same] at cast
      omega
    have negated : (-Int64.ofNat time.distance).toInt = -(time.distance : Int) :=
      Int64.toInt_neg_ofNat_of_le (by omega)
    refine ⟨_, (if_neg after).trans (if_neg castable), ?_, ?_⟩
    · rw [negated, SystemTime.truncated_of_neg before]
    · intro same
      rw [same] at negated
      omega

/-- The least time is not cast. -/
theorem systemTimeToUnix_least {time : SystemTime} (least : time.Least) : systemTimeToUnix time = none := by
  have secs : time.secs.toInt = -2 ^ 63 := by rw [least.1]; rfl
  have distance : time.distance = 2 ^ 63 := by
    rw [SystemTime.distance, if_neg (by omega), if_pos least.2]
    omega
  rw [systemTimeToUnix, if_neg (by omega), distance]
  rfl

/-! ## Operations -/

/-- A row that is read without an error. -/
structure ValidPathsRow.Readable (row : ValidPathsRow) : Prop where
  /-- `path` is UTF-8. -/
  path : ∃ text : Text, text.bytes = row.path
  /-- `hash` is. -/
  hash : ∃ text : Text, text.bytes = row.hash
  /-- `deriver` is. -/
  deriver : ∃ text : Option Text, text.map Text.bytes = row.deriver
  /-- `sigs` is. -/
  sigs : ∃ text : Option Text, text.map Text.bytes = row.sigs
  /-- `ca` is. -/
  ca : ∃ text : Option Text, text.map Text.bytes = row.ca
  /-- `ultimate` is a Boolean. -/
  ultimate : row.ultimate = some 0 ∨ row.ultimate = some 1
  /-- `registrationTime` is a time. -/
  time : row.registrationTime ≠ Int64.minValue

/-- Every path is read without an error. -/
def Database.Readable (db : Database) : Prop := ∀ row ∈ db.validPaths, row.Readable

/-- A registered row is read without an error. -/
theorem RegisterPathParams.row_readable (params : RegisterPathParams) {seconds : Int64}
    (time : seconds ≠ Int64.minValue) (id : Int) : (params.row seconds id).Readable where
  path := ⟨params.path, rfl⟩
  hash := ⟨params.hash, rfl⟩
  deriver := ⟨params.deriver, rfl⟩
  sigs := ⟨params.sigs, rfl⟩
  ca := ⟨params.ca, rfl⟩
  ultimate := by
    show some (if _ then _ else _) = _ ∨ some (if _ then _ else _) = _
    split
    · exact .inr rfl
    · exact .inl rfl
  time := time

/-- An operation keeps the schema and the rows readable, and it does and returns what it is for. -/
structure Operation.Follows (db : Database) (operation : Operation) : Prop where
  /-- The schema. -/
  sound : (operation.run db).2.Sound
  /-- The rows. -/
  readable : db.Readable → (operation.run db).2.Readable
  /-- The effect and the reply. -/
  applied : ((operation.run db).1.toOption, (operation.run db).2.view) = db.view.apply operation

/-- An operation follows from what its function returns and the database that leaves. -/
theorem Operation.Follows.of_eq {α : Type} {db db' : Database} {operation : Operation} {change : Change α}
    {reply : α → Reply} {answer : Answer α} (ran : operation.run db = (change.1.map reply, change.2))
    (answered : change = (answer, db')) (sound : db'.Sound) (readable : db.Readable → db'.Readable)
    (applied : db.view.apply operation = ((answer.map reply).toOption, db'.view)) : operation.Follows db := by
  rw [answered] at ran
  constructor
  · rw [ran]
    exact sound
  · rw [ran]
    exact readable
  · rw [ran, applied]

open Database

variable {db : Database}

/-- `update_signatures`. -/
theorem updateSignatures_follows (sound : db.Sound) (path : Bytes) (sigs : Text) :
    (Operation.updateSignatures path sigs).Follows db := by
  have ran : (Operation.updateSignatures path sigs).run db =
      ((Db.updateSignatures .none db path sigs).1.map fun _ => .unit,
        (Db.updateSignatures .none db path sigs).2) := rfl
  have answer : Db.updateSignatures .none db path sigs = (.ok (), db.updateSigs path sigs.bytes) := rfl
  refine .of_eq ran answer (sound.updateSigs path sigs.bytes) ?_
    (congrArg (Prod.mk _) (sound.updateSigs_view path sigs.bytes).symm)
  intro readable row member
  obtain ⟨old, inside, rfl⟩ := List.mem_map.mp member
  split
  · exact { readable old inside with sigs := ⟨some sigs, rfl⟩ }
  · exact readable old inside

/-- `remove_reference`. -/
theorem removeReference_follows (sound : db.Sound) (referrer reference : Bytes) :
    (Operation.removeReference referrer reference).Follows db := by
  have ran : (Operation.removeReference referrer reference).run db =
      ((Db.removeReference .none db referrer reference).1.map fun _ => .unit,
        (Db.removeReference .none db referrer reference).2) := rfl
  have answer : Db.removeReference .none db referrer reference =
      (.ok (), db.deleteRef (db.idOf referrer) (db.idOf reference)) := rfl
  exact .of_eq ran answer (sound.deleteRef _ _) id
    (congrArg (Prod.mk _) (sound.deleteRef_view referrer reference).symm)

/-- `invalidate_path`. -/
theorem invalidatePath_follows (sound : db.Sound) (path : Bytes) :
    (Operation.invalidatePath path).Follows db := by
  have ran : (Operation.invalidatePath path).run db =
      ((Db.invalidatePath .none db path).1.map .removed, (Db.invalidatePath .none db path).2) := rfl
  by_cases valid : db.view.Valid path
  · obtain ⟨id, row, member, rfl, rfl⟩ := valid_iff.mp valid
    have names : db.Names row.path row.id := ⟨row, member, rfl, rfl⟩
    by_cases referred : db.Referred row.id
    · have answer : Db.invalidatePath .none db row.path = (.error (.sqlite .sqliteFailure), db) := by
        rw [Db.invalidatePath, sound.deletePath_row member, if_pos referred]
        rfl
      have applied : db.view.apply (.invalidatePath row.path) = (none, db.view) := by
        show db.view.invalidate row.path = _
        rw [StoreState.invalidate, if_neg (not_not_intro valid), if_pos ((sound.referred_iff names).mpr referred)]
      exact .of_eq ran answer sound id applied
    · have answer : Db.invalidatePath .none db row.path = (.ok true, db.withoutPath row.id) := by
        rw [Db.invalidatePath, sound.deletePath_row member, if_neg referred]
        rfl
      have applied : db.view.apply (.invalidatePath row.path) =
          (some (.removed true), (db.withoutPath row.id).view) := by
        show db.view.invalidate row.path = _
        rw [StoreState.invalidate, if_neg (not_not_intro valid),
          if_neg fun there => referred ((sound.referred_iff names).mp there), sound.withoutPath_view names]
      refine .of_eq ran answer (sound.withoutPath referred) ?_ applied
      exact fun readable row member => readable row (List.mem_filter.mp member).1
  · have none : db.rowsOf path = [] := by
      apply rowsOf_nil.mpr
      intro id names
      exact valid (valid_iff.mpr ⟨id, names⟩)
    have answer : Db.invalidatePath .none db path = (.ok false, db) := by
      rw [Db.invalidatePath, deletePath_absent none]
      rfl
    have applied : db.view.apply (.invalidatePath path) = (some (.removed false), db.view) := if_pos valid
    exact .of_eq ran answer sound id applied

/-- A database with the same rows of paths reads as they do. -/
theorem readable_congr {db' : Database} (same : db'.validPaths = db.validPaths) (readable : db.Readable) :
    db'.Readable := by
  rw [Database.Readable, same]
  exact readable

/-- The rows of a path that is not valid. -/
theorem rowsOf_of_invalid {path : Bytes} (invalid : ¬ db.view.Valid path) : db.rowsOf path = [] := by
  apply rowsOf_nil.mpr
  intro id names
  exact invalid (valid_iff.mpr ⟨id, names⟩)

/-- `add_reference`. -/
theorem addReference_follows (sound : db.Sound) (referrer reference : Bytes) :
    (Operation.addReference referrer reference).Follows db := by
  have ran : (Operation.addReference referrer reference).run db =
      ((Db.addReference .none db referrer reference).1.map fun _ => .unit,
        (Db.addReference .none db referrer reference).2) := rfl
  by_cases both : db.view.Valid referrer ∧ db.view.Valid reference
  · obtain ⟨left, row1, member1, rfl, rfl⟩ := valid_iff.mp both.1
    obtain ⟨right, row2, member2, rfl, rfl⟩ := valid_iff.mp both.2
    obtain ⟨db', inserted, kept, view⟩ := sound.insertRef_view ⟨row1, member1, rfl, rfl⟩ ⟨row2, member2, rfl, rfl⟩
    have answer : Db.addReference .none db row1.path row2.path = (.ok (), db') := by
      rw [Db.addReference, sound.rowsOf_eq member1, sound.rowsOf_eq member2]
      show settle db (do let changed ← execute .none _ (db.insertRef _ >>= some); pure ((), changed)) = _
      rw [inserted]
      rfl
    have added : { pair | pair = (row1.path, row2.path) ∧ db.view.Valid row1.path ∧ db.view.Valid row2.path } =
        {(row1.path, row2.path)} := by
      ext pair
      exact ⟨And.left, fun same => ⟨same, both⟩⟩
    have applied : db.view.apply (.addReference row1.path row2.path) = (some .unit, db'.view) := by
      show db.view.addReference row1.path row2.path = _
      simp only [StoreState.addReference]
      rw [added, view]
    exact .of_eq ran answer (sound.insertRef inserted) (readable_congr kept) applied
  · have none : ((db.rowsOf referrer).flatMap fun r => (db.rowsOf reference).map fun f =>
        RefsRow.mk r.id f.id) = [] := by
      rcases not_and_or.mp both with invalid | invalid
      · rw [rowsOf_of_invalid invalid]
        rfl
      · rw [rowsOf_of_invalid invalid]
        exact List.flatMap_eq_nil_iff.mpr fun _ _ => rfl
    have answer : Db.addReference .none db referrer reference = (.ok (), db) := by
      rw [Db.addReference, none]
      rfl
    have added : { pair | pair = (referrer, reference) ∧ db.view.Valid referrer ∧ db.view.Valid reference } = ∅ := by
      ext pair
      exact ⟨fun there => both there.2, False.elim⟩
    have applied : db.view.apply (.addReference referrer reference) = (some .unit, db.view) := by
      show db.view.addReference referrer reference = _
      simp only [StoreState.addReference]
      rw [added, Set.union_empty]
    exact .of_eq ran answer sound id applied

/-- `register_derivation_output`. -/
theorem registerDerivationOutput_follows (sound : db.Sound) (drvPath : Bytes) (outputId outputPath : Text) :
    (Operation.registerDerivationOutput drvPath outputId outputPath).Follows db := by
  have ran : (Operation.registerDerivationOutput drvPath outputId outputPath).run db =
      ((Db.registerDerivationOutput .none db drvPath outputId outputPath).1.map fun _ => .unit,
        (Db.registerDerivationOutput .none db drvPath outputId outputPath).2) := rfl
  by_cases valid : db.view.Valid drvPath
  · obtain ⟨id, row, member, rfl, rfl⟩ := valid_iff.mp valid
    obtain ⟨db', inserted, kept, view⟩ :=
      sound.insertDerivationOutput_view ⟨row, member, rfl, rfl⟩ outputId.bytes outputPath.bytes
    have answer : Db.registerDerivationOutput .none db row.path outputId outputPath = (.ok (), db') := by
      rw [Db.registerDerivationOutput, sound.rowsOf_eq member]
      show settle db (do let changed ← execute .none _ (db.insertDerivationOutput _ >>= some); pure ((), changed)) = _
      rw [inserted]
      rfl
    have applied : db.view.apply (.registerDerivationOutput row.path outputId outputPath) =
        (some .unit, db'.view) := by
      show db.view.registerDerivationOutput row.path outputId.bytes outputPath.bytes = _
      rw [StoreState.registerDerivationOutput, if_pos valid, view]
    exact .of_eq ran answer (sound.insertDerivationOutput inserted) (readable_congr kept) applied
  · have answer : Db.registerDerivationOutput .none db drvPath outputId outputPath = (.ok (), db) := by
      rw [Db.registerDerivationOutput, rowsOf_of_invalid valid]
      rfl
    have applied : db.view.apply (.registerDerivationOutput drvPath outputId outputPath) =
        (some .unit, db.view) := if_neg valid
    exact .of_eq ran answer sound id applied

/-- `register_realisation`. -/
theorem registerRealisation_follows (sound : db.Sound) (drvPath outputName : Text) (outputPathId : Int)
    (signatures : Option Text) :
    (Operation.registerRealisation drvPath outputName outputPathId signatures).Follows db := by
  have ran : (Operation.registerRealisation drvPath outputName outputPathId signatures).run db =
      ((Db.registerRealisation .none db drvPath outputName outputPathId signatures).1.map .id,
        (Db.registerRealisation .none db drvPath outputName outputPathId signatures).2) := rfl
  by_cases refused : db.lastRealisationId = maxRowid ∨ ¬ ∃ path, db.view.HasId path outputPathId
  · have inserted : db.insertRealisation (fun id =>
        ⟨id, drvPath.bytes, outputName.bytes, outputPathId, signatures.map Text.bytes⟩) = none := by
      simp only [insertRealisation]
      by_cases room : db.lastRealisationId = maxRowid
      · rw [if_pos room]
      · have absent : ¬ db.hasPathId outputPathId = true := by
          intro there
          obtain ⟨path, names⟩ := hasPathId_names.mp there
          exact refused.resolve_left room ⟨path, sound.hasId_iff.mpr names⟩
        rw [if_neg room, if_neg absent]
    have answer : Db.registerRealisation .none db drvPath outputName outputPathId signatures =
        (.error (.sqlite .sqliteFailure), db) := by
      rw [Db.registerRealisation, inserted]
      rfl
    have applied : db.view.apply (.registerRealisation drvPath outputName outputPathId signatures) =
        (none, db.view) := if_pos refused
    exact .of_eq ran answer sound id applied
  · obtain ⟨room, there⟩ := not_or.mp refused
    obtain ⟨path, has⟩ := Classical.not_not.mp there
    obtain ⟨db', inserted, kept, last, view⟩ := sound.insertRealisation_view (sound.hasId_iff.mp has) room
      drvPath.bytes outputName.bytes (signatures.map Text.bytes)
    have answer : Db.registerRealisation .none db drvPath outputName outputPathId signatures =
        (.ok (db.lastRealisationId + 1), db') := by
      rw [Db.registerRealisation, inserted, ← last]
      rfl
    have applied : db.view.apply (.registerRealisation drvPath outputName outputPathId signatures) =
        (some (.id (db.lastRealisationId + 1)), db'.view) := by
      rw [view]
      exact if_neg refused
    exact .of_eq ran answer (sound.insertRealisation (fun _ => rfl) inserted) (readable_congr kept)
      applied

/-- `add_realisation_reference`. -/
theorem addRealisationReference_follows (sound : db.Sound) (referrerId referenceId : Int) :
    (Operation.addRealisationReference referrerId referenceId).Follows db := by
  have ran : (Operation.addRealisationReference referrerId referenceId).run db =
      ((Db.addRealisationReference .none db referrerId referenceId).1.map fun _ => .unit,
        (Db.addRealisationReference .none db referrerId referenceId).2) := rfl
  by_cases both : db.hasRealisationId referrerId = true ∧ db.hasRealisationId referenceId = true
  · have inserted : db.insertRealisationRef ⟨referrerId, some referenceId⟩ = some { db with
        realisationsRefs := db.realisationsRefs ++ [⟨referrerId, some referenceId⟩] } :=
      if_pos (Bool.and_eq_true_iff.mpr both)
    have answer : Db.addRealisationReference .none db referrerId referenceId = (.ok (), { db with
        realisationsRefs := db.realisationsRefs ++ [⟨referrerId, some referenceId⟩] }) := by
      rw [Db.addRealisationReference, inserted]
      rfl
    have applied : db.view.apply (.addRealisationReference referrerId referenceId) = (some .unit, db.view) :=
      if_pos ⟨sound.realised_iff.mp both.1, sound.realised_iff.mp both.2⟩
    exact .of_eq ran answer (sound.insertRealisationRef inserted) id applied
  · have inserted : db.insertRealisationRef ⟨referrerId, some referenceId⟩ = none :=
      if_neg fun keys => both (Bool.and_eq_true_iff.mp keys)
    have answer : Db.addRealisationReference .none db referrerId referenceId =
        (.error (.sqlite .sqliteFailure), db) := by
      rw [Db.addRealisationReference, inserted]
      rfl
    have applied : db.view.apply (.addRealisationReference referrerId referenceId) = (none, db.view) :=
      if_neg fun there => both ⟨sound.realised_iff.mpr there.1, sound.realised_iff.mpr there.2⟩
    exact .of_eq ran answer sound id applied

section References

variable {faults : Faults}

/-- The lookup of a reference finds a path. -/
def Found (faults : Faults) (db : Database) (reference : Text) : Prop :=
  db.view.Valid reference.bytes ∧ faults (.selectId reference.bytes) = none

instance (reference : Text) : Decidable (Found faults db reference) := inferInstanceAs (Decidable (_ ∧ _))

/-- A reference that is found is inserted. -/
theorem registerReference_found (sound : db.Sound) {id : Int} {reference : Text} {refId : Int}
    (names : db.Names reference.bytes refId) (lookup : faults (.selectId reference.bytes) = none) :
    registerReference faults id db reference =
      execute faults (.insertRef id refId) (db.insertRef ⟨id, refId⟩) := by
  obtain ⟨row, member, same, rfl⟩ := names
  have row' : prepareAndQueryRow faults (.selectId reference.bytes) (db.rowsOf reference.bytes)
      (fun row => .ok row.id) = .ok row.id := by
    rw [← same] at lookup ⊢
    rw [prepareAndQueryRow, prepareCached, queryRow.eq_def, lookup, sound.rowsOf_eq member]
    rfl
  rw [registerReference, row']
  rfl

/-- A reference that is not found is skipped, for whatever reason. -/
theorem registerReference_skipped {id : Int} {reference : Text} (missing : ¬ Found faults db reference) :
    registerReference faults id db reference = .ok db := by
  have skipped : ∃ failure, prepareAndQueryRow faults (.selectId reference.bytes) (db.rowsOf reference.bytes)
      (fun row => .ok row.id) = .error failure := by
    rw [prepareAndQueryRow, prepareCached, queryRow.eq_def]
    cases lookup : faults (.selectId reference.bytes) with
    | none =>
      rw [rowsOf_of_invalid fun valid => missing ⟨valid, lookup⟩]
      exact ⟨_, rfl⟩
    | some fault => cases fault <;> exact ⟨_, rfl⟩
  obtain ⟨failure, same⟩ := skipped
  rw [registerReference, same]
  rfl

/-- The view of a path's rows says which paths are valid. -/
theorem valid_congr {db' : Database} (same : db'.validPaths = db.validPaths) (path : Bytes) :
    db'.view.Valid path ↔ db.view.Valid path := by
  rw [valid_iff, valid_iff]
  unfold Names
  rw [same]

/-- A statement that does not fail inserts a reference. -/
theorem execute_some {α : Type} {statement : Statement} (healthy : faults statement = none) (result : α) :
    execute faults statement (some result) = .ok result := by
  rw [execute, prepareCached, healthy]
  rfl

/-- The loop over the references adds those that are found, unless an insertion fails. -/
theorem registerReferences_view {path : Bytes} {id : Int} (references : List Text) {db : Database}
    (sound : db.Sound) (names : db.Names path id)
    (inserts : ∀ reference ∈ references, ∀ refId, db.Names reference.bytes refId →
      faults (.selectId reference.bytes) = none → faults (.insertRef id refId) = none) :
    ∃ db', references.foldlM (registerReference faults id) db = .ok db' ∧ db'.Sound ∧
      db'.validPaths = db.validPaths ∧
      db'.view = { db.view with refs := db.view.refs ∪ { pair |
        pair.1 = path ∧ ∃ reference ∈ references, reference.bytes = pair.2 ∧ Found faults db reference } } := by
  induction references generalizing db with
  | nil =>
    refine ⟨db, rfl, sound, rfl, ?_⟩
    have nothing : { pair : Bytes × Bytes | pair.1 = path ∧
        ∃ reference ∈ ([] : List Text), reference.bytes = pair.2 ∧ Found faults db reference } = ∅ := by
      ext pair
      constructor
      · rintro ⟨_, reference, member, _⟩
        cases member
      · exact False.elim
    rw [nothing, Set.union_empty]
  | cons reference rest ih =>
    by_cases found : Found faults db reference
    · obtain ⟨refId, names2⟩ := valid_iff.mp found.1
      obtain ⟨mid, inserted, kept, view⟩ := sound.insertRef_view names names2
      have registered : registerReference faults id db reference = .ok mid := by
        rw [registerReference_found sound names2 found.2, inserted,
          execute_some (inserts reference List.mem_cons_self refId names2 found.2)]
      have namesOf (other : Bytes) (id' : Int) : mid.Names other id' ↔ db.Names other id' := by
        unfold Names
        rw [kept]
      have foundOf (other : Text) : Found faults mid other ↔ Found faults db other :=
        and_congr_left' (valid_congr kept _)
      obtain ⟨db', looped, sound', kept', view'⟩ := ih (sound.insertRef inserted) ((namesOf _ _).mpr names)
        fun other member refId' names' => inserts other (List.mem_cons_of_mem _ member) refId'
          ((namesOf _ _).mp names')
      refine ⟨db', ?_, sound', kept'.trans kept, ?_⟩
      · rw [List.foldlM_cons, registered]
        exact looped
      · rw [view']
        refine StoreState.ext (by rw [view]) ?_ (by rw [view]) (by rw [view]) (by rw [view]) (by rw [view])
        rw [view]
        ext pair
        constructor
        · rintro ((old | same) | ⟨first, other, member, same, found'⟩)
          · exact .inl old
          · obtain rfl := same
            exact .inr ⟨rfl, reference, List.mem_cons_self, rfl, found⟩
          · exact .inr ⟨first, other, List.mem_cons_of_mem _ member, same, (foundOf other).mp found'⟩
        · rintro (old | ⟨first, other, member, same, found'⟩)
          · exact .inl (.inl old)
          · rcases List.mem_cons.mp member with rfl | member
            · exact .inl (.inr (Prod.ext first same.symm))
            · exact .inr ⟨first, other, member, same, (foundOf other).mpr found'⟩
    · obtain ⟨db', looped, sound', kept, view⟩ := ih sound names
        fun other member => inserts other (List.mem_cons_of_mem _ member)
      refine ⟨db', ?_, sound', kept, ?_⟩
      · rw [List.foldlM_cons, registerReference_skipped found]
        exact looped
      · rw [view]
        refine congrArg (fun added => { db.view with refs := db.view.refs ∪ added }) ?_
        ext pair
        constructor
        · rintro ⟨first, other, member, same, found'⟩
          exact ⟨first, other, List.mem_cons_of_mem _ member, same, found'⟩
        · rintro ⟨first, other, member, same, found'⟩
          rcases List.mem_cons.mp member with rfl | member
          · exact absurd found' found
          · exact ⟨first, other, member, same, found'⟩

end References

/-- The row of a path says what is known of it. -/
theorem RegisterPathParams.ofRow_row (params : RegisterPathParams) {seconds : Int64}
    (truncated : seconds.toInt = params.registrationTime.truncated) (id : Int) :
    Entry.ofRow (params.row seconds id) = StoreState.entryOf params id := by
  have size : (params.narSize.map UInt64.toInt64).map Int64.toUInt64 = params.narSize := by
    cases params.narSize with
    | none => rfl
    | some size => simp
  have ultimate : (some (if params.ultimate = true then 1 else 0 : Int64)).getD 0 ≠ 0 ↔ params.ultimate = true := by
    cases params.ultimate <;> decide
  rw [Entry.ofRow, StoreState.entryOf]
  simp only [RegisterPathParams.row, truncated, size, ultimate, Bool.decide_eq_true]

/-- `register_valid_path`, unless the time is the least one. -/
theorem registerValidPath_follows (sound : db.Sound) {params : RegisterPathParams}
    (later : ¬ params.registrationTime.Least) : (Operation.registerValidPath params).Follows db := by
  have ran : (Operation.registerValidPath params).run db =
      ((Db.registerValidPath .none db params).1.map .id, (Db.registerValidPath .none db params).2) := rfl
  obtain ⟨seconds, cast, truncated, timely⟩ := systemTimeToUnix_some later
  have time : unixTime params.registrationTime = .ok seconds := by rw [unixTime, cast]
  by_cases refused : db.view.Valid params.path.bytes ∨ db.lastPathId = maxRowid
  · have answer : Db.registerValidPath .none db params = (.error (.sqlite .sqliteFailure), db) := by
      have inserted : db.insertValidPath (params.row seconds) = none :=
        insertValidPath_none (fun _ => rfl) refused
      rw [Db.registerValidPath, time]
      show settle db (do
        let inserted ← execute .none _ (db.insertValidPath (params.row seconds))
        _) = _
      rw [inserted]
      rfl
    have applied : db.view.apply (.registerValidPath params) = (none, db.view) := if_pos refused
    exact .of_eq ran answer sound id applied
  · obtain ⟨absent, room⟩ := not_or.mp refused
    let row := params.row seconds (db.lastPathId + 1)
    have inserted : db.insertValidPath (params.row seconds) = some (db.withPath row) :=
      insertValidPath_some (fun _ => rfl) absent room
    have sound' : (db.withPath row).Sound := sound.insertValidPath (fun _ => rfl) inserted
    have names : (db.withPath row).Names params.path.bytes (db.lastPathId + 1) :=
      ⟨row, List.mem_append_right _ List.mem_cons_self, rfl, rfl⟩
    have known : (db.withPath row).view = { db.view.learn params.path.bytes
        (some (StoreState.entryOf params (db.lastPathId + 1))) with lastPathId := db.lastPathId + 1 } := by
      rw [← params.ofRow_row truncated]
      exact sound.withPath_view rfl absent
    obtain ⟨db', looped, sound'', kept, view⟩ := @registerReferences_view .none _ _ params.references.items _ sound' names
      fun _ _ _ _ _ => rfl
    have answer : Db.registerValidPath .none db params = (.ok (db.lastPathId + 1), db') := by
      rw [Db.registerValidPath, time]
      show settle db (do
        let inserted ← execute .none _ (db.insertValidPath (params.row seconds))
        _) = _
      rw [inserted]
      show settle db (do
        let referred ← params.references.items.foldlM (registerReference .none (db.lastPathId + 1)) (db.withPath row)
        execute .none .commit (some ())
        pure (db.lastPathId + 1, referred)) = _
      rw [looped]
      rfl
    have applied : db.view.apply (.registerValidPath params) =
        (some (.id (db.lastPathId + 1)), db'.view) := by
      have added : { pair : Bytes × Bytes | pair.1 = params.path.bytes ∧
          ∃ reference ∈ params.references.items, reference.bytes = pair.2 ∧ Found .none (db.withPath row) reference } =
            { pair | pair.1 = params.path.bytes ∧ (db.withPath row).view.Valid pair.2 ∧
              ∃ reference ∈ params.references.items, reference.bytes = pair.2 } := by
        ext pair
        constructor
        · rintro ⟨first, reference, member, same, found⟩
          exact ⟨first, same ▸ found.1, reference, member, same⟩
        · rintro ⟨first, valid, reference, member, same⟩
          exact ⟨first, reference, member, same, same ▸ valid, rfl⟩
      rw [view, added, known]
      exact if_neg refused
    refine .of_eq ran answer sound'' ?_ applied
    intro readable row' member
    rw [kept] at member
    rcases List.mem_append.mp member with old | new
    · exact readable row' old
    · rw [List.mem_singleton.mp new]
      exact params.row_readable timely _

end Harmonia.Db
