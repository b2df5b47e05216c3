import Mathlib.Data.List.Nodup
import Harmonia.Db.Write

/-!
# What the schema keeps

Unique columns, primary keys and foreign keys, as one invariant of the database. Every statement keeps
it, whoever runs it.
-/

namespace Harmonia.Db

namespace Database

/-- The path of an id. -/
def Names (db : Database) (path : Bytes) (id : Int) : Prop :=
  ∃ row ∈ db.validPaths, row.path = path ∧ row.id = id

/-- What the schema asks of a database. -/
structure Sound (db : Database) : Prop where
  /-- `path` is unique. -/
  paths : (db.validPaths.map ValidPathsRow.path).Nodup
  /-- `id` is the primary key of `ValidPaths`. -/
  ids : (db.validPaths.map ValidPathsRow.id).Nodup
  /-- Every id was given. -/
  issued : ∀ row ∈ db.validPaths, row.id ≤ db.lastPathId
  /-- Both columns of `Refs` are foreign keys. -/
  refs : ∀ row ∈ db.refs, db.hasPathId row.referrer ∧ db.hasPathId row.reference
  /-- `drv` is a foreign key. -/
  drvs : ∀ row ∈ db.derivationOutputs, db.hasPathId row.drv
  /-- `drv` and `id` are the primary key of `DerivationOutputs`. -/
  outputs : (db.derivationOutputs.map fun row => (row.drv, row.id)).Nodup
  /-- `id` is the primary key of `Realisations`. -/
  realisationIds : (db.realisations.map RealisationsRow.id).Nodup
  /-- Every id was given. -/
  realised : ∀ row ∈ db.realisations, row.id ≤ db.lastRealisationId
  /-- `outputPath` is a foreign key. -/
  outputPaths : ∀ row ∈ db.realisations, db.hasPathId row.outputPath
  /-- Both columns of `RealisationsRefs` are foreign keys. -/
  realisationsRefs : ∀ row ∈ db.realisationsRefs,
    db.hasRealisationId row.referrer ∧ row.realisationReference.all db.hasRealisationId

/-- The empty database. -/
theorem empty_sound : empty.Sound := by
  constructor <;> simp [empty]

variable {db db' : Database}

theorem hasPathId_iff {id : Int} : db.hasPathId id = true ↔ ∃ row ∈ db.validPaths, row.id = id := by
  simp [hasPathId]

theorem hasRealisationId_iff {id : Int} :
    db.hasRealisationId id = true ↔ ∃ row ∈ db.realisations, row.id = id := by
  simp [hasRealisationId]

/-- An id that is there is the id of a path. -/
theorem hasPathId_names {id : Int} : db.hasPathId id = true ↔ ∃ path, db.Names path id := by
  rw [hasPathId_iff]
  constructor
  · rintro ⟨row, member, rfl⟩
    exact ⟨row.path, row, member, rfl, rfl⟩
  · rintro ⟨_, row, member, _, rfl⟩
    exact ⟨row, member, rfl⟩

/-- A row is known by its id. -/
theorem Sound.row_of_id (sound : db.Sound) {left right : ValidPathsRow} (first : left ∈ db.validPaths)
    (second : right ∈ db.validPaths) (same : left.id = right.id) : left = right :=
  List.inj_on_of_nodup_map sound.ids first second same

/-- A row is known by its path. -/
theorem Sound.row_of_path (sound : db.Sound) {left right : ValidPathsRow} (first : left ∈ db.validPaths)
    (second : right ∈ db.validPaths) (same : left.path = right.path) : left = right :=
  List.inj_on_of_nodup_map sound.paths first second same

/-- An id has one path. -/
theorem Sound.names_path (sound : db.Sound) {left right : Bytes} {id : Int} (first : db.Names left id)
    (second : db.Names right id) : left = right := by
  obtain ⟨row, member, rfl, same⟩ := first
  obtain ⟨row', member', rfl, same'⟩ := second
  rw [sound.row_of_id member member' (same.trans same'.symm)]

/-- A path has one id. -/
theorem Sound.names_id (sound : db.Sound) {path : Bytes} {left right : Int} (first : db.Names path left)
    (second : db.Names path right) : left = right := by
  obtain ⟨row, member, same, rfl⟩ := first
  obtain ⟨row', member', same', rfl⟩ := second
  rw [sound.row_of_path member member' (same.trans same'.symm)]

/-- The rows of a valid path are its one row. -/
theorem Sound.rowsOf_eq (sound : db.Sound) {row : ValidPathsRow} (member : row ∈ db.validPaths) :
    db.rowsOf row.path = [row] := by
  have here : row ∈ db.rowsOf row.path := List.mem_filter.mpr ⟨member, decide_eq_true rfl⟩
  have same : ∀ other ∈ db.rowsOf row.path, other = row := by
    intro other found
    obtain ⟨inside, path⟩ := List.mem_filter.mp found
    exact sound.row_of_path inside member (of_decide_eq_true path)
  have once : (db.rowsOf row.path).Nodup := (List.Nodup.of_map _ sound.paths).filter _
  match rows : db.rowsOf row.path with
  | [] =>
    rw [rows] at here
    cases here
  | [only] =>
    rw [rows] at same
    rw [same only List.mem_cons_self]
  | first :: second :: others =>
    rw [rows] at same once
    have equal := (same first (by simp)).trans (same second (by simp)).symm
    exact absurd equal (fun eq => (List.nodup_cons.mp once).1 (by simp [eq]))

/-- A path that is not valid has no rows. -/
theorem rowsOf_nil {path : Bytes} : db.rowsOf path = [] ↔ ∀ id, ¬ db.Names path id := by
  rw [rowsOf, List.filter_eq_nil_iff]
  constructor
  · rintro none id ⟨row, member, same, _⟩
    exact none row member (decide_eq_true same)
  · intro none row member same
    exact none row.id ⟨row, member, of_decide_eq_true same, rfl⟩

/-- Inserting a path keeps the schema. -/
theorem Sound.insertValidPath (sound : db.Sound) {row : Int → ValidPathsRow}
    (fresh : ∀ id, (row id).id = id) (inserted : db.insertValidPath row = some db') : db'.Sound := by
  simp only [Database.insertValidPath] at inserted
  split at inserted
  · cases inserted
  split at inserted
  · cases inserted
  rename_i room unique
  obtain rfl := Option.some.inj inserted
  have unique : ∀ other ∈ db.validPaths, other.path ≠ (row (db.lastPathId + 1)).path := by
    intro other member same
    exact unique (List.any_eq_true.mpr ⟨other, member, decide_eq_true same⟩)
  have keeps {id : Int} (there : db.hasPathId id = true) :
      hasPathId { db with validPaths := db.validPaths ++ [row (db.lastPathId + 1)],
                          lastPathId := db.lastPathId + 1 } id = true := by
    obtain ⟨other, member, same⟩ := hasPathId_iff.mp there
    exact hasPathId_iff.mpr ⟨other, List.mem_append_left _ member, same⟩
  constructor
  case paths =>
    rw [List.map_append, List.map_singleton, List.nodup_append]
    refine ⟨sound.paths, List.nodup_singleton _, ?_⟩
    intro path member other last same
    obtain ⟨row', member', rfl⟩ := List.mem_map.mp member
    exact unique row' member' (same.trans (List.mem_singleton.mp last))
  case ids =>
    rw [List.map_append, List.map_singleton, List.nodup_append]
    refine ⟨sound.ids, List.nodup_singleton _, ?_⟩
    intro id member other last same
    obtain ⟨row', member', rfl⟩ := List.mem_map.mp member
    have old := sound.issued row' member'
    rw [same, List.mem_singleton.mp last, fresh] at old
    omega
  case issued =>
    intro row' member
    rcases List.mem_append.mp member with old | new
    · have := sound.issued row' old
      show row'.id ≤ db.lastPathId + 1
      omega
    · rw [List.mem_singleton.mp new, fresh]
  case refs => exact fun row' member => ⟨keeps (sound.refs row' member).1, keeps (sound.refs row' member).2⟩
  case drvs => exact fun row' member => keeps (sound.drvs row' member)
  case outputs => exact sound.outputs
  case realisationIds => exact sound.realisationIds
  case realised => exact sound.realised
  case outputPaths => exact fun row' member => keeps (sound.outputPaths row' member)
  case realisationsRefs => exact sound.realisationsRefs

/-- Inserting a reference keeps the schema. -/
theorem Sound.insertRef (sound : db.Sound) {row : RefsRow} (inserted : db.insertRef row = some db') :
    db'.Sound := by
  unfold Database.insertRef at inserted
  split at inserted
  case isFalse => cases inserted
  case isTrue keys =>
    obtain rfl := Option.some.inj inserted
    have keys := Bool.and_eq_true_iff.mp keys
    refine { sound with refs := ?_ }
    intro row' member
    rcases List.mem_append.mp member with old | new
    · exact sound.refs row' (List.mem_filter.mp old).1
    · rw [List.mem_singleton.mp new]
      exact keys

/-- Deleting references keeps the schema. -/
theorem Sound.deleteRef (sound : db.Sound) (referrer reference : Option Int) :
    (db.deleteRef referrer reference).Sound :=
  { sound with refs := fun row member => sound.refs row (List.mem_filter.mp member).1 }

/-- Inserting an output keeps the schema. -/
theorem Sound.insertDerivationOutput (sound : db.Sound) {row : DerivationOutputsRow}
    (inserted : db.insertDerivationOutput row = some db') : db'.Sound := by
  unfold Database.insertDerivationOutput at inserted
  split at inserted
  case isFalse => cases inserted
  case isTrue key =>
    obtain rfl := Option.some.inj inserted
    refine { sound with drvs := ?_, outputs := ?_ }
    · intro row' member
      rcases List.mem_append.mp member with old | new
      · exact sound.drvs row' (List.mem_filter.mp old).1
      · rw [List.mem_singleton.mp new]
        exact key
    · rw [List.map_append, List.map_singleton, List.nodup_append]
      refine ⟨sound.outputs.sublist (List.filter_sublist.map _), List.nodup_singleton _, ?_⟩
      intro key' member other last same
      obtain ⟨row', member', rfl⟩ := List.mem_map.mp member
      have differs := of_decide_eq_true (List.mem_filter.mp member').2
      exact differs (Prod.mk.inj (same.trans (List.mem_singleton.mp last)))

/-- Changing signatures keeps the paths and their ids. -/
theorem updateSigs_keeps {α : Type} (key : ValidPathsRow → α)
    (other : ∀ row sigs, key { row with sigs } = key row) (path sigs : Bytes) :
    (db.updateSigs path sigs).validPaths.map key = db.validPaths.map key := by
  rw [updateSigs, List.map_map]
  apply List.map_congr_left
  intro row _
  show key (if row.path = path then _ else row) = key row
  split
  · exact other row _
  · rfl

/-- Changing signatures keeps the ids. -/
theorem hasPathId_updateSigs (path sigs : Bytes) (id : Int) :
    (db.updateSigs path sigs).hasPathId id = db.hasPathId id := by
  have same := @updateSigs_keeps db _ ValidPathsRow.id (fun _ _ => rfl) path sigs
  have anyOf (database : Database) : database.hasPathId id =
      (database.validPaths.map ValidPathsRow.id).any fun other => decide (other = id) := by
    rw [hasPathId, List.any_map]
    rfl
  rw [anyOf, anyOf, same]

/-- Changing signatures keeps the schema. -/
theorem Sound.updateSigs (sound : db.Sound) (path sigs : Bytes) : (db.updateSigs path sigs).Sound := by
  constructor
  case paths =>
    rw [updateSigs_keeps ValidPathsRow.path fun _ _ => rfl]
    exact sound.paths
  case ids =>
    rw [updateSigs_keeps ValidPathsRow.id fun _ _ => rfl]
    exact sound.ids
  case issued =>
    intro row member
    obtain ⟨row', member', rfl⟩ := List.mem_map.mp member
    have old := sound.issued row' member'
    show (if row'.path = path then _ else row').id ≤ db.lastPathId
    split
    · exact old
    · exact old
  case refs =>
    intro row member
    rw [hasPathId_updateSigs, hasPathId_updateSigs]
    exact sound.refs row member
  case drvs =>
    intro row member
    rw [hasPathId_updateSigs]
    exact sound.drvs row member
  case outputs => exact sound.outputs
  case realisationIds => exact sound.realisationIds
  case realised => exact sound.realised
  case outputPaths =>
    intro row member
    rw [hasPathId_updateSigs]
    exact sound.outputPaths row member
  case realisationsRefs => exact sound.realisationsRefs

/-- Inserting a realisation keeps the schema. -/
theorem Sound.insertRealisation (sound : db.Sound) {row : Int → RealisationsRow}
    (fresh : ∀ id, (row id).id = id) (inserted : db.insertRealisation row = some db') : db'.Sound := by
  simp only [Database.insertRealisation] at inserted
  split at inserted
  · cases inserted
  split at inserted
  case isFalse => cases inserted
  rename_i key
  obtain rfl := Option.some.inj inserted
  have keeps {id : Int} (there : db.hasRealisationId id = true) :
      hasRealisationId { db with realisations := db.realisations ++ [row (db.lastRealisationId + 1)],
                                 lastRealisationId := db.lastRealisationId + 1 } id = true := by
    obtain ⟨other, member, same⟩ := hasRealisationId_iff.mp there
    exact hasRealisationId_iff.mpr ⟨other, List.mem_append_left _ member, same⟩
  refine { sound with realisationIds := ?_, realised := ?_, outputPaths := ?_, realisationsRefs := ?_ }
  · rw [List.map_append, List.map_singleton, List.nodup_append]
    refine ⟨sound.realisationIds, List.nodup_singleton _, ?_⟩
    intro id member other last same
    obtain ⟨row', member', rfl⟩ := List.mem_map.mp member
    have old := sound.realised row' member'
    rw [same, List.mem_singleton.mp last, fresh] at old
    omega
  · intro row' member
    rcases List.mem_append.mp member with old | new
    · have := sound.realised row' old
      show row'.id ≤ db.lastRealisationId + 1
      omega
    · rw [List.mem_singleton.mp new, fresh]
  · intro row' member
    rcases List.mem_append.mp member with old | new
    · exact sound.outputPaths row' old
    · rw [List.mem_singleton.mp new]
      exact key
  · intro row' member
    obtain ⟨referrer, reference⟩ := sound.realisationsRefs row' member
    refine ⟨keeps referrer, ?_⟩
    cases pointed : row'.realisationReference with
    | none => rfl
    | some id =>
      rw [pointed] at reference
      exact keeps reference

/-- Inserting a reference between realisations keeps the schema. -/
theorem Sound.insertRealisationRef (sound : db.Sound) {row : RealisationsRefsRow}
    (inserted : db.insertRealisationRef row = some db') : db'.Sound := by
  unfold Database.insertRealisationRef at inserted
  split at inserted
  case isFalse => cases inserted
  case isTrue keys =>
    obtain rfl := Option.some.inj inserted
    refine { sound with realisationsRefs := ?_ }
    intro row' member
    rcases List.mem_append.mp member with old | new
    · exact sound.realisationsRefs row' old
    · rw [List.mem_singleton.mp new]
      exact Bool.and_eq_true_iff.mp keys

/-- Something else refers to a path. -/
def Referred (db : Database) (id : Int) : Prop := ∃ row ∈ db.refs, row.reference = id ∧ row.referrer ≠ id

instance (db : Database) (id : Int) : Decidable (db.Referred id) :=
  inferInstanceAs (Decidable (∃ row ∈ db.refs, row.reference = id ∧ row.referrer ≠ id))

/-- The database without a path and what hangs on it. -/
def withoutPath (db : Database) (id : Int) : Database :=
  { db with
    validPaths := db.validPaths.filter fun row => row.id ≠ id
    refs := db.refs.filter fun row => row.referrer ≠ id
    derivationOutputs := db.derivationOutputs.filter fun row => row.drv ≠ id
    realisations := db.realisations.filter fun row => ¬ (db.realisationsOf id).contains row.id
    realisationsRefs := db.realisationsRefs.filter fun row =>
      ¬ row.realisationReference.any (db.realisationsOf id).contains ∧
        ¬ (db.realisationsOf id).contains row.referrer }

/-- A path is kept from being deleted by what else refers to it, and by nothing more. -/
theorem deleteValidPath_eq (db : Database) (id : Int) :
    db.deleteValidPath id = if db.Referred id then none else some (db.withoutPath id) := by
  -- The trigger leaves what refers to the path from elsewhere.
  have restricted : ((db.beforeDelete id).refs.any fun row => decide (row.reference = id)) =
      decide (db.Referred id) := by
    apply Bool.eq_iff_iff.mpr
    rw [List.any_eq_true, decide_eq_true_eq]
    constructor
    · rintro ⟨row, member, same⟩
      obtain ⟨inside, kept⟩ := List.mem_filter.mp member
      refine ⟨row, inside, of_decide_eq_true same, ?_⟩
      intro self
      exact of_decide_eq_true kept ⟨self, of_decide_eq_true same⟩
    · rintro ⟨row, inside, same, other⟩
      refine ⟨row, List.mem_filter.mpr ⟨inside, ?_⟩, decide_eq_true same⟩
      exact decide_eq_true fun both => other both.1
  -- It leaves nothing that refers to a realisation of the path.
  have free : ((db.beforeDelete id).realisationsRefs.any fun row =>
      row.realisationReference.any (db.realisationsOf id).contains) = false := by
    rw [List.any_eq_false]
    intro row member
    exact of_decide_eq_true (List.mem_filter.mp member).2
  rw [deleteValidPath, restricted]
  by_cases referred : db.Referred id
  · rw [if_pos (decide_eq_true referred), if_pos referred]
  · have refs : (db.beforeDelete id).refs.filter (fun row => decide (row.referrer ≠ id)) =
        db.refs.filter fun row => decide (row.referrer ≠ id) := by
      rw [beforeDelete, List.filter_filter]
      apply List.filter_congr
      intro row _
      by_cases self : row.referrer = id <;> simp [self]
    have realisationsRefs : (db.beforeDelete id).realisationsRefs.filter
        (fun row => decide (¬ (db.realisationsOf id).contains row.referrer)) =
          (db.withoutPath id).realisationsRefs := by
      rw [beforeDelete, withoutPath, List.filter_filter]
      apply List.filter_congr
      intro row _
      rw [Bool.decide_and, Bool.and_comm]
    rw [if_neg (by simpa using referred), if_neg referred]
    show (if ((db.beforeDelete id).realisationsRefs.any fun row =>
      row.realisationReference.any (db.realisationsOf id).contains) = true then none else some _) = _
    rw [if_neg (by rw [free]; exact nofun)]
    exact congrArg₂ (fun refs realisationsRefs => some { db.withoutPath id with refs, realisationsRefs })
      refs realisationsRefs

/-- Realisations of a path are known by it. -/
theorem Sound.mem_realisationsOf (sound : db.Sound) {row : RealisationsRow} (member : row ∈ db.realisations)
    (id : Int) : (db.realisationsOf id).contains row.id = true ↔ row.outputPath = id := by
  rw [List.contains_iff_mem, realisationsOf, List.mem_map]
  constructor
  · rintro ⟨other, found, same⟩
    obtain ⟨inside, path⟩ := List.mem_filter.mp found
    obtain rfl := List.inj_on_of_nodup_map sound.realisationIds inside member same
    exact of_decide_eq_true path
  · intro path
    exact ⟨row, List.mem_filter.mpr ⟨member, decide_eq_true path⟩, rfl⟩

/-- Other ids stay. -/
theorem hasPathId_withoutPath {id other : Int} :
    (db.withoutPath id).hasPathId other = true ↔ db.hasPathId other = true ∧ other ≠ id := by
  rw [hasPathId_iff, hasPathId_iff]
  constructor
  · rintro ⟨row, member, rfl⟩
    obtain ⟨inside, kept⟩ := List.mem_filter.mp member
    exact ⟨⟨row, inside, rfl⟩, of_decide_eq_true kept⟩
  · rintro ⟨⟨row, inside, rfl⟩, other⟩
    exact ⟨row, List.mem_filter.mpr ⟨inside, decide_eq_true other⟩, rfl⟩

/-- Other realisations stay. -/
theorem hasRealisationId_withoutPath {id other : Int} :
    (db.withoutPath id).hasRealisationId other = true ↔
      db.hasRealisationId other = true ∧ ¬ (db.realisationsOf id).contains other := by
  rw [hasRealisationId_iff, hasRealisationId_iff]
  constructor
  · rintro ⟨row, member, rfl⟩
    obtain ⟨inside, kept⟩ := List.mem_filter.mp member
    exact ⟨⟨row, inside, rfl⟩, of_decide_eq_true kept⟩
  · rintro ⟨⟨row, inside, rfl⟩, other⟩
    exact ⟨row, List.mem_filter.mpr ⟨inside, decide_eq_true other⟩, rfl⟩

/-- Deleting a path that nothing else refers to keeps the schema. -/
theorem Sound.withoutPath (sound : db.Sound) {id : Int} (free : ¬ db.Referred id) :
    (db.withoutPath id).Sound := by
  constructor
  case paths => exact sound.paths.sublist (List.filter_sublist.map _)
  case ids => exact sound.ids.sublist (List.filter_sublist.map _)
  case issued => exact fun row member => sound.issued row (List.mem_filter.mp member).1
  case refs =>
    intro row member
    obtain ⟨inside, kept⟩ := List.mem_filter.mp member
    have other := of_decide_eq_true kept
    have keys := sound.refs row inside
    constructor
    · exact hasPathId_withoutPath.mpr ⟨keys.1, other⟩
    · exact hasPathId_withoutPath.mpr ⟨keys.2, fun same => free ⟨row, inside, same, other⟩⟩
  case drvs =>
    intro row member
    obtain ⟨inside, kept⟩ := List.mem_filter.mp member
    exact hasPathId_withoutPath.mpr ⟨sound.drvs row inside, of_decide_eq_true kept⟩
  case outputs => exact sound.outputs.sublist (List.filter_sublist.map _)
  case realisationIds => exact sound.realisationIds.sublist (List.filter_sublist.map _)
  case realised => exact fun row member => sound.realised row (List.mem_filter.mp member).1
  case outputPaths =>
    intro row member
    obtain ⟨inside, kept⟩ := List.mem_filter.mp member
    refine hasPathId_withoutPath.mpr ⟨sound.outputPaths row inside, ?_⟩
    intro same
    exact of_decide_eq_true kept ((sound.mem_realisationsOf inside id).mpr same)
  case realisationsRefs =>
    intro row member
    obtain ⟨inside, kept⟩ := List.mem_filter.mp member
    have kept := of_decide_eq_true kept
    have keys := sound.realisationsRefs row inside
    constructor
    · exact hasRealisationId_withoutPath.mpr ⟨keys.1, kept.2⟩
    · cases pointed : row.realisationReference with
      | none => rfl
      | some other =>
        rw [pointed] at keys kept
        exact hasRealisationId_withoutPath.mpr ⟨keys.2, kept.1⟩

/-- Deleting the path of a row. -/
theorem Sound.deletePath_row (sound : db.Sound) {row : ValidPathsRow} (member : row ∈ db.validPaths) :
    db.deletePath row.path = if db.Referred row.id then none else some (1, db.withoutPath row.id) := by
  rw [deletePath, sound.rowsOf_eq member, List.foldlM_cons, deleteValidPath_eq]
  by_cases referred : db.Referred row.id
  · rw [if_pos referred, if_pos referred]
    rfl
  · rw [if_neg referred, if_neg referred]
    rfl

/-- Deleting a path that is not valid. -/
theorem deletePath_absent {path : Bytes} (absent : db.rowsOf path = []) :
    db.deletePath path = some (0, db) := by
  rw [deletePath, absent]
  rfl

end Database

end Harmonia.Db
