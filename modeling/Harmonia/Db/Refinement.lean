import Harmonia.Db.Sound
import Harmonia.Db.Store
import Harmonia.Store.Inputs

/-!
# The database refines the store

A database is viewed as the store it stands for. Each statement is a small change of that view, and
each operation is its own counterpart there, as long as the schema holds.
-/

namespace Harmonia.Db

open Library Store

/-- What a row says of its path. -/
def Entry.ofRow (row : ValidPathsRow) : Entry where
  id := row.id
  hash := row.hash
  registrationTime := row.registrationTime.toInt
  deriver := row.deriver
  narSize := row.narSize.map Int64.toUInt64
  ultimate := row.ultimate.getD 0 ≠ 0
  sigs := row.sigs
  ca := row.ca

namespace Database

/-- The store a database stands for. -/
def view (db : Database) : StoreState where
  info path := (db.rowsOf path).head?.map Entry.ofRow
  refs := { pair | ∃ row ∈ db.refs, db.Names pair.1 row.referrer ∧ db.Names pair.2 row.reference }
  outputs := { output | ∃ row ∈ db.derivationOutputs,
    db.Names output.1 row.drv ∧ row.id = output.2.1 ∧ row.path = output.2.2 }
  realisations := { realisation | ∃ row ∈ db.realisations, db.Names realisation.outputPath row.outputPath ∧
    realisation = ⟨row.id, row.drvPath, row.outputName, realisation.outputPath, row.signatures⟩ }
  lastPathId := db.lastPathId
  lastRealisationId := db.lastRealisationId

variable {db db' : Database}

/-- What is known of a path is what its row says. -/
theorem Sound.info_row (sound : db.Sound) {row : ValidPathsRow} (member : row ∈ db.validPaths) :
    db.view.info row.path = some (.ofRow row) := by
  show (db.rowsOf row.path).head?.map Entry.ofRow = _
  rw [sound.rowsOf_eq member]
  rfl

/-- Nothing is known of a path without a row. -/
theorem info_none {path : Bytes} : db.view.info path = none ↔ ∀ id, ¬ db.Names path id := by
  rw [← rowsOf_nil]
  show (db.rowsOf path).head?.map Entry.ofRow = none ↔ _
  cases db.rowsOf path <;> simp

/-- A path is valid if it has an id. -/
theorem valid_iff {path : Bytes} : db.view.Valid path ↔ ∃ id, db.Names path id := by
  rw [StoreState.Valid, Option.isSome_iff_ne_none, ne_eq, info_none]
  simp

/-- The id of a path, in the view. -/
theorem Sound.hasId_iff (sound : db.Sound) {path : Bytes} {id : Int} :
    db.view.HasId path id ↔ db.Names path id := by
  constructor
  · intro has
    cases known : db.view.info path with
    | none =>
      rw [StoreState.HasId, known] at has
      cases has
    | some entry =>
      obtain ⟨other, row, member, rfl, rfl⟩ := valid_iff.mp (show db.view.Valid path by
        rw [StoreState.Valid, known]; rfl)
      rw [StoreState.HasId, sound.info_row member] at has
      exact ⟨row, member, rfl, Option.some.inj has⟩
  · rintro ⟨row, member, rfl, rfl⟩
    rw [StoreState.HasId, sound.info_row member]
    rfl

/-- The one id of a valid path is the one a subquery finds. -/
theorem Sound.idOf_eq (sound : db.Sound) {path : Bytes} {id : Int} (names : db.Names path id) :
    db.idOf path = some id := by
  obtain ⟨row, member, rfl, rfl⟩ := names
  rw [idOf, sound.rowsOf_eq member]
  rfl

/-- A subquery finds nothing for a path that is not valid. -/
theorem idOf_none {path : Bytes} (absent : ∀ id, ¬ db.Names path id) : db.idOf path = none := by
  rw [idOf, rowsOf_nil.mpr absent]
  rfl

/-- An id that a subquery finds is that of the path. -/
theorem Sound.idOf_iff (sound : db.Sound) {path : Bytes} {id : Int} :
    some id = db.idOf path ↔ db.Names path id := by
  constructor
  · intro found
    by_cases absent : ∀ other, ¬ db.Names path other
    · rw [idOf_none absent] at found
      cases found
    · obtain ⟨other, there⟩ := not_forall_not.mp absent
      rw [sound.idOf_eq there] at found
      cases found
      exact there
  · exact fun names => (sound.idOf_eq names).symm

/-- Where everything that is related to anything keeps its path, the relations stay. -/
theorem Sound.view_congr (sound : db.Sound) (refs : db'.refs = db.refs)
    (outputs : db'.derivationOutputs = db.derivationOutputs) (realisations : db'.realisations = db.realisations)
    (last : db'.lastRealisationId = db.lastRealisationId)
    (names : ∀ {path id}, db.hasPathId id = true → (db'.Names path id ↔ db.Names path id)) :
    db'.view = { db.view with info := db'.view.info, lastPathId := db'.lastPathId } := by
  refine StoreState.ext rfl ?_ ?_ ?_ rfl last
  · ext pair
    show (∃ row ∈ db'.refs, _) ↔ ∃ row ∈ db.refs, _
    rw [refs]
    apply exists_congr
    intro row
    apply and_congr_right
    intro member
    exact and_congr (names (sound.refs row member).1) (names (sound.refs row member).2)
  · ext output
    show (∃ row ∈ db'.derivationOutputs, _) ↔ ∃ row ∈ db.derivationOutputs, _
    rw [outputs]
    apply exists_congr
    intro row
    apply and_congr_right
    intro member
    exact and_congr_left' (names (sound.drvs row member))
  · ext realisation
    show (∃ row ∈ db'.realisations, _) ↔ ∃ row ∈ db.realisations, _
    rw [realisations]
    apply exists_congr
    intro row
    apply and_congr_right
    intro member
    exact and_congr_left' (names (sound.outputPaths row member))

/-! ## References -/

/-- Inserting a reference between two paths. -/
theorem Sound.insertRef_view (sound : db.Sound) {referrer reference : Bytes} {left right : Int}
    (first : db.Names referrer left) (second : db.Names reference right) :
    ∃ db', db.insertRef ⟨left, right⟩ = some db' ∧ db'.validPaths = db.validPaths ∧
      db'.view = { db.view with refs := db.view.refs ∪ {(referrer, reference)} } := by
  have keys : (db.hasPathId left && db.hasPathId right) = true :=
    Bool.and_eq_true_iff.mpr ⟨hasPathId_names.mpr ⟨_, first⟩, hasPathId_names.mpr ⟨_, second⟩⟩
  refine ⟨_, if_pos keys, rfl, ?_⟩
  refine congrArg (fun refs => { db.view with refs }) ?_
  ext ⟨from_, to_⟩
  constructor
  · rintro ⟨row, member, names⟩
    rcases List.mem_append.mp member with old | new
    · exact .inl ⟨row, (List.mem_filter.mp old).1, names⟩
    · right
      obtain rfl := List.mem_singleton.mp new
      exact Prod.ext (sound.names_path names.1 first) (sound.names_path names.2 second)
  · rintro (⟨row, member, names⟩ | same)
    · by_cases equal : row = ⟨left, right⟩
      · exact ⟨row, List.mem_append_right _ (List.mem_singleton.mpr equal), names⟩
      · exact ⟨row, List.mem_append_left _ (List.mem_filter.mpr ⟨member, decide_eq_true equal⟩), names⟩
    · obtain ⟨rfl, rfl⟩ := Prod.mk.inj same
      exact ⟨_, List.mem_append_right _ (List.mem_singleton.mpr rfl), first, second⟩

/-- Deleting the reference between two paths. -/
theorem Sound.deleteRef_view (sound : db.Sound) (referrer reference : Bytes) :
    (db.deleteRef (db.idOf referrer) (db.idOf reference)).view =
      { db.view with refs := { pair ∈ db.view.refs | pair ≠ (referrer, reference) } } := by
  refine congrArg (fun refs => { db.view with refs }) ?_
  ext ⟨from_, to_⟩
  constructor
  · rintro ⟨row, member, names⟩
    obtain ⟨inside, kept⟩ := List.mem_filter.mp member
    refine ⟨⟨row, inside, names⟩, ?_⟩
    rintro same
    obtain ⟨rfl, rfl⟩ := Prod.mk.inj same
    exact of_decide_eq_true kept ⟨sound.idOf_iff.mpr names.1, sound.idOf_iff.mpr names.2⟩
  · rintro ⟨⟨row, inside, names⟩, other⟩
    refine ⟨row, List.mem_filter.mpr ⟨inside, decide_eq_true ?_⟩, names⟩
    rintro ⟨same, same'⟩
    have first := sound.names_path names.1 (sound.idOf_iff.mp same)
    have second := sound.names_path names.2 (sound.idOf_iff.mp same')
    exact other (Prod.ext first second)

/-! ## Paths -/

/-- The database with a new path. -/
def withPath (db : Database) (row : ValidPathsRow) : Database :=
  { db with validPaths := db.validPaths ++ [row], lastPathId := db.lastPathId + 1 }

/-- A new path is known, and nothing else changes. -/
theorem Sound.withPath_view (sound : db.Sound) {row : ValidPathsRow} (fresh : row.id = db.lastPathId + 1)
    (absent : ¬ db.view.Valid row.path) :
    (db.withPath row).view =
      { db.view.learn row.path (some (.ofRow row)) with lastPathId := db.lastPathId + 1 } := by
  -- Nothing that is related to anything has the new id.
  have names {other : Bytes} {id : Int} (there : db.hasPathId id = true) :
      (db.withPath row).Names other id ↔ db.Names other id := by
    constructor
    · rintro ⟨row', member, same, same'⟩
      rcases List.mem_append.mp member with old | new
      · exact ⟨row', old, same, same'⟩
      · obtain ⟨row'', member', same''⟩ := hasPathId_iff.mp there
        have old := sound.issued row'' member'
        rw [List.mem_singleton.mp new, fresh] at same'
        omega
    · rintro ⟨row', member, same⟩
      exact ⟨row', List.mem_append_left _ member, same⟩
  have info : (db.withPath row).view.info = (db.view.learn row.path (some (.ofRow row))).info := by
    funext other
    show ((db.validPaths ++ [row]).filter fun row => row.path = other).head?.map Entry.ofRow =
      if other = row.path then _ else (db.rowsOf other).head?.map Entry.ofRow
    rw [List.filter_append, List.filter_singleton]
    by_cases same : other = row.path
    · have none : db.rowsOf row.path = [] :=
        rowsOf_nil.mpr fun id there => absent (valid_iff.mpr ⟨id, there⟩)
      rw [if_pos same, same, show List.filter _ db.validPaths = [] from none, decide_eq_true rfl]
      rfl
    · rw [if_neg same, decide_eq_false (Ne.symm same), cond_false, List.append_nil]
      rfl
  have kept := @Sound.view_congr db (db.withPath row) sound rfl rfl rfl rfl names
  rw [kept, info]
  rfl

/-- Inserting a path that is not valid. -/
theorem insertValidPath_some {row : Int → ValidPathsRow} {path : Bytes} (named : ∀ id, (row id).path = path)
    (absent : ¬ db.view.Valid path) (room : db.lastPathId ≠ maxRowid) :
    db.insertValidPath row = some (db.withPath (row (db.lastPathId + 1))) := by
  have unique : ¬ (db.validPaths.any fun other =>
      decide (other.path = (row (db.lastPathId + 1)).path)) = true := by
    rw [named, List.any_eq_true]
    rintro ⟨other, member, same⟩
    exact absent (valid_iff.mpr ⟨other.id, other, member, of_decide_eq_true same, rfl⟩)
  simp only [insertValidPath]
  rw [if_neg room, if_neg unique]
  rfl

/-- Inserting a path fails if it is valid, or if there is no id left. -/
theorem insertValidPath_none {row : Int → ValidPathsRow} {path : Bytes} (named : ∀ id, (row id).path = path)
    (refused : db.view.Valid path ∨ db.lastPathId = maxRowid) : db.insertValidPath row = none := by
  simp only [insertValidPath]
  by_cases room : db.lastPathId = maxRowid
  · rw [if_pos room]
  · obtain ⟨id, other, member, same, _⟩ := valid_iff.mp (refused.resolve_right room)
    rw [if_neg room, named, if_pos]
    exact List.any_eq_true.mpr ⟨other, member, decide_eq_true same⟩

/-- Changing the signatures of a path. -/
theorem Sound.updateSigs_view (sound : db.Sound) (path sigs : Bytes) :
    (db.updateSigs path sigs).view =
      db.view.learn path ((db.view.info path).map fun entry => { entry with sigs := some sigs }) := by
  let update (row : ValidPathsRow) := if row.path = path then { row with sigs := some sigs } else row
  have same (row : ValidPathsRow) : (update row).path = row.path ∧ (update row).id = row.id := by
    show (if _ then _ else _ : ValidPathsRow).path = _ ∧ (if _ then _ else _ : ValidPathsRow).id = _
    split <;> exact ⟨rfl, rfl⟩
  have names {other : Bytes} {id : Int} (_ : db.hasPathId id = true) :
      (db.updateSigs path sigs).Names other id ↔ db.Names other id := by
    constructor
    · rintro ⟨row, member, path', id'⟩
      obtain ⟨old, inside, rfl⟩ := List.mem_map.mp member
      exact ⟨old, inside, (same old).1.symm.trans path', (same old).2.symm.trans id'⟩
    · rintro ⟨row, member, path', id'⟩
      exact ⟨_, List.mem_map_of_mem member, (same row).1.trans path', (same row).2.trans id'⟩
  have info : (db.updateSigs path sigs).view.info =
      (db.view.learn path ((db.view.info path).map fun entry => { entry with sigs := some sigs })).info := by
    funext other
    show ((db.validPaths.map update).filter fun row => row.path = other).head?.map Entry.ofRow =
      if other = path then ((db.rowsOf path).head?.map Entry.ofRow).map _ else (db.rowsOf other).head?.map Entry.ofRow
    rw [List.filter_map, List.head?_map]
    have filtered : db.validPaths.filter ((fun row => decide (row.path = other)) ∘ update) = db.rowsOf other := by
      apply List.filter_congr
      intro row _
      rw [Function.comp_apply, (same row).1]
    rw [filtered]
    by_cases equal : other = path
    · rw [if_pos equal, equal]
      cases found : (db.rowsOf path).head? with
      | none => rfl
      | some row =>
        have there : row.path = path := by
          have member := List.mem_filter.mp (List.mem_of_head? found)
          exact of_decide_eq_true member.2
        show some (Entry.ofRow (if row.path = path then _ else _)) = _
        rw [if_pos there]
        rfl
    · rw [if_neg equal]
      cases found : (db.rowsOf other).head? with
      | none => rfl
      | some row =>
        have there : row.path = other := by
          have member := List.mem_filter.mp (List.mem_of_head? found)
          exact of_decide_eq_true member.2
        show some (Entry.ofRow (if row.path = path then _ else _)) = _
        rw [if_neg (there ▸ equal)]
        rfl
  have kept := @Sound.view_congr db (db.updateSigs path sigs) sound rfl rfl rfl rfl names
  rw [kept, info]
  rfl

/-- Deleting a path takes its id away. -/
theorem names_withoutPath {id other : Int} {path : Bytes} :
    (db.withoutPath id).Names path other ↔ db.Names path other ∧ other ≠ id := by
  constructor
  · rintro ⟨row, member, same, rfl⟩
    obtain ⟨inside, kept⟩ := List.mem_filter.mp member
    exact ⟨⟨row, inside, same, rfl⟩, of_decide_eq_true kept⟩
  · rintro ⟨⟨row, inside, same, rfl⟩, kept⟩
    exact ⟨row, List.mem_filter.mpr ⟨inside, decide_eq_true kept⟩, same, rfl⟩

/-- A path that something else refers to is that in the view. -/
theorem Sound.referred_iff (sound : db.Sound) {path : Bytes} {id : Int} (names : db.Names path id) :
    db.view.Referred path ↔ db.Referred id := by
  constructor
  · rintro ⟨referrer, other, row, member, first, second⟩
    refine ⟨row, member, sound.names_id second names, ?_⟩
    intro same
    exact other (sound.names_path first (same ▸ names))
  · rintro ⟨row, member, same, other⟩
    obtain ⟨referrer, first⟩ := hasPathId_names.mp (sound.refs row member).1
    refine ⟨referrer, ?_, row, member, first, same ▸ names⟩
    rintro rfl
    exact other (sound.names_id first names)

/-- Deleting a path that nothing else refers to. -/
theorem Sound.withoutPath_view (sound : db.Sound) {path : Bytes} {id : Int} (names : db.Names path id) :
    (db.withoutPath id).view = { db.view.learn path none with
      refs := { pair ∈ db.view.refs | pair.1 ≠ path ∧ pair.2 ≠ path }
      outputs := { output ∈ db.view.outputs | output.1 ≠ path }
      realisations := { realisation ∈ db.view.realisations | realisation.outputPath ≠ path } } := by
  -- A path has the id exactly if it is the path.
  have apart {other : Bytes} {id' : Int} (there : db.Names other id') : id' ≠ id ↔ other ≠ path := by
    apply not_congr
    constructor
    · intro same
      exact sound.names_path there (same ▸ names)
    · rintro rfl
      exact sound.names_id there names
  refine StoreState.ext ?_ ?_ ?_ ?_ rfl rfl
  · funext other
    show ((db.validPaths.filter fun row => row.id ≠ id).filter fun row => row.path = other).head?.map Entry.ofRow =
      if other = path then none else (db.rowsOf other).head?.map Entry.ofRow
    rw [List.filter_filter]
    by_cases same : other = path
    · have none : (db.validPaths.filter fun row => decide (row.path = other) && decide (row.id ≠ id)) = [] := by
        apply List.filter_eq_nil_iff.mpr
        intro row member both
        obtain ⟨path', id'⟩ := Bool.and_eq_true_iff.mp both
        exact (apart ⟨row, member, rfl, rfl⟩).mp (of_decide_eq_true id')
          ((of_decide_eq_true path').trans same)
      rw [if_pos same, none]
      rfl
    · have kept : (db.validPaths.filter fun row => decide (row.path = other) && decide (row.id ≠ id)) =
          db.rowsOf other := by
        apply List.filter_congr
        intro row member
        by_cases here : row.path = other
        · have other' : row.id ≠ id := (apart ⟨row, member, rfl, rfl⟩).mpr (here ▸ same)
          rw [decide_eq_true other', Bool.and_true]
        · rw [decide_eq_false here, Bool.false_and]
      rw [if_neg same, kept]
  · ext ⟨from_, to_⟩
    constructor
    · rintro ⟨row, member, first, second⟩
      obtain ⟨inside, _⟩ := List.mem_filter.mp member
      obtain ⟨first, id1⟩ := names_withoutPath.mp first
      obtain ⟨second, id2⟩ := names_withoutPath.mp second
      exact ⟨⟨row, inside, first, second⟩, (apart first).mp id1, (apart second).mp id2⟩
    · rintro ⟨⟨row, inside, first, second⟩, path1, path2⟩
      have other := (apart first).mpr path1
      exact ⟨row, List.mem_filter.mpr ⟨inside, decide_eq_true other⟩, names_withoutPath.mpr ⟨first, other⟩,
        names_withoutPath.mpr ⟨second, (apart second).mpr path2⟩⟩
  · ext ⟨drv, output⟩
    constructor
    · rintro ⟨row, member, first, same⟩
      obtain ⟨inside, _⟩ := List.mem_filter.mp member
      obtain ⟨first, id1⟩ := names_withoutPath.mp first
      exact ⟨⟨row, inside, first, same⟩, (apart first).mp id1⟩
    · rintro ⟨⟨row, inside, first, same⟩, path1⟩
      have other := (apart first).mpr path1
      exact ⟨row, List.mem_filter.mpr ⟨inside, decide_eq_true other⟩, names_withoutPath.mpr ⟨first, other⟩, same⟩
  · ext realisation
    constructor
    · rintro ⟨row, member, first, same⟩
      obtain ⟨inside, _⟩ := List.mem_filter.mp member
      obtain ⟨first, id1⟩ := names_withoutPath.mp first
      exact ⟨⟨row, inside, first, same⟩, (apart first).mp id1⟩
    · rintro ⟨⟨row, inside, first, same⟩, path1⟩
      have other := (apart first).mpr path1
      refine ⟨row, List.mem_filter.mpr ⟨inside, decide_eq_true ?_⟩, names_withoutPath.mpr ⟨first, other⟩, same⟩
      exact fun contained => other ((sound.mem_realisationsOf inside id).mp contained)

/-! ## Outputs and realisations -/

/-- Inserting an output of a valid derivation. -/
theorem Sound.insertDerivationOutput_view (sound : db.Sound) {drvPath : Bytes} {id : Int}
    (names : db.Names drvPath id) (outputId outputPath : Bytes) :
    ∃ db', db.insertDerivationOutput ⟨id, outputId, outputPath⟩ = some db' ∧ db'.validPaths = db.validPaths ∧
      db'.view = { db.view with
        outputs := { output ∈ db.view.outputs | ¬ (output.1 = drvPath ∧ output.2.1 = outputId) } ∪
          {(drvPath, outputId, outputPath)} } := by
  refine ⟨_, if_pos (hasPathId_names.mpr ⟨_, names⟩), rfl, ?_⟩
  refine StoreState.ext rfl rfl ?_ rfl rfl rfl
  ext ⟨drv, output, path⟩
  constructor
  · rintro ⟨row, member, first, same, same'⟩
    rcases List.mem_append.mp member with old | new
    · obtain ⟨inside, kept⟩ := List.mem_filter.mp old
      refine .inl ⟨⟨row, inside, first, same, same'⟩, ?_⟩
      rintro ⟨rfl, equal⟩
      exact of_decide_eq_true kept ⟨sound.names_id first names, same.trans equal⟩
    · obtain rfl := List.mem_singleton.mp new
      obtain rfl := sound.names_path first names
      cases same
      cases same'
      exact .inr rfl
  · rintro (⟨⟨row, inside, first, same, same'⟩, other⟩ | equal)
    · refine ⟨row, List.mem_append_left _ (List.mem_filter.mpr ⟨inside, decide_eq_true ?_⟩), first, same, same'⟩
      rintro ⟨drv', id'⟩
      exact other ⟨sound.names_path first (drv' ▸ names), same.symm.trans id'⟩
    · cases equal
      exact ⟨_, List.mem_append_right _ (List.mem_singleton.mpr rfl), names, rfl, rfl⟩

/-- Inserting a realisation of a valid path. -/
theorem Sound.insertRealisation_view (sound : db.Sound) {outputPathId : Int} {path : Bytes}
    (names : db.Names path outputPathId) (room : db.lastRealisationId ≠ maxRowid) (drvPath outputName : Bytes)
    (signatures : Option Bytes) :
    ∃ db', db.insertRealisation (fun id => ⟨id, drvPath, outputName, outputPathId, signatures⟩) = some db' ∧
      db'.validPaths = db.validPaths ∧ db'.lastRealisationId = db.lastRealisationId + 1 ∧
      db'.view = { db.view with
        realisations := db.view.realisations ∪ { realisation |
          db.view.HasId realisation.outputPath outputPathId ∧
          realisation = ⟨db.lastRealisationId + 1, drvPath, outputName, realisation.outputPath, signatures⟩ }
        lastRealisationId := db.lastRealisationId + 1 } := by
  have inserted : db.insertRealisation (fun id => ⟨id, drvPath, outputName, outputPathId, signatures⟩) =
      some { db with
        realisations := db.realisations ++
          [⟨db.lastRealisationId + 1, drvPath, outputName, outputPathId, signatures⟩]
        lastRealisationId := db.lastRealisationId + 1 } := by
    simp only [Database.insertRealisation]
    rw [if_neg room, if_pos (hasPathId_names.mpr ⟨_, names⟩)]
  refine ⟨_, inserted, rfl, rfl, ?_⟩
  refine StoreState.ext rfl rfl rfl ?_ rfl rfl
  ext realisation
  constructor
  · rintro ⟨row, member, first, same⟩
    rcases List.mem_append.mp member with old | new
    · exact .inl ⟨row, old, first, same⟩
    · obtain rfl := List.mem_singleton.mp new
      exact .inr ⟨sound.hasId_iff.mpr first, same⟩
  · rintro (⟨row, inside, first, same⟩ | ⟨has, same⟩)
    · exact ⟨row, List.mem_append_left _ inside, first, same⟩
    · exact ⟨_, List.mem_append_right _ (List.mem_singleton.mpr rfl), sound.hasId_iff.mp has, same⟩

/-- A realisation that is there is that in the view. -/
theorem Sound.realised_iff (sound : db.Sound) {id : Int} :
    db.hasRealisationId id = true ↔ ∃ realisation ∈ db.view.realisations, realisation.id = id := by
  rw [hasRealisationId_iff]
  constructor
  · rintro ⟨row, member, rfl⟩
    obtain ⟨path, names⟩ := hasPathId_names.mp (sound.outputPaths row member)
    exact ⟨⟨row.id, row.drvPath, row.outputName, path, row.signatures⟩, ⟨row, member, names, rfl⟩, rfl⟩
  · rintro ⟨realisation, ⟨row, member, _, same⟩, rfl⟩
    exact ⟨row, member, by rw [same]⟩

end Database

end Harmonia.Db
