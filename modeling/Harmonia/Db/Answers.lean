import Harmonia.Db.Runs

/-!
# What the database answers

Queries answer what the store knows, so a sequence of operations on a new database can be asked about
as if there were no tables.
-/

namespace Harmonia.Db

open Library Store Database

variable {db : Database}

/-! ## Queries -/

/-- A text is read. -/
theorem getText_bytes (text : Text) : getText text.bytes = .ok text := by
  rw [getText, Text.fromUtf8_bytes]

/-- An optional text is read. -/
theorem getTextOption_map (text : Option Text) : getTextOption (text.map Text.bytes) = .ok text := by
  cases text with
  | none => rfl
  | some text =>
    show (getText text.bytes).map some = _
    rw [getText_bytes]
    rfl

/-- Texts are read. -/
theorem mapM_getText (texts : List Text) : (texts.map Text.bytes).mapM getText = .ok texts := by
  induction texts with
  | nil => rfl
  | cons text rest ih =>
    rw [List.map_cons, List.mapM_cons, getText_bytes, ih]
    rfl

/-- Bytes that are texts are those of texts. -/
theorem texts_of {paths : List Bytes} (readable : ∀ path ∈ paths, ∃ text : Text, text.bytes = path) :
    ∃ texts : List Text, texts.map Text.bytes = paths := by
  induction paths with
  | nil => exact ⟨[], rfl⟩
  | cons path rest ih =>
    obtain ⟨text, rfl⟩ := readable path List.mem_cons_self
    obtain ⟨texts, rfl⟩ := ih fun other member => readable other (List.mem_cons_of_mem _ member)
    exact ⟨text :: texts, rfl⟩

/-- Equal bytes are those of one text. -/
theorem mem_map_bytes {texts : List Text} {text : Text} : text.bytes ∈ texts.map Text.bytes ↔ text ∈ texts := by
  constructor
  · intro member
    obtain ⟨other, inside, same⟩ := List.mem_map.mp member
    have equal : other = text := by
      cases other
      cases text
      cases same
      rfl
    exact equal ▸ inside
  · exact List.mem_map_of_mem

/-- The set of some paths. -/
theorem querySet {statement : Statement} {paths : List Bytes}
    (readable : ∀ path ∈ paths, ∃ text : Text, text.bytes = path) :
    ∃ set : BTreeSet Text,
      (do let texts ← queryAll .none statement paths getText; pure (texts.foldl .insert .empty)) =
        (.ok set : Answer (BTreeSet Text)) ∧
      ∀ text, text ∈ set.items ↔ text.bytes ∈ paths := by
  obtain ⟨texts, rfl⟩ := texts_of readable
  refine ⟨texts.foldl .insert .empty, ?_, ?_⟩
  · show ((texts.map Text.bytes).mapM getText >>= _) = _
    rw [mapM_getText]
    rfl
  · intro text
    rw [BTreeSet.mem_foldl_insert, mem_map_bytes]
    exact ⟨fun either => either.resolve_left List.not_mem_nil, .inr⟩

/-- The paths of an id. -/
theorem mem_pathsOfId {path : Bytes} {id : Int} : path ∈ db.pathsOfId id ↔ db.Names path id := by
  rw [pathsOfId, List.mem_map]
  constructor
  · rintro ⟨row, member, same⟩
    obtain ⟨inside, there⟩ := List.mem_filter.mp member
    exact ⟨row, inside, same, of_decide_eq_true there⟩
  · rintro ⟨row, inside, same, there⟩
    exact ⟨row, List.mem_filter.mpr ⟨inside, decide_eq_true there⟩, same⟩

/-- Paths are texts. -/
theorem Database.Readable.text (readable : db.Readable) {path : Bytes} {id : Int} (names : db.Names path id) :
    ∃ text : Text, text.bytes = path := by
  obtain ⟨row, member, rfl, _⟩ := names
  exact (readable row member).path

/-- What a path refers to, in the view. -/
theorem Database.Sound.mem_referencesOf (sound : db.Sound) {path other : Bytes} :
    other ∈ referencesOf db path ↔ (path, other) ∈ db.view.refs := by
  rw [referencesOf, List.mem_flatMap]
  constructor
  · rintro ⟨row, member, names⟩
    obtain ⟨inside, found⟩ := List.mem_filter.mp member
    exact ⟨row, inside, sound.idOf_iff.mp (of_decide_eq_true found), mem_pathsOfId.mp names⟩
  · rintro ⟨row, inside, first, second⟩
    exact ⟨row, List.mem_filter.mpr ⟨inside, decide_eq_true (sound.idOf_iff.mpr first)⟩, mem_pathsOfId.mpr second⟩

/-- What refers to a path, in the view. -/
theorem Database.Sound.mem_referrersOf (sound : db.Sound) {path other : Bytes} :
    other ∈ referrersOf db path ↔ (other, path) ∈ db.view.refs := by
  rw [referrersOf, List.mem_flatMap]
  constructor
  · rintro ⟨row, member, names⟩
    obtain ⟨inside, found⟩ := List.mem_filter.mp member
    exact ⟨row, inside, mem_pathsOfId.mp names, sound.idOf_iff.mp (of_decide_eq_true found)⟩
  · rintro ⟨row, inside, first, second⟩
    exact ⟨row, List.mem_filter.mpr ⟨inside, decide_eq_true (sound.idOf_iff.mpr second)⟩, mem_pathsOfId.mpr first⟩

/-- A reference is one between valid paths. -/
theorem valid_of_refs {pair : Bytes × Bytes} (member : pair ∈ db.view.refs) :
    db.view.Valid pair.1 ∧ db.view.Valid pair.2 := by
  obtain ⟨row, _, first, second⟩ := member
  exact ⟨valid_iff.mpr ⟨_, first⟩, valid_iff.mpr ⟨_, second⟩⟩

/-- What an answer says of a path. -/
structure Describes (store : StoreState) (asked : Bytes) (entry : Entry) (info : ValidPathInfo) : Prop where
  /-- The path itself. -/
  path : info.path.bytes = asked
  /-- Its id. -/
  id : info.id = entry.id
  /-- Its hash. -/
  hash : info.hash.bytes = entry.hash
  /-- When it was registered, in whole seconds. -/
  registrationTime : info.registrationTime.secs.toInt = entry.registrationTime ∧ info.registrationTime.nanos = 0
  /-- What made it. -/
  deriver : info.deriver.map Text.bytes = entry.deriver
  /-- The size of its archive. -/
  narSize : info.narSize = entry.narSize
  /-- Whether it was built here. -/
  ultimate : info.ultimate = entry.ultimate
  /-- Its signatures. -/
  sigs : info.sigs.map Text.bytes = entry.sigs
  /-- Its content address. -/
  ca : info.ca.map Text.bytes = entry.ca
  /-- What it refers to. -/
  references : ∀ text, text ∈ info.references.items ↔ (asked, text.bytes) ∈ store.refs

/-- A readable row is read as what is known of the path. -/
theorem readPathInfo_row {row : ValidPathsRow} (readable : row.Readable) :
    ∃ info, readPathInfo row = .ok info ∧ info.id = row.id ∧ ∀ (store : StoreState) (references : BTreeSet Text),
      (∀ text, text ∈ references.items ↔ (row.path, text.bytes) ∈ store.refs) →
        Describes store row.path (.ofRow row) { info with references } := by
  obtain ⟨⟨path, path'⟩, ⟨hash, hash'⟩, ⟨deriver, deriver'⟩, ⟨sigs, sigs'⟩, ⟨ca, ca'⟩, ultimate, time⟩ := readable
  have read : readPathInfo row = .ok ⟨row.id, path, hash, ⟨row.registrationTime, 0, by decide⟩, deriver,
      row.narSize.map Int64.toUInt64, row.ultimate.getD 0 ≠ 0, sigs, ca, .empty⟩ := by
    have timed : getTime row.registrationTime = .ok ⟨row.registrationTime, 0, by decide⟩ := by
      rw [getTime, unixToSystemTime, if_neg time]
    rw [readPathInfo, ← path', ← hash', ← deriver', ← sigs', ← ca', getText_bytes, getText_bytes, timed,
      getTextOption_map, getTextOption_map, getTextOption_map]
    rcases ultimate with zero | one
    · rw [zero]
      rfl
    · rw [one]
      rfl
  refine ⟨_, read, rfl, fun store references related => ?_⟩
  exact ⟨path', rfl, hash', ⟨rfl, rfl⟩, deriver', rfl, rfl, sigs', ca', related⟩

/-- What the queries answer. -/
structure Answers (db : Database) (store : StoreState) : Prop where
  /-- Of a path that is not valid, `query_path_info` knows nothing. -/
  absent : ∀ path, ¬ store.Valid path → queryPathInfo .none db path = .ok none
  /-- Of a valid path, it knows everything. -/
  present : ∀ path entry, store.info path = some entry →
    ∃ info, queryPathInfo .none db path = .ok (some info) ∧ Describes store path entry info
  /-- `is_valid_path`. -/
  valid : ∀ path, Db.isValidPath .none db path = .ok (decide (store.Valid path))
  /-- `query_references`. -/
  references : ∀ path, ∃ set, queryReferences .none db path = .ok set ∧
    ∀ text, text ∈ set.items ↔ (path, text.bytes) ∈ store.refs
  /-- `query_referrers`. -/
  referrers : ∀ path, ∃ set, queryReferrers .none db path = .ok set ∧
    ∀ text, text ∈ set.items ↔ (text.bytes, path) ∈ store.refs
  /-- Only valid paths are related. -/
  related : ∀ pair ∈ store.refs, store.Valid pair.1 ∧ store.Valid pair.2
  /-- `query_valid_derivers`. -/
  derivers : ∀ path, ∃ texts, queryValidDerivers .none db path = .ok texts ∧
    ∀ text, text ∈ texts ↔ ∃ output, (text.bytes, output, path) ∈ store.outputs
  /-- `invalidate_path` fails where another path refers to the path, and there it changes nothing. -/
  kept : ∀ path, ((invalidatePath .none db path).1.toOption = none ↔ store.Referred path) ∧
    (store.Referred path → (invalidatePath .none db path).2 = db)

/-- A database answers for the store it stands for. -/
theorem answers_view (sound : db.Sound) (readable : db.Readable) : Answers db db.view := by
  constructor
  case absent =>
    intro path invalid
    show pathInfoOf .none db (queryRow .none _ (db.rowsOf path) readPathInfo) = _
    rw [rowsOf_of_invalid invalid]
    rfl
  case present =>
    intro path entry known
    obtain ⟨id, row, member, rfl, rfl⟩ := valid_iff.mp (show db.view.Valid path by
      rw [StoreState.Valid, known]; rfl)
    rw [sound.info_row member] at known
    obtain rfl := Option.some.inj known
    obtain ⟨info, read, same, describes⟩ := readPathInfo_row (readable row member)
    obtain ⟨set, made, members⟩ := @querySet (.selectReferencesById row.id)
      ((db.refs.filter fun other => other.referrer = row.id).flatMap fun other => db.pathsOfId other.reference)
      (by
        intro path inside
        obtain ⟨other, _, names⟩ := List.mem_flatMap.mp inside
        exact readable.text (mem_pathsOfId.mp names))
    have related : ∀ text, text ∈ set.items ↔ (row.path, text.bytes) ∈ db.view.refs := by
      intro text
      rw [members, ← sound.mem_referencesOf, referencesOf, sound.idOf_eq ⟨row, member, rfl, rfl⟩]
      simp only [Option.some.injEq]
    refine ⟨_, ?_, describes db.view set related⟩
    show pathInfoOf .none db (queryRow .none _ (db.rowsOf row.path) readPathInfo) = _
    rw [sound.rowsOf_eq member]
    show pathInfoOf .none db (readPathInfo row) = _
    rw [read]
    show (queryReferencesById .none db info.id >>= _) = _
    rw [same, show queryReferencesById .none db row.id = .ok set from made]
    rfl
  case valid =>
    intro path
    show Except.ok (queryRow .none _ (db.rowsOf path) fun _ => .ok ()).isOk = _
    by_cases valid : db.view.Valid path
    · obtain ⟨id, row, member, rfl, rfl⟩ := valid_iff.mp valid
      rw [sound.rowsOf_eq member, decide_eq_true valid]
      rfl
    · rw [rowsOf_of_invalid valid, decide_eq_false valid]
      rfl
  case references =>
    intro path
    obtain ⟨set, made, members⟩ := @querySet (.selectReferences path) (referencesOf db path) (by
      intro other inside
      obtain ⟨row, _, names⟩ := List.mem_flatMap.mp inside
      exact readable.text (mem_pathsOfId.mp names))
    exact ⟨set, made, fun text => (members text).trans sound.mem_referencesOf⟩
  case referrers =>
    intro path
    obtain ⟨set, made, members⟩ := @querySet (.selectReferrers path) (referrersOf db path) (by
      intro other inside
      obtain ⟨row, _, names⟩ := List.mem_flatMap.mp inside
      exact readable.text (mem_pathsOfId.mp names))
    exact ⟨set, made, fun text => (members text).trans sound.mem_referrersOf⟩
  case related => exact fun pair member => valid_of_refs member
  case derivers =>
    intro path
    obtain ⟨texts, same⟩ := @texts_of
      ((db.derivationOutputs.filter fun row => row.path = path).flatMap fun row => db.pathsOfId row.drv) (by
        intro other inside
        obtain ⟨row, _, names⟩ := List.mem_flatMap.mp inside
        exact readable.text (mem_pathsOfId.mp names))
    refine ⟨texts, ?_, ?_⟩
    · show List.mapM getText ((db.derivationOutputs.filter fun row => row.path = path).flatMap fun row =>
        db.pathsOfId row.drv) = _
      rw [← same, mapM_getText]
    · intro text
      rw [← mem_map_bytes, same, List.mem_flatMap]
      constructor
      · rintro ⟨row, member, names⟩
        obtain ⟨inside, there⟩ := List.mem_filter.mp member
        exact ⟨row.id, row, inside, mem_pathsOfId.mp names, rfl, of_decide_eq_true there⟩
      · rintro ⟨output, row, inside, names, _, there⟩
        exact ⟨row, List.mem_filter.mpr ⟨inside, decide_eq_true there⟩, mem_pathsOfId.mpr names⟩
  case kept =>
    intro path
    by_cases valid : db.view.Valid path
    · obtain ⟨id, row, member, rfl, rfl⟩ := valid_iff.mp valid
      have referred := @Database.Sound.referred_iff db sound row.path row.id ⟨row, member, rfl, rfl⟩
      by_cases there : db.Referred row.id
      · have answer : invalidatePath .none db row.path = (.error (.sqlite .sqliteFailure), db) := by
          rw [invalidatePath, sound.deletePath_row member, if_pos there]
          rfl
        rw [answer]
        exact ⟨⟨fun _ => referred.mpr there, fun _ => rfl⟩, fun _ => rfl⟩
      · have answer : invalidatePath .none db row.path = (.ok true, db.withoutPath row.id) := by
          rw [invalidatePath, sound.deletePath_row member, if_neg there]
          rfl
        rw [answer]
        exact ⟨⟨(by rintro ⟨⟩), fun other => absurd (referred.mp other) there⟩, fun other => absurd (referred.mp other) there⟩
    · have answer : invalidatePath .none db path = (.ok false, db) := by
        rw [invalidatePath, deletePath_absent (rowsOf_of_invalid valid)]
        rfl
      have free : ¬ db.view.Referred path := by
        rintro ⟨referrer, _, member⟩
        exact valid (valid_of_refs member).2
      rw [answer]
      exact ⟨⟨(by rintro ⟨⟩), fun other => absurd other free⟩, fun _ => rfl⟩

/-! ## Runs -/

/-- An operation that registers no path at the least time. -/
def Operation.Timely : Operation → Prop
  | registerValidPath params => ¬ params.registrationTime.Least
  | _ => True

/-- Every such operation does what it is for. -/
theorem Operation.follows (sound : db.Sound) {operation : Operation} (timely : operation.Timely) :
    operation.Follows db := by
  cases operation with
  | registerValidPath params => exact registerValidPath_follows sound timely
  | addReference referrer reference => exact addReference_follows sound referrer reference
  | removeReference referrer reference => exact removeReference_follows sound referrer reference
  | registerDerivationOutput drvPath outputId outputPath =>
    exact registerDerivationOutput_follows sound drvPath outputId outputPath
  | invalidatePath path => exact invalidatePath_follows sound path
  | updateSignatures path sigs => exact updateSignatures_follows sound path sigs
  | registerRealisation drvPath outputName outputPathId signatures =>
    exact registerRealisation_follows sound drvPath outputName outputPathId signatures
  | addRealisationReference referrerId referenceId =>
    exact addRealisationReference_follows sound referrerId referenceId

/-- Operations, one after another, with what each returns. -/
def Database.runAll (db : Database) : List Operation → List (Answer Reply) × Database
  | [] => ([], db)
  | operation :: rest =>
    let (answer, next) := operation.run db
    let (answers, final) := next.runAll rest
    (answer :: answers, final)

/-- What the operations are for, one after another. -/
noncomputable def StoreState.applyAll (store : StoreState) : List Operation → List (Option Reply) × StoreState
  | [] => ([], store)
  | operation :: rest =>
    let (reply, next) := store.apply operation
    let (replies, final) := next.applyAll rest
    (reply :: replies, final)

/-- A run of operations does what they are for. -/
theorem runAll_follows (operations : List Operation) {db : Database} (sound : db.Sound) (readable : db.Readable)
    (timely : ∀ operation ∈ operations, operation.Timely) :
    (db.runAll operations).2.Sound ∧ (db.runAll operations).2.Readable ∧
      ((db.runAll operations).1.map Except.toOption, (db.runAll operations).2.view) =
        db.view.applyAll operations := by
  induction operations generalizing db with
  | nil => exact ⟨sound, readable, rfl⟩
  | cons operation rest ih =>
    have one := Operation.follows sound (timely operation List.mem_cons_self)
    have all := ih one.sound (one.readable readable) fun other member => timely other (List.mem_cons_of_mem _ member)
    have ran : db.runAll (operation :: rest) =
        ((operation.run db).1 :: ((operation.run db).2.runAll rest).1, ((operation.run db).2.runAll rest).2) := rfl
    have applied : db.view.applyAll (operation :: rest) =
        ((db.view.apply operation).1 :: ((db.view.apply operation).2.applyAll rest).1,
          ((db.view.apply operation).2.applyAll rest).2) := rfl
    rw [ran, applied, ← one.applied]
    refine ⟨all.1, all.2.1, ?_⟩
    rw [← all.2.2]
    rfl

/-- The empty database stands for the empty store. -/
theorem view_empty : Database.empty.view = .empty := by
  refine StoreState.ext rfl ?_ ?_ ?_ rfl rfl
  · ext pair
    exact ⟨fun ⟨_, member, _⟩ => (nomatch member), False.elim⟩
  · ext output
    exact ⟨fun ⟨_, member, _⟩ => (nomatch member), False.elim⟩
  · ext realisation
    exact ⟨fun ⟨_, member, _⟩ => (nomatch member), False.elim⟩

/-- For every sequence of operations on a new database, none of which registers a path at the least time:
each returns what it is to return, and after them the database answers for the store they make. -/
theorem runs_refine (operations : List Operation) (timely : ∀ operation ∈ operations, operation.Timely) :
    (Database.empty.runAll operations).1.map Except.toOption = (StoreState.empty.applyAll operations).1 ∧
      Answers (Database.empty.runAll operations).2 (StoreState.empty.applyAll operations).2 := by
  have readable : Database.empty.Readable := by
    intro row member
    cases member
  obtain ⟨sound, read, same⟩ := runAll_follows operations empty_sound readable timely
  rw [view_empty] at same
  rw [← same]
  exact ⟨rfl, answers_view sound read⟩

/-- A path that refers to itself, registered half a second before the epoch. -/
def selfReferring : RegisterPathParams :=
  { path := ⟨asciiBytes "/a", by decide, by decide⟩
    hash := ⟨[], by decide, by decide⟩
    registrationTime := ⟨-1, 500000000, by decide⟩
    deriver := none
    narSize := some 0xFFFFFFFFFFFFFFFF
    ultimate := true
    sigs := none
    ca := none
    references := BTreeSet.empty.insert ⟨asciiBytes "/a", by decide, by decide⟩ }

/-- The path is registered, refused the second time, and deleted. -/
theorem runs_refine_sample :
    (Database.empty.runAll [.registerValidPath selfReferring, .registerValidPath selfReferring,
        .invalidatePath (asciiBytes "/a")]).1.map Except.toOption =
      [some (.id 1), none, some (.removed true)] ∧
    (StoreState.empty.applyAll [.registerValidPath selfReferring, .registerValidPath selfReferring,
        .invalidatePath (asciiBytes "/a")]).1 = [some (.id 1), none, some (.removed true)] := by
  have run := runs_refine [.registerValidPath selfReferring, .registerValidPath selfReferring,
    .invalidatePath (asciiBytes "/a")] (by
      intro operation member
      simp only [List.mem_cons, List.not_mem_nil, or_false] at member
      rcases member with rfl | rfl | rfl
      · exact (by decide : ¬ selfReferring.registrationTime.Least)
      · exact (by decide : ¬ selfReferring.registrationTime.Least)
      · trivial)
  have replies : (Database.empty.runAll [.registerValidPath selfReferring, .registerValidPath selfReferring,
      .invalidatePath (asciiBytes "/a")]).1.map Except.toOption =
        [some (.id 1), none, some (.removed true)] := by decide +kernel
  exact ⟨replies, run.1.symm.trans replies⟩

/-- A path that is not valid is registered with the next id. -/
theorem StoreState.register_reply {store : StoreState} {params : RegisterPathParams}
    (fresh : ¬ (store.Valid params.path.bytes ∨ store.lastPathId = maxRowid)) :
    (store.register params).1 = some (.id (store.lastPathId + 1)) := by
  simp only [register, if_neg fresh]

/-- The least time there is. -/
def leastTime : SystemTime := ⟨Int64.minValue, 0, SystemTime.zero_small⟩

/-- A path that is registered at the least time is not registered: the operation does not return. -/
theorem least_time_panics :
    leastTime.truncated = -2 ^ 63 ∧
      (Database.empty.runAll [.registerValidPath { selfReferring with registrationTime := leastTime }]).1 =
        [.error .panicked] ∧
      ¬ (Database.empty.runAll [.registerValidPath { selfReferring with registrationTime := leastTime }]).1.map
          Except.toOption =
        (StoreState.empty.applyAll [.registerValidPath { selfReferring with registrationTime := leastTime }]).1 := by
  have ran : (Database.empty.runAll [.registerValidPath { selfReferring with registrationTime := leastTime }]).1 =
      [.error .panicked] := by
    have answer : (Operation.registerValidPath { selfReferring with registrationTime := leastTime }).run .empty =
        (.error .panicked, .empty) := by
      show ((registerValidPath .none .empty { selfReferring with registrationTime := leastTime }).1.map _, _) = _
      rw [registerValidPath, unixTime, systemTimeToUnix_least ⟨rfl, rfl⟩]
      rfl
    rw [Database.runAll, answer]
    rfl
  refine ⟨by decide +kernel, ran, ?_⟩
  rw [ran]
  intro same
  have applied : (StoreState.empty.applyAll
      [.registerValidPath { selfReferring with registrationTime := leastTime }]).1 = [some (.id 1)] := by
    show [(StoreState.empty.register { selfReferring with registrationTime := leastTime }).1] = _
    have fresh : ¬ (StoreState.empty.Valid (asciiBytes "/a") ∨ StoreState.empty.lastPathId = maxRowid) := by
      decide
    rw [StoreState.register_reply fresh]
    rfl
  rw [applied] at same
  cases same

end Harmonia.Db
