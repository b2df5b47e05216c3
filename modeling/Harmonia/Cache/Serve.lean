import Harmonia.Fs.Resolve
import Harmonia.Library.Text
import Harmonia.Store.Path

/-!
# Files served from the store

`harmonia-cache/src/serve.rs`. What is asked for is resolved and has to be in the store. A directory
is listed, unless it has an index: that file is opened where its links lead, and nothing asks whether
this is in the store as well.
-/

namespace Harmonia.Cache

open Library Fs Harmonia.Store

/-- `store.rs`: `Store`, without its pool. -/
structure CacheStore where
  /-- `virtual_store`. -/
  virtualStore : Bytes
  /-- `real_store`. -/
  real : Option Bytes

/-- `real_store`. -/
def CacheStore.realStore (this : CacheStore) : Bytes := this.real.getD this.virtualStore

/-- `CacheError`, by what is in its text. -/
inductive CacheError where
  /-- `PathQuery`: the hash is not one, or the daemon does not answer. -/
  | pathQuery
  /-- `cannot resolve nix store path`. -/
  | cannotResolve (source : IoError)
  /-- `cannot resolve real nix store path`. -/
  | cannotResolveStore (source : IoError)
  /-- `cannot open`. -/
  | cannotOpen (path : Path) (source : IoError)
  /-- `cannot open file`. -/
  | cannotOpenFile (path : Path) (source : IoError)
  /-- `cannot read directory`. -/
  | cannotReadDirectory (path : Path) (source : IoError)
  deriving DecidableEq

/-- `NamedFile`: the path that was opened, and what is open. -/
structure NamedFile where
  /-- `path`. -/
  path : Path
  /-- `file`. -/
  file : Node
  deriving DecidableEq

/-- A row of a listing, before it is rendered. -/
structure ListingRow where
  /-- `url`, before it is encoded. -/
  url : Path
  /-- The name, before it is escaped. -/
  name : Bytes
  /-- Whether it gets a separator at the end. -/
  isDir : Bool
  /-- The size of what is not a directory. -/
  len : UInt64
  deriving DecidableEq

/-- A listing, before it is rendered. -/
structure Listing where
  /-- The directory that was read. -/
  path : Path
  /-- `path_without_store`. -/
  pathWithoutStore : Path
  /-- `rows`. -/
  rows : List ListingRow
  deriving DecidableEq

/-- `HttpResponse`. -/
inductive Response where
  /-- `missed hash`. -/
  | missedHash
  /-- `NotFound`. -/
  | notFound
  /-- The contents of a file. -/
  | file (file : NamedFile)
  /-- A listing. -/
  | listing (listing : Listing)
  deriving DecidableEq

section Get

variable [DataEncoding]

/-- `get_real_path`. -/
def CacheStore.getRealPath (this : CacheStore) (storePath : StorePath) : Bytes :=
  match this.real with
  | some _ => joinText this.realStore storePath.display
  | none => joinText this.virtualStore storePath.display

/-- `Config`, as far as it is asked: the store, and what the daemon answers for a hash part. -/
structure Config where
  /-- `store`. -/
  store : CacheStore
  /-- `query_path_from_hash_part`. -/
  query : StorePathHash → Option (Option StorePath)

/-- `nixhash`. -/
def nixhash (settings : Config) (hash : Bytes) : Except CacheError (Option StorePath) :=
  match StorePathHash.decodeDigest hash with
  | none => .error .pathQuery
  | some hash =>
    match settings.query hash with
    | none => .error .pathQuery
    | some answer => .ok answer

/-- What a request asks for below the store path. What `strip_prefix` leaves is read by components. -/
def requestSteps (dir : Bytes) : List Component :=
  if dir.head? = some slash then Component.inner dir else steps dir

/-- `full_path`, before it is resolved. -/
def fullPath (settings : Config) (storePath : StorePath) (dir : Bytes) : List Component :=
  steps (settings.store.getRealPath storePath) ++ requestSteps dir

/-- `index.html`. -/
def indexName : Bytes := asciiBytes "index.html"

section Files

variable (fs : FileSystem)

omit [DataEncoding] in
/-- `metadata`, following links. -/
def nodeOf (path : Path) : Except IoError Node := do
  let place ← fs.resolve path.components
  match fs.nodeAt place with
  | some node => pure node
  | none => .error noEntry

/-- `is_dir`. -/
def isDir (path : Path) : Bool :=
  match nodeOf fs path with
  | .ok (.directory _) => true
  | _ => false

/-- `metadata().is_ok_and(|stat| stat.is_file())`. -/
def isFile (path : Path) : Bool :=
  match nodeOf fs path with
  | .ok (.file _ _) => true
  | _ => false

/-- `NamedFile::open_async`. -/
def openAsync (path : Path) : Except IoError NamedFile := do
  let node ← nodeOf fs path
  match path.fileName with
  | some _ => pure ⟨path, node⟩
  | none => .error ⟨.other, "Provided path has no filename"⟩

/-- The rows of the entries of a directory. -/
def listingRows (urlPrefix : Path) : Entries → List ListingRow
  | .nil => []
  | .cons name node rest =>
    ⟨urlPrefix.join name, Utf8.lossy name, node.metadata.fileType = .dir, node.metadata.len⟩ ::
      listingRows urlPrefix rest

/-- `directory_listing`. -/
def directoryListing (urlPrefix fsPath realStore : Path) : Except CacheError Response :=
  match nodeOf fs fsPath with
  | .ok (.directory entries) =>
    let pathWithoutStore :=
      if fsPath.startsWith realStore then ⟨fsPath.components.drop realStore.components.length⟩ else fsPath
    .ok (.listing ⟨fsPath, pathWithoutStore, listingRows urlPrefix entries⟩)
  | .ok _ => .error (.cannotReadDirectory fsPath notADirectory)
  | .error source => .error (.cannotReadDirectory fsPath source)

/-- `get`. -/
def get (settings : Config) (hash dir : Bytes) : Except CacheError Response := do
  match ← nixhash settings hash with
  | none => pure .missedHash
  | some storePath =>
    let fullPath ← (fs.resolve (fullPath settings storePath dir)).mapError .cannotResolve
    let realStore ← (fs.resolve (steps settings.store.realStore)).mapError .cannotResolveStore
    let fullPath := Path.ofPlace fullPath
    let realStore := Path.ofPlace realStore
    if !fullPath.startsWith realStore then pure .notFound
    else if isDir fs fullPath then
      let indexFile := fullPath.join indexName
      if isFile fs indexFile then
        (openAsync fs indexFile).mapError (.cannotOpen indexFile) >>= fun file => pure (.file file)
      else
        let urlPrefix := ((Path.new (asciiBytes "/serve")).join hash)
        directoryListing fs ⟨urlPrefix.components ++ Component.inner dir⟩ fullPath realStore
    else
      (openAsync fs fullPath).mapError (.cannotOpenFile fullPath) >>= fun file => pure (.file file)

end Files

/-! ## Containment -/

section Containment

variable {fs : FileSystem} {settings : Config} {hash dir : Bytes}

omit [DataEncoding]

/-- A path is resolved to a place in the store. -/
def Within (fs : FileSystem) (store : CacheStore) (path : Path) : Prop :=
  ∃ place real, fs.resolve path.components = .ok place ∧ fs.resolve (steps store.realStore) = .ok real ∧
    real <+: place

/-- What is returned is in the store. -/
def Response.Contained (fs : FileSystem) (store : CacheStore) : Response → Prop
  | .file opened => Within fs store opened.path
  | .listing rendered => Within fs store rendered.path
  | _ => True

/-- A legal name. -/
theorem indexName_legal : LegalName indexName := by decide

/-- The path of a place that is not a link is in the store if the place is. -/
theorem within_ofPlace {store : CacheStore} {place real : Place} (there : fs.Real place)
    (found : fs.resolve (steps store.realStore) = .ok real) :
    Within fs store (Path.ofPlace place) ↔ real <+: place := by
  constructor
  · rintro ⟨place', real', same, same', inside⟩
    rw [there.resolve] at same
    rw [found] at same'
    cases same
    cases same'
    exact inside
  · exact fun inside => ⟨place, real, there.resolve, found, inside⟩

/-- What is at the path of a place. -/
theorem nodeOf_ofPlace {place : Place} {node : Node} (there : fs.nodeAt place = some node) (real : ¬ node.IsLink) :
    nodeOf fs (Path.ofPlace place) = .ok node := by
  rw [nodeOf, FileSystem.Real.resolve ⟨node, there, real⟩]
  show (match fs.nodeAt place with
    | some node => _
    | none => _) = _
  rw [there]
  rfl

/-- What is opened is what was asked for. -/
theorem openAsync_path {path : Path} {file : NamedFile} (opened : openAsync fs path = .ok file) :
    file.path = path := by
  rw [openAsync] at opened
  cases node : nodeOf fs path with
  | error source =>
    rw [node] at opened
    cases opened
  | ok node' =>
    rw [node] at opened
    cases name : path.fileName with
    | none =>
      rw [name] at opened
      cases opened
    | some name' =>
      rw [name] at opened
      rw [← Except.ok.inj opened]

/-- A regular file is at a path. -/
theorem isFile_iff {path : Path} :
    isFile fs path = true ↔ ∃ place mode contents, fs.resolve path.components = .ok place ∧
      fs.nodeAt place = some (.file mode contents) := by
  rw [isFile, nodeOf]
  cases resolved : fs.resolve path.components with
  | error source => exact ⟨nofun, fun ⟨_, _, _, same, _⟩ => (nomatch same)⟩
  | ok place =>
    show (match (match fs.nodeAt place with
      | some node => pure node
      | none => .error noEntry : Except IoError Node) with
      | .ok (.file _ _) => true
      | _ => false) = true ↔ _
    cases there : fs.nodeAt place with
    | none =>
      constructor
      · exact nofun
      · rintro ⟨_, _, _, same, node⟩
        cases same
        rw [there] at node
        cases node
    | some node =>
      constructor
      · intro file
        cases node with
        | file mode contents => exact ⟨place, mode, contents, rfl, there⟩
        | _ => cases file
      · rintro ⟨_, _, _, same, node'⟩
        cases same
        rw [there] at node'
        cases node'
        rfl

/-- A file with a name is opened. -/
theorem openAsync_ok {path : Path} {name : Bytes} (file : isFile fs path = true) (named : path.fileName = some name) :
    ∃ opened, openAsync fs path = .ok opened := by
  rw [isFile] at file
  rw [openAsync, named]
  cases node : nodeOf fs path with
  | error source =>
    rw [node] at file
    cases file
  | ok node' => exact ⟨_, rfl⟩

/-- What is at a place, by its path. -/
theorem isDir_ofPlace {place : Place} (there : fs.Real place) :
    isDir fs (Path.ofPlace place) = true ↔ fs.DirAt place := by
  obtain ⟨node, found, real⟩ := there
  rw [isDir, nodeOf_ofPlace found real]
  constructor
  · intro dir
    cases node with
    | directory entries => exact ⟨entries, found⟩
    | _ => cases dir
  · rintro ⟨entries, same⟩
    rw [found] at same
    cases same
    rfl

/-- A directory that is listed is the one that was asked for. -/
theorem directoryListing_path {urlPrefix fsPath realStore : Path} {response : Response}
    (answer : directoryListing fs urlPrefix fsPath realStore = .ok response) :
    ∃ listing, response = .listing listing ∧ listing.path = fsPath := by
  rw [directoryListing] at answer
  cases node : nodeOf fs fsPath with
  | error source =>
    rw [node] at answer
    cases answer
  | ok node' =>
    rw [node] at answer
    cases node' with
    | directory entries => exact ⟨_, (Except.ok.inj answer).symm, rfl⟩
    | _ => cases answer

/-- What is opened is returned. -/
theorem opened_of_get {path : Path} {failure : IoError → CacheError} {response : Response}
    (answer : ((openAsync fs path).mapError failure >>= fun file => pure (.file file)) = .ok response) :
    ∃ opened, response = .file opened ∧ opened.path = path := by
  cases opened : openAsync fs path with
  | error source =>
    rw [opened] at answer
    cases answer
  | ok file =>
    rw [opened] at answer
    exact ⟨file, (Except.ok.inj answer).symm, openAsync_path opened⟩

end Containment

section Safety

variable {fs : FileSystem} {settings : Config} {hash dir : Bytes}

/-- A request that is resolved to a place in the store. -/
structure Resolved (fs : FileSystem) (settings : Config) (hash dir : Bytes) (place real : Place) : Prop where
  /-- The store path is known. -/
  known : ∃ storePath, nixhash settings hash = .ok (some storePath) ∧
    fs.resolve (fullPath settings storePath dir) = .ok place
  /-- So is the store. -/
  store : fs.resolve (steps settings.store.realStore) = .ok real
  /-- One is in the other. -/
  inside : real <+: place

/-- The index of a directory, if there is one, is in the store. -/
def IndexStays (fs : FileSystem) (settings : Config) (hash dir : Bytes) : Prop :=
  ∀ place real, Resolved fs settings hash dir place real → fs.DirAt place →
    ∀ index mode contents, fs.resolve ((Path.ofPlace place).child indexName).components = .ok index →
      fs.nodeAt index = some (.file mode contents) → real <+: index

/-- A request that is resolved in the store is answered from there, by an index first. -/
theorem get_resolved {place real : Place} (resolved : Resolved fs settings hash dir place real) :
    get fs settings hash dir =
      if isDir fs (Path.ofPlace place) then
        if isFile fs ((Path.ofPlace place).child indexName) then
          (openAsync fs ((Path.ofPlace place).child indexName)).mapError
            (.cannotOpen ((Path.ofPlace place).child indexName)) >>= fun file => pure (.file file)
        else
          directoryListing fs ⟨((Path.new (asciiBytes "/serve")).join hash).components ++ Component.inner dir⟩
            (Path.ofPlace place) (Path.ofPlace real)
      else
        (openAsync fs (Path.ofPlace place)).mapError (.cannotOpenFile (Path.ofPlace place)) >>= fun file =>
          pure (.file file) := by
  obtain ⟨⟨storePath, known, found⟩, store, inside⟩ := resolved
  have starts : (!(Path.ofPlace place).startsWith (Path.ofPlace real)) = false := by
    rw [Path.startsWith_ofPlace.mpr inside]
    rfl
  have index : (Path.ofPlace place).join indexName = (Path.ofPlace place).child indexName :=
    indexName_legal.join _
  rw [get, known]
  show ((fs.resolve (fullPath settings storePath dir)).mapError CacheError.cannotResolve >>= _) = _
  rw [found]
  show ((fs.resolve (steps settings.store.realStore)).mapError CacheError.cannotResolveStore >>= _) = _
  rw [store]
  show (if (!(Path.ofPlace place).startsWith (Path.ofPlace real)) = true then
    (pure .notFound : Except CacheError Response) else _) = _
  rw [starts, if_neg Bool.false_ne_true, index]

/-- Whatever is returned that is a file or a listing was resolved in the store first. -/
theorem get_inside {response : Response} (answer : get fs settings hash dir = .ok response) :
    response = .missedHash ∨ response = .notFound ∨ ∃ place real, Resolved fs settings hash dir place real := by
  rw [get] at answer
  cases known : nixhash settings hash with
  | error failure =>
    rw [known] at answer
    cases answer
  | ok found =>
    rw [known] at answer
    cases found with
    | none => exact .inl (Except.ok.inj answer).symm
    | some storePath =>
      change ((fs.resolve (fullPath settings storePath dir)).mapError CacheError.cannotResolve >>= _) = _ at answer
      cases place : fs.resolve (fullPath settings storePath dir) with
      | error source =>
        rw [place] at answer
        cases answer
      | ok place' =>
        rw [place] at answer
        change ((fs.resolve (steps settings.store.realStore)).mapError CacheError.cannotResolveStore >>= _) = _ at answer
        cases real : fs.resolve (steps settings.store.realStore) with
        | error source =>
          rw [real] at answer
          cases answer
        | ok real' =>
          rw [real] at answer
          by_cases inside : real' <+: place'
          · exact .inr (.inr ⟨place', real', ⟨storePath, known, place⟩, real, inside⟩)
          · have outside : (!(Path.ofPlace place').startsWith (Path.ofPlace real')) = true := by
              rw [Bool.not_eq_true']
              exact Bool.eq_false_iff.mpr fun starts => inside (Path.startsWith_ofPlace.mp starts)
            change (if (!(Path.ofPlace place').startsWith (Path.ofPlace real')) = true then
              (pure .notFound : Except CacheError Response) else _) = _ at answer
            rw [if_pos outside] at answer
            exact .inr (.inl (Except.ok.inj answer).symm)

/-- An index is opened. -/
theorem get_index {place real : Place} (resolved : Resolved fs settings hash dir place real)
    (isDirectory : fs.DirAt place) (file : isFile fs ((Path.ofPlace place).child indexName) = true) :
    ∃ opened, get fs settings hash dir = .ok (.file opened) ∧
      opened.path = (Path.ofPlace place).child indexName := by
  obtain ⟨opened, same⟩ := openAsync_ok file (Path.fileName_child _ _)
  refine ⟨opened, ?_, openAsync_path same⟩
  rw [get_resolved resolved, if_pos ((isDir_ofPlace isDirectory.real).mpr isDirectory), if_pos file, same]
  rfl

/-- For every file system, every configuration and every request, whatever is returned is in the store,
exactly if the index of the directory that is asked for, where there is one, is in the store. -/
theorem get_contained_iff (fs : FileSystem) (settings : Config) (hash dir : Bytes) :
    (∀ response, get fs settings hash dir = .ok response → response.Contained fs settings.store) ↔
      IndexStays fs settings hash dir := by
  constructor
  · intro contained place real resolved isDirectory index mode contents found node
    obtain ⟨opened, answer, path⟩ := get_index resolved isDirectory (isFile_iff.mpr ⟨index, mode, contents, found, node⟩)
    obtain ⟨place', real', same, same', inside⟩ := contained _ answer
    rw [path, found] at same
    rw [resolved.store] at same'
    cases same
    cases same'
    exact inside
  · intro stays response answer
    rcases get_inside answer with rfl | rfl | ⟨place, real, resolved⟩
    · trivial
    · trivial
    obtain ⟨storePath, known, found⟩ := resolved.known
    have there : fs.Real place := FileSystem.resolve_real found
    have within := (within_ofPlace there resolved.store).mpr resolved.inside
    rw [get_resolved resolved] at answer
    by_cases isDirectory : fs.DirAt place
    · rw [if_pos ((isDir_ofPlace there).mpr isDirectory)] at answer
      by_cases file : isFile fs ((Path.ofPlace place).child indexName) = true
      · rw [if_pos file] at answer
        obtain ⟨opened, rfl, path⟩ := opened_of_get answer
        obtain ⟨index, mode, contents, at', node⟩ := isFile_iff.mp file
        rw [← path] at at'
        refine ⟨index, real, at', resolved.store, ?_⟩
        rw [path] at at'
        exact stays place real resolved isDirectory index mode contents at' node
      · rw [if_neg file] at answer
        obtain ⟨listing, rfl, path⟩ := directoryListing_path answer
        show Within fs settings.store listing.path
        rw [path]
        exact within
    · rw [if_neg fun dir => isDirectory ((isDir_ofPlace there).mp dir)] at answer
      obtain ⟨opened, rfl, path⟩ := opened_of_get answer
      show Within fs settings.store opened.path
      rw [path]
      exact within

/-- An index that is not a link is in the store, so only a link leads out of it. -/
theorem indexStays_of_file (plain : ∀ place, fs.DirAt place →
      ∀ node, fs.nodeAt (place ++ [indexName]) = some node → ¬ node.IsLink) :
    IndexStays fs settings hash dir := by
  intro place real resolved isDirectory index mode contents found node
  rw [← Path.ofPlace_append] at found
  cases there : fs.nodeAt (place ++ [indexName]) with
  | none =>
    have walked : fs.walk fs.cwd (Path.ofPlace (place ++ [indexName])).components = .failed noEntry := by
      rw [Path.ofPlace, List.map_append]
      show fs.walk [] (place.map .normal ++ [.normal indexName]) = _
      exact FileSystem.walk_absent isDirectory there
    obtain ⟨error, failed⟩ := FileSystem.resolve_walked walked
    rw [failed] at found
    cases found
  | some node' =>
    rw [FileSystem.Real.resolve ⟨node', there, plain place isDirectory node' there⟩] at found
    cases found
    exact resolved.inside.trans (List.prefix_append _ _)

end Safety

end Get

section Sample

attribute [local instance] standard

/-- A store path. -/
def indexedPath : StorePath := ⟨.zero, ⟨asciiBytes "a", isName_letter⟩⟩

/-- A file outside the store, and a store path whose index is a link to it. -/
def linkedIndex : FileSystem where
  root :=
    .cons (asciiBytes "etc") (.directory (.cons (asciiBytes "passwd") (.file 0o644 (asciiBytes "root")) .nil))
      (.cons (asciiBytes "nix") (.directory (.cons (asciiBytes "store") (.directory
        (.cons indexedPath.display (.directory
          (.cons (asciiBytes "index.html") (.symlink (asciiBytes "/etc/passwd")) .nil)) .nil)) .nil)) .nil)
  cwd := []
  there := ⟨_, rfl⟩
  links := 40

/-- The store at its usual place. -/
def usualConfig : Config := ⟨⟨asciiBytes "/nix/store", none⟩, fun _ => some (some indexedPath)⟩

/-- The file outside the store is returned. -/
theorem linked_index_leaves :
    (∃ opened, get linkedIndex usualConfig StorePathHash.zero.display [] = .ok (.file opened) ∧
      opened.file = .file 0o644 (asciiBytes "root") ∧
      linkedIndex.resolve opened.path.components = .ok [asciiBytes "etc", asciiBytes "passwd"]) ∧
    ¬ ∀ response, get linkedIndex usualConfig StorePathHash.zero.display [] = .ok response →
      response.Contained linkedIndex usualConfig.store := by
  let path := (Path.ofPlace [asciiBytes "nix", asciiBytes "store", indexedPath.display]).child indexName
  let opened : NamedFile := ⟨path, .file 0o644 (asciiBytes "root")⟩
  have answer : get linkedIndex usualConfig StorePathHash.zero.display [] = .ok (.file opened) := by decide +kernel
  have found : linkedIndex.resolve path.components = .ok [asciiBytes "etc", asciiBytes "passwd"] := by decide +kernel
  refine ⟨⟨opened, answer, rfl, found⟩, fun contained => ?_⟩
  obtain ⟨place, real, same, store, inside⟩ := contained _ answer
  have root : linkedIndex.resolve (steps usualConfig.store.realStore) = .ok [asciiBytes "nix", asciiBytes "store"] := by
    decide +kernel
  rw [show opened.path = path from rfl, found] at same
  rw [root] at store
  cases same
  cases store
  exact absurd inside (by decide +kernel)

end Sample

end Harmonia.Cache
