import Harmonia.Protocol.Derivation

/-!
# Requests

`Request` of `types2.rs`, a word that names the operation and what the operation carries, and what
`DaemonClient` writes for it. The client writes its requests by hand, field by field; for two
operations that is not what the server reads.
-/

namespace Harmonia.Protocol

open Library Store

/-- `Operation`. -/
inductive Operation where
  | isValidPath
  | queryReferrers
  | addToStore
  | buildPaths
  | ensurePath
  | addTempRoot
  | addIndirectRoot
  | findRoots
  | setOptions
  | collectGarbage
  | queryAllValidPaths
  | queryPathInfo
  | queryPathFromHashPart
  | queryValidPaths
  | querySubstitutablePaths
  | queryValidDerivers
  | optimiseStore
  | verifyStore
  | buildDerivation
  | addSignatures
  | narFromPath
  | addToStoreNar
  | queryMissing
  | queryDerivationOutputMap
  | registerDrvOutput
  | queryRealisation
  | addMultipleToStore
  | addBuildLog
  | buildPathsWithResults
  | addPermRoot
  deriving DecidableEq, Repr

namespace Operation

/-- The number of an operation. -/
def code : Operation → UInt64
  | isValidPath => 1
  | queryReferrers => 6
  | addToStore => 7
  | buildPaths => 9
  | ensurePath => 10
  | addTempRoot => 11
  | addIndirectRoot => 12
  | findRoots => 14
  | setOptions => 19
  | collectGarbage => 20
  | queryAllValidPaths => 23
  | queryPathInfo => 26
  | queryPathFromHashPart => 29
  | queryValidPaths => 31
  | querySubstitutablePaths => 32
  | queryValidDerivers => 33
  | optimiseStore => 34
  | verifyStore => 35
  | buildDerivation => 36
  | addSignatures => 37
  | narFromPath => 38
  | addToStoreNar => 39
  | queryMissing => 40
  | queryDerivationOutputMap => 41
  | registerDrvOutput => 42
  | queryRealisation => 43
  | addMultipleToStore => 44
  | addBuildLog => 45
  | buildPathsWithResults => 46
  | addPermRoot => 47

/-- Every operation. -/
def variants : List Operation :=
  [isValidPath, queryReferrers, addToStore, buildPaths, ensurePath, addTempRoot, addIndirectRoot,
    findRoots, setOptions, collectGarbage, queryAllValidPaths, queryPathInfo, queryPathFromHashPart,
    queryValidPaths, querySubstitutablePaths, queryValidDerivers, optimiseStore, verifyStore,
    buildDerivation, addSignatures, narFromPath, addToStoreNar, queryMissing,
    queryDerivationOutputMap, registerDrvOutput, queryRealisation, addMultipleToStore, addBuildLog,
    buildPathsWithResults, addPermRoot]

end Operation

instance : Coded Operation where
  code := Operation.code
  tryFrom := tryFromPrimitive Operation.variants Operation.code
  tryFrom_code value := by cases value <;> rfl

/-! ## What requests carry -/

/-- `AddToStoreRequest`. -/
structure AddToStoreRequest where
  /-- `name`. -/
  name : Text
  /-- `cam`. -/
  cam : ContentAddressMethodAlgorithm
  /-- `refs`. -/
  refs : StorePathSet
  /-- `repair`. -/
  repair : Bool

instance : Record AddToStoreRequest (Text × ContentAddressMethodAlgorithm × StorePathSet × Bool) where
  fields value := (value.name, value.cam, value.refs, value.repair)
  make := fun (name, cam, refs, repair) => ⟨name, cam, refs, repair⟩
  make_fields _ := rfl
  fields_make _ := rfl

/-- `BuildPathsRequest`. -/
structure BuildPathsRequest [Layout] where
  /-- `paths`. -/
  paths : Vec DerivedPath
  /-- `mode`. -/
  mode : BuildMode

instance [Layout] : Record BuildPathsRequest (Vec DerivedPath × BuildMode) where
  fields value := (value.paths, value.mode)
  make := fun (paths, mode) => ⟨paths, mode⟩
  make_fields _ := rfl
  fields_make _ := rfl

/-- `CollectGarbageRequest`. -/
structure CollectGarbageRequest where
  /-- `action`. -/
  action : GCAction
  /-- `paths_to_delete`. -/
  pathsToDelete : StorePathSet
  /-- `ignore_liveness`. -/
  ignoreLiveness : Bool
  /-- `max_freed`. -/
  maxFreed : UInt64
  /-- `_removed1`. -/
  removed1 : IgnoredZero
  /-- `_removed2`. -/
  removed2 : IgnoredZero
  /-- `_removed3`. -/
  removed3 : IgnoredZero

instance : Record CollectGarbageRequest (GCAction × StorePathSet × Bool × UInt64 × IgnoredZero ×
    IgnoredZero × IgnoredZero) where
  fields value := (value.action, value.pathsToDelete, value.ignoreLiveness, value.maxFreed,
    value.removed1, value.removed2, value.removed3)
  make := fun (action, pathsToDelete, ignoreLiveness, maxFreed, removed1, removed2, removed3) =>
    ⟨action, pathsToDelete, ignoreLiveness, maxFreed, removed1, removed2, removed3⟩
  make_fields _ := rfl
  fields_make _ := rfl

/-- `QueryValidPathsRequest`. -/
structure QueryValidPathsRequest where
  /-- `paths`. -/
  paths : StorePathSet
  /-- `substitute`. -/
  substitute : Bool

instance : Record QueryValidPathsRequest (StorePathSet × Bool) where
  fields value := (value.paths, value.substitute)
  make := fun (paths, substitute) => ⟨paths, substitute⟩
  make_fields _ := rfl
  fields_make _ := rfl

/-- `VerifyStoreRequest`. -/
structure VerifyStoreRequest where
  /-- `check_contents`. -/
  checkContents : Bool
  /-- `repair`. -/
  repair : Bool

instance : Record VerifyStoreRequest (Bool × Bool) where
  fields value := (value.checkContents, value.repair)
  make := fun (checkContents, repair) => ⟨checkContents, repair⟩
  make_fields _ := rfl
  fields_make _ := rfl

/-- `BuildDerivationRequest`. -/
structure BuildDerivationRequest [Layout] where
  /-- `drv`. -/
  drv : StorePath × BasicDerivation
  /-- `mode`. -/
  mode : BuildMode

instance [Layout] : Record BuildDerivationRequest ((StorePath × BasicDerivation) × BuildMode) where
  fields value := (value.drv, value.mode)
  make := fun (drv, mode) => ⟨drv, mode⟩
  make_fields _ := rfl
  fields_make _ := rfl

/-- `AddSignaturesRequest`. -/
structure AddSignaturesRequest [Layout] where
  /-- `path`. -/
  path : StorePath
  /-- `signatures`. -/
  signatures : Vec Signature

instance [Layout] : Record AddSignaturesRequest (StorePath × Vec Signature) where
  fields value := (value.path, value.signatures)
  make := fun (path, signatures) => ⟨path, signatures⟩
  make_fields _ := rfl
  fields_make _ := rfl

/-- `AddToStoreNarRequest`. -/
structure AddToStoreNarRequest where
  /-- `path_info`. -/
  pathInfo : ValidPathInfo
  /-- `repair`. -/
  repair : Bool
  /-- `dont_check_sigs`. -/
  dontCheckSigs : Bool

instance : Record AddToStoreNarRequest (ValidPathInfo × Bool × Bool) where
  fields value := (value.pathInfo, value.repair, value.dontCheckSigs)
  make := fun (pathInfo, repair, dontCheckSigs) => ⟨pathInfo, repair, dontCheckSigs⟩
  make_fields _ := rfl
  fields_make _ := rfl

/-- `AddMultipleToStoreRequest`. -/
structure AddMultipleToStoreRequest where
  /-- `repair`. -/
  repair : Bool
  /-- `dont_check_sigs`. -/
  dontCheckSigs : Bool

instance : Record AddMultipleToStoreRequest (Bool × Bool) where
  fields value := (value.repair, value.dontCheckSigs)
  make := fun (repair, dontCheckSigs) => ⟨repair, dontCheckSigs⟩
  make_fields _ := rfl
  fields_make _ := rfl

/-- `AddPermRootRequest`. -/
structure AddPermRootRequest where
  /-- `store_path`. -/
  storePath : StorePath
  /-- `gc_root`. -/
  gcRoot : ByteString

instance : Record AddPermRootRequest (StorePath × ByteString) where
  fields value := (value.storePath, value.gcRoot)
  make := fun (storePath, gcRoot) => ⟨storePath, gcRoot⟩
  make_fields _ := rfl
  fields_make _ := rfl

/-- A variant that carries nothing writes nothing. -/
instance : NixSerialize Unit := ⟨fun _ _ => []⟩

instance [DataEncoding] : Wire Unit where
  Carried _ _ := True
  reads := fun _ _ => rfl
  accepts := fun _ _ => trivial

/-- What the requests of an operation carry. -/
@[reducible] def Operation.Payload [Layout] : Operation → Type
  | .isValidPath => StorePath
  | .queryReferrers => StorePath
  | .addToStore => AddToStoreRequest
  | .buildPaths => BuildPathsRequest
  | .ensurePath => StorePath
  | .addTempRoot => StorePath
  | .addIndirectRoot => ByteString
  | .findRoots => Unit
  | .setOptions => ClientOptions
  | .collectGarbage => CollectGarbageRequest
  | .queryAllValidPaths => Unit
  | .queryPathInfo => StorePath
  | .queryPathFromHashPart => StorePathHash
  | .queryValidPaths => QueryValidPathsRequest
  | .querySubstitutablePaths => StorePathSet
  | .queryValidDerivers => StorePath
  | .optimiseStore => Unit
  | .verifyStore => VerifyStoreRequest
  | .buildDerivation => BuildDerivationRequest
  | .addSignatures => AddSignaturesRequest
  | .narFromPath => StorePath
  | .addToStoreNar => AddToStoreNarRequest
  | .queryMissing => Vec DerivedPath
  | .queryDerivationOutputMap => StorePath
  | .registerDrvOutput => Realisation
  | .queryRealisation => DrvOutput
  | .addMultipleToStore => AddMultipleToStoreRequest
  | .addBuildLog => BaseStorePath
  | .buildPathsWithResults => BuildPathsRequest
  | .addPermRoot => AddPermRootRequest

/-- `Request`. -/
structure Request [Layout] where
  /-- `operation`. -/
  operation : Operation
  /-- What the variant carries. -/
  payload : operation.Payload

section Requests

variable [DataEncoding] [Digest] [Layout]

instance (op : Operation) : NixSerialize op.Payload := by cases op <;> infer_instance
instance (op : Operation) : NixDeserialize op.Payload := by cases op <;> infer_instance

/-- `derive(NixSerialize)` with `tag = "Operation"`. -/
instance : NixSerialize Request :=
  ⟨fun ctx request => serialize ctx request.operation ++ serialize ctx request.payload⟩

/-- `derive(NixDeserialize)` with `tag = "Operation"`. -/
instance : NixDeserialize Request :=
  ⟨fun ctx => readThen ctx fun op : Operation => do
    let payload ← readValue op.Payload ctx
    pure ⟨op, payload⟩⟩

/-- Requests whose derivation is understood. -/
instance : Sent BuildDerivationRequest where
  Understood ctx value := Understood ctx value.drv
  reads := by
    intro ctx value understood tail
    have joins : encode (serialize ctx value) ++ tail =
        encode (serialize ctx value.drv) ++ (encode (serialize ctx value.mode) ++ tail) := by
      rw [← List.append_assoc, ← encode_append]
      rfl
    rw [joins]
    exact run_convert_ok (run_pair (Sent.reads understood _) (run_readValue trivial tail)) rfl
  misses := by
    intro ctx value tail rest large supported ran
    have joins : encode (serialize ctx value) ++ tail =
        encode (serialize ctx value.drv) ++ (encode (serialize ctx value.mode) ++ tail) := by
      rw [← List.append_assoc, ← encode_append]
      rfl
    rw [joins] at ran
    obtain ⟨fields, read, made⟩ := run_convert_some ran
    obtain ⟨between, one, -⟩ := run_pair_some read
    cases made
    exact Sent.misses large (fun member => supported (List.mem_append_left _ member)) one

instance (op : Operation) : Sent op.Payload := by cases op <;> infer_instance

omit [Digest] in
/-- The operation of a request is read, and then what it carries. -/
theorem run_request {ctx : Ctx} {op : Operation} {payload : op.Payload} {input rest : Bytes}
    (read : (tryDeserialize ctx).run ctx input = .ok (some payload) rest) :
    (tryDeserialize ctx).run ctx (encode (serialize ctx op) ++ input) =
      .ok (some (⟨op, payload⟩ : Request)) rest := by
  apply run_readThen (Wire.reads (show Carried ctx op from trivial) input)
  rw [Read.run_bind, readValue, Read.run_bind, read]
  rfl

omit [Digest] in
/-- A request that was read after its operation was written. -/
theorem run_request_some {ctx : Ctx} {op : Operation} {payload : op.Payload} {input rest : Bytes}
    (ran : (tryDeserialize ctx).run ctx (encode (serialize ctx op) ++ input) =
      .ok (some (⟨op, payload⟩ : Request)) rest) :
    (tryDeserialize ctx).run ctx input = .ok (some payload) rest := by
  obtain ⟨first, between, one, more⟩ := run_readThen_some ran
  obtain ⟨second, after, two, made⟩ := Read.run_bind_ok more
  rw [Wire.reads (show Carried ctx op from trivial) input] at one
  cases one
  cases made
  exact run_readValue_ok two

/-- Requests whose payload is understood. -/
instance : Sent Request where
  Understood ctx request := Understood ctx request.payload
  reads := by
    rintro ctx ⟨op, payload⟩ understood tail
    show Read.run _ _ (encode (serialize ctx op ++ serialize ctx payload) ++ tail) = _
    rw [encode_append, List.append_assoc]
    exact run_request (Sent.reads understood tail)
  misses := by
    rintro ctx ⟨op, payload⟩ tail rest large supported ran
    change Read.run _ _ (encode (serialize ctx op ++ serialize ctx payload) ++ tail) = _ at ran
    rw [encode_append, List.append_assoc] at ran
    exact Sent.misses large (fun member => supported (List.mem_append_right _ member))
      (run_request_some ran)

/-! ## What the client writes -/

/-- The `write_value` calls of a method of `DaemonClient` after the one for the operation. The
arguments of the method are given as the payload of the request it makes. -/
def DaemonClient.writeArguments (ctx : Ctx) : (op : Operation) → op.Payload → List Token
  | .setOptions, options => serialize ctx options
  | .isValidPath, path => serialize ctx path
  | .queryValidPaths, ⟨paths, substitute⟩ =>
    serialize ctx paths ++ if 27 ≤ ctx.minor then serialize ctx substitute else []
  | .queryPathInfo, path => serialize ctx path
  | .narFromPath, path => serialize ctx path
  | .buildPaths, ⟨paths, mode⟩ => serialize ctx paths ++ serialize ctx mode
  | .buildPathsWithResults, ⟨drvs, mode⟩ => serialize ctx drvs ++ serialize ctx mode
  | .buildDerivation, ⟨drv, mode⟩ => serialize ctx drv ++ serialize ctx mode
  | .queryMissing, paths => serialize ctx paths
  | .addToStoreNar, ⟨info, repair, dontCheckSigs⟩ =>
    serialize ctx info ++ serialize ctx repair ++ serialize ctx dontCheckSigs
  | .addMultipleToStore, ⟨repair, dontCheckSigs⟩ => serialize ctx repair ++ serialize ctx dontCheckSigs
  | .queryAllValidPaths, () => []
  | .queryReferrers, path => serialize ctx path
  | .ensurePath, path => serialize ctx path
  | .addTempRoot, path => serialize ctx path
  | .addIndirectRoot, path => serialize ctx path
  | .findRoots, () => []
  | .collectGarbage, ⟨action, pathsToDelete, ignoreLiveness, maxFreed, _, _, _⟩ =>
    serialize ctx action ++ serialize ctx pathsToDelete ++ serialize ctx ignoreLiveness ++
      serialize ctx maxFreed
  | .queryPathFromHashPart, hash => serialize ctx hash
  | .querySubstitutablePaths, paths => serialize ctx paths
  | .queryValidDerivers, path => serialize ctx path
  | .optimiseStore, () => []
  | .verifyStore, ⟨checkContents, repair⟩ => serialize ctx checkContents ++ serialize ctx repair
  | .addSignatures, ⟨path, signatures⟩ => serialize ctx path ++ serialize ctx signatures
  | .queryDerivationOutputMap, path => serialize ctx path
  | .registerDrvOutput, realisation => serialize ctx realisation
  | .queryRealisation, outputId => serialize ctx outputId
  | .addBuildLog, ⟨path⟩ => serialize ctx path
  | .addPermRoot, ⟨path, gcRoot⟩ => serialize ctx path ++ serialize ctx gcRoot
  | .addToStore, ⟨name, cam, refs, repair⟩ =>
    serialize ctx name ++ serialize ctx cam ++ serialize ctx refs ++ serialize ctx repair

/-- What a method of `DaemonClient` writes up to the start of any framed body. -/
def DaemonClient.writeRequest (ctx : Ctx) (request : Request) : List Token :=
  serialize ctx request.operation ++ writeArguments ctx request.operation request.payload

/-- The operations whose request the server reads as the client writes it. -/
def Operation.Matched (op : Operation) : Prop := op ≠ .collectGarbage ∧ op ≠ .addBuildLog

instance (op : Operation) : Decidable op.Matched := inferInstanceAs (Decidable (_ ∧ _))

/-- For the other operations the client writes what the derived serialiser would. -/
theorem DaemonClient.writeArguments_eq {ctx : Ctx} (minor : 27 ≤ ctx.minor) {op : Operation}
    (matched : op.Matched) (payload : op.Payload) :
    writeArguments ctx op payload = serialize ctx payload := by
  cases op with
  | collectGarbage => exact absurd rfl matched.1
  | addBuildLog => exact absurd rfl matched.2
  | queryValidPaths =>
    show _ ++ ite _ _ _ = _
    rw [if_pos minor]
    rfl
  | addToStoreNar | addToStore =>
    simp only [writeArguments, List.append_assoc]
    rfl
  | _ => rfl

omit [Digest] [Layout] in
/-- Reading two fields, of which the first is as it was written. -/
theorem run_pair_written {α β : Type} [NixSerialize α] [NixDeserialize α] [Wire α] [NixDeserialize β]
    {ctx : Ctx} {first : α} {second : β} {input rest : Bytes} (large : 128 ≤ ctx.maxBufSize)
    (ran : (tryDeserialize ctx).run ctx (encode (serialize ctx first) ++ input) =
      .ok (some (first, second)) rest) :
    (readValue β ctx).run ctx input = .ok second rest := by
  obtain ⟨between, one, two⟩ := run_pair_some ran
  rw [Wire.reads (Wire.accepts large one)] at one
  cases one
  exact two

/-- Where the words that a garbage collection no longer needs are missing, the server misses them. -/
theorem collectGarbage_missing {ctx : Ctx} (large : 128 ≤ ctx.maxBufSize)
    (payload : CollectGarbageRequest) {rest : Bytes} :
    (tryDeserialize ctx).run ctx (encode (DaemonClient.writeArguments ctx .collectGarbage payload)) ≠
      .ok (some payload) rest := by
  intro ran
  obtain ⟨fields, read, made⟩ := run_convert_some ran
  obtain ⟨action, paths, ignore, freed, one, two, three⟩ := fields
  cases made
  simp only [DaemonClient.writeArguments, encode_append, List.append_assoc] at read
  have read := run_readValue_ok (run_pair_written large read)
  have read := run_readValue_ok (run_pair_written large read)
  have read := run_readValue_ok (run_pair_written large read)
  change Read.run ctx _ (encode (serialize ctx freed)) = _ at read
  rw [← List.append_nil (encode (serialize ctx freed))] at read
  have read := run_pair_written large read
  cases read

/-- What the client writes of a path is longer than what the server reads that path from. -/
theorem addBuildLog_longer {ctx : Ctx} (payload : BaseStorePath) {tail rest : Bytes} :
    (tryDeserialize ctx).run ctx
      (encode (DaemonClient.writeArguments ctx .addBuildLog payload) ++ tail) ≠
      .ok (some payload) rest := by
  intro ran
  obtain ⟨path⟩ := payload
  obtain ⟨buf, found, made⟩ := run_convert_some ran
  have shown : encode (DaemonClient.writeArguments ctx .addBuildLog ⟨path⟩) =
      putNixSlice (ctx.storeDir.display path.display) := encode_singleton _
  rw [shown] at found
  have found := (Read.run_bytes_done ctx _).symm.trans found
  rw [Read.tryReadBytes_putNixSlice ctx (display_small _ _)] at found
  split at found
  case isFalse => cases found
  case isTrue =>
    cases found
    unfold parseText at made
    split at made
    case isFalse => cases made
    case isTrue =>
      obtain ⟨parsed, read, same⟩ := Option.map_eq_some_iff.mp made
      cases same
      have length := StorePath.fromBytes_some read
      change _ = (ctx.storeDir.display path.display).length at length
      rw [StoreDir.display, List.length_append, List.length_cons] at length
      omega

/-- The server reads a request as the client made it, and leaves what follows, if and only if the
operation is matched and what it carries is understood. -/
theorem DaemonClient.request_read_iff {ctx : Ctx} {room : Nat → Nat} {request : Request} {bytes : Bytes}
    (minor : ctx.minor = 37) (large : 128 ≤ ctx.maxBufSize)
    (written : write room (writeRequest ctx request) = some bytes) :
    (∀ tail, (tryDeserialize ctx).run ctx (bytes ++ tail) = .ok (some request) tail) ↔
      request.operation.Matched ∧ Understood ctx request := by
  obtain ⟨rfl, supported⟩ := write_some written
  obtain ⟨op, payload⟩ := request
  have minor : 27 ≤ ctx.minor := by omega
  constructor
  · intro ran
    have ran := ran []
    rw [writeRequest, encode_append, List.append_assoc] at ran
    have ran := run_request_some ran
    have matched : op.Matched := by
      constructor
      · rintro rfl
        rw [List.append_nil] at ran
        exact collectGarbage_missing large payload ran
      · rintro rfl
        exact addBuildLog_longer payload ran
    rw [writeArguments_eq minor matched] at ran
    have supported : .unsupported ∉ serialize ctx payload := by
      rw [← writeArguments_eq minor matched]
      exact fun member => supported (List.mem_append_right _ member)
    exact ⟨matched, @Sent.misses op.Payload _ _ _ _ _ _ _ _ large supported ran⟩
  · rintro ⟨matched, understood⟩ tail
    rw [writeRequest, writeArguments_eq minor matched]
    rw [encode_append, List.append_assoc]
    exact run_request (@Sent.reads op.Payload _ _ _ _ _ _ understood tail)

end Requests

section Samples

attribute [local instance] Store.standard Digest.unasked Layout.least

/-- A check of the store is read as it was asked for, and the byte after it is left. -/
theorem DaemonClient.verifyStore_read :
    (tryDeserialize .standard).run .standard
      (encode (writeRequest .standard ⟨.verifyStore, ⟨true, false⟩⟩) ++ [7]) =
        .ok (some (⟨.verifyStore, ⟨true, false⟩⟩ : Request)) [7] :=
  (@request_read_iff _ _ _ .standard (fun _ => 0) ⟨.verifyStore, ⟨true, false⟩⟩ _ rfl (by decide)
    rfl).mpr ⟨by decide, trivial, trivial⟩ [7]

/-- A request to collect garbage is not read as one. -/
theorem DaemonClient.collectGarbage_read :
    ¬ ∀ (room : Nat → Nat) (request : Request) (bytes tail : Bytes),
      write room (writeRequest .standard request) = some bytes →
      (tryDeserialize .standard).run .standard (bytes ++ tail) = .ok (some request) tail := by
  intro every
  have read := every (fun _ => 0)
    ⟨.collectGarbage, ⟨.returnLive, .empty, false, 0, .ignored, .ignored, .ignored⟩⟩ _ [] rfl
  cases read

end Samples

end Harmonia.Protocol
