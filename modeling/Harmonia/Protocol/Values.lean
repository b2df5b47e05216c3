import Harmonia.Protocol.Wire

/-!
# The values of the protocol

`store_impls.rs`, `valid_path_info.rs`, `build_result.rs`, `log.rs` and the value types of
`daemon_wire/`: how each of them is written and read. Absent values have several writings: the
empty string, the number zero and a leading tag.
-/

namespace Harmonia.Protocol

open Library Store

/-! ## Texts -/

section Texts

variable [DataEncoding]

/-- Any path, below a rooted store directory. -/
instance : Textual StorePath where
  token ctx value := .path ctx.storeDir value
  shown ctx value := ctx.storeDir.display value.display
  parse ctx := StorePath.fromStoreDirStr ctx.storeDir
  Legal ctx _ := ctx.storeDir.Rooted
  token_bytes _ _ := rfl
  utf8 := fun {ctx value} _ => ctx.storeDir.display_utf8 value.display_utf8
  parse_shown := fun {_ value} rooted => StorePath.fromStoreDirStr_display rooted value
  parse_some := by
    intro ctx text value parsed
    obtain ⟨base, stripped, made⟩ := Option.bind_eq_some_iff.mp parsed
    obtain ⟨rooted, joins⟩ := StoreDir.stripPrefix_some stripped
    have length := StorePath.fromBytes_some made
    refine ⟨rooted, Nat.le_trans (Nat.le_of_eq ?_) (Nat.le_max_right _ _)⟩
    rw [joins, StoreDir.display, StoreDir.display, List.length_append, List.length_append,
      List.length_cons, List.length_cons, length]

/-- Legal derived paths, below a rooted store directory. -/
instance : Textual DerivedPath where
  token ctx value := .derived ctx.storeDir value
  shown ctx value := ctx.storeDir.display value.toLegacyFormat
  parse ctx := DerivedPath.fromLegacyStr ctx.storeDir
  Legal ctx value := ctx.storeDir.Rooted ∧ value.Legal
  token_bytes _ _ := rfl
  utf8 := fun {ctx value} _ => ctx.storeDir.display_utf8 value.toLegacyFormat_utf8
  parse_shown := fun legal => DerivedPath.fromLegacyStr_display legal.1 legal.2
  parse_some := by
    intro ctx text value parsed
    obtain ⟨rooted, legal, short⟩ := DerivedPath.fromLegacyStr_some parsed
    exact ⟨⟨rooted, legal⟩, Nat.le_trans short (Nat.le_max_right _ _)⟩

/-- How deep the parser of a derived path calls itself on a buffer. -/
def legacyCalls (ctx : Ctx) (buf : ByteString) : Nat :=
  if Utf8.Valid buf.bytes then ((ctx.storeDir.stripPrefix buf.bytes).map (nestedCalls 33)).getD 0 else 0

instance : NixDeserialize DerivedPath :=
  ⟨fun ctx => convertNested (tryDeserialize ctx) (legacyCalls ctx) (parseText ctx)⟩

/-- Legal derived paths whose text is not too long. -/
instance : Wire DerivedPath where
  Carried ctx value := @Wire.Carried DerivedPath _ _ textualDeserialize textualWire ctx value
  reads := by
    intro ctx value carried tail
    have read := @Wire.reads DerivedPath _ _ textualDeserialize textualWire ctx value carried tail
    exact (run_convertNested ctx _ _ _ _).trans read
  accepts := by
    intro ctx value input rest large ran
    apply @Wire.accepts DerivedPath _ _ textualDeserialize textualWire ctx value input rest large
    exact (run_convertNested ctx _ _ _ _).symm.trans ran

/-- `BaseStorePath`: a path without its directory. -/
structure BaseStorePath where
  /-- The path. -/
  path : StorePath
  deriving DecidableEq, Repr

instance : Textual BaseStorePath where
  token _ value := .text value.path.display
  shown _ value := value.path.display
  parse _ text := (StorePath.fromBytes text).map BaseStorePath.mk
  Legal _ _ := True
  token_bytes _ _ := rfl
  utf8 := fun {_ value} _ => value.path.display_utf8
  parse_shown := fun {_ value} _ => by
    rw [StorePath.fromBytes_display]
    rfl
  parse_some := by
    intro ctx text value parsed
    obtain ⟨path, made, rfl⟩ := Option.map_eq_some_iff.mp parsed
    exact ⟨trivial, Nat.le_trans (Nat.le_of_eq (StorePath.fromBytes_some made)) (Nat.le_max_right _ _)⟩

instance : Textual StorePathHash where
  token _ value := .text value.display
  shown _ value := value.display
  parse _ := StorePathHash.decodeDigest
  Legal _ _ := True
  token_bytes _ _ := rfl
  utf8 := fun {_ value} _ => utf8_of_name value.display_symbols
  parse_shown := fun {_ value} _ => value.decodeDigest_display
  parse_some := by
    intro ctx text value _
    refine ⟨trivial, ?_⟩
    rw [StorePathHash.display_length]
    exact Nat.le_trans (by decide) (Nat.le_max_left _ _)

/-- Legal output names. -/
instance : Textual OutputName where
  token _ value := .text value.text.bytes
  shown _ value := value.text.bytes
  parse _ := OutputName.fromStr
  Legal _ value := value.Legal
  token_bytes _ _ := rfl
  utf8 := fun {_ value} _ => value.text.utf8
  parse_shown := OutputName.fromStr_text
  parse_some := by
    intro ctx text value parsed
    obtain ⟨legal, same⟩ := OutputName.fromStr_some parsed
    exact ⟨legal, by rw [same]; exact Nat.le_max_right _ _⟩

/-- Signatures whose key name holds no colon. -/
instance : Textual Signature where
  token _ value := .text value.display
  shown _ value := value.display
  parse _ := Signature.fromStr
  Legal _ value := 58 ∉ value.keyName.bytes
  token_bytes _ _ := rfl
  utf8 := fun {_ value} _ => value.display_utf8
  parse_shown := Signature.fromStr_display
  parse_some := by
    intro ctx text value parsed
    obtain ⟨free, short⟩ := Signature.fromStr_some parsed
    exact ⟨free, Nat.le_trans short (Nat.le_max_right _ _)⟩

instance : Textual NarHash where
  token _ value := .text (bareBase16Display value)
  shown _ value := bareBase16Display value
  parse _ := bareFromStr
  Legal _ _ := True
  token_bytes _ _ := rfl
  utf8 := fun {_ value} _ => Utf8.valid_of_ascii value.display_ascii
  parse_shown := fun {_ value} _ => value.bareFromStr_display
  parse_some := by
    intro ctx text value _
    refine ⟨trivial, ?_⟩
    rw [NarHash.display_length]
    exact Nat.le_trans (by decide) (Nat.le_max_left _ _)

instance : Textual ContentAddress where
  token _ value := .text value.display
  shown _ value := value.display
  parse _ := ContentAddress.fromStr
  Legal _ _ := True
  token_bytes _ _ := rfl
  utf8 := fun {_ value} _ => Utf8.valid_of_ascii value.display_ascii
  parse_shown := fun {_ value} _ => value.fromStr_display
  parse_some := by
    intro ctx text value _
    have short := value.display_length.2
    exact ⟨trivial, Nat.le_trans (Nat.le_trans short (by decide)) (Nat.le_max_left _ _)⟩

instance : Textual ContentAddressMethodAlgorithm where
  token _ value := .text value.display
  shown _ value := value.display
  parse _ := ContentAddressMethodAlgorithm.fromStr
  Legal _ _ := True
  token_bytes _ _ := rfl
  utf8 := fun {_ value} _ => Utf8.valid_of_ascii value.display_ascii
  parse_shown := fun {_ value} _ => value.fromStr_display
  parse_some := by
    intro ctx text value _
    have short := value.display_length.2
    exact ⟨trivial, Nat.le_trans (Nat.le_trans short (by decide)) (Nat.le_max_left _ _)⟩

/-- `IgnoredErrorType`. -/
inductive IgnoredErrorType where
  | ignored
  deriving DecidableEq, Repr

instance : Textual IgnoredErrorType where
  token _ _ := .text (asciiBytes "Error")
  shown _ _ := asciiBytes "Error"
  parse _ _ := some .ignored
  Legal _ _ := True
  token_bytes _ _ := rfl
  utf8 := fun _ => by decide
  parse_shown := fun _ => rfl
  parse_some := by
    intro ctx text value _
    exact ⟨trivial, Nat.le_trans (by decide) (Nat.le_max_left _ _)⟩

end Texts

/-! ## Numbers -/

/-- `IgnoredZero`. -/
inductive IgnoredZero where
  | ignored
  deriving DecidableEq, Repr

/-- `IgnoredOne`. -/
inductive IgnoredOne where
  | ignored
  deriving DecidableEq, Repr

/-- `IgnoredTrue`. -/
inductive IgnoredTrue where
  | ignored
  deriving DecidableEq, Repr

instance : Coded IgnoredZero := ⟨fun _ => 0, fun _ => some .ignored, fun _ => rfl⟩
instance : Coded IgnoredOne := ⟨fun _ => 1, fun _ => some .ignored, fun _ => rfl⟩
instance : Coded IgnoredTrue := ⟨fun _ => 1, fun _ => some .ignored, fun _ => rfl⟩

/-- `TryFromPrimitive`: the variant with a number. -/
def tryFromPrimitive {α : Type} (variants : List α) (number : α → UInt64) (code : UInt64) : Option α :=
  variants.find? fun variant => number variant == code

/-- `Verbosity`. -/
inductive Verbosity where
  | error
  | warn
  | notice
  | info
  | talkative
  | chatty
  | debug
  | vomit
  deriving DecidableEq, Repr

/-- The number of a level. -/
def Verbosity.code : Verbosity → UInt64
  | error => 0
  | warn => 1
  | notice => 2
  | info => 3
  | talkative => 4
  | chatty => 5
  | debug => 6
  | vomit => 7

/-- Every other `u16` is the default, `Error`. -/
instance : Coded Verbosity where
  code := Verbosity.code
  tryFrom code :=
    if code.toNat < 2 ^ 16 then
      some ((tryFromPrimitive [.error, .warn, .notice, .info, .talkative, .chatty, .debug, .vomit]
        Verbosity.code code).getD .error)
    else none
  tryFrom_code value := by cases value <;> rfl

/-- `BuildMode`. -/
inductive BuildMode where
  | normal
  | repair
  | check
  deriving DecidableEq, Repr

/-- The number of a mode. -/
def BuildMode.code : BuildMode → UInt64
  | normal => 0
  | repair => 1
  | check => 2

instance : Coded BuildMode where
  code := BuildMode.code
  tryFrom := tryFromPrimitive [.normal, .repair, .check] BuildMode.code
  tryFrom_code value := by cases value <;> rfl

/-- `GCAction`. -/
inductive GCAction where
  | returnLive
  | returnDead
  | deleteDead
  | deleteSpecific
  deriving DecidableEq, Repr

/-- The number of an action. -/
def GCAction.code : GCAction → UInt64
  | returnLive => 0
  | returnDead => 1
  | deleteDead => 2
  | deleteSpecific => 3

instance : Coded GCAction where
  code := GCAction.code
  tryFrom := tryFromPrimitive [.returnLive, .returnDead, .deleteDead, .deleteSpecific] GCAction.code
  tryFrom_code value := by cases value <;> rfl

/-- `Microseconds`. -/
structure Microseconds where
  /-- The number. -/
  value : Int64
  deriving DecidableEq

instance : Coded Microseconds where
  code value := value.value.toUInt64
  tryFrom code := some ⟨code.toInt64⟩
  tryFrom_code value := by simp

/-- `NonZero<i64>`. -/
structure NonZero where
  /-- `get`. -/
  get : Int64
  /-- It is not zero. -/
  nonzero : get ≠ 0
  deriving DecidableEq

/-! ## Absent values -/

/-- `NonZero::new`. -/
def NonZero.new (value : Int64) : Option NonZero :=
  if nonzero : value ≠ 0 then some ⟨value, nonzero⟩ else none

/-- No number is zero. -/
instance : Coded (Option NonZero) where
  code value := (value.elim 0 NonZero.get).toUInt64
  tryFrom code := some (NonZero.new code.toInt64)
  tryFrom_code value := by
    cases value with
    | none => rfl
    | some number => simp [NonZero.new, number.nonzero]

section Optional

variable {α : Type} [DataEncoding]

section Texts

variable [Textual α]

/-- The empty string is no value. -/
def serializeOptional (ctx : Ctx) : Option α → List Token
  | some value => serialize ctx value
  | none => [.slice []]

/-- `from_utf8`, and then `FromStr` unless the text is empty. -/
def parseOptional (ctx : Ctx) (buf : ByteString) : Option (Option α) :=
  if ¬ Utf8.Valid buf.bytes then none
  else if buf.bytes = [] then some none
  else (Textual.parse ctx buf.bytes).map some

/-- Values that are carried, and none. -/
def CarriedOptional (ctx : Ctx) (value : Option α) : Prop := ∀ inner ∈ value, Carried ctx inner

/-- What is written of a value or none is read back. -/
theorem run_optional {ctx : Ctx} {value : Option α} (carried : CarriedOptional ctx value)
    (shown : ∀ inner ∈ value, Textual.shown ctx inner ≠ []) (tail : Bytes) :
    (convert (tryDeserialize ctx) (parseOptional ctx)).run ctx
      (encode (serializeOptional ctx value) ++ tail) = .ok (some value) tail := by
  cases value with
  | none =>
    have read := Wire.reads (show Carried ctx (⟨[], by decide⟩ : ByteString) from Nat.zero_le _) tail
    exact run_convert_ok read rfl
  | some inner =>
    obtain ⟨legal, short⟩ := carried inner rfl
    apply run_convert_ok (run_shown short tail)
    have text : ¬ ¬ Utf8.Valid (Textual.shown ctx inner) := not_not.mpr (Textual.utf8 legal)
    rw [parseOptional, if_neg text, if_neg (shown inner rfl), Textual.parse_shown legal]
    rfl

/-- Whatever is read is carried. -/
theorem carried_of_optional {ctx : Ctx} {value : Option α} {input rest : Bytes}
    (large : 128 ≤ ctx.maxBufSize)
    (ran : (convert (tryDeserialize ctx) (parseOptional ctx)).run ctx input = .ok (some value) rest) :
    CarriedOptional ctx value := by
  obtain ⟨buf, read, made⟩ := run_convert_some ran
  have short : buf.bytes.length ≤ ctx.maxBufSize := Wire.accepts large read
  intro inner same
  unfold parseOptional at made
  split at made
  case isTrue => cases made
  case isFalse =>
    split at made
    case isTrue =>
      cases made
      cases same
    case isFalse =>
      obtain ⟨other, parsed, rfl⟩ := Option.map_eq_some_iff.mp made
      cases same
      obtain ⟨legal, shorter⟩ := Textual.parse_some parsed
      exact ⟨legal, by omega⟩

end Texts

instance : NixSerialize (Option StorePath) := ⟨serializeOptional⟩
instance : NixDeserialize (Option StorePath) :=
  ⟨fun ctx => convert (tryDeserialize ctx) (parseOptional ctx)⟩

instance : Wire (Option StorePath) where
  Carried := CarriedOptional
  reads := fun carried tail => by
    apply run_optional carried
    intro inner _ none
    exact List.cons_ne_nil _ _ (List.append_eq_nil_iff.mp none).2
  accepts := carried_of_optional

instance : NixSerialize (Option ContentAddress) := ⟨serializeOptional⟩
instance : NixDeserialize (Option ContentAddress) :=
  ⟨fun ctx => convert (tryDeserialize ctx) (parseOptional ctx)⟩

instance : Wire (Option ContentAddress) where
  Carried := CarriedOptional
  reads := fun carried tail => by
    apply run_optional carried
    intro inner _ none
    have length := inner.display_length.1
    rw [show inner.display = [] from none] at length
    cases length
  accepts := carried_of_optional

/-- The tag, and then the value if the tag says so. -/
instance : NixSerialize (Option Microseconds) :=
  ⟨fun ctx value =>
    match value with
    | some value => .number 1 :: serialize ctx value
    | none => [.number 0]⟩

instance : NixDeserialize (Option Microseconds) :=
  ⟨fun ctx => readThen ctx fun tag : UInt8 =>
    if tag = 0 then pure none
    else if tag = 1 then do
      let value ← readValue Microseconds ctx
      pure (some value)
    else .fail (invalidData "invalid optional tag from remote")⟩

/-- Any time, and none. -/
instance : Wire (Option Microseconds) where
  Carried _ _ := True
  reads := by
    intro ctx value _ tail
    cases value with
    | none => exact run_readThen (Wire.reads (show Carried ctx (0 : UInt8) from trivial) tail) rfl
    | some value =>
      have tag := Wire.reads (show Carried ctx (1 : UInt8) from trivial)
        (encode (serialize ctx value) ++ tail)
      apply run_readThen tag
      show Read.run ctx (_ >>= _) _ = _
      rw [Read.run_bind, run_readValue (show Carried ctx value from trivial)]
      rfl
  accepts := fun _ _ => trivial

end Optional

/-! ## Records -/

/-- The store directory is never on the wire: it is the connection's. -/
instance : NixSerialize StoreDir := ⟨fun _ _ => []⟩
instance : NixDeserialize StoreDir := ⟨fun ctx => pure (some ctx.storeDir)⟩

/-- The connection's directory. -/
instance [DataEncoding] : Wire StoreDir where
  Carried ctx value := value = ctx.storeDir
  reads := by
    intro ctx value same tail
    rw [same]
    rfl
  accepts := by
    intro ctx value input rest _ ran
    cases ran
    rfl

/-- `StorePathSet`. -/
abbrev StorePathSet := BTreeSet StorePath

instance : Record DrvOutput (StorePath × OutputName) where
  fields value := (value.drvPath, value.outputName)
  make fields := ⟨fields.1, fields.2⟩
  make_fields _ := rfl
  fields_make _ := rfl

instance : Record UnkeyedRealisation (StorePath × BTreeSet Signature) where
  fields value := (value.outPath, value.signatures)
  make fields := ⟨fields.1, fields.2⟩
  make_fields _ := rfl
  fields_make _ := rfl

instance : Record Realisation (DrvOutput × UnkeyedRealisation) where
  fields value := (value.key, value.value)
  make fields := ⟨fields.1, fields.2⟩
  make_fields _ := rfl
  fields_make _ := rfl

/-- `UnkeyedValidPathInfo`. -/
structure UnkeyedValidPathInfo where
  /-- `deriver`. -/
  deriver : Option StorePath
  /-- `nar_hash`. -/
  narHash : NarHash
  /-- `references`. -/
  references : StorePathSet
  /-- `registration_time`. -/
  registrationTime : Option NonZero
  /-- `nar_size`. -/
  narSize : UInt64
  /-- `ultimate`. -/
  ultimate : Bool
  /-- `signatures`. -/
  signatures : BTreeSet Signature
  /-- `ca`. -/
  ca : Option ContentAddress
  /-- `store_dir`. -/
  storeDir : StoreDir
  deriving DecidableEq

instance : Record UnkeyedValidPathInfo (Option StorePath × NarHash × StorePathSet × Option NonZero ×
    UInt64 × Bool × BTreeSet Signature × Option ContentAddress × StoreDir) where
  fields value := (value.deriver, value.narHash, value.references, value.registrationTime,
    value.narSize, value.ultimate, value.signatures, value.ca, value.storeDir)
  make := fun (deriver, narHash, references, registrationTime, narSize, ultimate, signatures, ca,
    storeDir) => ⟨deriver, narHash, references, registrationTime, narSize, ultimate, signatures, ca,
      storeDir⟩
  make_fields _ := rfl
  fields_make _ := rfl

/-- `ValidPathInfo`. -/
structure ValidPathInfo where
  /-- `path`. -/
  path : StorePath
  /-- `info`. -/
  info : UnkeyedValidPathInfo
  deriving DecidableEq

instance : Record ValidPathInfo (StorePath × UnkeyedValidPathInfo) where
  fields value := (value.path, value.info)
  make fields := ⟨fields.1, fields.2⟩
  make_fields _ := rfl
  fields_make _ := rfl

/-- `QueryMissingResult`. -/
structure QueryMissingResult where
  /-- `will_build`. -/
  willBuild : StorePathSet
  /-- `will_substitute`. -/
  willSubstitute : StorePathSet
  /-- `unknown`. -/
  unknown : StorePathSet
  /-- `download_size`. -/
  downloadSize : UInt64
  /-- `nar_size`. -/
  narSize : UInt64
  deriving DecidableEq

instance : Record QueryMissingResult (StorePathSet × StorePathSet × StorePathSet × UInt64 × UInt64)
    where
  fields value := (value.willBuild, value.willSubstitute, value.unknown, value.downloadSize,
    value.narSize)
  make := fun (willBuild, willSubstitute, unknown, downloadSize, narSize) =>
    ⟨willBuild, willSubstitute, unknown, downloadSize, narSize⟩
  make_fields _ := rfl
  fields_make _ := rfl

section Optional

variable [DataEncoding]

/-- The tag, and then the value if the tag says so. -/
instance : NixSerialize (Option UnkeyedValidPathInfo) :=
  ⟨fun ctx value =>
    match value with
    | some value => serialize ctx true ++ serialize ctx value
    | none => serialize ctx false⟩

instance : NixDeserialize (Option UnkeyedValidPathInfo) :=
  ⟨fun ctx => readThen ctx fun found : Bool =>
    if found then do
      let value ← readValue UnkeyedValidPathInfo ctx
      pure (some value)
    else pure none⟩

/-- Values that are carried, and none. -/
instance : Wire (Option UnkeyedValidPathInfo) where
  Carried ctx value := ∀ inner ∈ value, Carried ctx inner
  reads := by
    intro ctx value carried tail
    cases value with
    | none => exact run_readThen (Wire.reads (show Carried ctx false from trivial) tail) rfl
    | some inner =>
      have tag := Wire.reads (show Carried ctx true from trivial)
        (encode (serialize ctx inner) ++ tail)
      rw [← List.append_assoc, ← encode_append] at tag
      apply run_readThen tag
      rw [if_pos rfl, Read.run_bind, run_readValue (carried inner rfl)]
      rfl
  accepts := by
    intro ctx value input rest large ran
    obtain ⟨found, between, -, more⟩ := run_readThen_some ran
    intro inner same
    split at more
    case isTrue =>
      obtain ⟨other, after, read, made⟩ := Read.run_bind_ok more
      cases made
      cases same
      exact carried_of_readValue large read
    case isFalse =>
      cases more
      cases same

end Optional

/-! ## Build results -/

/-- `SuccessStatus`. -/
inductive SuccessStatus where
  | built
  | substituted
  | alreadyValid
  | resolvesToAlreadyValid
  deriving DecidableEq, Repr

/-- The number of a status. -/
def SuccessStatus.code : SuccessStatus → UInt64
  | built => 0
  | substituted => 1
  | alreadyValid => 2
  | resolvesToAlreadyValid => 13

/-- `SuccessStatus::try_from`. -/
def SuccessStatus.tryFrom : UInt64 → Option SuccessStatus :=
  tryFromPrimitive [built, substituted, alreadyValid, resolvesToAlreadyValid] SuccessStatus.code

/-- `FailureStatus`. -/
inductive FailureStatus where
  | permanentFailure
  | inputRejected
  | outputRejected
  | transientFailure
  | cachedFailure
  | timedOut
  | miscFailure
  | dependencyFailed
  | logLimitExceeded
  | notDeterministic
  | noSubstituters
  deriving DecidableEq, Repr

/-- The number of a status. -/
def FailureStatus.code : FailureStatus → UInt64
  | permanentFailure => 3
  | inputRejected => 4
  | outputRejected => 5
  | transientFailure => 6
  | cachedFailure => 7
  | timedOut => 8
  | miscFailure => 9
  | dependencyFailed => 10
  | logLimitExceeded => 11
  | notDeterministic => 12
  | noSubstituters => 14

/-- `FailureStatus::try_from`. -/
def FailureStatus.tryFrom : UInt64 → Option FailureStatus :=
  tryFromPrimitive [permanentFailure, inputRejected, outputRejected, transientFailure, cachedFailure,
    timedOut, miscFailure, dependencyFailed, logLimitExceeded, notDeterministic, noSubstituters]
    FailureStatus.code

/-- `BuildResultSuccess`. -/
structure BuildResultSuccess where
  /-- `status`. -/
  status : SuccessStatus
  /-- `built_outputs`. -/
  builtOutputs : BTreeMap OutputName UnkeyedRealisation
  deriving DecidableEq

/-- `BuildResultFailure`. -/
structure BuildResultFailure where
  /-- `status`. -/
  status : FailureStatus
  /-- `error_msg`. -/
  errorMsg : ByteString
  /-- `is_non_deterministic`. -/
  isNonDeterministic : Bool
  deriving DecidableEq

/-- `BuildResultInner`. -/
inductive BuildResultInner where
  | success (result : BuildResultSuccess)
  | failure (result : BuildResultFailure)
  deriving DecidableEq

/-- `BuildResult`. -/
structure BuildResult where
  /-- `inner`. -/
  inner : BuildResultInner
  /-- `times_built`. -/
  timesBuilt : UInt32
  /-- `start_time`. -/
  startTime : Int64
  /-- `stop_time`. -/
  stopTime : Int64
  /-- `cpu_user`. -/
  cpuUser : Option Microseconds
  /-- `cpu_system`. -/
  cpuSystem : Option Microseconds
  deriving DecidableEq

/-- The record both kinds of build results share on the wire: status, error message, times built,
non-determinism, start and stop time, times used, and built outputs. -/
abbrev FlatBuildResult := UInt16 × ByteString × UInt32 × Bool × Int64 × Int64 ×
  Option Microseconds × Option Microseconds × BTreeMap OutputName UnkeyedRealisation

namespace BuildResult

/-- What `serialize` fills in for a success or for a failure. -/
def flat (result : BuildResult) : FlatBuildResult :=
  match result.inner with
  | .success success =>
    (success.status.code.toUInt16, ⟨[], ByteString.nil_small⟩, result.timesBuilt, false, result.startTime,
      result.stopTime, result.cpuUser, result.cpuSystem, success.builtOutputs)
  | .failure failure =>
    (failure.status.code.toUInt16, failure.errorMsg, result.timesBuilt, failure.isNonDeterministic,
      result.startTime, result.stopTime, result.cpuUser, result.cpuSystem, .empty)

/-- How `try_deserialize` tells a success from a failure. -/
def ofFlat : FlatBuildResult → Option BuildResult
  | (status, errorMsg, timesBuilt, isNonDeterministic, startTime, stopTime, cpuUser, cpuSystem,
      builtOutputs) =>
    match SuccessStatus.tryFrom status.toUInt64, FailureStatus.tryFrom status.toUInt64 with
    | some status, _ =>
      some ⟨.success ⟨status, builtOutputs⟩, timesBuilt, startTime, stopTime, cpuUser, cpuSystem⟩
    | none, some status =>
      some ⟨.failure ⟨status, errorMsg, isNonDeterministic⟩, timesBuilt, startTime, stopTime, cpuUser,
        cpuSystem⟩
    | none, none => none

instance [DataEncoding] : NixSerialize BuildResult := ⟨fun ctx value => serialize ctx value.flat⟩

instance [DataEncoding] : NixDeserialize BuildResult :=
  ⟨fun ctx => convert (tryDeserialize ctx) ofFlat⟩

/-- A result is told apart again. -/
theorem ofFlat_flat (result : BuildResult) : ofFlat result.flat = some result := by
  obtain ⟨inner, timesBuilt, startTime, stopTime, cpuUser, cpuSystem⟩ := result
  cases inner with
  | success success =>
    obtain ⟨status, builtOutputs⟩ := success
    cases status <;> rfl
  | failure failure =>
    obtain ⟨status, errorMsg, isNonDeterministic⟩ := failure
    cases status <;> rfl

/-- Results whose message and outputs are carried. -/
instance [DataEncoding] : Wire BuildResult where
  Carried ctx value := Carried ctx value.flat
  reads := fun {_ value} carried tail => run_convert_ok (Wire.reads carried tail) value.ofFlat_flat
  accepts := by
    intro ctx value input rest large ran
    obtain ⟨fields, read, made⟩ := run_convert_some ran
    obtain ⟨status, errorMsg, timesBuilt, isNonDeterministic, startTime, stopTime, cpuUser, cpuSystem,
      builtOutputs⟩ := fields
    obtain ⟨one, two, three, four, five, six, seven, eight, nine⟩ := Wire.accepts large read
    -- What a success or a failure does not keep is written as empty, which is carried.
    simp only [ofFlat] at made
    split at made
    case h_1 =>
      cases made
      exact ⟨trivial, Nat.zero_le _, three, trivial, five, six, seven, eight, nine⟩
    case h_2 =>
      cases made
      have none : (0 : Nat) < 2 ^ 64 := by decide
      exact ⟨trivial, two, three, trivial, five, six, seven, eight, none, List.forall_mem_nil _⟩
    case h_3 => cases made

end BuildResult

/-- `KeyedBuildResult`. -/
structure KeyedBuildResult where
  /-- `path`. -/
  path : DerivedPath
  /-- `result`. -/
  result : BuildResult
  deriving DecidableEq

instance : Sized KeyedBuildResult := ⟨.keyedBuildResult⟩

instance : Record KeyedBuildResult (DerivedPath × BuildResult) where
  fields value := (value.path, value.result)
  make fields := ⟨fields.1, fields.2⟩
  make_fields _ := rfl
  fields_make _ := rfl

/-- `CollectGarbageResponse`. -/
structure CollectGarbageResponse [Layout] where
  /-- `paths_deleted`. -/
  pathsDeleted : Vec ByteString
  /-- `bytes_freed`. -/
  bytesFreed : UInt64
  /-- `_obsolete`. -/
  obsolete : IgnoredZero
  deriving DecidableEq

instance [Layout] : Record CollectGarbageResponse (Vec ByteString × UInt64 × IgnoredZero) where
  fields value := (value.pathsDeleted, value.bytesFreed, value.obsolete)
  make := fun (pathsDeleted, bytesFreed, obsolete) => ⟨pathsDeleted, bytesFreed, obsolete⟩
  make_fields _ := rfl
  fields_make _ := rfl

/-- `ClientOptions`. -/
structure ClientOptions where
  /-- `keep_failed`. -/
  keepFailed : Bool
  /-- `keep_going`. -/
  keepGoing : Bool
  /-- `try_fallback`. -/
  tryFallback : Bool
  /-- `verbosity`. -/
  verbosity : Verbosity
  /-- `max_build_jobs`. -/
  maxBuildJobs : UInt32
  /-- `max_silent_time`. -/
  maxSilentTime : Int64
  /-- `_use_build_hook`. -/
  useBuildHook : IgnoredTrue
  /-- `verbose_build`. -/
  verboseBuild : Verbosity
  /-- `_log_type`. -/
  logType : IgnoredZero
  /-- `_print_build_trace`. -/
  printBuildTrace : IgnoredZero
  /-- `build_cores`. -/
  buildCores : UInt32
  /-- `use_substitutes`. -/
  useSubstitutes : Bool
  /-- `other_settings`. -/
  otherSettings : BTreeMap Text ByteString
  deriving DecidableEq

instance : Record ClientOptions (Bool × Bool × Bool × Verbosity × UInt32 × Int64 × IgnoredTrue ×
    Verbosity × IgnoredZero × IgnoredZero × UInt32 × Bool × BTreeMap Text ByteString) where
  fields value := (value.keepFailed, value.keepGoing, value.tryFallback, value.verbosity,
    value.maxBuildJobs, value.maxSilentTime, value.useBuildHook, value.verboseBuild, value.logType,
    value.printBuildTrace, value.buildCores, value.useSubstitutes, value.otherSettings)
  make := fun (keepFailed, keepGoing, tryFallback, verbosity, maxBuildJobs, maxSilentTime,
    useBuildHook, verboseBuild, logType, printBuildTrace, buildCores, useSubstitutes,
    otherSettings) => ⟨keepFailed, keepGoing, tryFallback, verbosity, maxBuildJobs, maxSilentTime,
      useBuildHook, verboseBuild, logType, printBuildTrace, buildCores, useSubstitutes, otherSettings⟩
  make_fields _ := rfl
  fields_make _ := rfl

end Harmonia.Protocol
