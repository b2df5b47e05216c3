import Harmonia.Protocol.Values
import Harmonia.Store.Serde

/-!
# JSON of path infos and build results

`valid_path_info.rs` and `build_result.rs`. Path infos are written in two forms and read in one way; the
store directory and the NAR hash ask for borrowed strings, which not every source has. Build results are
written flat, with a field that tells success from failure.
-/

namespace Harmonia.Protocol

open Library Store Document

section Forms

variable [DataEncoding]

/-! ## Borrowed strings -/

/-- A byte that a JSON text writes as an escape. -/
def isEscaped (byte : UInt8) : Bool := byte < 0x20 || byte = 34 || byte = 92

/-- `visit_borrowed_str` is called: a text has the string as it is if it has no escapes, a value that is
used up hands its strings over, and one that outlives the reading lends them. -/
def lends (source : Document.Source) (text : Text) : Bool :=
  match source with
  | .text => !text.bytes.any isEscaped
  | .value => false
  | .reference => true

/-- `<&str>::deserialize`, and a parser. -/
def deserializeBorrowed {α : Type} (parse : Text → Option α) (source : Document.Source) : Document Text → Option α
  | .string text => if lends source text then parse text else none
  | _ => none

omit [DataEncoding] in
/-- A string is read if it can be borrowed. -/
theorem deserializeBorrowed_string {α : Type} {parse : Text → Option α} {text : Text} {value : α}
    (parsed : parse text = some value) (source : Document.Source) :
    deserializeBorrowed parse source (source.form (.string text)) = if lends source text then some value else none := by
  rw [Document.Source.form_string, deserializeBorrowed, parsed]

instance : Serde NarHash where
  serialize hash := .string (sriText hash)
  deserialize := deserializeBorrowed fun text => sriFromStr text.bytes

instance : Serde StoreDir where
  serialize dir := .string dir.text
  deserialize := deserializeBorrowed fun text => some ⟨text⟩

/-- Nothing of an SRI expression is escaped. -/
theorem lends_sriText {source : Document.Source} (kept : source ≠ .value) (hash : NarHash) : lends source (sriText hash) = true := by
  cases source with
  | text =>
    have plain : (sriDisplay hash).any isEscaped = false := by
      apply List.any_eq_false.mpr
      intro byte member
      rcases List.mem_append.mp member with name | rest
      · have all : ∀ byte ∈ Algorithm.sha256.display, ¬ isEscaped byte = true := by decide +kernel
        exact all byte name
      · rcases List.mem_cons.mp rest with rfl | digest
        · decide
        · have all : ∀ symbol ∈ base64Symbols ++ [base64Padding], ¬ isEscaped symbol = true := by decide +kernel
          exact all byte (DataEncoding.base64.encode_symbols _ byte digest)
    show (!(sriDisplay hash).any isEscaped) = true
    rw [plain]
    rfl
  | value => exact absurd rfl kept
  | reference => rfl

/-- A NAR hash is read back unless the value is used up. -/
theorem narHash_again (source : Document.Source) (hash : NarHash) :
    Serde.deserialize source (source.form (Serde.serialize hash)) = if source = .value then none else some hash := by
  have parsed : sriFromStr (sriText hash).bytes = some hash := sriFromStr_sriDisplay hash
  refine (deserializeBorrowed_string parsed source).trans ?_
  by_cases used : source = .value
  · rw [if_pos used, used]
    rfl
  · rw [if_neg used, lends_sriText used, if_pos rfl]

omit [DataEncoding] in
/-- A store directory is read back if its string is lent. -/
theorem storeDir_again (source : Document.Source) (dir : StoreDir) :
    Serde.deserialize source (source.form (Serde.serialize dir)) = if lends source dir.text then some dir else none :=
  @deserializeBorrowed_string StoreDir (fun text => some ⟨text⟩) dir.text dir rfl source

/-! ## Signatures -/

/-- The base64 of a signature. -/
def sigText (signature : Signature) : Text := asciiText (DataEncoding.base64.encode signature.sig) (by
    have all : ∀ symbol ∈ base64Symbols ++ [base64Padding], symbol < 0x80 := by decide +kernel
    exact fun byte member => all byte (DataEncoding.base64.encode_symbols _ byte member)) (by
    rw [DataEncoding.base64.encode_length, signature.size]
    decide)

/-- `RawSignature::from_str`. -/
def rawSignature (text : Text) : Option { sig : Bytes // sig.length = 64 } :=
  (DataEncoding.base64.decode text.bytes).bind fun sig =>
    if size : sig.length = 64 then some ⟨sig, size⟩ else none

/-- The fields of a signature. -/
def signatureOfFields (source : Document.Source) (fields : List (Text × Document Text)) : Option Signature := do
  let keyName ← required (key "keyName") (Serde.deserialize source) fields
  let sig ← required (key "sig") (fun doc => (Serde.deserialize source doc).bind rawSignature) fields
  pure ⟨keyName, sig.1, sig.2⟩

instance : Serde Signature where
  serialize signature := .object (present
    [(key "keyName", some (Serde.serialize signature.keyName)), (key "sig", some (.string (sigText signature)))])
  deserialize source := readObject (signatureOfFields source)

/-- A signature is read back. -/
theorem survives_signature (source : Document.Source) (signature : Signature) : Survives source signature := by
  have distinct : [key "keyName", key "sig"].Nodup := by decide +kernel
  obtain ⟨read, same, selected⟩ := @Document.Source.select_present _ _ _ _ _ source
    [(key "keyName", some (Serde.serialize signature.keyName)), (key "sig", some (.string (sigText signature)))]
    distinct
  have keyName := required_survives (@selected (key "keyName") (some (Serde.serialize signature.keyName)) (by simp))
    (survives_text source signature.keyName)
  have sig : required (key "sig") (fun doc => (Serde.deserialize source doc).bind rawSignature) read =
      some ⟨signature.sig, signature.size⟩ := by
    have string := @selected (key "sig") (some (.string (sigText signature))) (by simp)
    rw [Option.map_some, Document.Source.form_string] at string
    refine (required_of_select string).trans ?_
    show (DataEncoding.base64.decode (DataEncoding.base64.encode signature.sig)).bind _ = _
    rw [DataEncoding.base64.decode_encode]
    exact dif_pos signature.size
  show readObject _ (source.form (.object (present _))) = _
  rw [same]
  show signatureOfFields source read = _
  rw [signatureOfFields, keyName]
  show (required (key "sig") _ read >>= _) = _
  rw [sig]
  rfl

/-! ## Path infos -/

/-- A wrapper: `Pure`. -/
structure Pure (α : Type) where
  /-- What is wrapped. -/
  value : α

namespace UnkeyedValidPathInfo

/-- The version that is written. -/
def jsonVersion : UInt32 := 3

/-- `RawUnkeyedValidPathInfo`, as it is written. -/
def members (info : UnkeyedValidPathInfo) : List (Text × Option (Document Text)) :=
  [(key "ca", some (Serde.serialize info.ca)),
    (key "deriver", some (Serde.serialize info.deriver)),
    (key "narHash", some (Serde.serialize info.narHash)),
    (key "narSize", some (Serde.serialize info.narSize)),
    (key "references", some (Serde.serialize info.references)),
    (key "registrationTime", some (Serde.serialize (info.registrationTime.map NonZero.get))),
    (key "signatures", some (Serde.serialize info.signatures)),
    (key "storeDir", some (Serde.serialize info.storeDir)),
    (key "ultimate", some (Serde.serialize info.ultimate)),
    (key "version", some (Serde.serialize jsonVersion))]

/-- `RawUnkeyedValidPathInfoPure`. -/
def pureMembers (info : UnkeyedValidPathInfo) : List (Text × Option (Document Text)) :=
  [(key "ca", some (Serde.serialize info.ca)),
    (key "deriver", if info.deriver.isNone then none else some (Serde.serialize info.deriver)),
    (key "narHash", some (Serde.serialize info.narHash)),
    (key "narSize", some (Serde.serialize info.narSize)),
    (key "references", some (Serde.serialize info.references)),
    (key "registrationTime", if (info.registrationTime.map NonZero.get).isNone then none
      else some (Serde.serialize (info.registrationTime.map NonZero.get))),
    (key "signatures", if info.signatures.items.isEmpty then none else some (Serde.serialize info.signatures)),
    (key "storeDir", some (Serde.serialize info.storeDir)),
    (key "ultimate", if !info.ultimate then none else some (Serde.serialize info.ultimate)),
    (key "version", some (Serde.serialize jsonVersion))]

/-- `deserialize_info`, of the fields of `RawUnkeyedValidPathInfo`. -/
def ofFields (source : Document.Source) (fields : List (Text × Document Text)) : Option UnkeyedValidPathInfo := do
  let ca ← defaulted (key "ca") none (Serde.deserialize source) fields
  let deriver ← defaulted (key "deriver") none (Serde.deserialize source) fields
  let narHash ← required (key "narHash") (Serde.deserialize source) fields
  let narSize ← required (key "narSize") (Serde.deserialize source) fields
  let references ← defaulted (key "references") .empty (Serde.deserialize source) fields
  let registrationTime ← defaulted (key "registrationTime") none (Serde.deserialize source) fields
  let signatures ← defaulted (key "signatures") .empty (Serde.deserialize source) fields
  let storeDir ← defaulted (key "storeDir") .default (Serde.deserialize source) fields
  let ultimate ← defaulted (key "ultimate") false (Serde.deserialize source) fields
  let version ← required (key "version") (Serde.deserialize source) fields
  if version ≠ jsonVersion then none
  else
    let time := registrationTime.bind fun time => if nonzero : time ≠ 0 then some ⟨time, nonzero⟩ else none
    pure ⟨deriver, narHash, references, time, narSize, ultimate, signatures, ca, storeDir⟩

instance : Serde UnkeyedValidPathInfo where
  serialize info := .object (present info.members)
  deserialize source := readObject (ofFields source)

instance : Serde (Pure UnkeyedValidPathInfo) where
  serialize info := .object (present info.value.pureMembers)
  deserialize source doc := (readObject (ofFields source) doc).map Pure.mk

omit [DataEncoding] in
/-- A time that is not zero is made again of its number. -/
theorem registrationTime_again (time : Option NonZero) :
    ((time.map NonZero.get).bind fun time => if nonzero : time ≠ 0 then some ⟨time, nonzero⟩ else none) = time := by
  cases time with
  | none => rfl
  | some time => exact dif_pos time.nonzero

variable (info : UnkeyedValidPathInfo) (source : Document.Source)

/-- What is read of the fields that do not ask for borrowed strings. -/
structure Told (read : List (Text × Document Text)) : Prop where
  /-- `ca`. -/
  ca : defaulted (key "ca") none (Serde.deserialize source) read = some info.ca
  /-- `deriver`. -/
  deriver : defaulted (key "deriver") none (Serde.deserialize source) read = some info.deriver
  /-- `nar_hash`. -/
  narHash : select (key "narHash") read = [source.form (Serde.serialize info.narHash)]
  /-- `nar_size`. -/
  narSize : required (key "narSize") (Serde.deserialize source) read = some info.narSize
  /-- `references`. -/
  references : defaulted (key "references") .empty (Serde.deserialize source) read = some info.references
  /-- `registration_time`. -/
  registrationTime : defaulted (key "registrationTime") none (Serde.deserialize source) read =
    some (info.registrationTime.map NonZero.get)
  /-- `signatures`. -/
  signatures : defaulted (key "signatures") .empty (Serde.deserialize source) read = some info.signatures
  /-- `store_dir`. -/
  storeDir : select (key "storeDir") read = [source.form (Serde.serialize info.storeDir)]
  /-- `ultimate`. -/
  ultimate : defaulted (key "ultimate") false (Serde.deserialize source) read = some info.ultimate
  /-- `version`. -/
  version : required (key "version") (Serde.deserialize source) read = some jsonVersion

variable {info source}

/-- The info is read if the store directory is lent. -/
theorem Told.ofFields {read : List (Text × Document Text)} (told : info.Told source read) :
    UnkeyedValidPathInfo.ofFields source read = if lends source info.storeDir.text then some info else none := by
  have narHash : required (key "narHash") (Serde.deserialize source) read =
      if source = .value then none else some info.narHash :=
    (required_of_select told.narHash).trans (narHash_again source info.narHash)
  have storeDir : defaulted (key "storeDir") .default (Serde.deserialize source) read =
      if lends source info.storeDir.text then some info.storeDir else none :=
    (defaulted_of_select told.storeDir).trans (storeDir_again source info.storeDir)
  have version : ¬ jsonVersion ≠ jsonVersion := fun other => other rfl
  rw [UnkeyedValidPathInfo.ofFields, told.ca, told.deriver, narHash, told.narSize, told.references,
    told.registrationTime, told.signatures, storeDir, told.ultimate, told.version]
  by_cases used : source = .value
  · subst used
    rfl
  · rw [if_neg used]
    cases lent : lends source info.storeDir.text with
    | false => rfl
    | true =>
      simp only [if_true, Option.bind_eq_bind, Option.bind_some, if_neg version]
      rw [registrationTime_again]
      rfl

/-- The names of the fields. -/
def jsonNames : List Text :=
  [key "ca", key "deriver", key "narHash", key "narSize", key "references", key "registrationTime",
    key "signatures", key "storeDir", key "ultimate", key "version"]

omit [DataEncoding] in
/-- The names of the fields are distinct. -/
theorem jsonNames_nodup : jsonNames.Nodup := by decide +kernel

/-- What may be missing is read back if it is an address. -/
theorem survives_ca (source : Document.Source) (ca : Option ContentAddress) : Survives source ca :=
  survives_option (fun item _ => survives_contentAddress source item) fun _ _ => nofun

/-- Or if it is a path. -/
theorem survives_deriver (source : Document.Source) (deriver : Option StorePath) : Survives source deriver :=
  survives_option (fun path _ => survives_storePath source path) fun _ _ => nofun

omit [DataEncoding] in
/-- Or if it is a number. -/
theorem survives_time (source : Document.Source) (time : Option Int64) : Survives source time :=
  survives_option (fun number _ => survives_int64 source number) fun _ _ => nofun

variable (info source)

/-- What the fields are read as that both forms write. -/
theorem told_of_members {members : List (Text × Option (Document Text))} {read : List (Text × Document Text)}
    (selected : ∀ {name doc}, (name, doc) ∈ members → select name read = (doc.map source.form).toList)
    {noDeriver noTime noSignatures noUltimate : Bool}
    (listed : members =
      [(key "ca", some (Serde.serialize info.ca)),
        (key "deriver", if noDeriver then none else some (Serde.serialize info.deriver)),
        (key "narHash", some (Serde.serialize info.narHash)),
        (key "narSize", some (Serde.serialize info.narSize)),
        (key "references", some (Serde.serialize info.references)),
        (key "registrationTime", if noTime then none
          else some (Serde.serialize (info.registrationTime.map NonZero.get))),
        (key "signatures", if noSignatures then none else some (Serde.serialize info.signatures)),
        (key "storeDir", some (Serde.serialize info.storeDir)),
        (key "ultimate", if noUltimate then none else some (Serde.serialize info.ultimate)),
        (key "version", some (Serde.serialize jsonVersion))])
    (deriver : noDeriver = true → info.deriver = none)
    (time : noTime = true → info.registrationTime.map NonZero.get = none)
    (signatures : noSignatures = true → info.signatures = .empty)
    (ultimate : noUltimate = true → info.ultimate = false) : info.Told source read := by
  subst listed
  constructor
  · exact @defaulted_survives _ _ _ _ _ _ _ false
      (@selected (key "ca") (some (Serde.serialize info.ca)) (by simp)) nofun (survives_ca source info.ca)
  · exact defaulted_survives (@selected (key "deriver")
      (if noDeriver then none else some (Serde.serialize info.deriver)) (by simp)) deriver
      (survives_deriver source info.deriver)
  · exact @selected (key "narHash") (some (Serde.serialize info.narHash)) (by simp)
  · exact required_survives (@selected (key "narSize") (some (Serde.serialize info.narSize)) (by simp))
      (survives_uint64 source info.narSize)
  · exact @defaulted_survives _ _ _ _ _ _ _ false
      (@selected (key "references") (some (Serde.serialize info.references)) (by simp)) nofun
      (survives_set fun path _ => survives_storePath source path)
  · exact defaulted_survives (@selected (key "registrationTime")
      (if noTime then none else some (Serde.serialize (info.registrationTime.map NonZero.get))) (by simp)) time
      (survives_time source _)
  · exact defaulted_survives (@selected (key "signatures")
      (if noSignatures then none else some (Serde.serialize info.signatures)) (by simp)) signatures
      (survives_set fun signature _ => survives_signature source signature)
  · exact @selected (key "storeDir") (some (Serde.serialize info.storeDir)) (by simp)
  · exact defaulted_survives (@selected (key "ultimate")
      (if noUltimate then none else some (Serde.serialize info.ultimate)) (by simp)) ultimate
      (survives_bool source info.ultimate)
  · exact required_survives (@selected (key "version") (some (Serde.serialize jsonVersion)) (by simp))
      (survives_uint32 source jsonVersion)

/-- The impure form is read back if the store directory is lent. -/
theorem again : Serde.deserialize source (source.form (Serde.serialize info)) =
    if lends source info.storeDir.text then some info else none := by
  obtain ⟨read, same, selected⟩ := @Document.Source.select_present _ _ _ _ _ source info.members jsonNames_nodup
  have told := @told_of_members _ info source info.members read selected false false false false rfl
    nofun nofun nofun nofun
  show readObject _ (source.form (.object (present _))) = _
  rw [same]
  exact told.ofFields

/-- So is the pure form. -/
theorem pure_again : Serde.deserialize source (source.form (Serde.serialize (Pure.mk info))) =
    if lends source info.storeDir.text then some (Pure.mk info) else none := by
  obtain ⟨read, same, selected⟩ := @Document.Source.select_present _ _ _ _ _ source info.pureMembers jsonNames_nodup
  have told := @told_of_members _ info source info.pureMembers read selected info.deriver.isNone
    (info.registrationTime.map NonZero.get).isNone info.signatures.items.isEmpty (!info.ultimate) rfl
    Option.isNone_iff_eq_none.mp Option.isNone_iff_eq_none.mp
    (fun empty => BTreeSet.ext (List.isEmpty_iff.mp empty)) (fun plain => by simpa using plain)
  show (readObject _ (source.form (.object (present _)))).map Pure.mk = _
  rw [same]
  show (UnkeyedValidPathInfo.ofFields source read).map Pure.mk = _
  rw [told.ofFields]
  split <;> rfl

end UnkeyedValidPathInfo

/-! ## Build results -/

section Variants

variable {α : Type} (all : List α) (name : α → Text)

/-- A variant by its name. -/
def variantOf (s : Bytes) : Option α := all.find? fun variant => (name variant).bytes = s

end Variants

/-- The name of a status. -/
def SuccessStatus.jsonName : SuccessStatus → Text
  | built => key "Built"
  | substituted => key "Substituted"
  | alreadyValid => key "AlreadyValid"
  | resolvesToAlreadyValid => key "ResolvesToAlreadyValid"

/-- The name of a status. -/
def FailureStatus.jsonName : FailureStatus → Text
  | permanentFailure => key "PermanentFailure"
  | inputRejected => key "InputRejected"
  | outputRejected => key "OutputRejected"
  | transientFailure => key "TransientFailure"
  | cachedFailure => key "CachedFailure"
  | timedOut => key "TimedOut"
  | miscFailure => key "MiscFailure"
  | dependencyFailed => key "DependencyFailed"
  | logLimitExceeded => key "LogLimitExceeded"
  | notDeterministic => key "NotDeterministic"
  | noSubstituters => key "NoSubstituters"

instance : Serde SuccessStatus where
  serialize status := .string status.jsonName
  deserialize := deserializeParsed (variantOf
    [.built, .substituted, .alreadyValid, .resolvesToAlreadyValid] SuccessStatus.jsonName)

instance : Serde FailureStatus where
  serialize status := .string status.jsonName
  deserialize := deserializeParsed (variantOf
    [.permanentFailure, .inputRejected, .outputRejected, .transientFailure, .cachedFailure, .timedOut,
      .miscFailure, .dependencyFailed, .logLimitExceeded, .notDeterministic, .noSubstituters]
    FailureStatus.jsonName)

instance : Serde Microseconds where
  serialize time := Serde.serialize time.value
  deserialize source doc := (Serde.deserialize source doc).map Microseconds.mk

section Leaves

variable (source : Document.Source)

omit [DataEncoding] in
/-- A status is read back. -/
theorem survives_successStatus (status : SuccessStatus) : Survives source status := by
  apply deserializeParsed_string
  cases status <;> decide +kernel

omit [DataEncoding] in
/-- A status is read back. -/
theorem survives_failureStatus (status : FailureStatus) : Survives source status := by
  apply deserializeParsed_string
  cases status <;> decide +kernel

omit [DataEncoding] in
/-- A time that may be missing is read back. -/
theorem survives_microseconds (time : Microseconds) : Survives source time := by
  have number : Serde.deserialize source (source.form (Serde.serialize time.value)) = some time.value :=
    survives_int64 source time.value
  show (Serde.deserialize source (source.form (Serde.serialize time.value))).map Microseconds.mk = _
  rw [number]
  rfl

omit [DataEncoding] in
/-- A time is not written as nothing. -/
theorem Microseconds.serialize_ne_null (time : Microseconds) : Serde.serialize time ≠ .null := nofun

end Leaves

/-- The fields of `UnkeyedRealisation`. -/
def realisationOfFields (source : Document.Source) (fields : List (Text × Document Text)) :
    Option UnkeyedRealisation := do
  let outPath ← required (key "outPath") (Serde.deserialize source) fields
  let signatures ← defaulted (key "signatures") .empty (Serde.deserialize source) fields
  pure ⟨outPath, signatures⟩

instance : Serde UnkeyedRealisation where
  serialize realisation := .object (present
    [(key "outPath", some (Serde.serialize realisation.outPath)),
      (key "signatures", some (Serde.serialize realisation.signatures))])
  deserialize source := readObject (realisationOfFields source)

/-- A realisation is read back. -/
theorem survives_realisation (source : Document.Source) (realisation : UnkeyedRealisation) :
    Survives source realisation := by
  have distinct : [key "outPath", key "signatures"].Nodup := by decide +kernel
  obtain ⟨read, same, selected⟩ := @Document.Source.select_present _ _ _ _ _ source
    [(key "outPath", some (Serde.serialize realisation.outPath)),
      (key "signatures", some (Serde.serialize realisation.signatures))] distinct
  have outPath := required_survives (@selected (key "outPath") (some (Serde.serialize realisation.outPath)) (by simp))
    (survives_storePath source realisation.outPath)
  have signatures := @defaulted_survives _ _ _ _ _ .empty _ false
    (@selected (key "signatures") (some (Serde.serialize realisation.signatures)) (by simp)) nofun
    (survives_set fun signature _ => survives_signature source signature)
  show readObject _ (source.form (.object (present _))) = _
  rw [same]
  show realisationOfFields source read = _
  rw [realisationOfFields, outPath, signatures]
  rfl

/-- `BuildResultFailureJson`. -/
structure BuildResultFailureJson where
  /-- `status`. -/
  status : FailureStatus
  /-- `error_msg`. -/
  errorMsg : Text
  /-- `is_non_deterministic`. -/
  isNonDeterministic : Bool

/-- The members of a success. -/
def BuildResultSuccess.members (result : BuildResultSuccess) : List (Text × Option (Document Text)) :=
  [(key "status", some (Serde.serialize result.status)),
    (key "builtOutputs", some (Serde.serialize result.builtOutputs))]

/-- The fields of a success. -/
def BuildResultSuccess.ofFields (source : Document.Source) (fields : List (Text × Document Text)) :
    Option BuildResultSuccess := do
  let status ← required (key "status") (Serde.deserialize source) fields
  let builtOutputs ← defaulted (key "builtOutputs") .empty (Serde.deserialize source) fields
  pure ⟨status, builtOutputs⟩

instance : Serde BuildResultSuccess where
  serialize result := .object (present result.members)
  deserialize source := readObject (BuildResultSuccess.ofFields source)

/-- The members of a failure. -/
def BuildResultFailureJson.members (result : BuildResultFailureJson) : List (Text × Option (Document Text)) :=
  [(key "status", some (Serde.serialize result.status)),
    (key "errorMsg", some (Serde.serialize result.errorMsg)),
    (key "isNonDeterministic", some (Serde.serialize result.isNonDeterministic))]

/-- The fields of a failure. -/
def BuildResultFailureJson.ofFields (source : Document.Source) (fields : List (Text × Document Text)) :
    Option BuildResultFailureJson := do
  let status ← required (key "status") (Serde.deserialize source) fields
  let errorMsg ← defaulted (key "errorMsg") ⟨[], Utf8.valid_nil, ByteString.nil_small⟩ (Serde.deserialize source) fields
  let isNonDeterministic ← defaulted (key "isNonDeterministic") false (Serde.deserialize source) fields
  pure ⟨status, errorMsg, isNonDeterministic⟩

instance : Serde BuildResultFailureJson where
  serialize result := .object (present result.members)
  deserialize source := readObject (BuildResultFailureJson.ofFields source)

/-- A success is read back. -/
theorem survives_success (source : Document.Source) (result : BuildResultSuccess) : Survives source result := by
  have distinct : [key "status", key "builtOutputs"].Nodup := by decide +kernel
  obtain ⟨read, same, selected⟩ := @Document.Source.select_present _ _ _ _ _ source result.members distinct
  have status := required_survives (@selected (key "status") (some (Serde.serialize result.status))
    (by simp [BuildResultSuccess.members])) (survives_successStatus source result.status)
  have builtOutputs := @defaulted_survives _ _ _ _ _ .empty _ false
    (@selected (key "builtOutputs") (some (Serde.serialize result.builtOutputs))
      (by simp [BuildResultSuccess.members])) nofun
    (survives_map fun entry _ => survives_realisation source entry.2)
  show readObject _ (source.form (.object (present _))) = _
  rw [same]
  show BuildResultSuccess.ofFields source read = _
  rw [BuildResultSuccess.ofFields, status, builtOutputs]
  rfl

omit [DataEncoding] in
/-- A failure is read back. -/
theorem survives_failure (source : Document.Source) (result : BuildResultFailureJson) : Survives source result := by
  have distinct : [key "status", key "errorMsg", key "isNonDeterministic"].Nodup := by decide +kernel
  obtain ⟨read, same, selected⟩ := @Document.Source.select_present _ _ _ _ _ source result.members distinct
  have status := required_survives (@selected (key "status") (some (Serde.serialize result.status))
    (by simp [BuildResultFailureJson.members])) (survives_failureStatus source result.status)
  have errorMsg := @defaulted_survives _ _ _ _ _ ⟨[], Utf8.valid_nil, ByteString.nil_small⟩ _ false
    (@selected (key "errorMsg") (some (Serde.serialize result.errorMsg))
      (by simp [BuildResultFailureJson.members])) nofun (survives_text source result.errorMsg)
  have isNonDeterministic := @defaulted_survives _ _ _ _ _ false _ false
    (@selected (key "isNonDeterministic") (some (Serde.serialize result.isNonDeterministic))
      (by simp [BuildResultFailureJson.members])) nofun (survives_bool source result.isNonDeterministic)
  show readObject _ (source.form (.object (present _))) = _
  rw [same]
  show BuildResultFailureJson.ofFields source read = _
  rw [BuildResultFailureJson.ofFields, status, errorMsg, isNonDeterministic]
  rfl

/-- `insert("success")` into an object. -/
def withSuccess (success : Bool) (value : Document Text) : Option (List (Text × Document Text)) :=
  match value with
  | .object map => some (inserted map (key "success", .bool success))
  | _ => none

/-- `remove("success")` from a map, and `as_bool`. -/
def splitSuccess (map : JsonMap) : Option (Bool × Document Text) :=
  match select (key "success") map.fields with
  | [.bool success] => some (success, .object (map.fields.filter fun field => field.1 ≠ key "success"))
  | _ => none

/-- `Serialize for BuildResultFailure`, as far as the replaced message fits into memory. -/
def BuildResultFailure.toJson (result : BuildResultFailure) : Option BuildResultFailureJson :=
  (Text.fromUtf8 (Utf8.lossy result.errorMsg.bytes)).map fun errorMsg =>
    ⟨result.status, errorMsg, result.isNonDeterministic⟩

/-- `Deserialize for BuildResultFailure`. -/
def BuildResultFailure.ofJson (json : BuildResultFailureJson) : BuildResultFailure :=
  ⟨json.status, .ofText json.errorMsg, json.isNonDeterministic⟩

/-- `Serialize for BuildResultInner`. -/
def BuildResultInner.toFields : BuildResultInner → Option (List (Text × Document Text))
  | .success result => withSuccess true (Serde.serialize result).value
  | .failure result => result.toJson.bind fun json => withSuccess false (Serde.serialize json).value

/-- `Deserialize for BuildResultInner`. -/
def BuildResultInner.ofFields (fields : List (Text × Document Text)) : Option BuildResultInner :=
  (splitSuccess (.ofFields fields)).bind fun (succeeded, value) =>
    if succeeded then (Serde.deserialize .value value).map .success
    else (Serde.deserialize .value value).map fun json => .failure (.ofJson json)

namespace BuildResult

/-- The members besides those of the inner result. -/
def members (result : BuildResult) : List (Text × Option (Document Text)) :=
  [(key "timesBuilt", some (Serde.serialize result.timesBuilt)),
    (key "startTime", some (Serde.serialize result.startTime)),
    (key "stopTime", some (Serde.serialize result.stopTime)),
    (key "cpuUser", result.cpuUser.map Serde.serialize),
    (key "cpuSystem", result.cpuSystem.map Serde.serialize)]

/-- The names of the fields that every result has. -/
def outerNames : List Text :=
  [key "timesBuilt", key "startTime", key "stopTime", key "cpuUser", key "cpuSystem"]

/-- The fields that are left for the inner result. -/
def flattened (fields : List (Text × Document Text)) : List (Text × Document Text) :=
  fields.filter fun field => field.1 ∉ outerNames

/-- The fields of a build result. -/
def ofFields (source : Document.Source) (fields : List (Text × Document Text)) : Option BuildResult := do
  let timesBuilt ← required (key "timesBuilt") (Serde.deserialize source) fields
  let startTime ← required (key "startTime") (Serde.deserialize source) fields
  let stopTime ← required (key "stopTime") (Serde.deserialize source) fields
  let cpuUser ← optional (key "cpuUser") (Serde.deserialize source) fields
  let cpuSystem ← optional (key "cpuSystem") (Serde.deserialize source) fields
  let inner ← BuildResultInner.ofFields (flattened fields)
  pure ⟨inner, timesBuilt, startTime, stopTime, cpuUser, cpuSystem⟩

/-- `Serialize for BuildResult`. -/
def serialize (result : BuildResult) : Option (Document Text) :=
  result.inner.toFields.map fun inner => .object (inner ++ present result.members)

/-- `Deserialize for BuildResult`. -/
def deserialize (source : Document.Source) : Document Text → Option BuildResult :=
  readObject (ofFields source)

/-- The error message, if there is one, is UTF-8. -/
def Textual (result : BuildResult) : Prop :=
  match result.inner with
  | .success _ => True
  | .failure failure => Utf8.Valid failure.errorMsg.bytes

end BuildResult

/-- The fields of an inner result: they are a value, have names of their own, and any order of them is
read as the result. -/
structure Flattens (inner : BuildResultInner) (fields : List (Text × Document Text)) : Prop where
  /-- They are a value. -/
  isValue : (Document.object fields).value = .object fields
  /-- They have names of their own. -/
  others : ∀ field ∈ fields, field.1 ∉ BuildResult.outerNames
  /-- They are read. -/
  reads : ∀ rest : List (Text × Document Text), rest.Perm fields → BuildResultInner.ofFields rest = some inner

omit [DataEncoding] in
/-- A map is made again of its fields in any order. -/
theorem ofFields_of_perm {fields rest : List (Text × Document Text)}
    (isValue : (Document.object fields).value = .object fields) (perm : rest.Perm fields) :
    (JsonMap.ofFields rest).fields = fields := by
  obtain ⟨ascending, values⟩ := fields_of_value isValue
  have same : (rest.map fun field => (field.1, field.2.value)) = rest := by
    conv => rhs; rw [← List.map_id rest]
    exact List.map_congr_left fun field member => Prod.ext rfl (values field (perm.mem_iff.mp member))
  show gathered (rest.map fun field => (field.1, field.2.value)) = fields
  rw [same, gathered_perm perm ((perm.map Prod.fst).nodup_iff.mpr ascending.keys_nodup),
    gathered_of_ascending ascending]

omit [DataEncoding] in
/-- What is inserted behind the others is found and taken out again. -/
theorem withSuccess_again {fields map : List (Text × Document Text)} (success : Bool)
    (valued : (Document.object fields).value = .object map)
    (below : ∀ name ∈ fields.map Prod.fst, compare name (key "success") = .lt) :
    ∃ whole, withSuccess success (Document.object fields).value = some whole ∧
      (Document.object whole).value = .object whole ∧
      (∀ field ∈ whole, field.1 ∈ key "success" :: fields.map Prod.fst) ∧
      ∀ rest : List (Text × Document Text), rest.Perm whole →
        splitSuccess (.ofFields rest) = some (success, .object map) := by
  have isValue : (Document.object map).value = .object map := by
    rw [← valued]
    exact value_value _
  obtain ⟨ascending, values⟩ := fields_of_value isValue
  have listed : ∀ field ∈ map, field.1 ∈ fields.map Prod.fst := by
    rw [value_object] at valued
    intro field member
    obtain ⟨old, inside, rfl⟩ := List.mem_map.mp (mem_of_mem_gathered (Document.object.inj valued ▸ member))
    exact List.mem_map.mpr ⟨old, inside, rfl⟩
  have behind : ∀ field ∈ map, compare field.1 (key "success") = .lt :=
    fun field member => below field.1 (listed field member)
  have last : inserted map (key "success", .bool success) = map ++ [(key "success", .bool success)] :=
    place_last behind
  have whole : (Document.object (map ++ [(key "success", .bool success)])).value =
      .object (map ++ [(key "success", .bool success)]) := by
    apply value_of_fields
    · exact last ▸ inserted_ascending ascending _
    · intro field member
      rcases List.mem_append.mp member with inside | new
      · exact values field inside
      · rw [List.mem_singleton.mp new]
        rfl
  have other : ∀ field ∈ map, field.1 ≠ key "success" := by
    intro field member same
    have less := behind field member
    rw [same, Std.LawfulEqOrd.compare_eq_iff_eq.mpr rfl] at less
    cases less
  refine ⟨_, (congrArg (withSuccess success) valued).trans (congrArg some last), whole, ?_, ?_⟩
  · intro field member
    rcases List.mem_append.mp member with inside | new
    · exact List.mem_cons_of_mem _ (listed field inside)
    · exact List.mem_singleton.mp new ▸ List.mem_cons_self
  · intro rest perm
    have found : select (key "success") (map ++ [(key "success", .bool success)]) = [.bool success] :=
      select_of_mem (fields_of_value whole).1.keys_nodup (List.mem_append_right _ (List.mem_singleton_self _))
    have kept : (map ++ [(key "success", Document.bool success)]).filter (fun field => field.1 ≠ key "success") =
        map := by
      rw [List.filter_append, List.filter_eq_self.mpr (by simpa using other)]
      simp
    rw [splitSuccess, ofFields_of_perm whole perm, found]
    show some (success, Document.object (List.filter _ _)) = _
    rw [kept]

/-- A success has its fields. -/
theorem flattens_success (result : BuildResultSuccess) :
    ∃ fields, (BuildResultInner.success result).toFields = some fields ∧ Flattens (.success result) fields := by
  have names : ∀ name ∈ [key "status", key "builtOutputs"], compare name (key "success") = .lt := by decide +kernel
  have apart : ∀ name ∈ [key "success", key "status", key "builtOutputs"], name ∉ BuildResult.outerNames := by
    decide +kernel
  have again : Serde.deserialize .value (Serde.serialize result).value = some result := survives_success .value result
  obtain ⟨fields, written, isValue, listed, reads⟩ := withSuccess_again true (value_object (present result.members)) names
  refine ⟨fields, written, isValue, fun field member => apart _ (listed field member), ?_⟩
  intro rest perm
  rw [BuildResultInner.ofFields, reads rest perm, ← value_object]
  show (Serde.deserialize .value (Serde.serialize result).value).map BuildResultInner.success = _
  rw [again]
  rfl

/-- So has a failure whose message is UTF-8. -/
theorem flattens_failure (result : BuildResultFailure) (textual : Utf8.Valid result.errorMsg.bytes) :
    ∃ fields, (BuildResultInner.failure result).toFields = some fields ∧ Flattens (.failure result) fields := by
  have names : ∀ name ∈ [key "status", key "errorMsg", key "isNonDeterministic"],
      compare name (key "success") = .lt := by
    decide +kernel
  have apart : ∀ name ∈ [key "success", key "status", key "errorMsg", key "isNonDeterministic"],
      name ∉ BuildResult.outerNames := by
    decide +kernel
  have message : Text.fromUtf8 (Utf8.lossy result.errorMsg.bytes) =
      some ⟨result.errorMsg.bytes, textual, result.errorMsg.small⟩ := by
    rw [Utf8.lossy_of_valid textual]
    exact dif_pos ⟨textual, result.errorMsg.small⟩
  have made : result.toJson = some ⟨result.status, ⟨result.errorMsg.bytes, textual, result.errorMsg.small⟩,
      result.isNonDeterministic⟩ := by
    rw [BuildResultFailure.toJson, message]
    rfl
  generalize same : (⟨result.status, ⟨result.errorMsg.bytes, textual, result.errorMsg.small⟩,
    result.isNonDeterministic⟩ : BuildResultFailureJson) = json at made
  have again : Serde.deserialize .value (Serde.serialize json).value = some json := survives_failure .value json
  obtain ⟨fields, written, isValue, listed, reads⟩ := withSuccess_again false (value_object (present json.members)) names
  refine ⟨fields, ?_, isValue, fun field member => apart _ (listed field member), ?_⟩
  · rw [BuildResultInner.toFields, made]
    exact written
  · intro rest perm
    rw [BuildResultInner.ofFields, reads rest perm, ← value_object]
    show (Serde.deserialize .value (Serde.serialize json).value).map
      (fun json => BuildResultInner.failure (.ofJson json)) = _
    rw [again, ← same]
    rfl

namespace BuildResult

/-- A build result whose inner result has its fields is read back. -/
theorem again (result : BuildResult) {inner : List (Text × Document Text)}
    (flattens : Flattens result.inner inner) (source : Document.Source) :
    deserialize source (source.form (.object (inner ++ present result.members))) = some result := by
  obtain ⟨ascending, values⟩ := fields_of_value flattens.isValue
  have named : outerNames.Nodup := by decide +kernel
  have outer : ((present result.members).map Prod.fst).Nodup := (present_names result.members).nodup named
  have apart : ∀ name ∈ inner.map Prod.fst, name ∉ outerNames := by
    intro name member
    obtain ⟨field, inside, rfl⟩ := List.mem_map.mp member
    exact flattens.others field inside
  have distinct : ((inner ++ present result.members).map Prod.fst).Nodup := by
    rw [List.map_append]
    apply ascending.keys_nodup.append outer
    intro name inside also
    exact apart name inside ((present_names result.members).subset also)
  obtain ⟨read, same, perm⟩ := source.form_object distinct
  obtain ⟨found, absent⟩ := source.select_of_perm distinct perm
  have selected {name : Text} {doc : Option (Document Text)} (listed : (name, doc) ∈ result.members) :
      select name read = (doc.map source.form).toList := by
    cases doc with
    | some doc => exact found (List.mem_append_right _ (List.mem_filterMap.mpr ⟨_, listed, rfl⟩))
    | none =>
      apply absent
      rw [List.map_append]
      intro member
      rcases List.mem_append.mp member with inside | also
      · have member : name ∈ result.members.map Prod.fst := List.mem_map.mpr ⟨_, listed, rfl⟩
        exact apart name inside member
      · exact @not_mem_present _ result.members named name listed also
  have rest : (flattened read).Perm inner := by
    have kept : flattened inner = inner := by
      apply List.filter_eq_self.mpr
      intro field member
      exact decide_eq_true (flattens.others field member)
    have dropped : flattened ((present result.members).map fun field => (field.1, source.form field.2)) = [] := by
      apply List.filter_eq_nil_iff.mpr
      intro field member kept
      obtain ⟨old, inside, rfl⟩ := List.mem_map.mp member
      exact of_decide_eq_true kept ((present_names result.members).subset (List.mem_map.mpr ⟨old, inside, rfl⟩))
    have same : (inner.map fun field => (field.1, source.form field.2)) = inner := by
      conv => rhs; rw [← List.map_id inner]
      exact List.map_congr_left fun field member => Prod.ext rfl (source.form_of_value (values field member))
    have filtered : (flattened read).Perm (flattened _) := perm.filter _
    rw [List.map_append, same] at filtered
    have split : flattened (inner ++ (present result.members).map fun field => (field.1, source.form field.2)) =
        flattened inner ++ flattened _ := List.filter_append ..
    rw [split, kept, dropped, List.append_nil] at filtered
    exact filtered
  have timesBuilt := required_survives (@selected (key "timesBuilt") (some (Serde.serialize result.timesBuilt))
    (by simp [members])) (survives_uint32 source result.timesBuilt)
  have startTime := required_survives (@selected (key "startTime") (some (Serde.serialize result.startTime))
    (by simp [members])) (survives_int64 source result.startTime)
  have stopTime := required_survives (@selected (key "stopTime") (some (Serde.serialize result.stopTime))
    (by simp [members])) (survives_int64 source result.stopTime)
  have cpuUser := optional_survives (@selected (key "cpuUser") (result.cpuUser.map Serde.serialize) (by simp [members]))
    (fun time _ => survives_microseconds source time) fun time _ => time.serialize_ne_null
  have cpuSystem := optional_survives
    (@selected (key "cpuSystem") (result.cpuSystem.map Serde.serialize) (by simp [members]))
    (fun time _ => survives_microseconds source time) fun time _ => time.serialize_ne_null
  show readObject _ (source.form (.object _)) = _
  rw [same]
  show ofFields source read = _
  rw [ofFields, timesBuilt, startTime, stopTime, cpuUser, cpuSystem, flattens.reads _ rest]
  rfl

/-- A build result whose message is UTF-8 is written and read back. -/
theorem serialize_again (result : BuildResult) (textual : result.Textual) :
    ∃ doc, result.serialize = some doc ∧
      ∀ source : Document.Source, deserialize source (source.form doc) = some result := by
  have made : ∃ inner, result.inner.toFields = some inner ∧ Flattens result.inner inner := by
    rw [Textual] at textual
    split at textual
    case h_1 success same => exact same ▸ flattens_success success
    case h_2 failure same => exact same ▸ flattens_failure failure textual
  obtain ⟨inner, written, flattens⟩ := made
  refine ⟨.object (inner ++ present result.members), ?_, result.again flattens⟩
  rw [serialize, written]
  rfl

end BuildResult

/-- Path infos are read back, in either form, when the store directory can be borrowed from the source:
from a text in which nothing of it is escaped or from a value that outlives it, and never from a value that
is used up. Build results whose message is UTF-8 are read back from every source. -/
theorem json_again_iff :
    (∀ (info : UnkeyedValidPathInfo) (source : Document.Source),
      Serde.deserialize source (source.form (Serde.serialize info)) = some info ∧
        Serde.deserialize source (source.form (Serde.serialize (Pure.mk info))) = some (Pure.mk info) ↔
      lends source info.storeDir.text = true) ∧
    ∀ result : BuildResult, result.Textual → ∃ doc, result.serialize = some doc ∧
      ∀ source : Document.Source, BuildResult.deserialize source (source.form doc) = some result := by
  constructor
  · intro info source
    rw [info.again source, info.pure_again source]
    cases lends source info.storeDir.text with
    | false => exact iff_of_false (fun both => nomatch both.1) nofun
    | true => exact iff_of_true ⟨rfl, rfl⟩ rfl
  · exact BuildResult.serialize_again

end Forms

section Sample

attribute [local instance] Store.standard

/-- A failed build with a message that is not ASCII. -/
def failedResult : BuildResult :=
  ⟨.failure ⟨.timedOut, ⟨[0xC3, 0xA9], by decide⟩, true⟩, 1, -1, 0, some ⟨-5⟩, none⟩

/-- The failed build is read back from every source. -/
theorem json_again_failed : failedResult.Textual ∧ ∃ doc, failedResult.serialize = some doc ∧
    ∀ source : Document.Source, BuildResult.deserialize source (source.form doc) = some failedResult := by
  have textual : failedResult.Textual := by
    show Utf8.Valid [0xC3, 0xA9]
    decide
  exact ⟨textual, json_again_iff.2 failedResult textual⟩

/-- A path info of a store. -/
def infoIn (dir : StoreDir) : UnkeyedValidPathInfo :=
  ⟨none, ⟨⟨List.replicate 32 0, Digest.zeros_length⟩⟩, .empty, none, 0, false, .empty, none, dir⟩

/-- A store directory with a quotation mark. -/
def quotedDir : StoreDir := ⟨⟨asciiBytes "/nix/\"", by decide +kernel, by decide +kernel⟩⟩

/-- From a value nothing is read, and from a text no store directory with a quotation mark. -/
theorem borrowed_strings_missed :
    Serde.deserialize .value (Serde.serialize (infoIn .default)).value ≠ some (infoIn .default) ∧
      Serde.deserialize .text (Serde.serialize (infoIn quotedDir)) ≠ some (infoIn quotedDir) := by
  have used := (infoIn .default).again .value
  have escaped := (infoIn quotedDir).again .text
  have none : lends .text quotedDir.text = false := by decide +kernel
  rw [show (infoIn quotedDir).storeDir = quotedDir from rfl, none] at escaped
  constructor
  · intro read
    cases read.symm.trans used
  · intro read
    cases read.symm.trans escaped

end Sample

end Harmonia.Protocol
