import Harmonia.Protocol.Values

/-!
# Log messages and errors

`log.rs` and the messages of `daemon_wire/logger.rs`. There are two encoders, one for a
`LogMessage` and one for a `RawLogMessage`, and one decoder. An error is a record of which each
version carries a part.
-/

namespace Harmonia.Protocol

open Library Store

/-! ## Activities -/

/-- `ActivityType`. -/
inductive ActivityType where
  | unknown
  | copyPath
  | fileTransfer
  | realise
  | copyPaths
  | builds
  | build
  | optimiseStore
  | verifyPaths
  | substitute
  | queryPathInfo
  | postBuildHook
  | buildWaiting
  | fetchTree
  deriving DecidableEq, Repr

/-- The number of an activity. -/
def ActivityType.code : ActivityType → UInt64
  | unknown => 0
  | copyPath => 100
  | fileTransfer => 101
  | realise => 102
  | copyPaths => 103
  | builds => 104
  | build => 105
  | optimiseStore => 106
  | verifyPaths => 107
  | substitute => 108
  | queryPathInfo => 109
  | postBuildHook => 110
  | buildWaiting => 111
  | fetchTree => 112

instance : Coded ActivityType where
  code := ActivityType.code
  tryFrom := tryFromPrimitive
    [.unknown, .copyPath, .fileTransfer, .realise, .copyPaths, .builds, .build, .optimiseStore,
      .verifyPaths, .substitute, .queryPathInfo, .postBuildHook, .buildWaiting, .fetchTree]
    ActivityType.code
  tryFrom_code value := by cases value <;> rfl

/-- `ResultType`. -/
inductive ResultType where
  | fileLinked
  | buildLogLine
  | untrustedPath
  | corruptedPath
  | setPhase
  | progress
  | setExpected
  | postBuildLogLine
  | fetchStatus
  deriving DecidableEq, Repr

/-- The number of a kind of result. -/
def ResultType.code : ResultType → UInt64
  | fileLinked => 100
  | buildLogLine => 101
  | untrustedPath => 102
  | corruptedPath => 103
  | setPhase => 104
  | progress => 105
  | setExpected => 106
  | postBuildLogLine => 107
  | fetchStatus => 108

instance : Coded ResultType where
  code := ResultType.code
  tryFrom := tryFromPrimitive
    [.fileLinked, .buildLogLine, .untrustedPath, .corruptedPath, .setPhase, .progress, .setExpected,
      .postBuildLogLine, .fetchStatus]
    ResultType.code
  tryFrom_code value := by cases value <;> rfl

/-- `FieldType`. -/
inductive FieldType where
  | int
  | string
  deriving DecidableEq, Repr

/-- The number of a kind of field. -/
def FieldType.code : FieldType → UInt64
  | int => 0
  | string => 1

instance : Coded FieldType where
  code := FieldType.code
  tryFrom := tryFromPrimitive [.int, .string] FieldType.code
  tryFrom_code value := by cases value <;> rfl

/-- `Field`. -/
inductive Field where
  | int (value : UInt64)
  | string (value : ByteString)
  deriving DecidableEq

instance : Sized Field := ⟨.field⟩

instance : NixSerialize Field where
  serialize ctx
    | .int value => serialize ctx FieldType.int ++ serialize ctx value
    | .string value => serialize ctx FieldType.string ++ serialize ctx value

instance : NixDeserialize Field where
  tryDeserialize ctx := readThen ctx fun tag : FieldType =>
    match tag with
    | .int => do
      let value ← readValue UInt64 ctx
      pure (.int value)
    | .string => do
      let value ← readValue ByteString ctx
      pure (.string value)

/-- Numbers, and strings that are not too long. -/
instance [DataEncoding] : Wire Field where
  Carried ctx
    | .int _ => True
    | .string value => Carried ctx value
  reads := by
    intro ctx value carried tail
    cases value with
    | int number =>
      show Read.run _ _ (encode (serialize ctx FieldType.int ++ serialize ctx number) ++ tail) = _
      rw [encode_append, List.append_assoc]
      apply run_readThen (Wire.reads (show Carried ctx FieldType.int from trivial) _)
      rw [Read.run_bind, run_readValue trivial]
      rfl
    | string text =>
      show Read.run _ _ (encode (serialize ctx FieldType.string ++ serialize ctx text) ++ tail) = _
      rw [encode_append, List.append_assoc]
      apply run_readThen (Wire.reads (show Carried ctx FieldType.string from trivial) _)
      rw [Read.run_bind, run_readValue carried]
      rfl
  accepts := by
    intro ctx value input rest large ran
    obtain ⟨tag, between, -, more⟩ := run_readThen_some ran
    cases tag with
    | int =>
      obtain ⟨number, after, -, made⟩ := Read.run_bind_ok more
      cases made
      trivial
    | string =>
      obtain ⟨text, after, read, made⟩ := Read.run_bind_ok more
      cases made
      exact carried_of_readValue large read

/-- `Activity`, in the order in which it is written. -/
structure Activity [Layout] where
  /-- `id`. -/
  id : UInt64
  /-- `level`. -/
  level : Verbosity
  /-- `activity_type`. -/
  activityType : ActivityType
  /-- `text`. -/
  text : ByteString
  /-- `fields`. -/
  fields : Vec Field
  /-- `parent`. -/
  parent : UInt64
  deriving DecidableEq

instance [Layout] : Record Activity
    (UInt64 × Verbosity × ActivityType × ByteString × Vec Field × UInt64) where
  fields value :=
    (value.id, value.level, value.activityType, value.text, value.fields, value.parent)
  make := fun (id, level, activityType, text, fields, parent) =>
    ⟨id, level, activityType, text, fields, parent⟩
  make_fields _ := rfl
  fields_make _ := rfl

/-- `StopActivity`. -/
structure StopActivity where
  /-- `id`. -/
  id : UInt64
  deriving DecidableEq

instance : Record StopActivity UInt64 where
  fields := StopActivity.id
  make := StopActivity.mk
  make_fields _ := rfl
  fields_make _ := rfl

/-- `ActivityResult`, in the order in which it is written. -/
structure ActivityResult [Layout] where
  /-- `id`. -/
  id : UInt64
  /-- `result_type`. -/
  resultType : ResultType
  /-- `fields`. -/
  fields : Vec Field
  deriving DecidableEq

instance [Layout] : Record ActivityResult (UInt64 × ResultType × Vec Field) where
  fields value := (value.id, value.resultType, value.fields)
  make := fun (id, resultType, fields) => ⟨id, resultType, fields⟩
  make_fields _ := rfl
  fields_make _ := rfl

/-! ## Errors -/

/-- `TraceLine`. -/
structure TraceLine where
  /-- `_have_pos`. -/
  havePos : IgnoredZero
  /-- `hint`. -/
  hint : ByteString
  deriving DecidableEq

instance : Sized TraceLine := ⟨.traceLine⟩

instance : Record TraceLine (IgnoredZero × ByteString) where
  fields value := (value.havePos, value.hint)
  make := fun (havePos, hint) => ⟨havePos, hint⟩
  make_fields _ := rfl
  fields_make _ := rfl

/-- `LogError`. -/
structure LogError [Layout] where
  /-- `_ty`. -/
  ty : IgnoredErrorType
  /-- `level`. -/
  level : Verbosity
  /-- `_name`. -/
  name : IgnoredErrorType
  /-- `msg`. -/
  msg : ByteString
  /-- `exit_status`. -/
  exitStatus : UInt32
  /-- `_have_pos`. -/
  havePos : IgnoredZero
  /-- `traces`. -/
  traces : Vec TraceLine
  deriving DecidableEq

/-- The fields whose version is `26..`, and the message. -/
abbrev NewFields [Layout] := IgnoredErrorType × Verbosity × IgnoredErrorType × ByteString ×
  IgnoredZero × Vec TraceLine

/-- The message and the field whose version is `..=25`. -/
abbrev OldFields := ByteString × UInt32

namespace LogError

variable [Layout]

/-- What is written from version 26 on. -/
def newFields (error : LogError) : NewFields :=
  (error.ty, error.level, error.name, error.msg, error.havePos, error.traces)

/-- What is written up to version 25. -/
def oldFields (error : LogError) : OldFields := (error.msg, error.exitStatus)

/-- `default_exit_status` for the field that was not read. -/
def ofNewFields : NewFields → LogError
  | (ty, level, name, msg, havePos, traces) => ⟨ty, level, name, msg, 1, havePos, traces⟩

/-- `Default` for the fields that were not read. -/
def ofOldFields : OldFields → LogError
  | (msg, exitStatus) =>
    ⟨.ignored, .error, .ignored, msg, exitStatus, .ignored, ⟨[], Vec.nil_fits⟩⟩

variable [DataEncoding]

instance : NixSerialize LogError where
  serialize ctx error :=
    if 26 ≤ ctx.minor then serialize ctx error.newFields else serialize ctx error.oldFields

instance : NixDeserialize LogError where
  tryDeserialize ctx :=
    if 26 ≤ ctx.minor then convert (tryDeserialize ctx) fun fields => some (ofNewFields fields)
    else convert (tryDeserialize ctx) fun fields => some (ofOldFields fields)

/-- Errors of which the version carries everything: what it does not carry is as by default. -/
instance : Wire LogError where
  Carried ctx error :=
    if 26 ≤ ctx.minor then error.exitStatus = 1 ∧ Carried ctx error.newFields
    else ofOldFields error.oldFields = error ∧ Carried ctx error.oldFields
  reads := by
    intro ctx error carried tail
    by_cases minor : 26 ≤ ctx.minor
    · rw [if_pos minor] at carried
      simp only [tryDeserialize, serialize, if_pos minor]
      obtain ⟨ty, level, name, msg, exitStatus, havePos, traces⟩ := error
      obtain ⟨rfl, fields⟩ := carried
      exact run_convert_ok (Wire.reads fields tail) rfl
    · rw [if_neg minor] at carried
      simp only [tryDeserialize, serialize, if_neg minor]
      exact run_convert_ok (Wire.reads carried.2 tail) (congrArg some carried.1)
  accepts := by
    intro ctx error input rest large ran
    by_cases minor : 26 ≤ ctx.minor
    · rw [if_pos minor]
      simp only [tryDeserialize, if_pos minor] at ran
      obtain ⟨fields, read, made⟩ := run_convert_some ran
      cases made
      exact ⟨rfl, Wire.accepts large read⟩
    · rw [if_neg minor]
      simp only [tryDeserialize, if_neg minor] at ran
      obtain ⟨fields, read, made⟩ := run_convert_some ran
      cases made
      exact ⟨rfl, Wire.accepts large read⟩

end LogError

/-! ## Messages -/

/-- `RawLogMessageType`. -/
inductive RawLogMessageType where
  | last
  | error
  | next
  | read
  | write
  | startActivity
  | stopActivity
  | result
  deriving DecidableEq, Repr

/-- `STDERR_LAST` and the others. -/
def RawLogMessageType.code : RawLogMessageType → UInt64
  | last => 0x616c7473
  | error => 0x63787470
  | next => 0x6f6c6d67
  | read => 0x64617461
  | write => 0x64617416
  | startActivity => 0x53545254
  | stopActivity => 0x53544f50
  | result => 0x52534c54

instance : Coded RawLogMessageType where
  code := RawLogMessageType.code
  tryFrom := tryFromPrimitive
    [.last, .error, .next, .read, .write, .startActivity, .stopActivity, .result]
    RawLogMessageType.code
  tryFrom_code value := by cases value <;> rfl

section Messages

variable [Layout]

/-- `RawLogMessage`. -/
inductive RawLogMessage where
  | last
  | error (error : LogError)
  | next (text : ByteString)
  | read (len : UInt64)
  | write (buf : ByteString)
  | startActivity (act : Activity)
  | stopActivity (act : StopActivity)
  | result (result : ActivityResult)
  deriving DecidableEq

/-- `Message`. -/
structure Message where
  /-- `level`. -/
  level : Verbosity
  /-- `text`. -/
  text : ByteString
  deriving DecidableEq

/-- `LogMessage`. -/
inductive LogMessage where
  | message (msg : Message)
  | startActivity (act : Activity)
  | stopActivity (act : StopActivity)
  | result (result : ActivityResult)
  deriving DecidableEq

variable [DataEncoding]

instance : NixSerialize RawLogMessage where
  serialize ctx
    | .last => serialize ctx RawLogMessageType.last
    | .error error => serialize ctx RawLogMessageType.error ++ serialize ctx error
    | .next text => serialize ctx RawLogMessageType.next ++ serialize ctx text
    | .read len => serialize ctx RawLogMessageType.read ++ serialize ctx len
    | .write buf => serialize ctx RawLogMessageType.write ++ serialize ctx buf
    | .startActivity act =>
      if 20 ≤ ctx.minor then serialize ctx RawLogMessageType.startActivity ++ serialize ctx act
      else serialize ctx RawLogMessageType.next ++ serialize ctx act.text
    | .stopActivity act =>
      if 20 ≤ ctx.minor then serialize ctx RawLogMessageType.stopActivity ++ serialize ctx act
      else []
    | .result result =>
      if 20 ≤ ctx.minor then serialize ctx RawLogMessageType.result ++ serialize ctx result else []

/-- `read_value` of what a variant holds. -/
def readVariant {α : Type} [NixDeserialize α] (ctx : Ctx) (variant : α → RawLogMessage) :
    Read RawLogMessage := do
  let value ← readValue α ctx
  pure (variant value)

instance : NixDeserialize RawLogMessage where
  tryDeserialize ctx := readThen ctx fun tag : RawLogMessageType =>
    match tag with
    | .last => pure .last
    | .error => readVariant ctx .error
    | .next => readVariant ctx .next
    | .read => readVariant ctx .read
    | .write => readVariant ctx .write
    | .startActivity => readVariant ctx .startActivity
    | .stopActivity => readVariant ctx .stopActivity
    | .result => readVariant ctx .result

instance : NixSerialize LogMessage where
  serialize ctx
    | .message msg => serialize ctx RawLogMessageType.next ++ serialize ctx msg.text
    | .startActivity act =>
      if 20 ≤ ctx.minor then serialize ctx RawLogMessageType.startActivity ++ serialize ctx act
      else serialize ctx RawLogMessageType.next ++ serialize ctx act.text
    | .stopActivity act =>
      if 20 ≤ ctx.minor then serialize ctx RawLogMessageType.stopActivity ++ serialize ctx act.id
      else []
    | .result result =>
      if 20 ≤ ctx.minor then serialize ctx RawLogMessageType.result ++ serialize ctx result else []

/-- The raw message that says the same. -/
def LogMessage.raw : LogMessage → RawLogMessage
  | .message msg => .next msg.text
  | .startActivity act => .startActivity act
  | .stopActivity act => .stopActivity act
  | .result res => .result res

/-- The two encoders agree. -/
theorem LogMessage.serialize_raw (ctx : Ctx) (msg : LogMessage) :
    serialize ctx msg.raw = serialize ctx msg := by
  cases msg <;> rfl

/-- The messages a connection carries. -/
def RawLogMessage.Carried (ctx : Ctx) : RawLogMessage → Prop
  | .last => True
  | .error err => Protocol.Carried ctx err
  | .next text => Protocol.Carried ctx text
  | .read _ => True
  | .write buf => Protocol.Carried ctx buf
  | .startActivity act => Protocol.Carried ctx act
  | .stopActivity _ => True
  | .result res => Protocol.Carried ctx res

/-- A variant is read after its tag. -/
theorem run_tagged {α : Type} [NixSerialize α] [NixDeserialize α] [Wire α] {ctx : Ctx}
    (tag : RawLogMessageType) {after : RawLogMessageType → Read RawLogMessage}
    {variant : α → RawLogMessage} (selected : after tag = readVariant ctx variant) {value : α}
    (carried : Carried ctx value) (tail : Bytes) :
    (readThen ctx after).run ctx (encode (serialize ctx tag ++ serialize ctx value) ++ tail) =
      .ok (some (variant value)) tail := by
  rw [encode_append, List.append_assoc]
  apply run_readThen (Wire.reads (show Protocol.Carried ctx tag from trivial) _)
  rw [selected, readVariant, Read.run_bind, run_readValue carried]
  rfl

/-- What is written of a message is read back, from version 20 on. -/
theorem tryDeserialize_rawLogMessage {ctx : Ctx} (minor : 20 ≤ ctx.minor) {msg : RawLogMessage}
    (carried : msg.Carried ctx) (tail : Bytes) :
    (tryDeserialize ctx).run ctx (encode (serialize ctx msg) ++ tail) = .ok (some msg) tail := by
  cases msg with
  | last =>
    exact run_readThen (Wire.reads (show Protocol.Carried ctx RawLogMessageType.last from trivial) tail) rfl
  | error err => exact run_tagged .error rfl carried tail
  | next text => exact run_tagged .next rfl carried tail
  | read len => exact run_tagged .read rfl (show Protocol.Carried ctx len from trivial) tail
  | write buf => exact run_tagged .write rfl carried tail
  | startActivity act =>
    show Read.run _ _ (encode (ite _ _ _) ++ tail) = _
    rw [if_pos minor]
    exact run_tagged .startActivity rfl carried tail
  | stopActivity act =>
    show Read.run _ _ (encode (ite _ _ _) ++ tail) = _
    rw [if_pos minor]
    exact run_tagged .stopActivity rfl (show Protocol.Carried ctx act from trivial) tail
  | result res =>
    show Read.run _ _ (encode (ite _ _ _) ++ tail) = _
    rw [if_pos minor]
    exact run_tagged .result rfl carried tail

end Messages

end Harmonia.Protocol
