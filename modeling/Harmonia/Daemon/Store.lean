import Harmonia.Protocol.Request
import Harmonia.Protocol.Stderr

/-!
# What a store does with a request

The methods of `DaemonStore` as a connection sees them: a store yields log messages, may read some
of the body that follows the request, and returns a result or an error. `DaemonError` is the error
of `types.rs`, with the context it was met in and the text it is sent with.
-/

namespace Harmonia.Daemon

open Library Store Protocol

/-! ## Errors -/

/-- `Display` and `Debug` of an operation. -/
def operationName : Operation → String
  | .isValidPath => "IsValidPath"
  | .queryReferrers => "QueryReferrers"
  | .addToStore => "AddToStore"
  | .buildPaths => "BuildPaths"
  | .ensurePath => "EnsurePath"
  | .addTempRoot => "AddTempRoot"
  | .addIndirectRoot => "AddIndirectRoot"
  | .findRoots => "FindRoots"
  | .setOptions => "SetOptions"
  | .collectGarbage => "CollectGarbage"
  | .queryAllValidPaths => "QueryAllValidPaths"
  | .queryPathInfo => "QueryPathInfo"
  | .queryPathFromHashPart => "QueryPathFromHashPart"
  | .queryValidPaths => "QueryValidPaths"
  | .querySubstitutablePaths => "QuerySubstitutablePaths"
  | .queryValidDerivers => "QueryValidDerivers"
  | .optimiseStore => "OptimiseStore"
  | .verifyStore => "VerifyStore"
  | .buildDerivation => "BuildDerivation"
  | .addSignatures => "AddSignatures"
  | .narFromPath => "NarFromPath"
  | .addToStoreNar => "AddToStoreNar"
  | .queryMissing => "QueryMissing"
  | .queryDerivationOutputMap => "QueryDerivationOutputMap"
  | .registerDrvOutput => "RegisterDrvOutput"
  | .queryRealisation => "QueryRealisation"
  | .addMultipleToStore => "AddMultipleToStore"
  | .addBuildLog => "AddBuildLog"
  | .buildPathsWithResults => "BuildPathsWithResults"
  | .addPermRoot => "AddPermRoot"

section Errors

variable [Layout]

/-- `DaemonErrorKind`. -/
inductive DaemonErrorKind where
  | wrongMagic (magic : UInt64)
  | unsupportedVersion (major minor : UInt8)
  | unimplementedOperation (op : Operation)
  | noSinkForLoggerWrite
  | noSourceForLoggerRead
  | io (error : IoError)
  | remote (error : RemoteError)
  | custom (text : Text)

/-- `DaemonError`, with the fields of its context. -/
structure DaemonError where
  /-- `context.operation`. -/
  operation : Option Operation
  /-- `context.fields`. -/
  fields : List Text
  /-- `kind`. -/
  kind : DaemonErrorKind

/-- `From<std::io::Error>`. -/
def DaemonError.fromIo (error : IoError) : DaemonError := ⟨none, [], .io error⟩

/-- `fill_operation`. -/
def DaemonError.fillOperation (error : DaemonError) (op : Operation) : DaemonError :=
  match error.operation with
  | none => { error with operation := some op }
  | some _ => error

/-- The bytes of a text. -/
def utf8Bytes (text : String) : Bytes := text.toUTF8.data.toList

/-- `Display` of a kind, except for a remote error. -/
def DaemonErrorKind.display : DaemonErrorKind → Option Bytes
  | wrongMagic magic =>
    some (asciiBytes "wrong magic 0x" ++ asciiBytes (.ofList (Nat.toDigits 16 magic.toNat)))
  | unsupportedVersion major minor =>
    some (asciiBytes "unsupported version " ++ asciiBytes (Nat.repr major.toNat) ++
      46 :: asciiBytes (Nat.repr minor.toNat))
  | unimplementedOperation op =>
    some (asciiBytes "unimplemented operation '" ++ asciiBytes (operationName op) ++ [39])
  | noSinkForLoggerWrite => some (asciiBytes "no source for logger write")
  | noSourceForLoggerRead => some (asciiBytes "no sink for logger read")
  | io error => some (asciiBytes "io error " ++ utf8Bytes error.message)
  | remote _ => none
  | custom text => some text.bytes

/-- `Display` of a context. -/
def DaemonError.displayContext (error : DaemonError) : Bytes :=
  let names := (error.operation.map fun op => asciiBytes (operationName op)).toList ++
    error.fields.map Text.bytes
  [46].intercalate names

/-- `Display` of an error, except for a remote one. -/
def DaemonError.display (error : DaemonError) : Option Bytes :=
  error.kind.display.map fun shown =>
    if error.operation.isSome ∨ error.fields ≠ [] then error.displayContext ++ 58 :: 32 :: shown
    else shown

/-- `From<DaemonError> for LogError`; `none` is a text that does not fit into memory. -/
def logError (error : DaemonError) : Option LogError :=
  match error.kind, error.display with
  | .remote remote, _ => some (.fromRemote remote)
  | _, some msg =>
    if small : msg.length < 2 ^ 63 then
      some ⟨.ignored, .error, .ignored, ⟨msg, small⟩, 1, .ignored, ⟨[], Vec.nil_fits⟩⟩
    else none
  | _, none => none

end Errors

/-! ## Results -/

/-- The reader that `nar_from_path` returns, as `copy_buf` sees it: what it yields, and the error
it ends with if it does not end well. -/
structure NarSource where
  /-- What it yields. -/
  bytes : Bytes
  /-- Its error. -/
  failure : Option IoError
  deriving DecidableEq, Repr

/-- What the method for an operation returns. -/
@[reducible] def Response [Layout] : Operation → Type
  | .isValidPath => Bool
  | .queryReferrers => StorePathSet
  | .addToStore => ValidPathInfo
  | .buildPaths => Unit
  | .ensurePath => Unit
  | .addTempRoot => Unit
  | .addIndirectRoot => Unit
  | .findRoots => BTreeMap ByteString StorePath
  | .setOptions => Unit
  | .collectGarbage => CollectGarbageResponse
  | .queryAllValidPaths => StorePathSet
  | .queryPathInfo => Option UnkeyedValidPathInfo
  | .queryPathFromHashPart => Option StorePath
  | .queryValidPaths => StorePathSet
  | .querySubstitutablePaths => StorePathSet
  | .queryValidDerivers => StorePathSet
  | .optimiseStore => Unit
  | .verifyStore => Bool
  | .buildDerivation => BuildResult
  | .addSignatures => Unit
  | .narFromPath => NarSource
  | .addToStoreNar => Unit
  | .queryMissing => QueryMissingResult
  | .queryDerivationOutputMap => BTreeMap OutputName (Option StorePath)
  | .registerDrvOutput => Unit
  | .queryRealisation => BTreeSet Realisation
  | .addMultipleToStore => Unit
  | .addBuildLog => Unit
  | .buildPathsWithResults => Vec KeyedBuildResult
  | .addPermRoot => ByteString

/-- What a store does with a request. -/
structure Reaction [Layout] (op : Operation) where
  /-- The log messages it yields. -/
  logs : List LogMessage
  /-- The rooms with which it polls the body. -/
  rooms : List Nat
  /-- Its result. -/
  result : Except DaemonError (Response op)

/-- A store with its state. -/
abbrev DaemonStore [Layout] (S : Type) : Type := S → (request : Request) → Reaction request.operation × S

end Harmonia.Daemon
