import Harmonia.Protocol.Logging
import Harmonia.Protocol.Request

/-!
# Paths below a store directory

A `StorePath` and a `DerivedPath` are written below a store directory, which their writer holds. `Placed` says of a
type that whatever is written of its values names no other directory than the one of the connection.
-/

namespace Harmonia.Protocol

open Library Store

section Placed

variable [DataEncoding]

/-- A path that is written, at whatever place, has the text that it has below a store directory. -/
def Token.Below (dir : StoreDir) : Token → Prop
  | .path own target => own.display target.display = dir.display target.display
  | .derived own target => own.display target.toLegacyFormat = dir.display target.toLegacyFormat
  | _ => True

/-- All paths among some tokens lie below a store directory. -/
def AllBelow (dir : StoreDir) (tokens : List Token) : Prop := ∀ token ∈ tokens, token.Below dir

/-- Tokens before others. -/
theorem AllBelow.append {dir : StoreDir} {left right : List Token} (first : AllBelow dir left)
    (second : AllBelow dir right) : AllBelow dir (left ++ right) := by
  intro token member
  rcases List.mem_append.mp member with before | after
  · exact first token before
  · exact second token after

/-- A token before others. -/
theorem AllBelow.cons {dir : StoreDir} {token : Token} {rest : List Token} (first : token.Below dir)
    (others : AllBelow dir rest) : AllBelow dir (token :: rest) :=
  List.forall_mem_cons.mpr ⟨first, others⟩

/-- No tokens. -/
theorem AllBelow.nil {dir : StoreDir} : AllBelow dir [] := List.forall_mem_nil _

/-- What a version writes of a value, or another. -/
theorem AllBelow.ite {dir : StoreDir} {new : Prop} [Decidable new] {first second : List Token}
    (one : AllBelow dir first) (other : AllBelow dir second) : AllBelow dir (if new then first else second) := by
  split
  · exact one
  · exact other

/-- The tokens of items. -/
theorem AllBelow.flatMap {α : Type} {dir : StoreDir} {items : List α} {tokens : α → List Token}
    (each : ∀ item ∈ items, AllBelow dir (tokens item)) : AllBelow dir (items.flatMap tokens) := by
  intro token member
  obtain ⟨item, listed, written⟩ := List.mem_flatMap.mp member
  exact each item listed token written

/-- A type whose values are written with every path below the directory of the connection. -/
class Placed (α : Type) [NixSerialize α] : Prop where
  /-- The paths that are written. -/
  placed : ∀ (ctx : Ctx) (value : α), AllBelow ctx.storeDir (serialize ctx value)

export Placed (placed)

/-! ## Numbers, strings and texts -/

instance : Placed UInt64 := ⟨fun _ _ => .cons trivial .nil⟩
instance : Placed ByteString := ⟨fun _ _ => .cons trivial .nil⟩
instance : Placed Text := ⟨fun _ _ => .cons trivial .nil⟩
instance : Placed StoreDir := ⟨fun _ _ => .nil⟩
instance (priority := low) {α : Type} [Coded α] : Placed α := ⟨fun _ _ => .cons trivial .nil⟩

instance : Placed StorePath := ⟨fun _ _ => .cons rfl .nil⟩
instance : Placed DerivedPath := ⟨fun _ _ => .cons rfl .nil⟩
instance : Placed StorePathHash := ⟨fun _ _ => .cons trivial .nil⟩
instance : Placed OutputName := ⟨fun _ _ => .cons trivial .nil⟩
instance : Placed Signature := ⟨fun _ _ => .cons trivial .nil⟩
instance : Placed NarHash := ⟨fun _ _ => .cons trivial .nil⟩
instance : Placed ContentAddress := ⟨fun _ _ => .cons trivial .nil⟩
instance : Placed ContentAddressMethodAlgorithm := ⟨fun _ _ => .cons trivial .nil⟩
instance : Placed IgnoredErrorType := ⟨fun _ _ => .cons trivial .nil⟩

/-! ## Records and collections -/

section Compounds

variable {α β : Type} [NixSerialize α] [Placed α]

instance [NixSerialize β] [Placed β] : Placed (α × β) :=
  ⟨fun ctx value => (placed ctx value.1).append (placed ctx value.2)⟩

instance (priority := low) {γ : Type} [Record γ α] : Placed γ :=
  ⟨fun ctx value => placed ctx (Record.fields value)⟩

/-- What is written of items. -/
theorem placed_items (ctx : Ctx) (items : List α) : AllBelow ctx.storeDir (serializeItems ctx items) :=
  .cons trivial (.flatMap fun item _ => placed ctx item)

instance [Layout] [Sized α] : Placed (Vec α) := ⟨fun ctx value => placed_items ctx value.items⟩

instance [Ord α] [Std.TransOrd α] : Placed (BTreeSet α) := ⟨fun ctx value => placed_items ctx value.items⟩

instance {κ : Type} [Ord κ] [Std.TransOrd κ] [NixSerialize κ] [Placed κ] : Placed (BTreeMap κ α) :=
  ⟨fun ctx value => placed_items ctx value.entries⟩

end Compounds

/-! ## Absent values -/

instance : Placed (Option StorePath) where
  placed ctx value := by
    cases value with
    | none => exact .cons trivial .nil
    | some path => exact placed ctx path

instance : Placed (Option ContentAddress) where
  placed ctx value := by
    cases value with
    | none => exact .cons trivial .nil
    | some ca => exact placed ctx ca

instance : Placed (Option Microseconds) where
  placed ctx value := by
    cases value with
    | none => exact .cons trivial .nil
    | some time => exact .cons trivial (placed ctx time)

instance : Placed (Option UnkeyedValidPathInfo) where
  placed ctx value := by
    cases value with
    | none => exact placed ctx false
    | some info => exact (placed ctx true).append (placed ctx info)

instance : Placed BuildResult := ⟨fun ctx value => placed ctx value.flat⟩

/-! ## Messages -/

instance : Placed Field where
  placed ctx value := by
    cases value with
    | int number => exact (placed ctx FieldType.int).append (placed ctx number)
    | string text => exact (placed ctx FieldType.string).append (placed ctx text)

variable [Layout]

instance : Placed LogError := ⟨fun ctx error => .ite (placed ctx error.newFields) (placed ctx error.oldFields)⟩

instance : Placed RawLogMessage where
  placed ctx value := by
    cases value with
    | last => exact placed ctx RawLogMessageType.last
    | error error => exact (placed ctx RawLogMessageType.error).append (placed ctx error)
    | next text => exact (placed ctx RawLogMessageType.next).append (placed ctx text)
    | read len => exact (placed ctx RawLogMessageType.read).append (placed ctx len)
    | write buf => exact (placed ctx RawLogMessageType.write).append (placed ctx buf)
    | startActivity act =>
      apply AllBelow.ite
      · exact (placed ctx RawLogMessageType.startActivity).append (placed ctx act)
      · exact (placed ctx RawLogMessageType.next).append (placed ctx act.text)
    | stopActivity act =>
      apply AllBelow.ite
      · exact (placed ctx RawLogMessageType.stopActivity).append (placed ctx act)
      · exact .nil
    | result result =>
      apply AllBelow.ite
      · exact (placed ctx RawLogMessageType.result).append (placed ctx result)
      · exact .nil

instance : Placed LogMessage where
  placed ctx value := by
    cases value with
    | message msg => exact (placed ctx RawLogMessageType.next).append (placed ctx msg.text)
    | startActivity act =>
      apply AllBelow.ite
      · exact (placed ctx RawLogMessageType.startActivity).append (placed ctx act)
      · exact (placed ctx RawLogMessageType.next).append (placed ctx act.text)
    | stopActivity act =>
      apply AllBelow.ite
      · exact (placed ctx RawLogMessageType.stopActivity).append (placed ctx act.id)
      · exact .nil
    | result result =>
      apply AllBelow.ite
      · exact (placed ctx RawLogMessageType.result).append (placed ctx result)
      · exact .nil

/-! ## Requests -/

variable [Digest]

omit [Layout] in
/-- The output of a derivation is written below the directory of the connection, also the one that is computed
when it is written. -/
theorem placed_output (ctx : Ctx) (drvName : StorePathName) (entry : OutputName × DerivationOutput) :
    AllBelow ctx.storeDir (writeOutput ctx drvName entry) := by
  obtain ⟨name, output⟩ := entry
  apply AllBelow.append (placed ctx name)
  show AllBelow ctx.storeDir (writeDerivationOutput ctx output drvName name)
  unfold writeDerivationOutput
  cases output with
  | inputAddressed path => exact (placed ctx path).append (.cons trivial (.cons trivial .nil))
  | caFixed ca =>
    dsimp only
    split
    · rename_i full _
      have path := placed ctx (ctx.storeDir.makeStorePathFromCa full ca)
      exact (path.append (placed ctx ca.methodAlgorithm)).append (.cons trivial .nil)
    · exact .cons trivial .nil
  | deferred => exact .cons trivial (.cons trivial (.cons trivial .nil))
  | caFloating algo =>
    have method : AllBelow ctx.storeDir (.slice [] :: serialize ctx algo) := .cons trivial (placed ctx algo)
    exact method.append (.cons trivial .nil)
  | impure algo =>
    have method : AllBelow ctx.storeDir (.slice [] :: serialize ctx algo) := .cons trivial (placed ctx algo)
    exact method.append (.cons trivial .nil)

instance : Placed (StorePath × BasicDerivation) where
  placed ctx value := by
    obtain ⟨drvPath, drv⟩ := value
    have outputs : AllBelow ctx.storeDir (drv.outputs.entries.flatMap (writeOutput ctx drv.name)) :=
      .flatMap fun entry _ => placed_output ctx drv.name entry
    have counted : AllBelow ctx.storeDir (.number (UInt64.ofNat drv.outputs.entries.length) :: _) :=
      .cons trivial outputs
    exact ((placed ctx drvPath).append counted).append (placed ctx (remainder drv))

/-- Whatever a client writes of a request, before any body. -/
theorem placed_writeArguments (ctx : Ctx) (op : Operation) (payload : op.Payload) :
    AllBelow ctx.storeDir (DaemonClient.writeArguments ctx op payload) := by
  cases op with
  | queryValidPaths =>
    apply (placed ctx payload.paths).append
    exact .ite (placed ctx payload.substitute) .nil
  | buildPaths => exact (placed ctx payload.paths).append (placed ctx payload.mode)
  | buildPathsWithResults => exact (placed ctx payload.paths).append (placed ctx payload.mode)
  | buildDerivation => exact (placed ctx payload.drv).append (placed ctx payload.mode)
  | addToStoreNar =>
    exact ((placed ctx payload.pathInfo).append (placed ctx payload.repair)).append
      (placed ctx payload.dontCheckSigs)
  | addMultipleToStore => exact (placed ctx payload.repair).append (placed ctx payload.dontCheckSigs)
  | collectGarbage =>
    exact (((placed ctx payload.action).append (placed ctx payload.pathsToDelete)).append
      (placed ctx payload.ignoreLiveness)).append (placed ctx payload.maxFreed)
  | verifyStore => exact (placed ctx payload.checkContents).append (placed ctx payload.repair)
  | addSignatures => exact (placed ctx payload.path).append (placed ctx payload.signatures)
  | addBuildLog => exact placed ctx payload.path
  | addPermRoot => exact (placed ctx payload.storePath).append (placed ctx payload.gcRoot)
  | addToStore =>
    exact (((placed ctx payload.name).append (placed ctx payload.cam)).append (placed ctx payload.refs)).append
      (placed ctx payload.repair)
  | queryAllValidPaths => exact .nil
  | findRoots => exact .nil
  | optimiseStore => exact .nil
  | _ => exact placed ctx payload

/-- Whatever a client writes of a request lies below the directory of its connection. -/
theorem placed_writeRequest (ctx : Ctx) (request : Request) :
    AllBelow ctx.storeDir (DaemonClient.writeRequest ctx request) :=
  (placed ctx request.operation).append (placed_writeArguments ctx request.operation request.payload)

end Placed

end Harmonia.Protocol
