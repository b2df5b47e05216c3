import Harmonia.Store.Derived

/-!
# Derivations

`derivation/`, and the part of `store_path/create.rs` that names the output of a fixed
derivation. The SHA-256 of the `ring` crate is a parameter: no result depends on what it
computes.
-/

namespace Harmonia.Store

open Library

/-- The types that vectors of the protocol hold. -/
inductive Element where
  | byteString
  | derivedPath
  | signature
  | keyedBuildResult
  | traceLine
  | field
  deriving DecidableEq, Repr

/-- How the compiler lays these types out. -/
class Layout where
  /-- `size_of`. -/
  size : Element → Nat
  /-- All of them hold pointers. -/
  positive : ∀ element, 0 < size element

/-- The least layout: one pointer each. -/
@[reducible] def Layout.least : Layout := ⟨fun _ => 8, fun _ => by decide⟩

/-- A type that vectors of the protocol hold. -/
class Sized (α : Type) where
  /-- Which one. -/
  element : Element

/-- `size_of::<T>()`. -/
def sizeOfType (α : Type) [Layout] [Sized α] : Nat := Layout.size (Sized.element α)

/-- `Vec`. An allocation has at most `isize::MAX` bytes. -/
structure Vec (α : Type) [Layout] [Sized α] where
  /-- The items. -/
  items : List α
  /-- They fit into memory. -/
  fits : items.length * sizeOfType α < 2 ^ 63
  deriving DecidableEq

/-- No items fit into memory. -/
theorem Vec.nil_fits {α : Type} [Layout] [Sized α] : ([] : List α).length * sizeOfType α < 2 ^ 63 := by
  simp

instance : Sized ByteString := ⟨.byteString⟩
instance : Sized DerivedPath := ⟨.derivedPath⟩
instance : Sized Signature := ⟨.signature⟩

/-- What the code uses of `ring`. -/
class Digest where
  /-- `Sha256::digest`. -/
  sha256 : Bytes → Sha256

/-- The length of a digest of zeros. -/
theorem Digest.zeros_length : (List.replicate 32 (0 : UInt8)).length = 32 := by decide

/-- A digest that nobody asks. -/
@[reducible] def Digest.unasked : Digest := ⟨fun _ => ⟨List.replicate 32 0, zeros_length⟩⟩

/-- `DerivationOutput`. -/
inductive DerivationOutput where
  | inputAddressed (path : StorePath)
  | caFixed (ca : ContentAddress)
  | deferred
  | caFloating (algo : ContentAddressMethodAlgorithm)
  | impure (algo : ContentAddressMethodAlgorithm)
  deriving DecidableEq, Repr

/-- `StructuredAttrs`: a JSON object, as its keys and the texts of their values. -/
structure StructuredAttrs where
  /-- `attrs`. -/
  attrs : BTreeMap Text Text
  deriving DecidableEq

/-- `BasicDerivation`. -/
structure BasicDerivation [Layout] where
  /-- `name`. -/
  name : StorePathName
  /-- `outputs`. -/
  outputs : BTreeMap OutputName DerivationOutput
  /-- `inputs`. -/
  inputs : BTreeSet StorePath
  /-- `platform`. -/
  platform : ByteString
  /-- `builder`. -/
  builder : ByteString
  /-- `args`. -/
  args : Vec ByteString
  /-- `env`. -/
  env : BTreeMap ByteString ByteString
  /-- `structured_attrs`. -/
  structuredAttrs : Option StructuredAttrs
  deriving DecidableEq

/-- `PathType`. -/
inductive PathType where
  | text (references : BTreeSet StorePath) (digest : Sha256)
  | source (references : BTreeSet StorePath) (selfRef : Bool) (digest : Sha256)
  | output (hash : Hash)
  | flatOutput (hash : Hash)

/-- `From<ContentAddress> for PathType`. -/
def PathType.ofContentAddress : ContentAddress → PathType
  | .text digest => .text .empty digest
  | .recursive hash =>
    match Sha256.tryFrom hash with
    | some digest => .source .empty false digest
    | none => .output hash
  | .flat hash => .flatOutput hash

/-- `LowerHex for Hash`. -/
def Hash.lowerHexDisplay (hash : Hash) : Bytes := hash.algorithm.display ++ 58 :: lowerHex hash.bytes

/-- One byte of a digest is folded into a hash part. -/
def foldByte (digest : Bytes) (item : UInt8 × Nat) : Bytes :=
  digest.modify (item.2 % 20) fun byte => byte ^^^ item.1

/-- Folding keeps the length. -/
theorem foldl_foldByte_length (items : List (UInt8 × Nat)) (digest : Bytes) :
    (items.foldl foldByte digest).length = digest.length := by
  induction items generalizing digest with
  | nil => rfl
  | cons item rest ih => rw [List.foldl_cons, ih, foldByte, List.length_modify]

/-- `StorePathHash::new_from_hash`. -/
def StorePathHash.newFromHash (hash : Sha256) : StorePathHash :=
  ⟨hash.bytes.zipIdx.foldl foldByte (List.replicate 20 0), by
    rw [foldl_foldByte_length, List.length_replicate]⟩

/-- `output_path_name`. -/
def outputPathName (drvName : StorePathName) (outputName : OutputName) : Bytes :=
  if outputName.isDefault then drvName.bytes else drvName.bytes ++ 45 :: outputName.text.bytes

section Fingerprints

variable [DataEncoding] [Digest]

/-- The references of a fingerprint, each behind a colon. -/
def displayReferences (dir : StoreDir) (references : BTreeSet StorePath) : Bytes :=
  references.items.flatMap fun path => 58 :: dir.display path.display

/-- `StoreDirDisplay for PathType`. -/
def PathType.display (dir : StoreDir) : PathType → Bytes
  | text references digest =>
    asciiBytes "text" ++ displayReferences dir references ++ asciiBytes ":sha256:" ++
      lowerHex digest.bytes
  | source references selfRef digest =>
    asciiBytes "source" ++ displayReferences dir references ++
      (if selfRef then asciiBytes ":self" else []) ++ asciiBytes ":sha256:" ++ lowerHex digest.bytes
  | output hash =>
    asciiBytes "output:out:sha256:" ++
      lowerHex (Digest.sha256 (asciiBytes "fixed:out:r:" ++ hash.lowerHexDisplay)).bytes
  | flatOutput hash =>
    asciiBytes "output:out:sha256:" ++
      lowerHex (Digest.sha256 (asciiBytes "fixed:out:" ++ hash.lowerHexDisplay)).bytes

/-- `StoreDir::make_store_path_from_ca`. -/
def StoreDir.makeStorePathFromCa (dir : StoreDir) (name : StorePathName) (ca : ContentAddress) :
    StorePath :=
  ⟨.newFromHash (Digest.sha256 ((PathType.ofContentAddress ca).display dir ++ 58 :: dir.text.bytes ++
    58 :: name.bytes)), name⟩

end Fingerprints

end Harmonia.Store
