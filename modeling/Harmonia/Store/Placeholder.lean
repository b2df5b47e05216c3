import Harmonia.Store.Base32
import Harmonia.Store.Fingerprint
import Harmonia.Store.Inputs

/-!
# Placeholders

`placeholder.rs`. What stands in a derivation for an output whose path is not known yet: a hash of the
path of the derivation, or of the placeholder that stands for it, and of the name of the output. A
panic is a missing answer.
-/

namespace Harmonia.Store

open Library

/-- `Placeholder`. -/
structure Placeholder where
  /-- `hash`. -/
  hash : Bytes
  deriving DecidableEq, Repr

/-- `StorePathOrPlaceholder`. -/
inductive StorePathOrPlaceholder where
  | storePath (path : StorePath)
  | placeholder (placeholder : Placeholder)
  deriving DecidableEq, Repr

/-- `result[i % new_size] ^= byte`. -/
def xorByte (newSize : Nat) (result : Bytes) (item : UInt8 × Nat) : Bytes :=
  result.modify (item.2 % newSize) (· ^^^ item.1)

/-- `compress_hash`, which panics when it divides by zero. -/
def compressHash (hash : Bytes) (newSize : Nat) : Option Bytes :=
  if hash = [] then some []
  else if newSize = 0 then none
  else some (hash.zipIdx.foldl (xorByte newSize) (List.replicate newSize 0))

/-- What is left of a name is a name, unless nothing is left. -/
theorem isName_stripped {bytes : Bytes} (name : IsName bytes) :
    IsName ((stripSuffix (asciiBytes ".drv") bytes).getD bytes) ↔ bytes ≠ asciiBytes ".drv" := by
  by_cases ends : asciiBytes ".drv" <:+ bytes
  · obtain ⟨start, rfl⟩ := ends
    rw [stripSuffix_append, Option.getD_some]
    have nonempty : start ++ asciiBytes ".drv" ≠ asciiBytes ".drv" ↔ start ≠ [] :=
      not_congr List.append_left_eq_self
    rw [nonempty]
    constructor
    · exact IsName.nonempty
    · intro some
      refine ⟨some, ?_, ?_⟩
      · have short := name.short
        rw [List.length_append] at short
        omega
      · exact fun byte member => name.symbols byte (List.mem_append_left _ member)
  · rw [stripSuffix_none ends, Option.getD_none]
    constructor
    · rintro _ rfl
      exact ends List.suffix_rfl
    · exact fun _ => name

/-- Only nothing is compressed to a length that is no length, so twenty bytes are always made. -/
theorem compressHash_isSome (hash : Bytes) : (compressHash hash 20).isSome := by
  unfold compressHash
  split
  · rfl
  · rfl

section Hashing

variable [Digest]

/-- `sha256_hash`. -/
def sha256Hash (data : Bytes) : Bytes := (Digest.sha256 data).bytes

namespace Placeholder

/-- `standard_output`. -/
def standardOutput (outputName : OutputName) : Placeholder :=
  ⟨sha256Hash (asciiBytes "nix-output:" ++ outputName.text.bytes)⟩

section Encoded

variable (nixBase32 : Encoding)

/-- `render`. -/
def render (placeholder : Placeholder) : Bytes := 47 :: nixBase32.encodeString placeholder.hash

/-- `ca_output`. -/
def caOutput (drvPath : StorePath) (outputName : OutputName) : Option Placeholder := do
  let drvNameStr := drvPath.name.bytes
  let drvNameStr := (stripSuffix (asciiBytes ".drv") drvNameStr).getD drvNameStr
  let drvName ← StorePathName.tryFrom drvNameStr
  let hash ← nixBase32.encodeMut drvPath.hash.bytes (encodeLen 20)
  some ⟨sha256Hash
    (asciiBytes "nix-upstream-output:" ++ hash ++ 58 :: outputPathName drvName outputName)⟩

/-- `dynamic_output`. -/
def dynamicOutput (placeholder : Placeholder) (outputName : OutputName) : Option Placeholder := do
  let compressed ← compressHash placeholder.hash 20
  some ⟨sha256Hash (asciiBytes "nix-computed-output:" ++ nixBase32.encodeString compressed ++
    58 :: outputName.text.bytes)⟩

/-- `output`. -/
def output (drv : StorePathOrPlaceholder) (outputName : OutputName) : Option Placeholder :=
  match drv with
  | .storePath path => caOutput nixBase32 path outputName
  | .placeholder placeholder => dynamicOutput nixBase32 placeholder outputName

/-- `TryFrom<String> for Placeholder`. -/
def tryFrom (str : Bytes) : Option (Except DecodePartial Placeholder) := do
  let len ← decodeLen str.length
  let hash ← nixBase32.decodeMut str len
  some (hash.map Placeholder.mk)

end Encoded

end Placeholder

/-- `From<&SingleDerivedPath> for StorePathOrPlaceholder`. -/
def SingleDerivedPath.toStorePathOrPlaceholder (nixBase32 : Encoding) :
    SingleDerivedPath → Option StorePathOrPlaceholder
  | opaquePath path => some (.storePath path)
  | built drvPath output => do
    let drv ← drvPath.toStorePathOrPlaceholder nixBase32
    let placeholder ← Placeholder.output nixBase32 drv output
    some (.placeholder placeholder)

section Documented

variable {nixBase32 : Encoding} (writes : LeastSignificantFirst nixBase32.encode)

include writes

/-- `ca_output` returns unless nothing is left of the name. -/
theorem Placeholder.caOutput_isSome (drvPath : StorePath) (outputName : OutputName) :
    (caOutput nixBase32 drvPath outputName).isSome ↔ drvPath.name.bytes ≠ asciiBytes ".drv" := by
  have written : nixBase32.encodeMut drvPath.hash.bytes (encodeLen 20) =
      some (nixBase32.encodeString drvPath.hash.bytes) := by
    rw [Encoding.encodeMut, writes.length, drvPath.hash.size]
    exact if_neg fun other => other rfl
  rw [← isName_stripped drvPath.name.name]
  simp only [caOutput, StorePathName.tryFrom, written]
  split
  case isTrue name => exact iff_of_true rfl name
  case isFalse other => exact iff_of_false Bool.false_ne_true other

omit writes in
/-- `dynamic_output` always returns. -/
theorem Placeholder.dynamicOutput_isSome (placeholder : Placeholder) (outputName : OutputName) :
    (dynamicOutput nixBase32 placeholder outputName).isSome := by
  obtain ⟨compressed, made⟩ := Option.isSome_iff_exists.mp (compressHash_isSome placeholder.hash)
  rw [dynamicOutput, made]
  rfl

omit writes in
/-- What is built is a placeholder. -/
theorem SingleDerivedPath.converted_built {drvPath : SingleDerivedPath} {output : OutputName}
    {drv : StorePathOrPlaceholder}
    (converted : (built drvPath output).toStorePathOrPlaceholder nixBase32 = some drv) :
    ∃ placeholder, drv = .placeholder placeholder := by
  rw [toStorePathOrPlaceholder] at converted
  obtain ⟨inner, _, more⟩ := Option.bind_eq_some_iff.mp converted
  obtain ⟨placeholder, _, made⟩ := Option.bind_eq_some_iff.mp more
  cases made
  exact ⟨placeholder, rfl⟩

/-- An output is converted unless nothing is left of the name of the derivation at the root. -/
theorem SingleDerivedPath.converted_isSome (drvPath : SingleDerivedPath) (output : OutputName) :
    ((built drvPath output).toStorePathOrPlaceholder nixBase32).isSome ↔
      drvPath.rootPath.name.bytes ≠ asciiBytes ".drv" := by
  induction drvPath generalizing output with
  | opaquePath path =>
    show ((Placeholder.caOutput nixBase32 path output).bind fun placeholder =>
      some (StorePathOrPlaceholder.placeholder placeholder)).isSome ↔
        path.name.bytes ≠ asciiBytes ".drv"
    rw [← Placeholder.caOutput_isSome writes path output]
    cases Placeholder.caOutput nixBase32 path output with
    | none => exact Iff.rfl
    | some placeholder => exact Iff.rfl
  | built inner name ih =>
    show _ ↔ inner.rootPath.name.bytes ≠ asciiBytes ".drv"
    rw [← ih name, toStorePathOrPlaceholder]
    cases converted : (built inner name).toStorePathOrPlaceholder nixBase32 with
    | none => exact Iff.rfl
    | some drv =>
      -- The derivation is a placeholder itself, and those are compressed without a panic.
      obtain ⟨placeholder, rfl⟩ := converted_built converted
      obtain ⟨made, dynamic⟩ :=
        Option.isSome_iff_exists.mp (@Placeholder.dynamicOutput_isSome _ nixBase32 placeholder output)
      show ((Placeholder.dynamicOutput nixBase32 placeholder output).bind _).isSome ↔ _
      rw [dynamic]
      exact Iff.rfl

/-- A derived path is converted unless it has an output and nothing is left of the name of the derivation
at its root. -/
theorem SingleDerivedPath.toStorePathOrPlaceholder_isSome (path : SingleDerivedPath) :
    (path.toStorePathOrPlaceholder nixBase32).isSome ↔
      path = .opaquePath path.rootPath ∨ path.rootPath.name.bytes ≠ asciiBytes ".drv" := by
  cases path with
  | opaquePath path => exact iff_of_true rfl (.inl rfl)
  | built drvPath output =>
    have notOpaque : built drvPath output ≠ opaquePath drvPath.rootPath := by rintro ⟨⟩
    rw [converted_isSome writes drvPath output]
    exact (or_iff_right notOpaque).symm

variable (reads : ChecksTrailing nixBase32.decode)

include reads

omit [Digest] writes in
/-- `try_from` returns for the lengths that are accepted. -/
theorem Placeholder.tryFrom_isSome (str : Bytes) :
    (tryFrom nixBase32 str).isSome ↔ str.length * 5 % 8 < 5 := by
  have lengths := @decodeLen_eq_some str.length
  cases accepted : decodeLen str.length with
  | none =>
    rw [tryFrom, accepted]
    refine iff_of_false Bool.false_ne_true ?_
    intro room
    rw [lengths.mpr ⟨room, rfl⟩] at accepted
    cases accepted
  | some len =>
    refine iff_of_true ?_ (lengths.mp accepted).1
    rw [tryFrom, accepted]
    by_cases read : ∃ bytes, nixBase32.decodeMut str len = some (.ok bytes)
    · obtain ⟨bytes, found⟩ := read
      show ((nixBase32.decodeMut str len).bind _).isSome
      rw [found]
      rfl
    · have never : ∀ bytes, nixBase32.decodeMut str len ≠ some (.ok bytes) := fun bytes found => read ⟨bytes, found⟩
      obtain ⟨error, found, _⟩ := decodeMut_error reads accepted never
      show ((nixBase32.decodeMut str len).bind _).isSome
      rw [found]
      rfl

omit [Digest] in
/-- A placeholder is read from the text of its hash, and from no other one. -/
theorem Placeholder.tryFrom_ok (str : Bytes) (placeholder : Placeholder) :
    tryFrom nixBase32 str = some (.ok placeholder) ↔ nixBase32.encodeString placeholder.hash = str := by
  constructor
  · intro read
    obtain ⟨len, accepted, more⟩ := Option.bind_eq_some_iff.mp read
    obtain ⟨hash, found, made⟩ := Option.bind_eq_some_iff.mp more
    cases hash with
    | error err => cases made
    | ok bytes =>
      cases made
      exact (decodeMut_ok writes reads accepted).mp found
  · rintro rfl
    have accepted : decodeLen (nixBase32.encodeString placeholder.hash).length =
        some placeholder.hash.length := by
      rw [encodeString_length writes, decodeLen_encodeLen]
    have found := (decodeMut_ok writes reads accepted).mpr rfl
    rw [tryFrom, accepted]
    show (nixBase32.decodeMut _ placeholder.hash.length).bind _ = _
    rw [found]
    rfl

/-- Placeholders are made of all derivations but those with no name before `.drv`, and texts are read
without a panic if nothing of them is left over: exactly the ones that are written are accepted, as
what they were written from. -/
theorem placeholder_returns :
    (∀ (drvPath : StorePath) (outputName : OutputName),
      (Placeholder.caOutput nixBase32 drvPath outputName).isSome ↔
        drvPath.name.bytes ≠ asciiBytes ".drv") ∧
    (∀ path : SingleDerivedPath, (path.toStorePathOrPlaceholder nixBase32).isSome ↔
      path = .opaquePath path.rootPath ∨ path.rootPath.name.bytes ≠ asciiBytes ".drv") ∧
    ∀ str : Bytes,
      ((Placeholder.tryFrom nixBase32 str).isSome ↔ str.length * 5 % 8 < 5) ∧
      ((∃ placeholder, Placeholder.tryFrom nixBase32 str = some (.ok placeholder)) ↔
        ∃ bytes, nixBase32.encodeString bytes = str) ∧
      ∀ placeholder : Placeholder, nixBase32.encodeString placeholder.hash = str →
        Placeholder.tryFrom nixBase32 str = some (.ok placeholder) := by
  refine ⟨Placeholder.caOutput_isSome writes, SingleDerivedPath.toStorePathOrPlaceholder_isSome writes, ?_⟩
  intro str
  have ok := Placeholder.tryFrom_ok writes reads str
  refine ⟨Placeholder.tryFrom_isSome reads str, ?_, fun placeholder => (ok placeholder).mpr⟩
  constructor
  · rintro ⟨placeholder, read⟩
    exact ⟨placeholder.hash, (ok placeholder).mp read⟩
  · rintro ⟨bytes, written⟩
    exact ⟨⟨bytes⟩, (ok ⟨bytes⟩).mpr written⟩

end Documented

end Hashing

section Samples

attribute [local instance] standard Digest.standard

/-- The placeholder of a test. -/
example : (Placeholder.standardOutput .default).render Standard.nixBase32 =
    asciiBytes "/1rz4g4znpzjwh1xymhjpm42vipw92pr73vdgl6xs1hycac8kf2n9" := by
  decide +kernel

/-- Another placeholder of a test. -/
example : ((StorePath.fromBytes (asciiBytes "g1w7hy3qg1w7hy3qg1w7hy3qg1w7hy3q-foo.drv")).bind
    fun path => (Placeholder.caOutput Standard.nixBase32 path .default).map
      (Placeholder.render Standard.nixBase32)) =
    some (asciiBytes "/0c6rn30q4frawknapgwq386zq358m8r6msvywcvc89n6m5p2dgbz") := by
  decide +kernel

/-- `standard_output` of the default output is read back. -/
theorem placeholder_returns_sample :
    Placeholder.tryFrom Standard.nixBase32
        (Standard.nixBase32.encodeString (Placeholder.standardOutput .default).hash) =
      some (.ok (Placeholder.standardOutput .default)) := by
  have all := placeholder_returns standard_writes standard_reads
  exact (all.2.2 _).2.2 _ rfl

/-- A store path whose name is `.drv` is accepted, and no placeholder is made of it. Nor is a text of one
symbol read. -/
theorem drv_panics :
    (∃ drvPath, StorePath.fromBytes (asciiBytes "00000000000000000000000000000000-.drv") = some drvPath ∧
      Placeholder.caOutput Standard.nixBase32 drvPath .default = none ∧
      (SingleDerivedPath.built (.opaquePath drvPath) .default).toStorePathOrPlaceholder
        Standard.nixBase32 = none) ∧
    Placeholder.tryFrom Standard.nixBase32 (asciiBytes "a") = none := by
  refine ⟨⟨⟨.zero, ⟨asciiBytes ".drv", by decide +kernel⟩⟩, ?_, ?_, ?_⟩, ?_⟩
  · decide +kernel
  · decide +kernel
  · decide +kernel
  · decide +kernel

end Samples

end Harmonia.Store
