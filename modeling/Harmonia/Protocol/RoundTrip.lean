import Harmonia.Protocol.Logging
import Harmonia.Protocol.Request

/-!
# Every value of the protocol

Requests, responses and the values between them, as one family: what is written of such a value
is read back as that value, and what follows is left, exactly if the value is understood.
-/

namespace Harmonia.Protocol

open Library Store

/-- The types of values that are written to a connection. -/
inductive Kind where
  | request
  | clientOptions
  | bool
  | path
  | optionalStorePath
  | storePaths
  | roots
  | outputs
  | unkeyedValidPathInfo
  | optionalUnkeyedValidPathInfo
  | validPathInfo
  | buildResult
  | keyedBuildResults
  | queryMissingResult
  | collectGarbageResponse
  | realisations
  | logError
  deriving DecidableEq, Repr

/-- The values of a kind. -/
@[reducible] def Kind.Value [Layout] : Kind → Type
  | .request => Request
  | .clientOptions => ClientOptions
  | .bool => Bool
  | .path => ByteString
  | .optionalStorePath => Option StorePath
  | .storePaths => StorePathSet
  | .roots => BTreeMap ByteString StorePath
  | .outputs => BTreeMap OutputName (Option StorePath)
  | .unkeyedValidPathInfo => UnkeyedValidPathInfo
  | .optionalUnkeyedValidPathInfo => Option UnkeyedValidPathInfo
  | .validPathInfo => ValidPathInfo
  | .buildResult => BuildResult
  | .keyedBuildResults => Vec KeyedBuildResult
  | .queryMissingResult => QueryMissingResult
  | .collectGarbageResponse => CollectGarbageResponse
  | .realisations => BTreeSet Realisation
  | .logError => LogError

section Kinds

variable [DataEncoding] [Digest] [Layout]

instance (kind : Kind) : NixSerialize kind.Value := by cases kind <;> infer_instance
instance (kind : Kind) : NixDeserialize kind.Value := by cases kind <;> infer_instance
instance (kind : Kind) : Sent kind.Value := by cases kind <;> infer_instance

/-- A value of any kind that has a writing is read back from it, whatever follows, if it is understood; and
only then, by a reader of at least 128 bytes. -/
theorem Kind.reads_iff {kind : Kind} {ctx : Ctx} {room : Nat → Nat} {value : kind.Value}
    {bytes : Bytes} (written : write room (serialize ctx value) = some bytes) :
    (Understood ctx value →
        ∀ tail, (tryDeserialize ctx).run ctx (bytes ++ tail) = .ok (some value) tail) ∧
      (128 ≤ ctx.maxBufSize →
        ((∀ tail, (tryDeserialize ctx).run ctx (bytes ++ tail) = .ok (some value) tail) ↔
          Understood ctx value)) := by
  obtain ⟨rfl, supported⟩ := write_some written
  have enough (understood : Understood ctx value) (tail : Bytes) :
      (tryDeserialize ctx).run ctx (encode (serialize ctx value) ++ tail) = .ok (some value) tail :=
    @Sent.reads kind.Value _ _ _ _ _ _ understood tail
  refine ⟨enough, fun large => ⟨?_, enough⟩⟩
  intro reads
  exact @Sent.misses kind.Value _ _ _ _ _ _ _ _ large supported (reads [])

end Kinds

section Samples

attribute [local instance] Store.standard Digest.unasked Layout.least

/-- The path of zeros with a name. -/
def namedPath : StorePath := ⟨.zero, ⟨asciiBytes "a", isName_letter⟩⟩

/-- A request to add a file with a name and a reference. -/
def addedFile : Request :=
  ⟨.addToStore, ⟨⟨asciiBytes "file", by decide, by decide⟩, .recursive .sha256, ⟨[namedPath], by decide⟩, true⟩⟩

/-- The request to add a file is read back. -/
theorem Kind.reads_addedFile :
    (tryDeserialize .standard).run .standard
      (encode (serialize .standard addedFile) ++ [7]) = .ok (some addedFile) [7] := by
  have written : write (fun _ => 64) (serialize .standard addedFile) =
      some (encode (serialize .standard addedFile)) := by decide +kernel
  have rooted : Ctx.standard.storeDir.Rooted := by decide
  have short : (Ctx.standard.storeDir.display namedPath.display).length ≤ Ctx.standard.maxBufSize := by
    decide +kernel
  have understood : Understood .standard addedFile := by
    have name : (asciiBytes "file").length ≤ Ctx.standard.maxBufSize := by decide
    refine ⟨name, ⟨trivial, by decide +kernel⟩, ⟨by decide, ?_⟩, trivial⟩
    intro path listed
    cases List.mem_singleton.mp listed
    exact ⟨rooted, short⟩
  exact (@Kind.reads_iff _ _ _ .request .standard _ addedFile _ written).1 understood [7]

/-- An error without a message. -/
def blankError (exitStatus : UInt32) : LogError :=
  ⟨.ignored, .error, .ignored, ⟨[], ByteString.nil_small⟩, exitStatus, .ignored, ⟨[], Vec.nil_fits⟩⟩

/-- The exit status of an error is lost. -/
theorem Kind.reads_exitStatus :
    ¬ ∀ (room : Nat → Nat) (error : LogError) (bytes tail : Bytes),
      error.msg.bytes.length ≤ Ctx.standard.maxBufSize →
      (∀ line ∈ error.traces.items, line.hint.bytes.length ≤ Ctx.standard.maxBufSize) →
      write room (serialize .standard error) = some bytes →
      (tryDeserialize .standard).run .standard (bytes ++ tail) = .ok (some error) tail := by
  intro every
  have written : write (fun _ => 64) (serialize .standard (blankError 2)) =
      some (encode (serialize .standard (blankError 2))) := rfl
  have read := every _ _ _ [] (Nat.zero_le _) (List.forall_mem_nil _) written
  have lost : (tryDeserialize .standard).run .standard
      (encode (serialize .standard (blankError 2)) ++ []) = .ok (some (blankError 1)) [] := rfl
  rw [lost] at read
  cases read

end Samples

end Harmonia.Protocol
