import Harmonia.Protocol.Values

/-!
# Derivations on the wire

The pair of a derivation's path and the derivation, as `store_impls.rs` writes and reads it. The
writer puts less on the wire than there is, and the reader asks for more: the name is not written
but taken from the path, structured attributes are dropped, and the hash of a fixed output is
written without the algorithm the reader expects before it. `Sent` says of a type exactly which
values survive.
-/

namespace Harmonia.Protocol

open Library Store

/-- The values of a type that are understood by the other side. -/
class Sent (α : Type) [DataEncoding] [NixSerialize α] [NixDeserialize α] where
  /-- They are understood. -/
  Understood : Ctx → α → Prop
  /-- What is written of such a value is read as that value, and nothing more. -/
  reads : ∀ {ctx : Ctx} {value : α}, Understood ctx value → ∀ tail : Bytes,
    (tryDeserialize ctx).run ctx (encode (serialize ctx value) ++ tail) = .ok (some value) tail
  /-- No other value is read from what is written of it. -/
  misses : ∀ {ctx : Ctx} {value : α} {tail rest : Bytes}, 128 ≤ ctx.maxBufSize →
    .unsupported ∉ serialize ctx value →
    (tryDeserialize ctx).run ctx (encode (serialize ctx value) ++ tail) = .ok (some value) rest →
    Understood ctx value

export Sent (Understood)

/-- A carried value is understood. -/
instance (priority := low) {α : Type} [DataEncoding] [NixSerialize α] [NixDeserialize α] [Wire α] :
    Sent α where
  Understood := Carried
  reads := Wire.reads
  misses := fun large _ ran => Wire.accepts large ran

/-- A written text is read, unless it is too long. -/
theorem run_readText (ctx : Ctx) {src : Bytes} (utf8 : Utf8.Valid src)
    (small : src.length ≤ 2 ^ 64 - 8) (tail : Bytes) :
    (readValue Text ctx).run ctx (putNixSlice src ++ tail) =
      if within : src.length ≤ ctx.maxBufSize then
        .ok ⟨src, utf8, Nat.lt_of_le_of_lt within ctx.small⟩ tail
      else .error (invalidData "bytes length out of range") := by
  have read : (tryDeserialize ctx : Read (Option ByteString)).run ctx (putNixSlice src ++ tail) = _ :=
    (Read.run_bytes_done ctx _).trans (Read.tryReadBytes_putNixSlice ctx small tail)
  by_cases within : src.length ≤ ctx.maxBufSize
  · rw [dif_pos within] at read ⊢
    have small := Nat.lt_of_le_of_lt within ctx.small
    have text := @run_convert_ok _ _ ctx _ (fun buf : ByteString => Text.fromUtf8 buf.bytes) _ _ _ _
      read (Text.fromUtf8_bytes ⟨src, utf8, small⟩)
    rw [readValue, Read.run_bind]
    show Read.andThen ctx _ (Read.run ctx (convert _ _) _) = _
    rw [text]
    rfl
  · rw [dif_neg within] at read ⊢
    rw [readValue, Read.run_bind]
    show Read.andThen ctx _ (Read.run ctx (_ >>= _) _) = _
    rw [Read.run_bind, read]
    rfl

section Outputs

variable [DataEncoding]

/-- What `read_derivation_output` makes of its three strings. -/
def parseDerivationOutput (dir : StoreDir) (storePathStr methodStr hashStr : Bytes) :
    Option DerivationOutput :=
  if hashStr = asciiBytes "impure" then
    (ContentAddressMethodAlgorithm.fromStr methodStr).map .impure
  else if storePathStr = [] ∧ methodStr ≠ [] then
    (ContentAddressMethodAlgorithm.fromStr methodStr).map .caFloating
  else if storePathStr = [] ∧ methodStr = [] ∧ hashStr = [] then some .deferred
  else if methodStr = [] ∧ hashStr = [] then
    (StorePath.fromStoreDirStr dir storePathStr).map .inputAddressed
  else
    (ContentAddressMethodAlgorithm.fromStr methodStr).bind fun methodAlgo =>
      (base32FromStr hashStr).bind fun hash =>
        (ContentAddress.fromHash methodAlgo.method hash).map .caFixed

/-- `read_derivation_output`. -/
def readDerivationOutput (ctx : Ctx) : Read DerivationOutput := do
  let storePathStr ← readValue Text ctx
  let methodStr ← readValue Text ctx
  let hashStr ← readValue Text ctx
  match parseDerivationOutput ctx.storeDir storePathStr.bytes methodStr.bytes hashStr.bytes with
  | some output => pure output
  | none => .fail unparsed

/-- Three texts as they are written. -/
structure Triple (ctx : Ctx) (tokens : List Token) (first second third : Bytes) : Prop where
  /-- The writing. -/
  encoded : encode tokens = putNixSlice first ++ (putNixSlice second ++ putNixSlice third)
  /-- They are texts. -/
  utf8 : Utf8.Valid first ∧ Utf8.Valid second ∧ Utf8.Valid third
  /-- Their lengths are numbers. -/
  small : first.length ≤ 2 ^ 64 - 8 ∧ second.length ≤ 2 ^ 64 - 8 ∧ third.length ≤ 2 ^ 64 - 8

/-- Three texts that are not too long are read and parsed. -/
theorem Triple.run {ctx : Ctx} {tokens : List Token} {first second third : Bytes}
    (triple : Triple ctx tokens first second third) {output : DerivationOutput}
    (short : first.length ≤ ctx.maxBufSize ∧ second.length ≤ ctx.maxBufSize ∧
      third.length ≤ ctx.maxBufSize)
    (parsed : parseDerivationOutput ctx.storeDir first second third = some output) (tail : Bytes) :
    (readDerivationOutput ctx).run ctx (encode tokens ++ tail) = .ok output tail := by
  obtain ⟨encoded, utf8, small⟩ := triple
  rw [encoded, List.append_assoc, List.append_assoc, readDerivationOutput, Read.run_bind,
    run_readText ctx utf8.1 small.1, dif_pos short.1]
  show Read.run ctx (_ >>= _) _ = _
  rw [Read.run_bind, run_readText ctx utf8.2.1 small.2.1, dif_pos short.2.1]
  show Read.run ctx (_ >>= _) _ = _
  rw [Read.run_bind, run_readText ctx utf8.2.2 small.2.2, dif_pos short.2.2]
  show Read.run ctx (match parseDerivationOutput ctx.storeDir first second third with
    | some output => _ | none => _) tail = _
  rw [parsed]
  rfl

/-- When three texts are read as an output, they are not too long, and nothing more is read. -/
theorem Triple.run_ok {ctx : Ctx} {tokens : List Token} {first second third : Bytes}
    (triple : Triple ctx tokens first second third) {output : DerivationOutput} {tail rest : Bytes}
    (ran : (readDerivationOutput ctx).run ctx (encode tokens ++ tail) = .ok output rest) :
    (first.length ≤ ctx.maxBufSize ∧ second.length ≤ ctx.maxBufSize ∧
      third.length ≤ ctx.maxBufSize) ∧
      parseDerivationOutput ctx.storeDir first second third = some output ∧ rest = tail := by
  obtain ⟨encoded, utf8, small⟩ := triple
  rw [encoded, List.append_assoc, List.append_assoc] at ran
  obtain ⟨one, between, readOne, ran⟩ := Read.run_bind_ok ran
  rw [run_readText ctx utf8.1 small.1] at readOne
  split at readOne
  case isFalse => cases readOne
  case isTrue shortOne =>
    cases readOne
    obtain ⟨two, between, readTwo, ran⟩ := Read.run_bind_ok ran
    rw [run_readText ctx utf8.2.1 small.2.1] at readTwo
    split at readTwo
    case isFalse => cases readTwo
    case isTrue shortTwo =>
      cases readTwo
      obtain ⟨three, between, readThree, ran⟩ := Read.run_bind_ok ran
      rw [run_readText ctx utf8.2.2 small.2.2] at readThree
      split at readThree
      case isFalse => cases readThree
      case isTrue shortThree =>
        cases readThree
        simp only at ran
        cases parsed : parseDerivationOutput ctx.storeDir first second third with
        | none =>
          rw [parsed] at ran
          cases ran
        | some other =>
          rw [parsed] at ran
          cases ran
          exact ⟨⟨shortOne, shortTwo, shortThree⟩, rfl, rfl⟩

/-- An output name that is read from what is written of it is carried, and nothing more is read. -/
theorem carried_of_outputName {ctx : Ctx} {name read : OutputName} {tail rest : Bytes}
    (ran : (tryDeserialize ctx).run ctx (encode (serialize ctx name) ++ tail) = .ok (some read) rest) :
    Carried ctx name ∧ rest = tail := by
  have small := name.text.small
  obtain ⟨buf, found, made⟩ := run_convert_some ran
  rw [show encode (serialize ctx name) = putNixSlice name.text.bytes from encode_singleton _] at found
  have found := (Read.run_bytes_done ctx _).symm.trans found
  rw [Read.tryReadBytes_putNixSlice ctx (by omega) tail] at found
  split at found
  case isFalse => cases found
  case isTrue within =>
    cases found
    unfold parseText at made
    split at made
    case isTrue =>
      obtain ⟨legal, same⟩ := OutputName.fromStr_some made
      have legal : name.Legal := by
        unfold OutputName.Legal at legal
        rw [same] at legal
        exact legal
      exact ⟨⟨legal, within⟩, rfl⟩
    case isFalse => cases made

/-- A store path below a directory has a length that is a number. -/
theorem display_small (dir : StoreDir) (path : StorePath) :
    (dir.display path.display).length ≤ 2 ^ 64 - 8 := by
  have start := dir.text.small
  have short := path.name.name.short
  have hash := path.hash.display_length
  have width : encodeLen 20 = 32 := by decide
  have most : maxNameLen = 211 := rfl
  rw [StoreDir.display, StorePath.display, List.length_append, List.length_cons, List.length_append,
    List.length_cons]
  omega

end Outputs

section Writing

variable [DataEncoding] [Digest]

/-- `write_derivation_output`. -/
def writeDerivationOutput (ctx : Ctx) (output : DerivationOutput) (drvName : StorePathName)
    (outputName : OutputName) : List Token :=
  match output with
  | .inputAddressed path => serialize ctx path ++ [.slice [], .slice []]
  | .caFixed ca =>
    match StorePathName.tryFrom (outputPathName drvName outputName) with
    | some name =>
      serialize ctx (ctx.storeDir.makeStorePathFromCa name ca) ++ serialize ctx ca.methodAlgorithm ++
        [.text (bareBase32Display ca.hash)]
    | none => [.unsupported]
  | .deferred => [.slice [], .slice [], .slice []]
  | .caFloating algo => .slice [] :: serialize ctx algo ++ [.slice []]
  | .impure algo => .slice [] :: serialize ctx algo ++ [.slice (asciiBytes "impure")]

/-- One output of a derivation. -/
def writeOutput (ctx : Ctx) (drvName : StorePathName) (entry : OutputName × DerivationOutput) :
    List Token :=
  serialize ctx entry.1 ++ writeDerivationOutput ctx entry.2 drvName entry.1

/-- One output of a derivation. -/
def readOutput (ctx : Ctx) : Read (OutputName × DerivationOutput) := do
  let outputName ← readValue OutputName ctx
  let output ← readDerivationOutput ctx
  pure (outputName, output)

/-- The outputs that are understood: fixed ones are not. -/
def OutputUnderstood (ctx : Ctx) : DerivationOutput → Prop
  | .inputAddressed path => Carried ctx path
  | .caFixed _ => False
  | .deferred => True
  | .caFloating algo => Carried ctx algo
  | .impure algo => Carried ctx algo ∧ 6 ≤ ctx.maxBufSize

/-- The three texts of an output that has a writing. -/
def outputTexts (ctx : Ctx) (output : DerivationOutput) (name : StorePathName) : Bytes × Bytes × Bytes :=
  match output with
  | .inputAddressed path => (ctx.storeDir.display path.display, [], [])
  | .caFixed ca =>
    (ctx.storeDir.display (ctx.storeDir.makeStorePathFromCa name ca).display,
      ca.methodAlgorithm.display, bareBase32Display ca.hash)
  | .deferred => ([], [], [])
  | .caFloating algo => ([], algo.display, [])
  | .impure algo => ([], algo.display, asciiBytes "impure")

/-- The texts of an output are what is written of it. -/
theorem triple_of_supported {ctx : Ctx} {output : DerivationOutput} {drvName : StorePathName}
    {outputName : OutputName}
    (supported : .unsupported ∉ writeDerivationOutput ctx output drvName outputName) :
    ∃ name, Triple ctx (writeDerivationOutput ctx output drvName outputName)
      (outputTexts ctx output name).1 (outputTexts ctx output name).2.1
      (outputTexts ctx output name).2.2 := by
  have empty : Utf8.Valid [] := Utf8.valid_nil
  have zero : ([] : Bytes).length ≤ 2 ^ 64 - 8 := Nat.zero_le _
  have text (algo : ContentAddressMethodAlgorithm) :
      Utf8.Valid algo.display ∧ algo.display.length ≤ 2 ^ 64 - 8 := by
    have short := algo.display_length.2
    exact ⟨Utf8.valid_of_ascii algo.display_ascii, by omega⟩
  cases output with
  | inputAddressed path =>
    refine ⟨drvName, ?_, ⟨?_, empty, empty⟩, ⟨display_small _ _, zero, zero⟩⟩
    · simp [writeDerivationOutput, serialize, Textual.token, Token.bytes, outputTexts]
    · exact ctx.storeDir.display_utf8 path.display_utf8
  | deferred =>
    refine ⟨drvName, ?_, ⟨empty, empty, empty⟩, ⟨zero, zero, zero⟩⟩
    simp [writeDerivationOutput, Token.bytes, outputTexts]
  | caFloating algo =>
    refine ⟨drvName, ?_, ⟨empty, (text algo).1, empty⟩, ⟨zero, (text algo).2, zero⟩⟩
    simp [writeDerivationOutput, serialize, Textual.token, Token.bytes, outputTexts]
  | impure algo =>
    have word : Utf8.Valid (asciiBytes "impure") := by decide
    have short : (asciiBytes "impure").length ≤ 2 ^ 64 - 8 := by decide
    refine ⟨drvName, ?_, ⟨empty, (text algo).1, word⟩, ⟨zero, (text algo).2, short⟩⟩
    simp [writeDerivationOutput, serialize, Textual.token, Token.bytes, outputTexts]
  | caFixed ca =>
    unfold writeDerivationOutput at supported ⊢
    simp only at supported ⊢
    split
    case h_2 missing =>
      rw [missing] at supported
      exact absurd (List.mem_singleton.mpr rfl) supported
    case h_1 name _ =>
      have digits : (bareBase32Display ca.hash).length ≤ 103 := by
        rw [bareBase32Display_length]
        cases CommonHash.algorithm ca.hash <;> decide
      refine ⟨name, ?_, ⟨?_, (text _).1, ?_⟩, ⟨display_small _ _, (text _).2, ?_⟩⟩
      · simp [serialize, Textual.token, Token.bytes, outputTexts]
      · exact ctx.storeDir.display_utf8 (StorePath.display_utf8 _)
      · exact utf8_of_name (bareBase32Display_symbols ca.hash)
      · show (bareBase32Display ca.hash).length ≤ _
        omega

/-- The texts of an output that is understood are not too long and are parsed to it. -/
theorem parse_outputTexts {ctx : Ctx} {output : DerivationOutput}
    (understood : OutputUnderstood ctx output) (name : StorePathName) :
    ((outputTexts ctx output name).1.length ≤ ctx.maxBufSize ∧
      (outputTexts ctx output name).2.1.length ≤ ctx.maxBufSize ∧
      (outputTexts ctx output name).2.2.length ≤ ctx.maxBufSize) ∧
      parseDerivationOutput ctx.storeDir (outputTexts ctx output name).1
        (outputTexts ctx output name).2.1 (outputTexts ctx output name).2.2 = some output := by
  have zero : ([] : Bytes).length ≤ ctx.maxBufSize := Nat.zero_le _
  have notImpure : [] ≠ asciiBytes "impure" := by decide
  have method (algo : ContentAddressMethodAlgorithm) : algo.display ≠ [] := by
    intro none
    have some := algo.display_length.1
    rw [none] at some
    cases some
  cases output with
  | inputAddressed path =>
    have shown : ctx.storeDir.display path.display ≠ [] := by
      intro none
      exact List.cons_ne_nil _ _ (List.append_eq_nil_iff.mp none).2
    refine ⟨⟨understood.2, zero, zero⟩, ?_⟩
    rw [outputTexts, parseDerivationOutput, if_neg notImpure, if_neg (by simp), if_neg (by simp [shown]),
      if_pos ⟨rfl, rfl⟩, StorePath.fromStoreDirStr_display understood.1]
    rfl
  | caFixed ca => exact understood.elim
  | deferred => exact ⟨⟨zero, zero, zero⟩, rfl⟩
  | caFloating algo =>
    refine ⟨⟨zero, understood.2, zero⟩, ?_⟩
    rw [outputTexts, parseDerivationOutput, if_neg notImpure, if_pos ⟨rfl, method algo⟩,
      ContentAddressMethodAlgorithm.fromStr_display]
    rfl
  | impure algo =>
    refine ⟨⟨zero, understood.1.2, understood.2⟩, ?_⟩
    rw [outputTexts, parseDerivationOutput, if_pos rfl, ContentAddressMethodAlgorithm.fromStr_display]
    rfl

/-- An output whose texts are not too long and are parsed is understood. -/
theorem understood_of_parse {ctx : Ctx} {output parsed : DerivationOutput} {name : StorePathName}
    (large : 128 ≤ ctx.maxBufSize)
    (short : (outputTexts ctx output name).1.length ≤ ctx.maxBufSize)
    (read : parseDerivationOutput ctx.storeDir (outputTexts ctx output name).1
      (outputTexts ctx output name).2.1 (outputTexts ctx output name).2.2 = some parsed) :
    OutputUnderstood ctx output := by
  have notImpure : [] ≠ asciiBytes "impure" := by decide
  have shown (path : StorePath) : ctx.storeDir.display path.display ≠ [] := by
    intro none
    exact List.cons_ne_nil _ _ (List.append_eq_nil_iff.mp none).2
  have method (algo : ContentAddressMethodAlgorithm) : Carried ctx algo := by
    have few := algo.display_length.2
    exact ⟨trivial, by show algo.display.length ≤ _; omega⟩
  cases output with
  | inputAddressed path =>
    refine ⟨?_, short⟩
    by_contra relative
    rw [outputTexts, parseDerivationOutput, if_neg notImpure, if_neg (by simp),
      if_neg (by simp [shown]), if_pos ⟨rfl, rfl⟩,
      StorePath.fromStoreDirStr_display_none relative] at read
    cases read
  | caFixed ca =>
    -- The path and the method are there, so the hash is read, and its algorithm is missing.
    have algo : ca.methodAlgorithm.display ≠ [] := by
      intro none
      have some := ca.methodAlgorithm.display_length.1
      rw [none] at some
      cases some
    have digits : bareBase32Display ca.hash ≠ asciiBytes "impure" := by
      intro same
      have length := bareBase32Display_length ca.hash
      rw [same] at length
      revert length
      cases CommonHash.algorithm ca.hash <;> decide
    rw [outputTexts, parseDerivationOutput, if_neg digits, if_neg (by simp [shown]),
      if_neg (by simp [shown]), if_neg (by simp [algo]),
      ContentAddressMethodAlgorithm.fromStr_display, Option.bind_some,
      base32FromStr_bareBase32Display] at read
    cases read
  | deferred => trivial
  | caFloating algo => exact method algo
  | impure algo => exact ⟨method algo, by omega⟩

/-- One output that is understood is read back. -/
theorem run_readOutput {ctx : Ctx} {drvName : StorePathName} {entry : OutputName × DerivationOutput}
    (name : Carried ctx entry.1) (understood : OutputUnderstood ctx entry.2) (tail : Bytes) :
    (readOutput ctx).run ctx (encode (writeOutput ctx drvName entry) ++ tail) = .ok entry tail := by
  have supported : .unsupported ∉ writeDerivationOutput ctx entry.2 drvName entry.1 := by
    cases output : entry.2 with
    | caFixed ca =>
      rw [output] at understood
      exact understood.elim
    | inputAddressed path | deferred | caFloating algo | impure algo =>
      simp [writeDerivationOutput, serialize, Textual.token]
  obtain ⟨made, triple⟩ := triple_of_supported supported
  obtain ⟨short, parsed⟩ := parse_outputTexts understood made
  rw [writeOutput, encode_append, List.append_assoc, readOutput, Read.run_bind, run_readValue name]
  show Read.run ctx (_ >>= _) _ = _
  rw [Read.run_bind, triple.run short parsed]
  rfl

/-- One output that is read is understood, and nothing more is read. -/
theorem understood_of_readOutput {ctx : Ctx} {drvName : StorePathName}
    {entry read : OutputName × DerivationOutput} {tail rest : Bytes} (large : 128 ≤ ctx.maxBufSize)
    (supported : .unsupported ∉ writeOutput ctx drvName entry)
    (ran : (readOutput ctx).run ctx (encode (writeOutput ctx drvName entry) ++ tail) =
      .ok read rest) :
    (Carried ctx entry.1 ∧ OutputUnderstood ctx entry.2) ∧ rest = tail := by
  rw [writeOutput, encode_append, List.append_assoc] at ran
  obtain ⟨name, between, one, ran⟩ := Read.run_bind_ok ran
  obtain ⟨output, after, two, made⟩ := Read.run_bind_ok ran
  cases made
  obtain ⟨carried, rfl⟩ := carried_of_outputName (run_readValue_ok one)
  obtain ⟨fixed, triple⟩ := triple_of_supported fun member =>
    supported (List.mem_append_right _ member)
  obtain ⟨short, parsed, same⟩ := triple.run_ok two
  exact ⟨⟨carried, understood_of_parse large short.1 parsed⟩, same⟩

/-- Outputs that are understood are read one after the other. -/
theorem run_readOutputs {ctx : Ctx} {drvName : StorePathName}
    {entries : List (OutputName × DerivationOutput)}
    (understood : ∀ entry ∈ entries, Carried ctx entry.1 ∧ OutputUnderstood ctx entry.2)
    (tail : Bytes) :
    (readItems (readOutput ctx) entries.length).run ctx
      (encode (entries.flatMap (writeOutput ctx drvName)) ++ tail) = .ok entries tail := by
  induction entries with
  | nil => rfl
  | cons entry rest ih =>
    have first := understood entry List.mem_cons_self
    rw [List.flatMap_cons, encode_append, List.append_assoc, List.length_cons, readItems,
      Read.run_bind, run_readOutput first.1 first.2]
    show Read.run ctx (_ >>= _) _ = _
    rw [Read.run_bind, ih fun other member => understood other (List.mem_cons_of_mem _ member)]
    rfl

/-- Outputs that are read are understood, and nothing more is read. -/
theorem understood_of_readOutputs {ctx : Ctx} {drvName : StorePathName}
    {entries read : List (OutputName × DerivationOutput)} {tail rest : Bytes}
    (large : 128 ≤ ctx.maxBufSize)
    (supported : .unsupported ∉ entries.flatMap (writeOutput ctx drvName))
    (ran : (readItems (readOutput ctx) entries.length).run ctx
      (encode (entries.flatMap (writeOutput ctx drvName)) ++ tail) = .ok read rest) :
    (∀ entry ∈ entries, Carried ctx entry.1 ∧ OutputUnderstood ctx entry.2) ∧ rest = tail := by
  induction entries generalizing read with
  | nil =>
    cases ran
    exact ⟨List.forall_mem_nil _, rfl⟩
  | cons entry later ih =>
    rw [List.flatMap_cons] at supported
    rw [List.flatMap_cons, encode_append, List.append_assoc] at ran
    obtain ⟨one, between, first, ran⟩ := Read.run_bind_ok ran
    obtain ⟨others, after, second, made⟩ := Read.run_bind_ok ran
    cases made
    obtain ⟨understood, rfl⟩ := understood_of_readOutput large
      (fun member => supported (List.mem_append_left _ member)) first
    obtain ⟨all, same⟩ := ih (fun member => supported (List.mem_append_right _ member)) second
    exact ⟨List.forall_mem_cons.mpr ⟨understood, all⟩, same⟩

end Writing

section Derivations

variable [DataEncoding] [Digest] [Layout]

/-- What follows the outputs of a derivation. -/
abbrev Remainder :=
  StorePathSet × ByteString × ByteString × Vec ByteString × BTreeMap ByteString ByteString

/-- What follows the outputs of a derivation. -/
def remainder (drv : BasicDerivation) : Remainder :=
  (drv.inputs, drv.platform, drv.builder, drv.args, drv.env)

/-- The derivation that is made of what was read. -/
def makeDerivation (drvPath : StorePath) (outputs : BTreeMap OutputName DerivationOutput) :
    Remainder → BasicDerivation
  | (inputs, platform, builder, args, env) =>
    ⟨drvPath.name, outputs, inputs, platform, builder, args, env, none⟩

instance : NixSerialize (StorePath × BasicDerivation) :=
  ⟨fun ctx (drvPath, drv) =>
    serialize ctx drvPath ++ (.number (UInt64.ofNat drv.outputs.entries.length) ::
      drv.outputs.entries.flatMap (writeOutput ctx drv.name)) ++ serialize ctx (remainder drv)⟩

instance : NixDeserialize (StorePath × BasicDerivation) :=
  ⟨fun ctx => readThen ctx fun drvPath : StorePath => do
    let outputsLen ← readValue UInt64 ctx
    let outputs ← readItems (readOutput ctx) outputsLen.toNat
    let rest ← readValue Remainder ctx
    pure (drvPath, makeDerivation drvPath (outputs.foldl .insert .empty) rest)⟩

/-- The derivations that are understood: those named as their path, without structured
attributes, and with outputs that are understood. -/
structure DerivationUnderstood (ctx : Ctx) (drvPath : StorePath) (drv : BasicDerivation) : Prop where
  /-- The path. -/
  path : Carried ctx drvPath
  /-- The name. -/
  name : drv.name = drvPath.name
  /-- The number of outputs is a `usize`. -/
  count : drv.outputs.entries.length < 2 ^ 64
  /-- The outputs. -/
  outputs : ∀ entry ∈ drv.outputs.entries, Carried ctx entry.1 ∧ OutputUnderstood ctx entry.2
  /-- Everything else. -/
  remainder : Carried ctx (remainder drv)
  /-- No structured attributes. -/
  attrs : drv.structuredAttrs = none

omit [Digest] in
/-- The derivation that is made of an understood one's own parts is that one. -/
theorem makeDerivation_remainder {ctx : Ctx} {drvPath : StorePath} {drv : BasicDerivation}
    (understood : DerivationUnderstood ctx drvPath drv) :
    makeDerivation drvPath drv.outputs (remainder drv) = drv := by
  obtain ⟨name, outputs, inputs, platform, builder, args, env, structuredAttrs⟩ := drv
  have same : name = drvPath.name := understood.name
  have none : structuredAttrs = none := understood.attrs
  rw [same, none]
  rfl

/-- The parts of a derivation on the wire. -/
theorem encode_derivation (ctx : Ctx) (drvPath : StorePath) (drv : BasicDerivation) (tail : Bytes) :
    encode (serialize ctx (drvPath, drv)) ++ tail = encode (serialize ctx drvPath) ++
      (encode (serialize ctx (UInt64.ofNat drv.outputs.entries.length)) ++
        (encode (drv.outputs.entries.flatMap (writeOutput ctx drv.name)) ++
          (encode (serialize ctx (remainder drv)) ++ tail))) := by
  show encode (_ ++ (_ :: _) ++ _) ++ tail = _
  rw [encode_append, encode_append, encode_cons,
    show encode (serialize ctx (UInt64.ofNat _)) = _ from encode_singleton _]
  simp only [List.append_assoc]

/-- Derivations that are understood. -/
instance : Sent (StorePath × BasicDerivation) where
  Understood ctx value := DerivationUnderstood ctx value.1 value.2
  reads := by
    rintro ctx ⟨drvPath, drv⟩ understood tail
    rw [encode_derivation]
    apply run_readThen (Wire.reads understood.path _)
    rw [Read.run_bind, run_readValue trivial]
    show Read.run ctx (_ >>= _) _ = _
    rw [UInt64.toNat_ofNat_of_lt' understood.count, Read.run_bind, run_readOutputs understood.outputs]
    show Read.run ctx (_ >>= _) _ = _
    rw [Read.run_bind, run_readValue understood.remainder]
    show Outcome.ok (drvPath, makeDerivation drvPath (drv.outputs.entries.foldl _ _) _) tail = _
    rw [BTreeMap.insert_ascending drv.outputs.entries .empty drv.outputs rfl,
      makeDerivation_remainder understood]
  misses := by
    rintro ctx ⟨drvPath, drv⟩ tail rest large supported ran
    rw [encode_derivation] at ran
    obtain ⟨path, between, readPath, ran⟩ := run_readThen_some ran
    obtain ⟨len, afterLen, readLen, ran⟩ := Read.run_bind_ok ran
    obtain ⟨outputs, afterOutputs, readOutputs, ran⟩ := Read.run_bind_ok ran
    obtain ⟨others, afterOthers, readOthers, made⟩ := Read.run_bind_ok ran
    cases made
    obtain ⟨inputs, platform, builder, args, env⟩ := others
    have carried := Wire.accepts large readPath
    rw [Wire.reads carried] at readPath
    cases readPath
    rw [run_readValue trivial] at readLen
    cases readLen
    -- The map that was made has no more entries than were read, and their number is a word.
    have count : (outputs.foldl BTreeMap.insert BTreeMap.empty).entries.length < 2 ^ 64 := by
      obtain ⟨length, -⟩ := @run_readItems_ok _ _ _ (fun _ => True) (fun _ => trivial) _ _ _ _
        readOutputs
      have fewer := BTreeMap.insert_all_length outputs .empty
      have bound := (UInt64.ofNat (outputs.foldl BTreeMap.insert BTreeMap.empty).entries.length).toNat_lt
      have nothing : (BTreeMap.empty : BTreeMap OutputName DerivationOutput).entries.length = 0 := rfl
      have length : outputs.length = (UInt64.ofNat
        (outputs.foldl BTreeMap.insert BTreeMap.empty).entries.length).toNat := length
      omega
    have supported : .unsupported ∉ (outputs.foldl BTreeMap.insert BTreeMap.empty).entries.flatMap
        (writeOutput ctx drvPath.name) := fun member =>
      supported (List.mem_append_left _ (List.mem_append_right _ (List.mem_cons_of_mem _ member)))
    have exact : (UInt64.ofNat (makeDerivation drvPath (outputs.foldl BTreeMap.insert BTreeMap.empty)
        (inputs, platform, builder, args, env)).outputs.entries.length).toNat =
          (outputs.foldl BTreeMap.insert BTreeMap.empty).entries.length :=
      UInt64.toNat_ofNat_of_lt' count
    rw [exact] at readOutputs
    obtain ⟨understood, rfl⟩ := understood_of_readOutputs large supported readOutputs
    exact ⟨carried, rfl, count, understood, carried_of_readValue large readOthers, rfl⟩

omit [Digest] in
/-- Whatever a derivation is read from, its name is that of its path. -/
theorem run_derivation_name {ctx : Ctx} {drvPath : StorePath} {drv : BasicDerivation} {input rest : Bytes}
    (ran : (tryDeserialize ctx).run ctx input = .ok (some (drvPath, drv)) rest) :
    drv.name = drvPath.name := by
  obtain ⟨path, between, readPath, ran⟩ := run_readThen_some ran
  obtain ⟨len, afterLen, readLen, ran⟩ := Read.run_bind_ok ran
  obtain ⟨outputs, afterOutputs, readOutputs, ran⟩ := Read.run_bind_ok ran
  obtain ⟨others, afterOthers, readOthers, made⟩ := Read.run_bind_ok ran
  cases made
  rfl

/-- No derivation is read back from what is written of it and of its path, when the path is named as
the derivation with `.drv` behind it: the name that is read keeps the suffix. -/
theorem derivation_never_returns {ctx : Ctx} {drvPath : StorePath} {drv : BasicDerivation}
    (named : drvPath.name.bytes = drv.name.bytes ++ asciiBytes ".drv") (tail rest : Bytes) :
    (tryDeserialize ctx).run ctx (encode (serialize ctx (drvPath, drv)) ++ tail) ≠
      .ok (some (drvPath, drv)) rest := by
  intro ran
  have same := run_derivation_name ran
  rw [← same] at named
  have lengths := congrArg List.length named
  have suffix : (asciiBytes ".drv").length = 4 := by decide
  rw [List.length_append, suffix] at lengths
  omega

end Derivations

section Samples

attribute [local instance] Store.standard Digest.unasked Layout.least

/-- A derivation without outputs. -/
def bareDerivation : BasicDerivation :=
  ⟨⟨asciiBytes "c", by decide +kernel⟩, .empty, .empty, ⟨[], ByteString.nil_small⟩,
    ⟨[], ByteString.nil_small⟩, ⟨[], Vec.nil_fits⟩, .empty, none⟩

/-- The path of the derivation. -/
def barePath : StorePath := ⟨.zero, ⟨asciiBytes "c.drv", by decide +kernel⟩⟩

/-- The derivation is not read back. -/
theorem derivation_never_returns_bare :
    (tryDeserialize .standard).run .standard
      (encode (serialize .standard (barePath, bareDerivation)) ++ [7]) ≠
        .ok (some (barePath, bareDerivation)) [7] :=
  derivation_never_returns rfl [7] [7]

/-- What is read is named as the path. -/
theorem derivation_returns_renamed :
    ¬ ∀ (ctx : Ctx) (drvPath : StorePath) (drv : BasicDerivation),
      drvPath.name.bytes = drv.name.bytes ++ asciiBytes ".drv" → drv.structuredAttrs = none →
      .unsupported ∉ serialize ctx (drvPath, drv) →
      (tryDeserialize ctx).run ctx (encode (serialize ctx (drvPath, drv))) =
        .ok (some (drvPath, drv)) [] := by
  intro every
  have read := every .standard barePath bareDerivation rfl rfl (by decide)
  have name := run_derivation_name read
  exact absurd name (by decide +kernel)

end Samples

end Harmonia.Protocol
