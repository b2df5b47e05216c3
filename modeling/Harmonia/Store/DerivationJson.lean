import Mathlib.Data.Set.List
import Harmonia.Store.Derivation
import Harmonia.Store.Serde

/-!
# JSON of derivations

`derivation/basic_derivation.rs`, `derivation_output.rs` and `inputs.rs`. The kind of an output is not
written: it is told by the fields that are there. Inputs are written as a trie, and read back as the set
it was made of.
-/

namespace Harmonia.Store

open Library Document

/-! ## Outputs -/

section Outputs

variable [DataEncoding]

/-- `ContentAddressMethodAlgorithm::algorithm`. -/
def ContentAddressMethodAlgorithm.algorithm : ContentAddressMethodAlgorithm → Algorithm
  | .text => .sha256
  | .flat algorithm => algorithm
  | .recursive algorithm => algorithm

/-- `RawDerivationOutput`. -/
structure RawDerivationOutput where
  /-- `path`. -/
  path : Option StorePath
  /-- `hash`. -/
  hash : Option Hash
  /-- `method`. -/
  method : Option ContentAddressMethod
  /-- `hash_algo`. -/
  hashAlgo : Option Algorithm
  /-- `impure`. -/
  impure : Bool

/-- The members of the object that is written. -/
def RawDerivationOutput.members (raw : RawDerivationOutput) : List (Text × Option (Document Text)) :=
  [(key "path", raw.path.map serialize),
    (key "hash", raw.hash.map serialize),
    (key "method", raw.method.map serialize),
    (key "hashAlgo", raw.hashAlgo.map serialize),
    (key "impure", if raw.impure then some (serialize true) else none)]

/-- The object that is read. -/
def RawDerivationOutput.ofFields (source : Document.Source) (fields : List (Text × Document Text)) :
    Option RawDerivationOutput := do
  let path ← optional (key "path") (deserialize source) fields
  let hash ← optional (key "hash") (deserialize source) fields
  let method ← optional (key "method") (deserialize source) fields
  let hashAlgo ← optional (key "hashAlgo") (deserialize source) fields
  let impure ← defaulted (key "impure") false (deserialize source) fields
  pure ⟨path, hash, method, hashAlgo, impure⟩

instance : Serde RawDerivationOutput where
  serialize raw := .object (present raw.members)
  deserialize source := readObject (RawDerivationOutput.ofFields source)

/-- The raw form of an output is read back. -/
theorem survives_rawDerivationOutput (source : Document.Source) (raw : RawDerivationOutput) : Survives source raw := by
  have distinct : [key "path", key "hash", key "method", key "hashAlgo", key "impure"].Nodup := by
    decide +kernel
  obtain ⟨read, same, selected⟩ := @Document.Source.select_present _ _ _ _ _ source raw.members distinct
  have path := optional_survives (@selected (key "path") (raw.path.map serialize) (by simp [RawDerivationOutput.members]))
    (fun path _ => survives_storePath source path) fun _ _ => nofun
  have hash := optional_survives (@selected (key "hash") (raw.hash.map serialize) (by simp [RawDerivationOutput.members]))
    (fun hash _ => survives_hash source hash) fun _ _ => nofun
  have method := optional_survives
    (@selected (key "method") (raw.method.map serialize) (by simp [RawDerivationOutput.members]))
    (fun method _ => survives_method source method) fun _ _ => nofun
  have hashAlgo := optional_survives
    (@selected (key "hashAlgo") (raw.hashAlgo.map serialize) (by simp [RawDerivationOutput.members]))
    (fun algo _ => survives_algorithm source algo) fun _ _ => nofun
  have impure : defaulted (key "impure") false (deserialize source) read = some raw.impure := by
    have field := @selected (key "impure") (if raw.impure then some (serialize true) else none)
      (by simp [RawDerivationOutput.members])
    cases impure : raw.impure with
    | false =>
      rw [impure] at field
      exact defaulted_of_absent field
    | true =>
      rw [impure] at field
      exact (defaulted_of_select field).trans (survives_bool source true)
  show readObject _ (source.form (.object (present _))) = _
  rw [same]
  show RawDerivationOutput.ofFields source read = _
  rw [RawDerivationOutput.ofFields, path, hash, method, hashAlgo, impure]
  rfl

/-- What is written for an output. -/
def DerivationOutput.raw : DerivationOutput → RawDerivationOutput
  | .inputAddressed path => ⟨some path, none, none, none, false⟩
  | .caFixed ca => ⟨none, some ca.hash, some ca.method, none, false⟩
  | .deferred => ⟨none, none, none, none, false⟩
  | .caFloating algo => ⟨none, none, some algo.method, some algo.algorithm, false⟩
  | .impure algo => ⟨none, none, some algo.method, some algo.algorithm, true⟩

/-- The kind of an output, by the fields that are there. -/
def DerivationOutput.ofRaw (raw : RawDerivationOutput) : Option DerivationOutput :=
  match raw.path with
  | some path => some (.inputAddressed path)
  | none =>
    match raw.hash with
    | some hash => raw.method.bind fun method => (ContentAddress.fromHash method hash).map .caFixed
    | none =>
      match raw.method with
      | some method => raw.hashAlgo.map fun algo =>
        let caMethodAlgo := match method with
          | .text => .text
          | .flat => .flat algo
          | .recursive => .recursive algo
        if raw.impure then .impure caMethodAlgo else .caFloating caMethodAlgo
      | none => some .deferred

instance : Serde DerivationOutput where
  serialize output := serialize output.raw
  deserialize source doc := (deserialize source doc).bind DerivationOutput.ofRaw

omit [DataEncoding] in
/-- The fields tell the five kinds apart. -/
theorem DerivationOutput.ofRaw_raw (output : DerivationOutput) : ofRaw output.raw = some output := by
  cases output with
  | inputAddressed path => rfl
  | caFixed ca =>
    show (ContentAddress.fromHash ca.method ca.hash).map DerivationOutput.caFixed = _
    rw [ca.fromHash_hash]
    rfl
  | deferred => rfl
  | caFloating algo => cases algo <;> rfl
  | impure algo => cases algo <;> rfl

/-- An output is read back. -/
theorem survives_derivationOutput (source : Document.Source) (output : DerivationOutput) : Survives source output := by
  have raw : deserialize source (source.form (serialize output.raw)) = some output.raw :=
    survives_rawDerivationOutput source output.raw
  show (deserialize source (source.form (serialize output.raw))).bind DerivationOutput.ofRaw = _
  rw [raw]
  exact output.ofRaw_raw

end Outputs

/-! ## Tries -/

/-- Names with the same text are equal. -/
theorem OutputName.ext {left right : OutputName} (same : left.text = right.text) : left = right := by
  cases left
  cases right
  cases same
  rfl

namespace DynamicOutputs

/-- The entries of a map. -/
def entries : DynamicOutputs → List (OutputName × OutputInputs)
  | nil => []
  | cons name inputs rest => (name, inputs) :: rest.entries

/-- The map that entries are inserted into, one after the other. -/
def ofEntries (entries : List (OutputName × OutputInputs)) : DynamicOutputs :=
  entries.foldl (fun map entry => map.change entry.1 fun _ => entry.2) .nil

/-- A map is its entries. -/
theorem ext_entries {left right : DynamicOutputs} (same : left.entries = right.entries) : left = right :=
  match left, right, same with
  | nil, nil, _ => rfl
  | cons name inputs rest, cons name' inputs' rest', same => by
    obtain ⟨first, later⟩ := List.cons.inj same
    obtain ⟨names, nodes⟩ := Prod.mk.inj first
    rw [names, nodes, ext_entries later]

/-- The keys of a map are those of its entries. -/
theorem names_eq (map : DynamicOutputs) : map.names = map.entries.map Prod.fst := by
  cases map with
  | nil => rfl
  | cons name _ rest => exact congrArg (name :: ·) (names_eq rest)

/-- The entries of a map with sorted keys ascend. -/
theorem entries_ascending {map : DynamicOutputs} (sorted : Ascending id map.names) :
    Ascending Prod.fst map.entries := by
  rw [names_eq] at sorted
  exact List.pairwise_map.mp sorted

/-- The maps below are sorted, one by one. -/
theorem Sorted.entries {map : DynamicOutputs} (sorted : map.Sorted) : ∀ entry ∈ map.entries, entry.2.Sorted :=
  match map, sorted with
  | nil, _ => nofun
  | cons _ _ _, sorted => by
    intro entry member
    rcases List.mem_cons.mp member with rfl | later
    · exact sorted.1
    · exact Sorted.entries sorted.2 entry later

/-- An entry is inserted among the entries. -/
theorem entries_change (map : DynamicOutputs) (entry : OutputName × OutputInputs) :
    (map.change entry.1 fun _ => entry.2).entries = inserted map.entries entry := by
  cases map with
  | nil => rfl
  | cons other inputs rest =>
    have later := entries_change rest entry
    unfold change
    rw [show (cons other inputs rest).entries = (other, inputs) :: rest.entries from rfl, inserted, place]
    dsimp only
    cases compare entry.1 other with
    | lt => rfl
    | eq => rfl
    | gt => exact congrArg ((other, inputs) :: ·) later

/-- The entries of the map that entries are inserted into. -/
theorem entries_ofEntries (entries : List (OutputName × OutputInputs)) :
    (ofEntries entries).entries = gathered entries := by
  have all (map : DynamicOutputs) : (entries.foldl (fun map entry => map.change entry.1 fun _ => entry.2)
      map).entries = entries.foldl inserted map.entries := by
    induction entries generalizing map with
    | nil => rfl
    | cons entry rest ih => rw [List.foldl_cons, List.foldl_cons, ih, entries_change]
  exact all .nil

/-- The keys of such a map ascend. -/
theorem names_ofEntries (entries : List (OutputName × OutputInputs)) : Ascending id (ofEntries entries).names := by
  rw [names_eq, entries_ofEntries]
  exact List.pairwise_map.mpr (gathered_ascending entries)

/-- The maps below are sorted if they are one by one. -/
theorem sorted_of_entries {map : DynamicOutputs} (all : ∀ entry ∈ map.entries, entry.2.Sorted) : map.Sorted :=
  match map, all with
  | nil, _ => trivial
  | cons _ _ _, all => ⟨all _ List.mem_cons_self, sorted_of_entries fun entry member =>
      all entry (List.mem_cons_of_mem _ member)⟩

end DynamicOutputs

mutual

/-- `Serialize for OutputInputs`. -/
def OutputInputs.toDocument : OutputInputs → Document Text
  | .node outputs dynamicOutputs => .object
    [(key "outputs", serialize outputs), (key "dynamicOutputs", .object dynamicOutputs.toFields)]

/-- The fields of a map. -/
def DynamicOutputs.toFields : DynamicOutputs → List (Text × Document Text)
  | .nil => []
  | .cons name inputs rest => (name.text, inputs.toDocument) :: rest.toFields

end

/-- The fields of a map, one by one. -/
theorem DynamicOutputs.toFields_eq (map : DynamicOutputs) :
    map.toFields = map.entries.map fun entry => (entry.1.text, entry.2.toDocument) := by
  cases map with
  | nil => rfl
  | cons _ _ rest => exact congrArg (_ :: ·) (toFields_eq rest)

mutual

/-- `Deserialize for OutputInputs`. -/
def OutputInputs.ofDocument (source : Document.Source) : Document Text → Option OutputInputs
  | .object fields => do
    let outputs ← defaulted (key "outputs") .empty (deserialize source) fields
    let dynamicOutputs ← match DynamicOutputs.ofFields source fields with
      | [] => some .nil
      | [dynamicOutputs] => dynamicOutputs
      | _ => none
    pure (.node outputs dynamicOutputs)
  | _ => none

/-- What the fields named `dynamicOutputs` are. -/
def DynamicOutputs.ofFields (source : Document.Source) : List (Text × Document Text) → List (Option DynamicOutputs)
  | [] => []
  | (name, doc) :: rest =>
    if name = key "dynamicOutputs" then DynamicOutputs.ofDocument source doc :: DynamicOutputs.ofFields source rest
    else DynamicOutputs.ofFields source rest

/-- A map of inputs. -/
def DynamicOutputs.ofDocument (source : Document.Source) : Document Text → Option DynamicOutputs
  | .object fields => (DynamicOutputs.readAll source fields).map .ofEntries
  | _ => none

/-- The entries of a map of inputs. -/
def DynamicOutputs.readAll (source : Document.Source) :
    List (Text × Document Text) → Option (List (OutputName × OutputInputs))
  | [] => some []
  | (name, doc) :: rest => do
    let inputs ← OutputInputs.ofDocument source doc
    let others ← DynamicOutputs.readAll source rest
    pure ((⟨name⟩, inputs) :: others)

end

instance : Serde OutputInputs where
  serialize := OutputInputs.toDocument
  deserialize := OutputInputs.ofDocument

section Tries

variable (source : Document.Source)

/-- The fields are those that are selected. -/
theorem DynamicOutputs.ofFields_eq (fields : List (Text × Document Text)) : ofFields source fields =
    (select (key "dynamicOutputs") fields).map (DynamicOutputs.ofDocument source) := by
  induction fields with
  | nil => rfl
  | cons field rest ih =>
    obtain ⟨name, doc⟩ := field
    unfold ofFields select
    by_cases same : name = key "dynamicOutputs"
    · rw [if_pos same, List.filter_cons_of_pos (by simpa using same), ih]
      rfl
    · rw [if_neg same, List.filter_cons_of_neg (by simpa using same), ih]
      rfl

/-- The entries are read one by one. -/
theorem DynamicOutputs.readAll_eq (fields : List (Text × Document Text)) : readAll source fields =
    fields.mapM (readEntry (fun name => some (OutputName.mk name)) (OutputInputs.ofDocument source)) := by
  induction fields with
  | nil => rfl
  | cons field rest ih =>
    obtain ⟨name, doc⟩ := field
    rw [readAll, ih, List.mapM_cons, readEntry]
    cases OutputInputs.ofDocument source doc <;> rfl

/-- Maps are read as maps are. -/
theorem DynamicOutputs.ofDocument_eq (doc : Document Text) : ofDocument source doc =
    (readEntries (fun name => some (OutputName.mk name)) (OutputInputs.ofDocument source) doc).map .ofEntries := by
  cases doc with
  | object fields =>
    rw [ofDocument, readAll_eq]
    rfl
  | _ => rfl

/-- The fields of a node are read by their names. -/
theorem OutputInputs.ofDocument_object (fields : List (Text × Document Text)) :
    ofDocument source (.object fields) =
      (defaulted (key "outputs") .empty (deserialize source) fields).bind fun outputs =>
        (defaulted (key "dynamicOutputs") .nil (DynamicOutputs.ofDocument source) fields).map (.node outputs) := by
  rw [ofDocument, DynamicOutputs.ofFields_eq]
  cases defaulted (key "outputs") (BTreeSet.empty : BTreeSet OutputName) (deserialize source) fields with
  | none => rfl
  | some outputs =>
    rw [Option.bind_some, defaulted]
    rcases select (key "dynamicOutputs") fields with _ | ⟨doc, _ | ⟨other, rest⟩⟩
    · rfl
    · cases single : DynamicOutputs.ofDocument source doc <;> simp [single]
    · rfl

/-- The maps of what is read are sorted. -/
theorem ofDocument_sorted (doc : Document Text) :
    (∀ inputs, OutputInputs.ofDocument source doc = some inputs → inputs.Sorted) ∧
      ∀ map, DynamicOutputs.ofDocument source doc = some map → Ascending id map.names ∧ map.Sorted := by
  induction doc using Document.induct with
  | object fields ih =>
    constructor
    · intro inputs read
      rw [OutputInputs.ofDocument_object] at read
      obtain ⟨outputs, -, read⟩ := Option.bind_eq_some_iff.mp read
      obtain ⟨map, found, rfl⟩ := Option.map_eq_some_iff.mp read
      rcases defaulted_cases found with rfl | ⟨field, listed, made⟩
      · exact ⟨List.Pairwise.nil, trivial⟩
      · exact (ih field listed).2 map made
    · intro map read
      rw [DynamicOutputs.ofDocument_eq] at read
      obtain ⟨entries, all, rfl⟩ := Option.map_eq_some_iff.mp read
      constructor
      · exact DynamicOutputs.names_ofEntries entries
      · apply DynamicOutputs.sorted_of_entries
        rw [DynamicOutputs.entries_ofEntries]
        intro entry member
        obtain ⟨field, listed, made⟩ := mem_of_mapM all entry (mem_of_mem_gathered member)
        obtain ⟨inputs, here, rfl⟩ := Option.map_eq_some_iff.mp made
        exact (ih field listed).1 inputs here
  | _ => exact ⟨nofun, nofun⟩

/-- A map whose tries are read back is read back. -/
theorem DynamicOutputs.ofDocument_toFields {source : Document.Source} {map : DynamicOutputs} (sorted : Ascending id map.names)
    (survives : ∀ entry ∈ map.entries, Survives source entry.2) :
    ofDocument source (source.form (.object map.toFields)) = some map := by
  have ascending := entries_ascending sorted
  have names : (map.entries.map fun entry => entry.1.text).Nodup := by
    have keyed := List.Nodup.map (fun _ _ => OutputName.ext) ascending.keys_nodup
    rw [List.map_map] at keyed
    exact keyed
  obtain ⟨found, read, perm⟩ := @Document.Source.readEntries_object _ _ _ _ _ _ source
    (fun name => some (OutputName.mk name)) (OutputInputs.ofDocument source) OutputName.text
    OutputInputs.toDocument map.entries names (fun _ _ => rfl) survives
  rw [toFields_eq, ofDocument_eq, read]
  apply congrArg some
  apply ext_entries
  rw [entries_ofEntries, gathered_perm perm ((perm.map Prod.fst).nodup_iff.mpr ascending.keys_nodup),
    gathered_of_ascending ascending]

mutual

/-- A sorted trie is read back. -/
theorem OutputInputs.survives (inputs : OutputInputs) (sorted : inputs.Sorted) : Survives source inputs :=
  match inputs, sorted with
  | .node outputs dynamicOutputs, sorted => by
    have below := dynamicOutputs.survives sorted.2
    have distinct : [key "outputs", key "dynamicOutputs"].Nodup := by decide +kernel
    obtain ⟨read, same, selected, -⟩ := @Document.Source.select_object _ _ _ _ _ source
      [(key "outputs", serialize outputs), (key "dynamicOutputs", .object dynamicOutputs.toFields)] distinct
    have direct : defaulted (key "outputs") .empty (deserialize source) read = some outputs :=
      (defaulted_of_select (selected (by simp))).trans (survives_set fun name _ => survives_outputName source name)
    have dynamic : defaulted (key "dynamicOutputs") .nil (DynamicOutputs.ofDocument source) read =
        some dynamicOutputs := by
      refine (defaulted_of_select (selected (List.mem_cons_of_mem _ List.mem_cons_self))).trans ?_
      exact dynamicOutputs.ofDocument_toFields sorted.1 below
    show OutputInputs.ofDocument source (source.form (.object _)) = _
    rw [same, OutputInputs.ofDocument_object, direct, dynamic]
    rfl

/-- So are the tries of a map. -/
theorem DynamicOutputs.survives (map : DynamicOutputs) (sorted : map.Sorted) :
    ∀ entry ∈ map.entries, Survives source entry.2 :=
  match map, sorted with
  | .nil, _ => nofun
  | .cons name inputs rest, sorted => by
    have here := inputs.survives sorted.1
    have later := rest.survives sorted.2
    intro entry member
    rcases List.mem_cons.mp member with rfl | member
    · exact here
    · exact later entry member

end

end Tries

/-! ## Inputs -/

section Derivations

variable [DataEncoding]

/-- The tries of what is read are sorted. -/
theorem drvs_sorted {source : Document.Source} {fields : List (Text × Document Text)} {drvs : BTreeMap StorePath OutputInputs}
    (read : defaulted (key "drvs") .empty (deserialize source) fields = some drvs) :
    ∀ entry ∈ drvs.entries, entry.2.Sorted := by
  rcases defaulted_cases read with rfl | ⟨field, -, made⟩
  · exact nofun
  · obtain ⟨entries, all, rfl⟩ := Option.map_eq_some_iff.mp made
    rw [BTreeMap.foldl_insert_entries]
    intro entry member
    obtain ⟨fields, listed⟩ : ∃ fields, field.2 = .object fields := by
      revert all
      cases field.2 with
      | object fields => exact fun _ => ⟨fields, rfl⟩
      | _ => exact nofun
    rw [listed] at all
    obtain ⟨written, -, whole⟩ := mem_of_mapM all entry (mem_of_mem_gathered member)
    obtain ⟨path, -, named⟩ := Option.bind_eq_some_iff.mp whole
    obtain ⟨inputs, trie, rfl⟩ := Option.map_eq_some_iff.mp named
    exact (ofDocument_sorted source written.2).1 inputs trie

/-- The fields of `DerivationInputs`. -/
def DerivationInputs.ofFields (source : Document.Source) (fields : List (Text × Document Text)) : Option DerivationInputs :=
  (defaulted (key "srcs") .empty (deserialize source) fields).bind fun srcs =>
    match read : defaulted (key "drvs") .empty (deserialize source) fields with
    | some drvs => some ⟨srcs, drvs, drvs_sorted read⟩
    | none => none

instance : Serde DerivationInputs where
  serialize inputs := .object [(key "srcs", serialize inputs.srcs), (key "drvs", serialize inputs.drvs)]
  deserialize source := readObject (DerivationInputs.ofFields source)

/-- Inputs are read back. -/
theorem survives_derivationInputs (source : Document.Source) (inputs : DerivationInputs) : Survives source inputs := by
  have distinct : [key "srcs", key "drvs"].Nodup := by decide +kernel
  obtain ⟨read, same, selected, -⟩ := @Document.Source.select_object _ _ _ _ _ source
    [(key "srcs", serialize inputs.srcs), (key "drvs", serialize inputs.drvs)] distinct
  have srcs : defaulted (key "srcs") .empty (deserialize source) read = some inputs.srcs :=
    (defaulted_of_select (selected (by simp))).trans (survives_set fun path _ => survives_storePath source path)
  have drvs : defaulted (key "drvs") .empty (deserialize source) read = some inputs.drvs :=
    (defaulted_of_select (selected (by simp))).trans
      (survives_map fun entry member => entry.2.survives source (inputs.sorted entry member))
  show readObject _ (source.form (.object _)) = _
  rw [same]
  show DerivationInputs.ofFields source read = _
  rw [DerivationInputs.ofFields, srcs, Option.bind_some]
  split
  case h_1 found made =>
    have equal := Option.some.inj (made.symm.trans drvs)
    exact congrArg some (DerivationInputs.ext rfl equal)
  case h_2 missing => cases missing.symm.trans drvs

/-! ## Derivations -/

/-- `Derivation`. -/
structure Derivation where
  /-- `name`. -/
  name : StorePathName
  /-- `outputs`. -/
  outputs : BTreeMap OutputName DerivationOutput
  /-- `inputs`. -/
  inputs : BTreeSet SingleDerivedPath
  /-- `platform`. -/
  platform : ByteString
  /-- `builder`. -/
  builder : ByteString
  /-- `args`. -/
  args : List ByteString
  /-- `env`. -/
  env : BTreeMap ByteString ByteString
  /-- `structured_attrs`. -/
  structuredAttrs : Option JsonMap

/-- `DerivationHelper`. -/
structure DerivationHelper where
  /-- `name`. -/
  name : Text
  /-- `outputs`. -/
  outputs : BTreeMap OutputName DerivationOutput
  /-- `inputs`. -/
  inputs : DerivationInputs
  /-- `platform`, as `system`. -/
  platform : Text
  /-- `builder`. -/
  builder : Text
  /-- `args`. -/
  args : List Text
  /-- `env`. -/
  env : BTreeMap Text Text
  /-- `structured_attrs`. -/
  structuredAttrs : Option JsonMap
  /-- `version`. -/
  version : UInt32

/-- `default_version`. -/
def defaultVersion : UInt32 := 4

/-- The members of the object that is written. -/
def DerivationHelper.members (helper : DerivationHelper) : List (Text × Option (Document Text)) :=
  [(key "name", some (serialize helper.name)),
    (key "outputs", some (serialize helper.outputs)),
    (key "inputs", some (serialize helper.inputs)),
    (key "system", some (serialize helper.platform)),
    (key "builder", some (serialize helper.builder)),
    (key "args", some (serialize helper.args)),
    (key "env", some (serialize helper.env)),
    (key "structuredAttrs", helper.structuredAttrs.map serialize),
    (key "version", some (serialize helper.version))]

/-- The object that is read. -/
def DerivationHelper.ofFields (source : Document.Source) (fields : List (Text × Document Text)) :
    Option DerivationHelper := do
  let name ← required (key "name") (deserialize source) fields
  let outputs ← required (key "outputs") (deserialize source) fields
  let inputs ← required (key "inputs") (deserialize source) fields
  let platform ← required (key "system") (deserialize source) fields
  let builder ← required (key "builder") (deserialize source) fields
  let args ← required (key "args") (deserialize source) fields
  let env ← required (key "env") (deserialize source) fields
  let structuredAttrs ← optional (key "structuredAttrs") (deserialize source) fields
  let version ← defaulted (key "version") defaultVersion (deserialize source) fields
  pure ⟨name, outputs, inputs, platform, builder, args, env, structuredAttrs, version⟩

instance : Serde DerivationHelper where
  serialize helper := .object (present helper.members)
  deserialize source := readObject (DerivationHelper.ofFields source)

/-- The helper is read back. -/
theorem survives_derivationHelper (source : Document.Source) (helper : DerivationHelper) : Survives source helper := by
  have distinct : [key "name", key "outputs", key "inputs", key "system", key "builder", key "args", key "env",
      key "structuredAttrs", key "version"].Nodup := by
    decide +kernel
  obtain ⟨read, same, selected⟩ := @Document.Source.select_present _ _ _ _ _ source helper.members distinct
  -- A field that is always written is read.
  have field {α : Type} [Serde α] (name : Text) (value : α) (survives : Survives source value)
      (listed : (name, some (serialize value)) ∈ helper.members) :
      required name (deserialize source) read = some value :=
    (required_of_select (selected listed)).trans survives
  have name := field (key "name") helper.name (survives_text source helper.name) (by simp [DerivationHelper.members])
  have outputs := field (key "outputs") helper.outputs (survives_map fun entry _ => survives_derivationOutput source entry.2)
    (by simp [DerivationHelper.members])
  have inputs := field (key "inputs") helper.inputs (survives_derivationInputs source helper.inputs)
    (by simp [DerivationHelper.members])
  have platform := field (key "system") helper.platform (survives_text source helper.platform) (by simp [DerivationHelper.members])
  have builder := field (key "builder") helper.builder (survives_text source helper.builder) (by simp [DerivationHelper.members])
  have args := field (key "args") helper.args (survives_list fun arg _ => survives_text source arg)
    (by simp [DerivationHelper.members])
  have env := field (key "env") helper.env (survives_map fun entry _ => survives_text source entry.2)
    (by simp [DerivationHelper.members])
  have version : defaulted (key "version") defaultVersion (deserialize source) read = some helper.version := by
    have member := @selected (key "version") (some (serialize helper.version)) (by simp [DerivationHelper.members])
    exact (defaulted_of_select member).trans (survives_uint32 source helper.version)
  have structuredAttrs : optional (key "structuredAttrs") (deserialize source) read =
      some helper.structuredAttrs := by
    have member := @selected (key "structuredAttrs") (helper.structuredAttrs.map serialize)
      (by simp [DerivationHelper.members])
    exact optional_survives member (fun map _ => survives_jsonMap source map) fun _ _ => nofun
  show readObject _ (source.form (.object (present _))) = _
  rw [same]
  show DerivationHelper.ofFields source read = _
  rw [DerivationHelper.ofFields, name, outputs, inputs, platform, builder, args, env, structuredAttrs, version]
  rfl

/-- A name as a string. -/
def StorePathName.toText (name : StorePathName) : Text := ⟨name.bytes, utf8_of_name name.name.symbols, by
  have short : name.bytes.length ≤ 211 := name.name.short
  omega⟩

/-- The two strings of an environment variable. -/
def envEntry (entry : ByteString × ByteString) : Option (Text × Text) := do
  let name ← Text.fromUtf8 entry.1.bytes
  let value ← Text.fromUtf8 entry.2.bytes
  pure (name, value)

/-- The bytes of a variable. -/
def envBytes (entry : Text × Text) : ByteString × ByteString := (.ofText entry.1, .ofText entry.2)

namespace Derivation

/-- The helper of a derivation whose bytes are strings. -/
def toHelper (derivation : Derivation) : Option DerivationHelper := do
  let platform ← Text.fromUtf8 derivation.platform.bytes
  let builder ← Text.fromUtf8 derivation.builder.bytes
  let args ← derivation.args.mapM fun arg => Text.fromUtf8 arg.bytes
  let env ← derivation.env.entries.mapM envEntry
  pure
    { name := derivation.name.toText
      outputs := derivation.outputs
      inputs := .ofPaths derivation.inputs
      platform := platform
      builder := builder
      args := args
      env := env.foldl .insert .empty
      structuredAttrs := derivation.structuredAttrs
      version := defaultVersion }

/-- The derivation of a helper. -/
def ofHelper (helper : DerivationHelper) : Option Derivation :=
  if helper.version ≠ 4 then none
  else (StorePathName.tryFrom helper.name.bytes).map fun name =>
    { name := name
      outputs := helper.outputs
      inputs := helper.inputs.toPaths
      platform := .ofText helper.platform
      builder := .ofText helper.builder
      args := helper.args.map .ofText
      env := (helper.env.entries.map envBytes).foldl .insert .empty
      structuredAttrs := helper.structuredAttrs }

/-- `Serialize for Derivation`. -/
def serialize (derivation : Derivation) : Option (Document Text) := derivation.toHelper.map Serde.serialize

/-- `Deserialize for Derivation`. -/
def deserialize (source : Document.Source) (doc : Document Text) : Option Derivation :=
  (Serde.deserialize source doc).bind ofHelper

/-- What is written as strings is UTF-8. -/
structure Textual (derivation : Derivation) : Prop where
  /-- The platform. -/
  platform : Utf8.Valid derivation.platform.bytes
  /-- The builder. -/
  builder : Utf8.Valid derivation.builder.bytes
  /-- The arguments. -/
  args : ∀ arg ∈ derivation.args, Utf8.Valid arg.bytes
  /-- The names of the environment. -/
  names : ∀ entry ∈ derivation.env.entries, Utf8.Valid entry.1.bytes
  /-- Its values. -/
  values : ∀ entry ∈ derivation.env.entries, Utf8.Valid entry.2.bytes

end Derivation

omit [DataEncoding] in
/-- Bytes are a text if they are its bytes. -/
theorem Text.fromUtf8_iff {bytes : ByteString} {text : Text} :
    Text.fromUtf8 bytes.bytes = some text ↔ bytes = .ofText text := by
  constructor
  · intro read
    have same := Text.fromUtf8_some read
    cases bytes
    cases same
    rfl
  · rintro rfl
    exact text.fromUtf8_bytes

omit [DataEncoding] in
/-- Bytes are some text if they are UTF-8. -/
theorem ByteString.exists_ofText (bytes : ByteString) : (∃ text, bytes = .ofText text) ↔ Utf8.Valid bytes.bytes := by
  constructor
  · rintro ⟨text, rfl⟩
    exact text.utf8
  · exact fun valid => ⟨⟨bytes.bytes, valid, bytes.small⟩, rfl⟩

omit [DataEncoding] in
/-- A variable is two texts if it is their bytes. -/
theorem envEntry_iff {entry : ByteString × ByteString} {texts : Text × Text} :
    envEntry entry = some texts ↔ entry = envBytes texts := by
  obtain ⟨name, value⟩ := entry
  constructor
  · intro read
    obtain ⟨_, here, read⟩ := Option.bind_eq_some_iff.mp read
    obtain ⟨_, there, read⟩ := Option.bind_eq_some_iff.mp read
    cases read
    exact Prod.ext (Text.fromUtf8_iff.mp here) (Text.fromUtf8_iff.mp there)
  · intro same
    obtain ⟨here, there⟩ := Prod.mk.inj same
    rw [envEntry, Text.fromUtf8_iff.mpr here, Text.fromUtf8_iff.mpr there]
    rfl

namespace Derivation

/-- The strings of a derivation are its bytes. -/
structure Reads (derivation : Derivation) (platform builder : Text) (args : List Text) (env : List (Text × Text)) :
    Prop where
  /-- The platform. -/
  platform : derivation.platform = .ofText platform
  /-- The builder. -/
  builder : derivation.builder = .ofText builder
  /-- The arguments. -/
  args : derivation.args = args.map .ofText
  /-- The environment. -/
  env : derivation.env.entries = env.map envBytes

/-- The helper of a derivation with these strings. -/
def helperOf (derivation : Derivation) (platform builder : Text) (args : List Text) (env : List (Text × Text)) :
    DerivationHelper :=
  { name := derivation.name.toText
    outputs := derivation.outputs
    inputs := .ofPaths derivation.inputs
    platform := platform
    builder := builder
    args := args
    env := env.foldl .insert .empty
    structuredAttrs := derivation.structuredAttrs
    version := defaultVersion }

omit [DataEncoding] in
/-- A derivation has a helper if its bytes are strings. -/
theorem toHelper_iff {derivation : Derivation} {helper : DerivationHelper} :
    derivation.toHelper = some helper ↔ ∃ platform builder args env,
      derivation.Reads platform builder args env ∧ derivation.helperOf platform builder args env = helper := by
  constructor
  · intro made
    obtain ⟨platform, platformRead, made⟩ := Option.bind_eq_some_iff.mp made
    obtain ⟨builder, builderRead, made⟩ := Option.bind_eq_some_iff.mp made
    obtain ⟨args, argsRead, made⟩ := Option.bind_eq_some_iff.mp made
    obtain ⟨env, envRead, made⟩ := Option.bind_eq_some_iff.mp made
    refine ⟨platform, builder, args, env, ⟨?_, ?_, ?_, ?_⟩, Option.some.inj made⟩
    · exact Text.fromUtf8_iff.mp platformRead
    · exact Text.fromUtf8_iff.mp builderRead
    · exact (mapM_iff_map Text.fromUtf8_iff).mp argsRead
    · exact (mapM_iff_map envEntry_iff).mp envRead
  · rintro ⟨platform, builder, args, env, reads, rfl⟩
    rw [toHelper, Text.fromUtf8_iff.mpr reads.platform, Text.fromUtf8_iff.mpr reads.builder,
      (mapM_iff_map Text.fromUtf8_iff).mpr reads.args, (mapM_iff_map envEntry_iff).mpr reads.env]
    rfl

omit [DataEncoding] in
/-- The bytes of a derivation are strings if they are UTF-8. -/
theorem exists_reads_iff (derivation : Derivation) :
    (∃ platform builder args env, derivation.Reads platform builder args env) ↔ derivation.Textual := by
  constructor
  · rintro ⟨platform, builder, args, env, reads⟩
    constructor
    · exact reads.platform ▸ platform.utf8
    · exact reads.builder ▸ builder.utf8
    · intro arg member
      obtain ⟨text, -, rfl⟩ := List.mem_map.mp (reads.args ▸ member)
      exact text.utf8
    · intro entry member
      obtain ⟨texts, -, rfl⟩ := List.mem_map.mp (reads.env ▸ member)
      exact texts.1.utf8
    · intro entry member
      obtain ⟨texts, -, rfl⟩ := List.mem_map.mp (reads.env ▸ member)
      exact texts.2.utf8
  · intro textual
    obtain ⟨platform, platformRead⟩ := derivation.platform.exists_ofText.mpr textual.platform
    obtain ⟨builder, builderRead⟩ := derivation.builder.exists_ofText.mpr textual.builder
    have args : derivation.args ∈ Set.range (List.map ByteString.ofText) := by
      rw [Set.range_list_map]
      intro arg member
      obtain ⟨text, same⟩ := arg.exists_ofText.mpr (textual.args arg member)
      exact ⟨text, same.symm⟩
    have env : derivation.env.entries ∈ Set.range (List.map envBytes) := by
      rw [Set.range_list_map]
      intro entry member
      obtain ⟨name, named⟩ := entry.1.exists_ofText.mpr (textual.names entry member)
      obtain ⟨value, valued⟩ := entry.2.exists_ofText.mpr (textual.values entry member)
      exact ⟨(name, value), Prod.ext named.symm valued.symm⟩
    obtain ⟨args, argsRead⟩ := args
    obtain ⟨env, envRead⟩ := env
    exact ⟨platform, builder, args, env, platformRead, builderRead, argsRead.symm, envRead.symm⟩

omit [DataEncoding] in
/-- The environment is made again of its strings. -/
theorem Reads.env_again {derivation : Derivation} {platform builder : Text} {args : List Text}
    {env : List (Text × Text)} (reads : derivation.Reads platform builder args env) :
    ((env.foldl BTreeMap.insert .empty).entries.map envBytes).foldl .insert .empty = derivation.env := by
  have ascending : Ascending Prod.fst env := by
    have sorted := derivation.env.sorted
    rw [reads.env] at sorted
    exact List.pairwise_map.mp sorted
  have kept : (env.foldl BTreeMap.insert .empty).entries = env :=
    (BTreeMap.foldl_insert_entries env).trans (gathered_of_ascending ascending)
  rw [kept, ← reads.env]
  exact BTreeMap.insert_ascending _ .empty _ rfl

omit [DataEncoding] in
/-- A derivation is made again of its helper. -/
theorem Reads.ofHelper {derivation : Derivation} {platform builder : Text} {args : List Text}
    {env : List (Text × Text)} (reads : derivation.Reads platform builder args env) :
    Derivation.ofHelper (derivation.helperOf platform builder args env) = some derivation := by
  have name : StorePathName.tryFrom derivation.name.bytes = some derivation.name := dif_pos derivation.name.name
  have inputs : (DerivationInputs.ofPaths derivation.inputs).toPaths = derivation.inputs := by
    apply BTreeSet.ext_mem
    intro path
    rw [DerivationInputs.mem_toPaths, DerivationInputs.needs_ofPaths]
  have same : (⟨derivation.name, derivation.outputs, (DerivationInputs.ofPaths derivation.inputs).toPaths,
      .ofText platform, .ofText builder, args.map .ofText,
      ((env.foldl BTreeMap.insert .empty).entries.map envBytes).foldl .insert .empty,
      derivation.structuredAttrs⟩ : Derivation) = derivation := by
    rw [inputs, reads.env_again, ← reads.platform, ← reads.builder, ← reads.args]
  show (if defaultVersion ≠ 4 then none else (StorePathName.tryFrom derivation.name.bytes).map _) = _
  rw [if_neg (by decide), name]
  exact congrArg some same

/-- Derivations survive JSON: one is written if its bytes are UTF-8, and what was written is read back. -/
theorem serialize_survives (derivation : Derivation) :
    (derivation.serialize.isSome ↔ derivation.Textual) ∧
      ∀ doc, derivation.serialize = some doc → ∀ source : Document.Source,
        deserialize source (source.form doc) = some derivation := by
  constructor
  · rw [← exists_reads_iff, serialize, Option.isSome_map, Option.isSome_iff_exists]
    constructor
    · rintro ⟨helper, made⟩
      obtain ⟨platform, builder, args, env, reads, -⟩ := toHelper_iff.mp made
      exact ⟨platform, builder, args, env, reads⟩
    · rintro ⟨platform, builder, args, env, reads⟩
      exact ⟨_, toHelper_iff.mpr ⟨platform, builder, args, env, reads, rfl⟩⟩
  · intro doc made source
    obtain ⟨helper, helped, rfl⟩ := Option.map_eq_some_iff.mp made
    obtain ⟨platform, builder, args, env, reads, rfl⟩ := toHelper_iff.mp helped
    have survives := survives_derivationHelper source (derivation.helperOf platform builder args env)
    rw [Survives] at survives
    rw [deserialize, survives]
    exact reads.ofHelper

end Derivation

end Derivations

section Sample

attribute [local instance] Store.standard

namespace Derivation

/-- A derivation that needs an output of an output, with a text output and an attribute. -/
def sample : Derivation where
  name := ⟨asciiBytes "d", by decide +kernel⟩
  outputs := .insert .empty (.default, .impure .text)
  inputs := DerivationInputs.sample.toPaths
  platform := ⟨asciiBytes "p", by decide +kernel⟩
  builder := ⟨[0xC3, 0xBC], by decide⟩
  args := [⟨asciiBytes "-c", by decide +kernel⟩]
  env := .insert .empty (⟨asciiBytes "HOME", by decide +kernel⟩, ⟨asciiBytes "v", by decide +kernel⟩)
  structuredAttrs := some (.ofFields [(key "b", .null), (key "a", .object [])])

/-- The sample derivation is read back from the document it is written as. -/
theorem serialize_survives_sample :
    ∃ doc, sample.serialize = some doc ∧ deserialize .value doc.value = some sample := by
  have textual : sample.Textual := by
    constructor <;> decide +kernel
  obtain ⟨doc, made⟩ := Option.isSome_iff_exists.mp (sample.serialize_survives.1.mpr textual)
  exact ⟨doc, made, sample.serialize_survives.2 doc made .value⟩

end Derivation

end Sample

end Harmonia.Store
