import Harmonia.Store.Derived

/-!
# Derived paths as text and as JSON

`serde` and `FromStoreDirStr` for the types of `derived_path/`. A store path that comes from JSON is
parsed, but `OutputName` is transparent and `OutputSpec` wraps the strings of its array: neither looks
at what `FromStr` looks at. So every value of these types comes from some JSON, also one whose names
hold the separators its text is cut at, and exactly the values with legal names survive their text.
-/

namespace Harmonia.Store

open Library

mutual

/-- A JSON value, as `serde` keeps it while it tries the variants of an untagged enumeration. -/
inductive Json where
  /-- A string. -/
  | text (value : Text)
  /-- An array. -/
  | array (items : JsonItems)
  /-- An object. -/
  | object (fields : JsonFields)
  /-- A number, a boolean or null. -/
  | scalar

/-- The items of an array. -/
inductive JsonItems where
  | nil
  | cons (item : Json) (rest : JsonItems)

/-- The fields of an object, in the order of the text. -/
inductive JsonFields where
  | nil
  | cons (name : Text) (value : Json) (rest : JsonFields)

end

/-- The values of the fields of one name. -/
def JsonFields.values (name : Bytes) : JsonFields → List Json
  | nil => []
  | cons other value rest =>
    if other.bytes = name then value :: rest.values name else rest.values name

/-- `Vec<String>`. -/
def JsonItems.strings : JsonItems → Option (List Text)
  | nil => some []
  | cons (.text value) rest => rest.strings.map (value :: ·)
  | cons _ _ => none

/-- `Deserialize for OutputName`: the string as it is. -/
def OutputName.deserialize : Json → Option OutputName
  | .text value => some ⟨value⟩
  | _ => none

/-- `Deserialize for OutputSpec`: an asterisk alone is for all outputs. -/
def OutputSpec.deserialize : Json → Option OutputSpec
  | .array items =>
    items.strings.map fun names =>
      if names.map Text.bytes = [[42]] then .all
      else .named ((names.map OutputName.mk).foldl .insert .empty)
  | _ => none

section Deserialize

variable [DataEncoding]

/-- `Deserialize for StorePath`. -/
def StorePath.deserialize : Json → Option StorePath
  | .text value => StorePath.fromBytes value.bytes
  | _ => none

mutual

/-- `Deserialize for SingleDerivedPath`: an object with the fields of `Built`, or else a store path.
A field that is there twice is refused, an unknown one is passed over. -/
def SingleDerivedPath.deserialize : Json → Option SingleDerivedPath
  | .object fields =>
    match drvPaths fields, fields.values (asciiBytes "output") with
    | [some drvPath], [output] => (OutputName.deserialize output).map (.built drvPath)
    | _, _ => none
  | .text value => (StorePath.deserialize (.text value)).map .opaquePath
  | _ => none

/-- What the fields named `drvPath` are read as. -/
def SingleDerivedPath.drvPaths : JsonFields → List (Option SingleDerivedPath)
  | .nil => []
  | .cons name value rest =>
    if name.bytes = asciiBytes "drvPath" then deserialize value :: drvPaths rest else drvPaths rest

end

/-- `Deserialize for DerivedPath`. -/
def DerivedPath.deserialize : Json → Option DerivedPath
  | .object fields =>
    match SingleDerivedPath.drvPaths fields, fields.values (asciiBytes "outputs") with
    | [some drvPath], [outputs] => (OutputSpec.deserialize outputs).map (.built drvPath)
    | _, _ => none
  | .text value => (StorePath.deserialize (.text value)).map .opaquePath
  | _ => none

/-- `Serialize for SingleDerivedPath`. -/
def SingleDerivedPath.serialize : SingleDerivedPath → Json
  | .built drvPath output =>
    .object (.cons ⟨asciiBytes "drvPath", by decide, by decide⟩ drvPath.serialize
      (.cons ⟨asciiBytes "output", by decide, by decide⟩ (.text output.text) .nil))
  | .opaquePath path => .text ⟨path.display, path.display_utf8, path.display_fits⟩

/-- Every path comes from its JSON, whatever its names are. -/
theorem SingleDerivedPath.deserialize_serialize (path : SingleDerivedPath) :
    deserialize path.serialize = some path := by
  have apart : asciiBytes "drvPath" ≠ asciiBytes "output" := by decide
  induction path with
  | built drvPath output ih =>
    simp [serialize, deserialize, drvPaths, JsonFields.values, apart, apart.symm, ih,
      OutputName.deserialize]
  | opaquePath path =>
    simp [serialize, deserialize, StorePath.deserialize]

/-- The strings of an array. -/
def JsonItems.ofTexts : List Text → JsonItems
  | [] => nil
  | value :: rest => cons (.text value) (ofTexts rest)

omit [DataEncoding] in
/-- The strings of an array of strings are those. -/
theorem JsonItems.strings_ofTexts (values : List Text) : (ofTexts values).strings = some values := by
  induction values with
  | nil => rfl
  | cons value rest ih => rw [ofTexts, strings, ih]; rfl

omit [DataEncoding] in
/-- Every specification comes from some JSON: a set of one asterisk from an array of two. -/
theorem OutputSpec.deserialize_reaches (outputs : OutputSpec) :
    ∃ json, deserialize json = some outputs := by
  cases outputs with
  | all =>
    exact ⟨.array (.ofTexts [⟨[42], by decide, by decide⟩]), rfl⟩
  | named names =>
    have whole := BTreeSet.insert_ascending names.items .empty names rfl
    by_cases star : (names.items.map OutputName.text).map Text.bytes = [[42]]
    · obtain ⟨name, single⟩ : ∃ name, names.items = [name] := by
        cases items : names.items with
        | nil => simp [items] at star
        | cons name rest =>
          cases rest with
          | nil => exact ⟨name, rfl⟩
          | cons second others => simp [items] at star
      refine ⟨.array (.ofTexts [name.text, name.text]), ?_⟩
      -- The second insertion finds the name and leaves it.
      have twice : (BTreeSet.empty.insert name).insert name = names := by
        apply BTreeSet.ext
        show place id id name [name] = names.items
        rw [single, place, show compare (id name) (id name) = .eq from Std.ReflOrd.compare_self]
        rfl
      simp only [deserialize, JsonItems.strings_ofTexts, Option.map_some]
      rw [if_neg (by simp)]
      show some (OutputSpec.named ((BTreeSet.empty.insert name).insert name)) = _
      rw [twice]
    · refine ⟨.array (.ofTexts (names.items.map OutputName.text)), ?_⟩
      simp only [deserialize, JsonItems.strings_ofTexts, Option.map_some, if_neg star]
      rw [List.map_map]
      show some (OutputSpec.named ((names.items.map id).foldl _ _)) = _
      rw [List.map_id, whole]

/-- Every derived path comes from some JSON, whatever its names are. -/
theorem DerivedPath.deserialize_reaches (path : DerivedPath) : ∃ json, deserialize json = some path := by
  have apart : asciiBytes "drvPath" ≠ asciiBytes "outputs" := by decide
  cases path with
  | built drvPath outputs =>
    obtain ⟨json, read⟩ := OutputSpec.deserialize_reaches outputs
    refine ⟨.object (.cons ⟨asciiBytes "drvPath", by decide, by decide⟩ drvPath.serialize
      (.cons ⟨asciiBytes "outputs", by decide, by decide⟩ json .nil)), ?_⟩
    simp [deserialize, SingleDerivedPath.drvPaths, JsonFields.values, apart, apart.symm, read,
      drvPath.deserialize_serialize]
  | opaquePath path =>
    refine ⟨.text ⟨path.display, path.display_utf8, path.display_fits⟩, ?_⟩
    simp [deserialize, StorePath.deserialize]

/-! ## Texts -/

/-- `FromStoreDirStr for SingleDerivedPath`. -/
def SingleDerivedPath.fromStoreDirStr (dir : StoreDir) (s : Bytes) : Option SingleDerivedPath :=
  (dir.stripPrefix s).bind (SingleDerivedPath.fromStrSep 94)

/-- `FromStoreDirStr for DerivedPath`. -/
def DerivedPath.fromStoreDirStr (dir : StoreDir) (s : Bytes) : Option DerivedPath :=
  (dir.stripPrefix s).bind (DerivedPath.fromStrSep 94)

/-- The derived path that names the one output: what the legacy format of a path is read as. -/
def SingleDerivedPath.asDerivedPath : SingleDerivedPath → DerivedPath
  | .built drvPath output => .built drvPath (.named (.insert .empty output))
  | .opaquePath path => .opaquePath path

/-- A path is read back from both of its texts. -/
structure DerivedPath.Survives (dir : StoreDir) (path : DerivedPath) : Prop where
  /-- `StoreDir::parse` of the text with carets. -/
  text : fromStoreDirStr dir (dir.display (path.displaySep 94)) = some path
  /-- `LegacyDerivedPath` of the text with exclamation marks. -/
  legacy : fromLegacyStr dir (dir.display path.toLegacyFormat) = some path

/-- A path is read back from both of its texts. -/
structure SingleDerivedPath.Survives (dir : StoreDir) (path : SingleDerivedPath) : Prop where
  /-- `StoreDir::parse` of the text with carets. -/
  text : fromStoreDirStr dir (dir.display (path.displaySep 94)) = some path
  /-- `LegacyDerivedPath` of the text with exclamation marks. -/
  legacy : DerivedPath.fromLegacyStr dir (dir.display (path.displaySep 33)) = some path.asDerivedPath

/-- The derived path of the one output has the text of the path. -/
theorem SingleDerivedPath.displaySep_asDerivedPath (sep : UInt8) (path : SingleDerivedPath) :
    path.asDerivedPath.displaySep sep = path.displaySep sep := by
  cases path <;> rfl

omit [DataEncoding] in
/-- The derived path of the one output is legal when the path is. -/
theorem SingleDerivedPath.legal_asDerivedPath {path : SingleDerivedPath} (legal : path.Legal) :
    path.asDerivedPath.Legal := by
  cases path with
  | built drvPath output =>
    refine ⟨legal.1, List.cons_ne_nil _ _, ?_⟩
    intro name member
    have same : name = output := List.mem_singleton.mp member
    exact same ▸ legal.2
  | opaquePath path => trivial

/-- A derived path survives its texts if and only if its names are legal and it names some output. -/
theorem DerivedPath.survives_iff {dir : StoreDir} (rooted : dir.Rooted) (path : DerivedPath) :
    path.Survives dir ↔ path.Legal := by
  constructor
  · intro survives
    have read := survives.text
    rw [fromStoreDirStr, StoreDir.stripPrefix_display rooted] at read
    exact (fromStrSep_some read).1
  · intro legal
    constructor
    · rw [fromStoreDirStr, StoreDir.stripPrefix_display rooted]
      exact fromStrSep_displaySep legal separator_caret
    · exact fromLegacyStr_display rooted legal

/-- A path survives its texts if and only if its names are legal. -/
theorem SingleDerivedPath.survives_iff {dir : StoreDir} (rooted : dir.Rooted)
    (path : SingleDerivedPath) : path.Survives dir ↔ path.Legal := by
  constructor
  · intro survives
    have read := survives.text
    rw [fromStoreDirStr, StoreDir.stripPrefix_display rooted] at read
    exact (fromStrSep_some read).1
  · intro legal
    constructor
    · rw [fromStoreDirStr, StoreDir.stripPrefix_display rooted]
      exact fromStrSep_displaySep legal separator_caret
    · have read := DerivedPath.fromLegacyStr_display rooted (legal_asDerivedPath legal)
      rw [DerivedPath.toLegacyFormat, displaySep_asDerivedPath] at read
      exact read

/-- Below an absolute store directory, the paths that survive their texts are those whose output
names pass the check of `FromStr`. -/
theorem derivedPaths_survive_iff_legal {dir : StoreDir} (absolute : dir.text.bytes.head? = some 47) :
    (∀ path : DerivedPath, path.Survives dir ↔ path.Legal) ∧
      ∀ path : SingleDerivedPath, path.Survives dir ↔ path.Legal := by
  constructor
  · exact DerivedPath.survives_iff (.inr absolute)
  · exact SingleDerivedPath.survives_iff (.inr absolute)

end Deserialize

section Samples

attribute [local instance] Store.standard

/-- A derivation of the store. -/
def someDrv : StorePath :=
  ⟨.zero, ⟨asciiBytes "a.drv", by decide +kernel⟩⟩

/-- The output `out` of the derivation survives. -/
theorem derivedPaths_survive_out :
    (DerivedPath.built (.opaquePath someDrv)
      (.named (.insert .empty .default))).Survives .default :=
  ((derivedPaths_survive_iff_legal (show StoreDir.default.text.bytes.head? = some 47 from rfl)).1
    _).mpr (by decide +kernel)

/-- An output name with a caret comes from JSON and does not survive. -/
theorem derivedPaths_survive_caret :
    ¬ ∀ (dir : StoreDir) (json : Json) (path : SingleDerivedPath),
      dir.text.bytes.head? = some 47 → SingleDerivedPath.deserialize json = some path →
      path.Survives dir := by
  intro every
  have survives := every .default _
    (.built (.opaquePath someDrv) ⟨⟨asciiBytes "a^b", by decide, by decide⟩⟩) rfl
    (SingleDerivedPath.deserialize_serialize _)
  have legal := (SingleDerivedPath.survives_iff (.inr rfl) _).mp survives
  exact absurd legal (by decide +kernel)

end Samples

end Harmonia.Store
