import Harmonia.Library.Document
import Harmonia.Store.Inputs
import Harmonia.Store.Sri

/-!
# JSON of the types of the store

`serde` and `serde_json`, for the types that derivations, path infos and build results are made of. A
type that asks for a borrowed string gets one only from a text in which the string has no escapes.
-/

namespace Harmonia.Store

open Library Document

/-- `Serialize` and `Deserialize`. -/
class Serde (α : Type) where
  /-- `serialize`. -/
  serialize : α → Document Text
  /-- `deserialize`, from the one source or the other. -/
  deserialize : Document.Source → Document Text → Option α

export Serde (serialize deserialize)

/-- A value is read back. -/
def Survives {α : Type} [Serde α] (source : Document.Source) (value : α) : Prop :=
  deserialize source (source.form (serialize value)) = some value

/-- A type that is a key of JSON objects. -/
class SerdeKey (κ : Type) where
  /-- Its text. -/
  name : κ → Text
  /-- A text parsed. -/
  parse : Text → Option κ
  /-- A key is parsed from its text. -/
  parse_name : ∀ key, parse (name key) = some key

/-- The name of a field. -/
def key (literal : String) : Text := (Text.fromUtf8 (asciiBytes literal)).getD ⟨[], Utf8.valid_nil, ByteString.nil_small⟩

/-! ## Scalars -/

instance : Serde Bool where
  serialize := .bool
  deserialize _
    | .bool value => some value
    | _ => none

instance : Serde UInt64 where
  serialize value := .number (.natural value)
  deserialize _
    | .number (.natural value) => some value
    | _ => none

instance : Serde UInt32 where
  serialize value := .number (.natural value.toUInt64)
  deserialize _
    | .number (.natural value) => if value.toNat < 2 ^ 32 then some value.toUInt32 else none
    | _ => none

instance : Serde Int64 where
  serialize value := .number (if 0 ≤ value.toInt then .natural value.toUInt64 else .negative value)
  deserialize _
    | .number (.natural value) => if value.toNat < 2 ^ 63 then some value.toInt64 else none
    | .number (.negative value) => some value
    | _ => none

instance : Serde Text where
  serialize := .string
  deserialize _
    | .string value => some value
    | _ => none

section Scalars

variable (source : Document.Source)

/-- A Boolean is read back. -/
theorem survives_bool (value : Bool) : Survives source value := by
  rw [Survives, show serialize value = .bool value from rfl, Document.Source.form_bool]
  rfl

/-- A number of sixty-four bits is read back. -/
theorem survives_uint64 (value : UInt64) : Survives source value := by
  rw [Survives, show serialize value = .number (.natural value) from rfl, Document.Source.form_number]
  rfl

/-- A number of thirty-two bits is read back. -/
theorem survives_uint32 (value : UInt32) : Survives source value := by
  have small := value.toNat_lt
  have same : value.toUInt64.toNat = value.toNat := by simp
  rw [Survives, show serialize value = .number (.natural value.toUInt64) from rfl, Document.Source.form_number]
  show (if value.toUInt64.toNat < 2 ^ 32 then some value.toUInt64.toUInt32 else none) = _
  rw [same, if_pos small]
  simp

/-- A signed number is read back. -/
theorem survives_int64 (value : Int64) : Survives source value := by
  rw [Survives, show serialize value =
    .number (if 0 ≤ value.toInt then .natural value.toUInt64 else .negative value) from rfl, Document.Source.form_number]
  by_cases natural : 0 ≤ value.toInt
  · have small : value.toUInt64.toNat < 2 ^ 63 := by
      have high := value.toInt_lt
      rw [Int64.toNat_toUInt64_of_le (Int64.le_iff_toInt_le.mpr natural), Int64.toNatClampNeg]
      omega
    rw [if_pos natural]
    show (if value.toUInt64.toNat < 2 ^ 63 then some value.toUInt64.toInt64 else none) = _
    rw [if_pos small]
    simp
  · rw [if_neg natural]
    rfl

/-- A string is read back. -/
theorem survives_text (value : Text) : Survives source value := by
  rw [Survives, show serialize value = .string value from rfl, Document.Source.form_string]
  rfl

end Scalars

/-! ## Collections -/

section Collections

variable {α κ : Type} [Serde α]

instance : Serde (List α) where
  serialize items := .array (items.map serialize)
  deserialize source := readItems (deserialize source)

instance [Ord α] [Std.TransOrd α] : Serde (BTreeSet α) where
  serialize set := .array (set.items.map serialize)
  deserialize source := readSet (deserialize source)

instance [SerdeKey κ] [Ord κ] [Std.TransOrd κ] : Serde (BTreeMap κ α) where
  serialize map := .object (map.entries.map fun entry => (SerdeKey.name entry.1, serialize entry.2))
  deserialize source := readMap SerdeKey.parse (deserialize source)

instance : Serde (Option α) where
  serialize
    | some value => serialize value
    | none => .null
  deserialize source := nullable (deserialize source)

variable {source : Document.Source}

/-- A vector is read back. -/
theorem survives_list {items : List α} (all : ∀ item ∈ items, Survives source item) : Survives source items :=
  source.readItems_array all

/-- A set is read back. -/
theorem survives_set [Ord α] [Std.TransOrd α] {set : BTreeSet α} (all : ∀ item ∈ set.items, Survives source item) :
    Survives source set :=
  source.readSet_array all

/-- A map is read back. -/
theorem survives_map [SerdeKey κ] [Ord κ] [Std.TransOrd κ] [Std.LawfulEqOrd κ] {map : BTreeMap κ α}
    (all : ∀ entry ∈ map.entries, Survives source entry.2) : Survives source map :=
  source.readMap_object (fun entry _ => SerdeKey.parse_name entry.1) all

/-- What may be missing is read back if it is not taken for nothing. -/
theorem survives_option {value : Option α} (all : ∀ item ∈ value, Survives source item)
    (written : ∀ item ∈ value, serialize item ≠ .null) : Survives source value := by
  cases value with
  | none =>
    show nullable _ (source.form .null) = _
    rw [Document.Source.form_null]
    rfl
  | some item =>
    show nullable _ (source.form (serialize item)) = _
    rw [nullable_of_ne (source.form_ne_null (written item rfl))]
    exact congrArg _ (all item rfl)

end Collections

/-! ## Members -/

/-- `serde_json::Map<String, Value>`: the fields of a value. -/
structure JsonMap where
  /-- The fields, sorted by their names. -/
  fields : List (Text × Document Text)
  /-- So are those below. -/
  isValue : (Document.object fields).value = .object fields

/-- The fields of an object, as a value has them. -/
def JsonMap.ofFields (fields : List (Text × Document Text)) : JsonMap where
  fields := gathered (fields.map fun field => (field.1, field.2.value))
  isValue := by
    rw [← value_object]
    exact value_value _

instance : Serde JsonMap where
  serialize map := .object map.fields
  deserialize _ := readObject fun fields => some (.ofFields fields)

/-- A map is read back. -/
theorem survives_jsonMap (source : Document.Source) (map : JsonMap) : Survives source map := by
  have same : JsonMap.ofFields map.fields = map := by
    obtain ⟨fields, isValue⟩ := map
    have equal := isValue
    rw [value_object] at equal
    simp only [JsonMap.ofFields, Document.object.inj equal]
  have form : source.form (.object map.fields) = .object map.fields := by
    cases source with
    | text => rfl
    | value | reference => exact map.isValue
  show readObject _ (source.form (.object map.fields)) = _
  rw [form]
  exact congrArg some same

/-- A member that is skipped when there is nothing is read back. -/
theorem optional_survives {α : Type} [Serde α] {source : Document.Source} {name : Text}
    {read : List (Text × Document Text)} {value : Option α}
    (selected : select name read = ((value.map serialize).map source.form).toList)
    (survives : ∀ item ∈ value, Survives source item)
    (written : ∀ item ∈ value, serialize item ≠ .null) :
    optional name (deserialize source) read = some value := by
  rw [Option.map_map] at selected
  apply optional_of_select selected
  intro item member
  constructor
  · exact survives item member
  · exact source.form_ne_null (written item member)

/-- A member that is always written is read back. -/
theorem required_survives {α : Type} [Serde α] {source : Document.Source} {name : Text} {read : List (Text × Document Text)}
    {value : α} (selected : select name read = ((some (serialize value)).map source.form).toList)
    (survives : Survives source value) : required name (deserialize source) read = some value :=
  (required_of_select selected).trans survives

/-- So is one that is skipped when it has the value that stands for nothing. -/
theorem defaulted_survives {α : Type} [Serde α] {source : Document.Source} {name : Text} {read : List (Text × Document Text)}
    {absent value : α} {skip : Bool}
    (selected : select name read = ((if skip then none else some (serialize value)).map source.form).toList)
    (default : skip = true → value = absent) (survives : Survives source value) :
    defaulted name absent (deserialize source) read = some value := by
  cases skip with
  | true => exact (defaulted_of_absent selected).trans (congrArg some (default rfl).symm)
  | false => exact (defaulted_of_select selected).trans survives

/-! ## Texts -/

/-- `Deserialize for OutputName`: the string as it is. -/
instance : Serde OutputName where
  serialize name := .string name.text
  deserialize source doc := (deserialize source doc).map OutputName.mk

instance : SerdeKey Text := ⟨id, some, fun _ => rfl⟩

instance : SerdeKey OutputName := ⟨OutputName.text, fun text => some ⟨text⟩, fun _ => rfl⟩

/-- An output name is read back. -/
theorem survives_outputName (source : Document.Source) (name : OutputName) : Survives source name := by
  have text := survives_text source name.text
  rw [Survives] at text ⊢
  show (deserialize source (source.form (serialize name.text))).map OutputName.mk = _
  rw [text]
  rfl

/-- `ByteString::from(String)`. -/
def ByteString.ofText (text : Text) : ByteString := ⟨text.bytes, text.small⟩

/-- A string that is parsed. -/
def deserializeParsed {α : Type} (parse : Bytes → Option α) (source : Document.Source) (doc : Document Text) : Option α :=
  (deserialize source doc).bind fun text : Text => parse text.bytes

/-- A string that has its bytes is parsed. -/
theorem deserializeParsed_string {α : Type} {parse : Bytes → Option α} {source : Document.Source} {text : Text} {value : α}
    (parsed : parse text.bytes = some value) :
    deserializeParsed parse source (source.form (.string text)) = some value := by
  rw [Document.Source.form_string]
  exact parsed

section Encoded

variable [DataEncoding]

/-- The text of a store path. -/
def StorePath.text (path : StorePath) : Text := ⟨path.display, path.display_utf8, path.display_fits⟩

instance : Serde StorePath where
  serialize path := .string path.text
  deserialize := deserializeParsed StorePath.fromBytes

instance : SerdeKey StorePath :=
  ⟨StorePath.text, fun text => StorePath.fromBytes text.bytes, StorePath.fromBytes_display⟩

/-- A store path is read back. -/
theorem survives_storePath (source : Document.Source) (path : StorePath) : Survives source path :=
  deserializeParsed_string path.fromBytes_display

/-- Bytes that are ASCII and few are a text. -/
def asciiText (bytes : Bytes) (ascii : ∀ byte ∈ bytes, byte < 0x80) (small : bytes.length < 2 ^ 63) : Text :=
  ⟨bytes, Utf8.valid_of_ascii ascii, small⟩

section Sri

variable {H : Type} [CommonHash H]

/-- The symbols of base64 are ASCII. -/
theorem sriDisplay_ascii (hash : H) : ∀ byte ∈ sriDisplay hash, byte < 0x80 := by
  intro byte member
  rcases List.mem_append.mp member with name | rest
  · exact Algorithm.display_ascii _ byte name
  · rcases List.mem_cons.mp rest with rfl | digest
    · decide
    · have all : ∀ symbol ∈ base64Symbols ++ [base64Padding], symbol < 0x80 := by decide +kernel
      exact all byte (DataEncoding.base64.encode_symbols _ byte digest)

/-- An expression is short. -/
theorem sriDisplay_length (hash : H) : (sriDisplay hash).length < 2 ^ 63 := by
  have name := (Algorithm.display_length (CommonHash.algorithm hash)).2
  have digest : base64Len (CommonHash.algorithm hash).size ≤ 88 := by
    cases CommonHash.algorithm hash <;> decide
  rw [sriDisplay, List.length_append, List.length_cons, DataEncoding.base64.encode_length, digestBytes_length]
  omega

/-- `to_string` of an expression. -/
def sriText (hash : H) : Text := asciiText (sriDisplay hash) (sriDisplay_ascii hash) (sriDisplay_length hash)

end Sri

/-- `Deserialize for Hash`: the one format first, then any other. -/
def Hash.parse (s : Bytes) : Option Hash := (sriFromStr s).or (anyFromStr s)

instance : Serde Hash where
  serialize hash := .string (sriText hash)
  deserialize := deserializeParsed Hash.parse

/-- A hash is read back. -/
theorem survives_hash (source : Document.Source) (hash : Hash) : Survives source hash := by
  apply deserializeParsed_string
  show (sriFromStr (sriDisplay hash)).or _ = _
  rw [sriFromStr_sriDisplay]
  rfl

end Encoded

/-- The text of an algorithm. -/
def Algorithm.text (algorithm : Algorithm) : Text :=
  asciiText algorithm.display algorithm.display_ascii (by have := algorithm.display_length; omega)

instance : Serde Algorithm where
  serialize algorithm := .string algorithm.text
  deserialize := deserializeParsed Algorithm.fromStr

/-- An algorithm is read back. -/
theorem survives_algorithm (source : Document.Source) (algorithm : Algorithm) : Survives source algorithm :=
  deserializeParsed_string algorithm.fromStr_display

/-- The name of a method in JSON. -/
def ContentAddressMethod.jsonName : ContentAddressMethod → Text
  | .text => key "text"
  | .flat => key "flat"
  | .recursive => key "nar"

/-- A variant by its name. -/
def ContentAddressMethod.parse (s : Bytes) : Option ContentAddressMethod :=
  if s = asciiBytes "text" then some .text
  else if s = asciiBytes "flat" then some .flat
  else if s = asciiBytes "nar" then some .recursive
  else none

instance : Serde ContentAddressMethod where
  serialize method := .string method.jsonName
  deserialize := deserializeParsed ContentAddressMethod.parse

/-- A method is read back. -/
theorem survives_method (source : Document.Source) (method : ContentAddressMethod) : Survives source method := by
  apply deserializeParsed_string
  cases method <;> decide +kernel

/-- `ContentAddress::method`. -/
def ContentAddress.method : ContentAddress → ContentAddressMethod
  | .text _ => .text
  | .flat _ => .flat
  | .recursive _ => .recursive

/-- A content address is made again of its method and its hash. -/
theorem ContentAddress.fromHash_hash (ca : ContentAddress) : fromHash ca.method ca.hash = some ca := by
  cases ca with
  | text digest =>
    have same : Sha256.tryFrom digest.toHash = some digest := by
      show Sha256.fromSlice .sha256 digest.bytes = _
      rw [Sha256.fromSlice, if_neg (by decide), dif_pos digest.size]
    show (Sha256.tryFrom digest.toHash).map text = _
    rw [same]
    rfl
  | flat hash => rfl
  | recursive hash => rfl

section Addresses

variable [DataEncoding]

/-- `RawContentAddress`. -/
def ContentAddress.members (ca : ContentAddress) : List (Text × Option (Document Text)) :=
  [(key "method", some (serialize ca.method)), (key "hash", some (serialize ca.hash))]

/-- The content address of a `RawContentAddress`. -/
def ContentAddress.ofFields (source : Document.Source) (fields : List (Text × Document Text)) : Option ContentAddress := do
  let method ← required (key "method") (deserialize source) fields
  let hash ← required (key "hash") (deserialize source) fields
  ContentAddress.fromHash method hash

instance : Serde ContentAddress where
  serialize ca := .object (present ca.members)
  deserialize source := readObject (ContentAddress.ofFields source)

/-- A content address is read back. -/
theorem survives_contentAddress (source : Document.Source) (ca : ContentAddress) : Survives source ca := by
  have distinct : [key "method", key "hash"].Nodup := by decide +kernel
  obtain ⟨read, same, selected⟩ := @Document.Source.select_present _ _ _ _ _ source ca.members distinct
  have method := required_survives (@selected (key "method") (some (serialize ca.method))
    (by simp [ContentAddress.members])) (survives_method source ca.method)
  have hash := required_survives (@selected (key "hash") (some (serialize ca.hash))
    (by simp [ContentAddress.members])) (survives_hash source ca.hash)
  show readObject _ (source.form (.object (present _))) = _
  rw [same]
  show ContentAddress.ofFields source read = _
  rw [ContentAddress.ofFields, method, hash]
  exact ca.fromHash_hash

end Addresses

end Harmonia.Store
