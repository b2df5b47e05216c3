import Harmonia.Library.Ordered
import Harmonia.Store.Encoding

/-!
# Store paths

`store_path/path.rs` and `store_path/store_dir.rs`: the store directory, the hash part and the
name part of a store path, how a path is written below a store directory and how it is parsed
relative to one. Of a parse error the model keeps that there is one.
-/

namespace Harmonia.Store

open Library

/-- A `String`. An allocation has at most `isize::MAX` bytes. -/
structure Text where
  /-- Its bytes. -/
  bytes : Bytes
  /-- They are UTF-8. -/
  utf8 : Utf8.Valid bytes
  /-- They fit into memory. -/
  small : bytes.length < 2 ^ 63
  deriving DecidableEq, Repr

/-- `bytes::Bytes`, which is `ByteString`, `DaemonString` and `DaemonPath`. -/
structure ByteString where
  /-- Its bytes. -/
  bytes : Bytes
  /-- They fit into memory. -/
  small : bytes.length < 2 ^ 63
  deriving DecidableEq, Repr

/-- Nothing fits into memory. -/
theorem ByteString.nil_small : ([] : Bytes).length < 2 ^ 63 := by decide

/-- `into_bytes`. -/
def Text.toByteString (text : Text) : ByteString := ⟨text.bytes, text.small⟩

instance : Ord Text := ⟨compareOn Text.bytes⟩

instance : Std.TransOrd Text := inferInstanceAs (Std.TransCmp (compareOn Text.bytes))

instance : Ord ByteString := ⟨compareOn ByteString.bytes⟩

instance : Std.TransOrd ByteString := inferInstanceAs (Std.TransCmp (compareOn ByteString.bytes))

/-- `from_utf8`. -/
def Text.fromUtf8 (bytes : Bytes) : Option Text :=
  if ok : Utf8.Valid bytes ∧ bytes.length < 2 ^ 63 then some ⟨bytes, ok.1, ok.2⟩ else none

/-- The bytes of a text are read as the text. -/
@[simp] theorem Text.fromUtf8_bytes (text : Text) : Text.fromUtf8 text.bytes = some text := by
  rw [Text.fromUtf8, dif_pos ⟨text.utf8, text.small⟩]

/-- What is read as a text is its bytes. -/
theorem Text.fromUtf8_some {bytes : Bytes} {text : Text} (read : fromUtf8 bytes = some text) :
    text.bytes = bytes := by
  unfold fromUtf8 at read
  split at read
  case isTrue =>
    cases read
    rfl
  case isFalse => cases read

/-- The bytes `matches!` accepts in `NAME_LOOKUP`. -/
def isNameByte (byte : UInt8) : Bool :=
  (97 ≤ byte && byte ≤ 122) || (65 ≤ byte && byte ≤ 90) || (48 ≤ byte && byte ≤ 57) ||
    (asciiBytes "+-_?=.").contains byte

/-- `MAX_NAME_LEN`. -/
def maxNameLen : Nat := 211

/-- What `into_name` accepts. -/
structure IsName (bytes : Bytes) : Prop where
  nonempty : bytes ≠ []
  short : bytes.length ≤ maxNameLen
  symbols : ∀ byte ∈ bytes, isNameByte byte = true

instance (bytes : Bytes) : Decidable (IsName bytes) :=
  decidable_of_iff
    (bytes ≠ [] ∧ bytes.length ≤ maxNameLen ∧ bytes.all isNameByte = true)
    ⟨fun all => ⟨all.1, all.2.1, List.all_eq_true.mp all.2.2⟩,
      fun all => ⟨all.nonempty, all.short, List.all_eq_true.mpr all.symbols⟩⟩

/-- Bytes of names are ASCII, and none of the separators. -/
theorem isNameByte_cases {byte : UInt8} (name : isNameByte byte = true) :
    byte < 0x80 ∧ byte ≠ 33 ∧ byte ≠ 44 ∧ byte ≠ 47 ∧ byte ≠ 58 ∧ byte ≠ 94 ∧ byte ≠ 42 := by
  simp only [isNameByte, asciiBytes, Bool.or_eq_true, Bool.and_eq_true, decide_eq_true_eq,
    List.contains_iff_mem] at name
  rcases name with ((⟨low, high⟩ | ⟨low, high⟩) | ⟨low, high⟩) | listed
  · refine ⟨?_, ?_, ?_, ?_, ?_, ?_, ?_⟩ <;> grind
  · refine ⟨?_, ?_, ?_, ?_, ?_, ?_, ?_⟩ <;> grind
  · refine ⟨?_, ?_, ?_, ?_, ?_, ?_, ?_⟩ <;> grind
  · have all : ∀ byte ∈ asciiBytes "+-_?=.", byte < 0x80 ∧ byte ≠ 33 ∧ byte ≠ 44 ∧ byte ≠ 47 ∧
        byte ≠ 58 ∧ byte ≠ 94 ∧ byte ≠ 42 := by
      decide +kernel
    exact all byte listed

/-- Bytes of names are a text. -/
theorem utf8_of_name {bytes : Bytes} (name : ∀ byte ∈ bytes, isNameByte byte = true) :
    Utf8.Valid bytes :=
  Utf8.valid_of_ascii fun byte member => (isNameByte_cases (name byte member)).1

/-- `StorePathHash`. -/
structure StorePathHash where
  /-- The digest. -/
  bytes : Bytes
  /-- `STORE_PATH_HASH_SIZE`. -/
  size : bytes.length = 20
  deriving DecidableEq, Repr

/-- The digest of zeros. -/
def StorePathHash.zero : StorePathHash := ⟨List.replicate 20 0, by decide +kernel⟩

/-- `StorePathName`. -/
structure StorePathName where
  /-- The name. -/
  bytes : Bytes
  /-- It passed `into_name`. -/
  name : IsName bytes
  deriving DecidableEq, Repr

/-- A name of one letter. -/
theorem isName_letter : IsName (asciiBytes "a") := by decide +kernel

/-- `StorePath`. -/
structure StorePath where
  /-- The hash part. -/
  hash : StorePathHash
  /-- The name part. -/
  name : StorePathName
  deriving DecidableEq, Repr

/-- `impl Ord for StorePathHash` compares from the last byte. -/
instance : Ord StorePathHash := ⟨compareOn fun hash => hash.bytes.reverse⟩

instance : Std.TransOrd StorePathHash :=
  inferInstanceAs (Std.TransCmp (compareOn fun hash : StorePathHash => hash.bytes.reverse))

instance : Ord StorePathName := ⟨compareOn StorePathName.bytes⟩

instance : Std.TransOrd StorePathName :=
  inferInstanceAs (Std.TransCmp (compareOn StorePathName.bytes))

instance : Ord StorePath := ⟨compareLex (compareOn StorePath.hash) (compareOn StorePath.name)⟩

instance : Std.TransOrd StorePath :=
  inferInstanceAs (Std.TransCmp (compareLex (compareOn StorePath.hash) (compareOn StorePath.name)))

/-- `StoreDir`. -/
structure StoreDir where
  /-- `to_str`. -/
  text : Text
  deriving DecidableEq, Repr

/-- `StoreDir::default`. -/
def StoreDir.default : StoreDir := ⟨⟨asciiBytes "/nix/store", by decide, by decide⟩⟩

/-- `StorePathName::try_from`. -/
def StorePathName.tryFrom (bytes : Bytes) : Option StorePathName :=
  if name : IsName bytes then some ⟨bytes, name⟩ else none

/-- `StoreDir::strip_prefix`. -/
def StoreDir.stripPrefix (dir : StoreDir) (s : Bytes) : Option Bytes :=
  if s.head? ≠ some 47 then none
  else
    match Library.stripPrefix dir.text.bytes s with
    | some (slash :: name) => if slash = 47 then some name else none
    | _ => none

/-- `StoreDirDisplay`: a base name below the store directory. -/
def StoreDir.display (dir : StoreDir) (base : Bytes) : Bytes := dir.text.bytes ++ 47 :: base

/-- A store directory below which paths are absolute: the empty one, which stands for the root,
and those that start with a slash. -/
def StoreDir.Rooted (dir : StoreDir) : Prop :=
  dir.text.bytes = [] ∨ dir.text.bytes.head? = some 47

instance (dir : StoreDir) : Decidable dir.Rooted := inferInstanceAs (Decidable (_ ∨ _))

/-- The symbols of Nix base32 may stand in names. -/
theorem isNameByte_base32 {byte : UInt8} (symbol : byte ∈ base32Symbols) :
    isNameByte byte = true := by
  have all : ∀ byte ∈ base32Symbols, isNameByte byte = true := by decide +kernel
  exact all byte symbol

/-- A path below a rooted store directory is parsed relative to it. -/
theorem StoreDir.stripPrefix_display {dir : StoreDir} (rooted : dir.Rooted) (base : Bytes) :
    dir.stripPrefix (dir.display base) = some base := by
  have absolute : (dir.display base).head? = some 47 := by
    rw [display]
    cases rooted with
    | inl none => rw [none]; rfl
    | inr slash =>
      rw [List.head?_append, slash]
      rfl
  rw [stripPrefix, if_neg (by simp [absolute]), display, stripPrefix_append]
  rfl

/-- A path below a relative store directory is not parsed. -/
theorem StoreDir.stripPrefix_display_none {dir : StoreDir} (relative : ¬ dir.Rooted)
    (base : Bytes) : dir.stripPrefix (dir.display base) = none := by
  have notAbsolute : (dir.display base).head? ≠ some 47 := by
    intro slash
    apply relative
    rw [display, List.head?_append] at slash
    cases start : dir.text.bytes with
    | nil => exact .inl start
    | cons first rest =>
      right
      rw [start] at slash ⊢
      exact slash
  rw [stripPrefix, if_pos notAbsolute]

/-- What is parsed relative to a store directory lies below it, and the directory is rooted. -/
theorem StoreDir.stripPrefix_some {dir : StoreDir} {s base : Bytes}
    (parsed : dir.stripPrefix s = some base) : dir.Rooted ∧ s = dir.display base := by
  unfold stripPrefix at parsed
  split at parsed
  case isTrue => cases parsed
  case isFalse absolute =>
    split at parsed
    case h_1 slash name found =>
      split at parsed
      case isTrue same =>
        cases parsed
        have joins := Library.stripPrefix_some found
        rw [same] at joins
        refine ⟨?_, joins⟩
        -- The text starts with a slash, which is the directory's unless that is empty.
        rw [joins, List.head?_append] at absolute
        cases start : dir.text.bytes with
        | nil => exact .inl start
        | cons first rest =>
          right
          rw [start] at absolute ⊢
          exact Decidable.of_not_not absolute
      case isFalse => cases parsed
    case h_2 => cases parsed

/-- A path below a store directory is a text. -/
theorem StoreDir.display_utf8 (dir : StoreDir) {base : Bytes} (text : Utf8.Valid base) :
    Utf8.Valid (dir.display base) := by
  have slash : Utf8.Valid [47] := by decide
  exact dir.text.utf8.append (slash.append text)

section Paths

variable [DataEncoding]

/-- `Display for StorePathHash`. -/
def StorePathHash.display (hash : StorePathHash) : Bytes := base32Encode hash.bytes

/-- `StorePathHash::decode_digest`. -/
def StorePathHash.decodeDigest (data : Bytes) : Option StorePathHash :=
  if data.length ≠ encodeLen 20 then none
  else
    match base32Decode data with
    | some bytes => if size : bytes.length = 20 then some ⟨bytes, size⟩ else none
    | none => none

/-- `Display for StorePath`. -/
def StorePath.display (path : StorePath) : Bytes := path.hash.display ++ 45 :: path.name.bytes

/-- `StorePath::from_bytes`. -/
def StorePath.fromBytes (buf : Bytes) : Option StorePath :=
  if buf.length < encodeLen 20 + 1 then none
  else if buf[encodeLen 20]? ≠ some 45 then none
  else
    match StorePathHash.decodeDigest (buf.take (encodeLen 20)),
      StorePathName.tryFrom (buf.drop (encodeLen 20 + 1)) with
    | some hash, some name => some ⟨hash, name⟩
    | _, _ => none

/-- `FromStoreDirStr for StorePath`. -/
def StorePath.fromStoreDirStr (dir : StoreDir) (s : Bytes) : Option StorePath :=
  (dir.stripPrefix s).bind StorePath.fromBytes

/-- A written hash part has thirty-two bytes. -/
@[simp] theorem StorePathHash.display_length (hash : StorePathHash) :
    hash.display.length = encodeLen 20 := by
  rw [display, base32Encode_length, hash.size]

/-- The text of a store path fits into memory. -/
theorem StorePath.display_fits (path : StorePath) : path.display.length < 2 ^ 63 := by
  have short : path.name.bytes.length ≤ 211 := path.name.name.short
  have width : path.hash.display.length = 32 := path.hash.display_length
  rw [StorePath.display, List.length_append, List.length_cons]
  omega

/-- A written hash part consists of bytes of names. -/
theorem StorePathHash.display_symbols (hash : StorePathHash) :
    ∀ byte ∈ hash.display, isNameByte byte = true := by
  intro byte member
  exact isNameByte_base32 (base32Encode_symbols hash.bytes byte member)

/-- A written hash part is read back. -/
@[simp] theorem StorePathHash.decodeDigest_display (hash : StorePathHash) :
    decodeDigest hash.display = some hash := by
  rw [decodeDigest, if_neg (by simp), display, base32Decode_base32Encode]
  exact dif_pos hash.size

/-- A written store path consists of bytes of names. -/
theorem StorePath.display_symbols (path : StorePath) :
    ∀ byte ∈ path.display, isNameByte byte = true := by
  intro byte member
  rcases List.mem_append.mp member with hash | rest
  · exact path.hash.display_symbols byte hash
  · rcases List.mem_cons.mp rest with rfl | name
    · decide
    · exact path.name.name.symbols byte name

/-- A written store path is read back. -/
@[simp] theorem StorePath.fromBytes_display (path : StorePath) :
    fromBytes path.display = some path := by
  have length : path.display.length = encodeLen 20 + 1 + path.name.bytes.length := by
    rw [display, List.length_append, StorePathHash.display_length, List.length_cons]
    omega
  have hash : path.display.take (encodeLen 20) = path.hash.display := by
    rw [display, ← path.hash.display_length, List.take_left]
  have dash : path.display[encodeLen 20]? = some 45 := by
    rw [display, List.getElem?_append_right (by simp), StorePathHash.display_length, Nat.sub_self]
    rfl
  have name : path.display.drop (encodeLen 20 + 1) = path.name.bytes := by
    rw [display, ← path.hash.display_length, List.drop_append]
    simp
  have made : StorePathName.tryFrom path.name.bytes = some path.name := by
    rw [StorePathName.tryFrom, dif_pos path.name.name]
  rw [fromBytes, if_neg (by omega), if_neg (by simp [dash]), hash, name, made,
    StorePathHash.decodeDigest_display]

/-- What is parsed as a store path has the length of the path. -/
theorem StorePath.fromBytes_some {buf : Bytes} {path : StorePath}
    (parsed : fromBytes buf = some path) : path.display.length = buf.length := by
  unfold fromBytes at parsed
  split at parsed
  case isTrue => cases parsed
  case isFalse long =>
    split at parsed
    case isTrue => cases parsed
    case isFalse =>
      split at parsed
      case h_1 hash name _ made =>
        cases parsed
        unfold StorePathName.tryFrom at made
        split at made
        case isTrue =>
          cases made
          rw [display, List.length_append, StorePathHash.display_length, List.length_cons,
            List.length_drop]
          omega
        case isFalse => cases made
      case h_2 => cases parsed

/-- A store path is a text. -/
theorem StorePath.display_utf8 (path : StorePath) : Utf8.Valid path.display :=
  utf8_of_name path.display_symbols

/-- A store path is read back relative to a rooted store directory. -/
theorem StorePath.fromStoreDirStr_display {dir : StoreDir} (rooted : dir.Rooted)
    (path : StorePath) : fromStoreDirStr dir (dir.display path.display) = some path := by
  rw [fromStoreDirStr, StoreDir.stripPrefix_display rooted]
  exact path.fromBytes_display

/-- A store path below a relative store directory is refused. -/
theorem StorePath.fromStoreDirStr_display_none {dir : StoreDir} (relative : ¬ dir.Rooted)
    (path : StorePath) : fromStoreDirStr dir (dir.display path.display) = none := by
  rw [fromStoreDirStr, StoreDir.stripPrefix_display_none relative]
  rfl

end Paths

end Harmonia.Store
