import Harmonia.Store.Hash

/-!
# Signatures, derived paths and realisations

`signature.rs`, `derived_path/` and `realisation.rs`. A derived path names outputs of a
derivation, which may itself be an output of another one: its legacy format separates the levels
by `!` and the outputs of the last level by `,`. Output names and specifications that come from
JSON are not checked, so not every derived path is one that its text is parsed to.
-/

namespace Harmonia.Store

open Library

/-- `Signature`. -/
structure Signature where
  /-- `key_name`. -/
  keyName : Text
  /-- `sig`. -/
  sig : Bytes
  /-- `SIGNATURE_BYTES`. -/
  size : sig.length = 64
  deriving DecidableEq, Repr

instance : Ord Signature := ⟨compareLex (compareOn Signature.keyName) (compareOn Signature.sig)⟩

instance : Std.TransOrd Signature :=
  inferInstanceAs (Std.TransCmp (compareLex (compareOn Signature.keyName)
    (compareOn Signature.sig)))

/-- `OutputName`. -/
structure OutputName where
  /-- The name. -/
  text : Text
  deriving DecidableEq, Repr

instance : Ord OutputName := ⟨compareOn OutputName.text⟩

instance : Std.TransOrd OutputName := inferInstanceAs (Std.TransCmp (compareOn OutputName.text))

/-- `Default for OutputName`. -/
def OutputName.default : OutputName := ⟨⟨asciiBytes "out", by decide, by decide⟩⟩

/-- `OutputName::is_default`. -/
def OutputName.isDefault (name : OutputName) : Bool := name.text.bytes == asciiBytes "out"

/-- `FromStr for OutputName`. -/
def OutputName.fromStr (s : Bytes) : Option OutputName :=
  if name : IsName s then
    some ⟨⟨s, utf8_of_name name.symbols, Nat.lt_of_le_of_lt name.short (by decide)⟩⟩
  else none

/-- A name that would pass its own check. -/
def OutputName.Legal (name : OutputName) : Prop := IsName name.text.bytes

instance (name : OutputName) : Decidable name.Legal := inferInstanceAs (Decidable (IsName _))

/-- A legal output name is read back. -/
theorem OutputName.fromStr_text {name : OutputName} (legal : name.Legal) :
    fromStr name.text.bytes = some name := dif_pos legal

/-- What is read is a legal output name, and is the text. -/
theorem OutputName.fromStr_some {s : Bytes} {name : OutputName} (read : fromStr s = some name) :
    name.Legal ∧ name.text.bytes = s := by
  unfold fromStr at read
  split at read
  case isTrue ok =>
    cases read
    exact ⟨ok, rfl⟩
  case isFalse => cases read

/-- `OutputSpec`. -/
inductive OutputSpec where
  | all
  | named (names : BTreeSet OutputName)
  deriving DecidableEq

namespace OutputSpec

/-- `Display for OutputSpec`. -/
def display : OutputSpec → Bytes
  | all => [42]
  | named names => joined 44 (names.items.map fun name => name.text.bytes)

/-- `FromStr for OutputSpec`. -/
def fromStr (s : Bytes) : Option OutputSpec :=
  if s = [42] then some all
  else ((pieces 44 s).mapM OutputName.fromStr).map fun outputs => named (outputs.foldl .insert .empty)

/-- Some outputs, with legal names. -/
def Legal : OutputSpec → Prop
  | all => True
  | named names => names.items ≠ [] ∧ ∀ name ∈ names.items, name.Legal

instance (outputs : OutputSpec) : Decidable outputs.Legal :=
  match outputs with
  | all => inferInstanceAs (Decidable True)
  | named _ => inferInstanceAs (Decidable (_ ∧ _))

end OutputSpec

/-- Names that are read one by one. -/
theorem mapM_fromStr {names : List OutputName} (legal : ∀ name ∈ names, name.Legal) :
    (names.map fun name => name.text.bytes).mapM OutputName.fromStr = some names := by
  induction names with
  | nil => rfl
  | cons name rest ih =>
    have first := OutputName.fromStr_text (legal name List.mem_cons_self)
    have later := ih fun other member => legal other (List.mem_cons_of_mem _ member)
    rw [List.map_cons, List.mapM_cons, first, later]
    rfl

/-- Names that were read one by one. -/
theorem mapM_fromStr_some {pieces : List Bytes} {names : List OutputName}
    (read : pieces.mapM OutputName.fromStr = some names) :
    (∀ name ∈ names, name.Legal) ∧ pieces = names.map fun name => name.text.bytes := by
  induction pieces generalizing names with
  | nil =>
    cases read
    exact ⟨List.forall_mem_nil _, rfl⟩
  | cons piece rest ih =>
    rw [List.mapM_cons] at read
    obtain ⟨name, first, more⟩ := Option.bind_eq_some_iff.mp read
    obtain ⟨others, later, made⟩ := Option.bind_eq_some_iff.mp more
    cases made
    obtain ⟨legal, same⟩ := OutputName.fromStr_some first
    obtain ⟨allLegal, allSame⟩ := ih later
    refine ⟨List.forall_mem_cons.mpr ⟨legal, allLegal⟩, ?_⟩
    rw [List.map_cons, same, allSame]

/-- A legal output name holds no byte that may not stand in a name. -/
theorem OutputName.Legal.lacks {name : OutputName} (legal : name.Legal) {byte : UInt8}
    (foreign : isNameByte byte = false) : byte ∉ name.text.bytes := by
  intro member
  have symbol := legal.symbols byte member
  rw [foreign] at symbol
  cases symbol

/-- The separators of derived paths: they stand neither in names nor in lists of names. -/
structure Separator (sep : UInt8) : Prop where
  /-- Not in a name. -/
  foreign : isNameByte sep = false
  /-- Not between names. -/
  comma : sep ≠ 44
  /-- Not for all names. -/
  star : sep ≠ 42

/-- `!` separates. -/
theorem separator_legacy : Separator 33 := ⟨by decide, by decide, by decide⟩

/-- `^` separates. -/
theorem separator_caret : Separator 94 := ⟨by decide, by decide, by decide⟩

namespace OutputSpec

/-- A legal specification is read back. -/
theorem fromStr_display {outputs : OutputSpec} (legal : outputs.Legal) :
    fromStr outputs.display = some outputs := by
  cases outputs with
  | all => rfl
  | named names =>
    obtain ⟨some, allLegal⟩ := legal
    have split : pieces 44 (display (named names)) = names.items.map fun name => name.text.bytes := by
      apply pieces_joined
      · simpa using some
      · intro piece member
        obtain ⟨name, listed, rfl⟩ := List.mem_map.mp member
        exact (allLegal name listed).lacks (by decide)
    -- An asterisk would be the only piece, and no name is one.
    have notAll : display (named names) ≠ [42] := by
      intro star
      rw [star] at split
      have single : [[42]] = names.items.map fun name => name.text.bytes := split
      obtain ⟨name, listed, same⟩ := List.mem_map.mp (single ▸ List.mem_cons_self)
      have member : (42 : UInt8) ∈ name.text.bytes := by
        rw [same]
        exact List.mem_cons_self
      exact (allLegal name listed).lacks (by decide) member
    rw [fromStr, if_neg notAll, split, mapM_fromStr allLegal]
    show Option.some (named (names.items.foldl .insert .empty)) = _
    rw [BTreeSet.insert_ascending names.items .empty names rfl]

/-- What is read is a legal specification, and its text is no longer. -/
theorem fromStr_some {s : Bytes} {outputs : OutputSpec} (read : fromStr s = some outputs) :
    outputs.Legal ∧ outputs.display.length ≤ s.length := by
  unfold fromStr at read
  split at read
  case isTrue star =>
    cases read
    rw [star]
    exact ⟨trivial, Nat.le_refl _⟩
  case isFalse =>
    obtain ⟨names, found, made⟩ := Option.map_eq_some_iff.mp read
    cases made
    obtain ⟨legal, same⟩ := mapM_fromStr_some found
    have nonempty : names ≠ [] := by
      rintro rfl
      exact pieces_ne_nil 44 s same
    have some := BTreeSet.insert_all_ne_nil nonempty .empty
    refine ⟨⟨some, ?_⟩, ?_⟩
    · intro name member
      rcases BTreeSet.mem_insert_all member with before | listed
      · cases before
      · exact legal name listed
    · have weight := BTreeSet.insert_all_weight (fun name : OutputName => name.text.bytes.length + 1)
        names .empty
      have spreads := spread_pieces 44 s
      have joins := @joined_length UInt8 44
        ((names.foldl BTreeSet.insert BTreeSet.empty).items.map fun name => name.text.bytes)
        (by simpa using some)
      rw [same] at spreads
      simp only [spread, List.map_map, Function.comp_def] at spreads joins
      have nothing : ((BTreeSet.empty : BTreeSet OutputName).items.map fun name =>
        name.text.bytes.length + 1).sum = 0 := rfl
      show (joined 44 _).length ≤ _
      omega

/-- The outputs of a derived path are a text. -/
theorem display_utf8 (outputs : OutputSpec) : Utf8.Valid outputs.display := by
  have comma : Utf8.Valid [44] := by decide
  cases outputs with
  | all => decide
  | named names =>
    have inside : ∀ list : List OutputName,
        Utf8.Valid (joined 44 (list.map fun name => name.text.bytes)) := by
      intro list
      induction list with
      | nil => exact Utf8.valid_nil
      | cons name rest ih =>
        cases rest with
        | nil => exact name.text.utf8
        | cons second others => exact name.text.utf8.append (comma.append ih)
    exact inside names.items

/-- A legal specification holds no separator. -/
theorem Legal.free {outputs : OutputSpec} (legal : outputs.Legal) {sep : UInt8}
    (separator : Separator sep) : sep ∉ outputs.display := by
  cases outputs with
  | all => exact fun member => separator.star (List.mem_singleton.mp member)
  | named names =>
    have inside : ∀ list : List OutputName, (∀ name ∈ list, name.Legal) →
        sep ∉ joined 44 (list.map fun name => name.text.bytes) := by
      intro list allLegal
      induction list with
      | nil => exact List.not_mem_nil
      | cons name rest ih =>
        have first := (allLegal name List.mem_cons_self).lacks separator.foreign
        have later := ih fun other member => allLegal other (List.mem_cons_of_mem _ member)
        cases rest with
        | nil => exact first
        | cons second others =>
          intro member
          rcases List.mem_append.mp member with here | there
          · exact first here
          · rcases List.mem_cons.mp there with comma | further
            · exact separator.comma comma
            · exact later further
    exact inside names.items legal.2

end OutputSpec

/-- `SingleDerivedPath`. -/
inductive SingleDerivedPath where
  | built (drvPath : SingleDerivedPath) (output : OutputName)
  | opaquePath (path : StorePath)
  deriving DecidableEq, Repr

/-- `DerivedPath`. -/
inductive DerivedPath where
  | built (drvPath : SingleDerivedPath) (outputs : OutputSpec)
  | opaquePath (path : StorePath)
  deriving DecidableEq

/-- Legal names all the way down. -/
def SingleDerivedPath.Legal : SingleDerivedPath → Prop
  | built drvPath output => drvPath.Legal ∧ output.Legal
  | opaquePath _ => True

instance SingleDerivedPath.decidableLegal : (path : SingleDerivedPath) → Decidable path.Legal
  | built drvPath output =>
    have := decidableLegal drvPath
    inferInstanceAs (Decidable (drvPath.Legal ∧ output.Legal))
  | opaquePath _ => inferInstanceAs (Decidable True)

/-- Legal names all the way down, and some outputs. -/
def DerivedPath.Legal : DerivedPath → Prop
  | built drvPath outputs => drvPath.Legal ∧ outputs.Legal
  | opaquePath _ => True

instance (path : DerivedPath) : Decidable path.Legal :=
  match path with
  | .built drvPath outputs => inferInstanceAs (Decidable (drvPath.Legal ∧ outputs.Legal))
  | .opaquePath _ => inferInstanceAs (Decidable True)

/-- `DrvOutput`. -/
structure DrvOutput where
  /-- `drv_path`. -/
  drvPath : StorePath
  /-- `output_name`. -/
  outputName : OutputName
  deriving DecidableEq, Repr

instance : Ord DrvOutput :=
  ⟨compareLex (compareOn DrvOutput.drvPath) (compareOn DrvOutput.outputName)⟩

instance : Std.TransOrd DrvOutput :=
  inferInstanceAs (Std.TransCmp (compareLex (compareOn DrvOutput.drvPath)
    (compareOn DrvOutput.outputName)))

/-- `UnkeyedRealisation`. -/
structure UnkeyedRealisation where
  /-- `out_path`. -/
  outPath : StorePath
  /-- `signatures`. -/
  signatures : BTreeSet Signature
  deriving DecidableEq

instance : Ord UnkeyedRealisation :=
  ⟨compareLex (compareOn UnkeyedRealisation.outPath) (compareOn UnkeyedRealisation.signatures)⟩

instance : Std.TransOrd UnkeyedRealisation :=
  inferInstanceAs (Std.TransCmp (compareLex (compareOn UnkeyedRealisation.outPath)
    (compareOn UnkeyedRealisation.signatures)))

/-- `Realisation`. -/
structure Realisation where
  /-- `key`. -/
  key : DrvOutput
  /-- `value`. -/
  value : UnkeyedRealisation
  deriving DecidableEq

instance : Ord Realisation := ⟨compareLex (compareOn Realisation.key) (compareOn Realisation.value)⟩

instance : Std.TransOrd Realisation :=
  inferInstanceAs (Std.TransCmp (compareLex (compareOn Realisation.key)
    (compareOn Realisation.value)))

/-- What stands before the last separator is shorter than the whole. -/
theorem rsplitOnce_length {sep : UInt8} {s start last : Bytes}
    (split : rsplitOnce sep s = some (start, last)) : s.length = start.length + 1 + last.length := by
  obtain ⟨parts, found, made⟩ := Option.map_eq_some_iff.mp split
  obtain ⟨joins, -⟩ := splitOnce_some found
  have lengths := congrArg List.length joins
  cases made
  simp only [List.length_reverse, List.length_append, List.length_cons] at lengths ⊢
  omega

/-- How deep the calls of `from_str_sep` nest: it calls itself on what precedes the last separator before it
parses anything. -/
def nestedCalls (sep : UInt8) (s : Bytes) : Nat := s.count sep

/-- One call more is open than for what precedes the last separator. -/
theorem nestedCalls_split {sep : UInt8} {s start last : Bytes}
    (split : rsplitOnce sep s = some (start, last)) :
    nestedCalls sep s = nestedCalls sep start + 1 := by
  obtain ⟨parts, found, made⟩ := Option.map_eq_some_iff.mp split
  obtain ⟨joins, free⟩ := splitOnce_some found
  cases made
  have counts := congrArg (List.count sep) joins
  rw [List.count_reverse, List.count_append, List.count_cons_self, List.count_eq_zero_of_not_mem free] at counts
  rw [nestedCalls, nestedCalls, List.count_reverse]
  omega

/-- Without a separator there is no further call. -/
theorem nestedCalls_none {sep : UInt8} {s : Bytes} (free : sep ∉ s) : nestedCalls sep s = 0 :=
  List.count_eq_zero_of_not_mem free

section Texts

variable [DataEncoding]

/-- `Display for Signature`. -/
def Signature.display (signature : Signature) : Bytes :=
  signature.keyName.bytes ++ 58 :: DataEncoding.base64.encode signature.sig

/-- `FromStr for Signature`. A text up to an ASCII character is a text. -/
def Signature.fromStr (s : Bytes) : Option Signature :=
  match splitOnce 58 s with
  | some (name, sig) =>
    match Text.fromUtf8 name, DataEncoding.base64.decode sig with
    | some keyName, some bytes => if size : bytes.length = 64 then some ⟨keyName, bytes, size⟩ else none
    | _, _ => none
  | none => none

/-- `DisplaySep for SingleDerivedPath`. -/
def SingleDerivedPath.displaySep (sep : UInt8) : SingleDerivedPath → Bytes
  | built drvPath output => drvPath.displaySep sep ++ sep :: output.text.bytes
  | opaquePath path => path.display

/-- `FromStrSep for SingleDerivedPath`. -/
def SingleDerivedPath.fromStrSep (sep : UInt8) (s : Bytes) : Option SingleDerivedPath :=
  match _split : rsplitOnce sep s with
  | some (start, last) =>
    (fromStrSep sep start).bind fun drvPath => (OutputName.fromStr last).map (built drvPath)
  | none => (StorePath.fromBytes s).map opaquePath
termination_by s.length
decreasing_by
  have := rsplitOnce_length _split
  omega

/-- `DisplaySep for DerivedPath`. -/
def DerivedPath.displaySep (sep : UInt8) : DerivedPath → Bytes
  | built drvPath outputs => drvPath.displaySep sep ++ sep :: outputs.display
  | opaquePath path => path.display

/-- `FromStrSep for DerivedPath`. -/
def DerivedPath.fromStrSep (sep : UInt8) (s : Bytes) : Option DerivedPath :=
  match rsplitOnce sep s with
  | some (start, last) =>
    (SingleDerivedPath.fromStrSep sep start).bind fun drvPath =>
      (OutputSpec.fromStr last).map (built drvPath)
  | none => (StorePath.fromBytes s).map opaquePath

/-- A signature whose key name holds no colon is read back. -/
theorem Signature.fromStr_display {signature : Signature} (free : 58 ∉ signature.keyName.bytes) :
    fromStr signature.display = some signature := by
  rw [fromStr, display, splitOnce_append free]
  simp only [Text.fromUtf8_bytes, DataEncoding.base64.decode_encode]
  exact dif_pos signature.size

/-- What is read is a signature whose key name holds no colon, and its text is no longer. -/
theorem Signature.fromStr_some {s : Bytes} {signature : Signature}
    (read : fromStr s = some signature) :
    58 ∉ signature.keyName.bytes ∧ signature.display.length ≤ s.length := by
  unfold fromStr at read
  split at read
  case h_1 name sig split =>
    obtain ⟨joins, free⟩ := splitOnce_some split
    split at read
    case h_1 keyName bytes text decoded =>
      split at read
      case isTrue size =>
        cases read
        have same := Text.fromUtf8_some text
        have long := DataEncoding.base64.decode_length decoded
        refine ⟨same ▸ free, ?_⟩
        rw [joins, display, List.length_append, List.length_cons, List.length_append,
          List.length_cons, DataEncoding.base64.encode_length, same]
        dsimp only
        omega
      case isFalse => cases read
    case h_2 => cases read
  case h_2 => cases read

/-- A store path holds no separator. -/
theorem StorePath.display_free (path : StorePath) {sep : UInt8} (separator : Separator sep) :
    sep ∉ path.display := by
  intro member
  have symbol := path.display_symbols sep member
  rw [separator.foreign] at symbol
  cases symbol

/-- A legal path is read back from its text. -/
theorem SingleDerivedPath.fromStrSep_displaySep {path : SingleDerivedPath} (legal : path.Legal)
    {sep : UInt8} (separator : Separator sep) :
    fromStrSep sep (path.displaySep sep) = some path := by
  induction path with
  | built drvPath output ih =>
    have split := rsplitOnce_append (drvPath.displaySep sep) (legal.2.lacks separator.foreign)
    rw [fromStrSep, displaySep]
    split
    case h_1 start last found =>
      rw [split] at found
      cases found
      rw [ih legal.1, OutputName.fromStr_text legal.2]
      rfl
    case h_2 found =>
      rw [split] at found
      cases found
  | opaquePath path =>
    have whole := rsplitOnce_none (path.display_free separator)
    rw [fromStrSep, displaySep]
    split
    case h_1 found =>
      rw [whole] at found
      cases found
    case h_2 =>
      rw [StorePath.fromBytes_display]
      rfl

/-- What is read is legal, and its text is no longer. -/
theorem SingleDerivedPath.fromStrSep_some {sep : UInt8} {s : Bytes} {path : SingleDerivedPath}
    (read : fromStrSep sep s = some path) : path.Legal ∧ (path.displaySep sep).length ≤ s.length := by
  induction s using fromStrSep.induct sep generalizing path with
  | case1 s start last split ih =>
    rw [fromStrSep] at read
    split at read
    case h_1 start' last' split' =>
      rw [split] at split'
      cases split'
      obtain ⟨drvPath, first, more⟩ := Option.bind_eq_some_iff.mp read
      obtain ⟨output, found, made⟩ := Option.map_eq_some_iff.mp more
      cases made
      obtain ⟨legal, short⟩ := ih first
      obtain ⟨name, same⟩ := OutputName.fromStr_some found
      refine ⟨⟨legal, name⟩, ?_⟩
      rw [rsplitOnce_length split, displaySep, List.length_append, List.length_cons, same]
      omega
    case h_2 split' =>
      rw [split] at split'
      cases split'
  | case2 s split =>
    rw [fromStrSep] at read
    split at read
    case h_1 split' =>
      rw [split] at split'
      cases split'
    case h_2 =>
      obtain ⟨store, parsed, made⟩ := Option.map_eq_some_iff.mp read
      cases made
      exact ⟨trivial, Nat.le_of_eq (StorePath.fromBytes_some parsed)⟩

/-- A legal derived path is read back from its text. -/
theorem DerivedPath.fromStrSep_displaySep {path : DerivedPath} (legal : path.Legal) {sep : UInt8}
    (separator : Separator sep) : fromStrSep sep (path.displaySep sep) = some path := by
  cases path with
  | built drvPath outputs =>
    rw [fromStrSep, displaySep, rsplitOnce_append _ (legal.2.free separator)]
    show (SingleDerivedPath.fromStrSep sep _).bind _ = _
    rw [SingleDerivedPath.fromStrSep_displaySep legal.1 separator, OutputSpec.fromStr_display legal.2]
    rfl
  | opaquePath path =>
    rw [fromStrSep, displaySep, rsplitOnce_none (path.display_free separator), StorePath.fromBytes_display]
    rfl

/-- What is read is a legal derived path, and its text is no longer. -/
theorem DerivedPath.fromStrSep_some {sep : UInt8} {s : Bytes} {path : DerivedPath}
    (read : fromStrSep sep s = some path) : path.Legal ∧ (path.displaySep sep).length ≤ s.length := by
  unfold fromStrSep at read
  split at read
  case h_1 start last split =>
    obtain ⟨drvPath, first, more⟩ := Option.bind_eq_some_iff.mp read
    obtain ⟨outputs, found, made⟩ := Option.map_eq_some_iff.mp more
    cases made
    obtain ⟨legal, short⟩ := SingleDerivedPath.fromStrSep_some first
    obtain ⟨names, shorter⟩ := OutputSpec.fromStr_some found
    refine ⟨⟨legal, names⟩, ?_⟩
    rw [rsplitOnce_length split, displaySep, List.length_append, List.length_cons]
    omega
  case h_2 =>
    obtain ⟨store, parsed, made⟩ := Option.map_eq_some_iff.mp read
    cases made
    exact ⟨trivial, Nat.le_of_eq (StorePath.fromBytes_some parsed)⟩

/-- `to_legacy_format`. -/
def DerivedPath.toLegacyFormat (path : DerivedPath) : Bytes := path.displaySep 33

/-- `FromStoreDirStr for LegacyDerivedPath`. -/
def DerivedPath.fromLegacyStr (dir : StoreDir) (s : Bytes) : Option DerivedPath :=
  (dir.stripPrefix s).bind (DerivedPath.fromStrSep 33)

/-- A signature is a text. -/
theorem Signature.display_utf8 (signature : Signature) : Utf8.Valid signature.display := by
  have ascii : ∀ symbol ∈ base64Symbols ++ [base64Padding], symbol < 0x80 := by decide +kernel
  have colon : Utf8.Valid [58] := by decide
  have digits : Utf8.Valid (DataEncoding.base64.encode signature.sig) :=
    Utf8.valid_of_ascii fun symbol member =>
      ascii symbol (DataEncoding.base64.encode_symbols _ symbol member)
  exact signature.keyName.utf8.append (colon.append digits)

/-- A path below a derivation is a text. -/
theorem SingleDerivedPath.displaySep_utf8 (path : SingleDerivedPath) :
    Utf8.Valid (path.displaySep 33) := by
  have mark : Utf8.Valid [33] := by decide
  induction path with
  | built drvPath output ih => exact ih.append (mark.append output.text.utf8)
  | opaquePath path => exact path.display_utf8

/-- A derived path is a text. -/
theorem DerivedPath.toLegacyFormat_utf8 (path : DerivedPath) : Utf8.Valid path.toLegacyFormat := by
  have mark : Utf8.Valid [33] := by decide
  cases path with
  | built drvPath outputs => exact drvPath.displaySep_utf8.append (mark.append outputs.display_utf8)
  | opaquePath path => exact path.display_utf8

/-- A legal derived path is read back relative to a rooted store directory. -/
theorem DerivedPath.fromLegacyStr_display {dir : StoreDir} (rooted : dir.Rooted)
    {path : DerivedPath} (legal : path.Legal) :
    fromLegacyStr dir (dir.display path.toLegacyFormat) = some path := by
  rw [fromLegacyStr, StoreDir.stripPrefix_display rooted]
  exact fromStrSep_displaySep legal separator_legacy

/-- What is read relative to a store directory is a legal derived path, the directory is rooted,
and the text is no longer. -/
theorem DerivedPath.fromLegacyStr_some {dir : StoreDir} {s : Bytes} {path : DerivedPath}
    (read : fromLegacyStr dir s = some path) :
    dir.Rooted ∧ path.Legal ∧ (dir.display path.toLegacyFormat).length ≤ s.length := by
  obtain ⟨base, stripped, parsed⟩ := Option.bind_eq_some_iff.mp read
  obtain ⟨rooted, joins⟩ := StoreDir.stripPrefix_some stripped
  obtain ⟨legal, short⟩ := fromStrSep_some parsed
  refine ⟨rooted, legal, ?_⟩
  rw [joins, StoreDir.display, StoreDir.display, List.length_append, List.length_append,
    List.length_cons, List.length_cons]
  exact Nat.add_le_add_left (Nat.succ_le_succ short) _

end Texts

end Harmonia.Store
