import Harmonia.Cache.Serve
import Harmonia.Protocol.Values

/-!
# Narinfo files

`harmonia-cache/src/narinfo.rs`, and `fingerprint_path` of `signature.rs`. What is signed and what is
served are written separately from one path info; the served text is read back line by line, and what was
signed is made again of it.
-/

namespace Harmonia.Cache

open Library Harmonia.Store Harmonia.Protocol

section Narinfo

variable [DataEncoding]

/-! ## Fingerprints -/

/-- `FingerprintError`. -/
inductive FingerprintError where
  | invalidNarHashPrefix
  | invalidNarHashLength (length : Nat)
  deriving DecidableEq, Repr

/-- `to_string` of a number. -/
def decimal (number : UInt64) : Bytes := asciiBytes (Nat.repr number.toNat)

/-- `fingerprint_path`. -/
def fingerprintPath (storeDir : StoreDir) (storePath : StorePath) (narHash : Bytes) (narSize : UInt64)
    (references : BTreeSet StorePath) : Except FingerprintError Bytes :=
  if !(asciiBytes "sha256:").isPrefixOf narHash then .error .invalidNarHashPrefix
  else if narHash.length ≠ 59 then .error (.invalidNarHashLength narHash.length)
  else
    .ok (asciiBytes "1;" ++ storeDir.display storePath.display ++ 59 :: narHash ++ 59 :: decimal narSize ++
      59 :: joined 44 (references.items.map fun reference => storeDir.display reference.display))

/-- The bytes that separate are not in names. -/
theorem not_mem_display (path : StorePath) {byte : UInt8} (other : isNameByte byte = false) :
    byte ∉ path.display := by
  intro member
  have symbol := path.display_symbols byte member
  rw [other] at symbol
  cases symbol

omit [DataEncoding] in
/-- Decimal digits are no separators. -/
theorem decimal_free (number : UInt64) {byte : UInt8} (other : byte.toNat < 48 ∨ 57 < byte.toNat) :
    byte ∉ decimal number := by
  intro member
  have bounds := mem_decimal member
  omega

/-- Paths that are written the same are the same. -/
theorem display_inj {left right : StorePath} (same : left.display = right.display) : left = right := by
  have read := left.fromBytes_display
  rw [same, right.fromBytes_display] at read
  exact (Option.some.inj read).symm

/-- What is signed determines what it is about. -/
theorem fingerprintPath_inj {storeDir : StoreDir} {path path' : StorePath} {narHash narHash' : Bytes}
    {narSize narSize' : UInt64} {references references' : BTreeSet StorePath} {fingerprint : Bytes}
    (first : fingerprintPath storeDir path narHash narSize references = .ok fingerprint)
    (second : fingerprintPath storeDir path' narHash' narSize' references' = .ok fingerprint) :
    path = path' ∧ narHash = narHash' ∧ narSize = narSize' ∧ references = references' := by
  have written {path : StorePath} {narHash : Bytes} {narSize : UInt64} {references : BTreeSet StorePath}
      (made : fingerprintPath storeDir path narHash narSize references = .ok fingerprint) :
      narHash.length = 59 ∧ fingerprint = (asciiBytes "1;" ++ storeDir.text.bytes ++ [47]) ++ (path.display ++
        59 :: (narHash ++ 59 :: (decimal narSize ++ 59 ::
          joined 44 ((references.items.map StorePath.display).map ((storeDir.text.bytes ++ [47]) ++ ·))))) := by
    unfold fingerprintPath at made
    split at made
    · cases made
    · split at made
      · cases made
      · rename_i length
        cases made
        constructor
        · exact not_not.mp length
        · simp [StoreDir.display, List.map_map, Function.comp_def]
  obtain ⟨length, left⟩ := written first
  obtain ⟨length', right⟩ := written second
  have rest := List.append_cancel_left (left.symm.trans right)
  have semicolon : isNameByte 59 = false := by decide
  have comma : isNameByte 44 = false := by decide
  -- The path ends at the first semicolon, the hash after its length, and the size at the next semicolon.
  have atPath := congrArg (splitOnce 59) rest
  rw [splitOnce_append (not_mem_display path semicolon), splitOnce_append (not_mem_display path' semicolon)] at atPath
  obtain ⟨paths, rest⟩ := Prod.mk.inj (Option.some.inj atPath)
  obtain ⟨hashes, rest⟩ := List.append_inj rest (length.trans length'.symm)
  have atSize := congrArg (splitOnce 59) (List.cons.inj rest).2
  rw [splitOnce_append (decimal_free narSize (by decide)), splitOnce_append (decimal_free narSize' (by decide))]
    at atSize
  obtain ⟨sizes, rest⟩ := Prod.mk.inj (Option.some.inj atSize)
  refine ⟨display_inj paths, hashes, ?_, ?_⟩
  · have equal := congrArg decimalValue sizes
    rw [decimal, decimal, decimalValue_repr, decimalValue_repr] at equal
    exact UInt64.toNat_inj.mp equal
  · have free (set : BTreeSet StorePath) : ∀ piece ∈ set.items.map StorePath.display, (44 : UInt8) ∉ piece := by
      intro piece member
      obtain ⟨path, -, rfl⟩ := List.mem_map.mp member
      exact not_mem_display path comma
    have pieces := joined_start_inj (List.append_ne_nil_of_right_ne_nil _ (List.cons_ne_nil _ _)) (free references)
      (free references') rest
    exact BTreeSet.ext ((List.map_injective_iff.mpr fun _ _ => display_inj) pieces)

/-! ## Queries -/

/-- `SecretKey`: its name, and the signatures its key pair makes. -/
structure SecretKey where
  /-- `name`. -/
  name : Text
  /-- `key`, as what it signs with. -/
  key : Bytes → { sig : Bytes // sig.length = 64 }

/-- `SecretKey::sign`. -/
def SecretKey.sign (this : SecretKey) (data : Bytes) : Signature := ⟨this.name, (this.key data).1, (this.key data).2⟩

/-- `NarInfo`. -/
structure NarInfo where
  /-- `store_path`. -/
  storePath : Bytes
  /-- `url`. -/
  url : Bytes
  /-- `compression`. -/
  compression : Bytes
  /-- `nar_hash`. -/
  narHash : Bytes
  /-- `nar_size`. -/
  narSize : UInt64
  /-- `references`. -/
  references : List Bytes
  /-- `deriver`. -/
  deriver : Option Bytes
  /-- `sigs`. -/
  sigs : List Bytes
  /-- `ca`. -/
  ca : Option Bytes
  deriving DecidableEq

/-- `CacheError`, as far as it is told here. -/
inductive NarinfoError where
  /-- `QueryFailed`. -/
  | queryFailed
  /-- `Remote`. -/
  | remote
  /-- `InvalidUtf8`. -/
  | invalidUtf8
  /-- An error of `fingerprint_path`. -/
  | fingerprint (error : FingerprintError)
  deriving DecidableEq

/-- `Config`, as far as it is asked. -/
structure NarinfoConfig extends Config where
  /-- `secret_keys`. -/
  secretKeys : List SecretKey
  /-- `query_path_info`. -/
  queryPathInfo : StorePath → Option (Option UnkeyedValidPathInfo)

/-- `query_narinfo`. -/
def queryNarinfo (virtualNixStore : Bytes) (storePath : StorePath) (hash : Bytes) (signKeys : List SecretKey)
    (settings : NarinfoConfig) : Except NarinfoError (Option NarInfo) :=
  match settings.queryPathInfo storePath with
  | none => .error .remote
  | some none => .ok none
  | some (some pathInfo) =>
    let narHash := base32Display pathInfo.narHash
    let narHashBare := bareBase32Display pathInfo.narHash
    match Text.fromUtf8 virtualNixStore with
    | none => .error .invalidUtf8
    | some text =>
      match fingerprintPath ⟨text⟩ storePath narHash pathInfo.narSize pathInfo.references with
      | .error error => .error (.fingerprint error)
      | .ok fingerprint =>
        let sigs := signKeys.map fun sk => (sk.sign fingerprint).display
        .ok (some
          { storePath := virtualNixStore ++ 47 :: storePath.display
            url := asciiBytes "nar/" ++ narHashBare ++ asciiBytes ".nar?hash=" ++ hash
            compression := asciiBytes "none"
            narHash := narHash
            narSize := pathInfo.narSize
            references := pathInfo.references.items.map StorePath.display
            deriver := pathInfo.deriver.map StorePath.display
            sigs := if sigs.isEmpty then pathInfo.signatures.items.map Signature.display else sigs
            ca := pathInfo.ca.map ContentAddress.display })

/-- `push_line!`. -/
def pushLine (buf start value : Bytes) : Bytes := buf ++ start ++ value ++ [10]

omit [DataEncoding] in
/-- `format_narinfo_txt`. -/
def formatNarinfoTxt (narinfo : NarInfo) : Bytes :=
  let result := pushLine [] (asciiBytes "StorePath: ") narinfo.storePath
  let result := pushLine result (asciiBytes "URL: ") narinfo.url
  let result := pushLine result (asciiBytes "Compression: ") narinfo.compression
  let result := pushLine result (asciiBytes "FileHash: ") narinfo.narHash
  let result := pushLine result (asciiBytes "FileSize: ") (decimal narinfo.narSize)
  let result := pushLine result (asciiBytes "NarHash: ") narinfo.narHash
  let result := pushLine result (asciiBytes "NarSize: ") (decimal narinfo.narSize)
  let result := if narinfo.references.isEmpty then result
    else narinfo.references.foldl (fun result r => result ++ 32 :: r) (result ++ asciiBytes "References:") ++ [10]
  let result := match narinfo.deriver with
    | some drv => pushLine result (asciiBytes "Deriver: ") drv
    | none => result
  let result := narinfo.sigs.foldl (fun result sig => pushLine result (asciiBytes "Sig: ") sig) result
  match narinfo.ca with
  | some ca => pushLine result (asciiBytes "CA: ") ca
  | none => result

/-- `HttpResponse` of a narinfo. -/
inductive NarinfoResponse where
  /-- `missed hash`. -/
  | missedHash
  /-- The JSON of the narinfo. -/
  | json (narinfo : NarInfo)
  /-- The text, and the link in the header. -/
  | text (link body : Bytes)

/-- `get`. The virtual path of a store path is the path. -/
def getNarinfo (settings : NarinfoConfig) (hash : Bytes) (json : Bool) : Except NarinfoError NarinfoResponse :=
  match nixhash settings.toConfig hash with
  | .error _ => .error .queryFailed
  | .ok none => .ok .missedHash
  | .ok (some storePath) =>
    match queryNarinfo settings.store.virtualStore storePath hash settings.secretKeys settings with
    | .error error => .error error
    | .ok none => .ok .missedHash
    | .ok (some narinfo) =>
      if json then .ok (.json narinfo) else .ok (.text narinfo.url (formatNarinfoTxt narinfo))

/-! ## Reading a narinfo -/

/-- The keys of a narinfo. -/
inductive NarinfoKey where
  | storePath
  | url
  | compression
  | fileHash
  | fileSize
  | narHash
  | narSize
  | references
  | deriver
  | sig
  | ca
  deriving DecidableEq

/-- The name of a key. -/
def NarinfoKey.name : NarinfoKey → Bytes
  | storePath => asciiBytes "StorePath"
  | url => asciiBytes "URL"
  | compression => asciiBytes "Compression"
  | fileHash => asciiBytes "FileHash"
  | fileSize => asciiBytes "FileSize"
  | narHash => asciiBytes "NarHash"
  | narSize => asciiBytes "NarSize"
  | references => asciiBytes "References"
  | deriver => asciiBytes "Deriver"
  | sig => asciiBytes "Sig"
  | ca => asciiBytes "CA"

/-- A line. -/
def lineOf (field : NarinfoKey × Bytes) : Bytes := field.1.name ++ 58 :: 32 :: field.2

/-- The key and the value of a line. -/
def splitLine (line : Bytes) : Option (Bytes × Bytes) :=
  match splitOnce 58 line with
  | some (key, 32 :: value) => some (key, value)
  | _ => none

/-- The values of a key. -/
def valuesOf (key : NarinfoKey) (fields : List (Bytes × Bytes)) : List Bytes :=
  (fields.filter fun field => field.1 = key.name).map Prod.snd

/-- The value of a key that is there once. -/
def valueOf (key : NarinfoKey) (fields : List (Bytes × Bytes)) : Option Bytes :=
  match valuesOf key fields with
  | [value] => some value
  | _ => none

/-- The value of a key that may be there once. -/
def optionalOf (key : NarinfoKey) (fields : List (Bytes × Bytes)) : Option (Option Bytes) :=
  match valuesOf key fields with
  | [] => some none
  | [value] => some (some value)
  | _ => none

/-- The narinfo of keys and values. -/
def NarInfo.ofFields (fields : List (Bytes × Bytes)) : Option NarInfo := do
  let storePath ← valueOf .storePath fields
  let url ← valueOf .url fields
  let compression ← valueOf .compression fields
  let narHash ← valueOf .narHash fields
  let narSize ← valueOf .narSize fields
  let references ← optionalOf .references fields
  let deriver ← optionalOf .deriver fields
  let ca ← optionalOf .ca fields
  pure
    { storePath := storePath
      url := url
      compression := compression
      narHash := narHash
      narSize := .ofNat (decimalValue narSize)
      references := (references.map (pieces 32)).getD []
      deriver := deriver
      sigs := valuesOf .sig fields
      ca := ca }

/-- A text is read line by line. -/
def parseNarinfo (text : Bytes) : Option NarInfo :=
  ((pieces 10 text).dropLast.mapM splitLine).bind NarInfo.ofFields

/-- The string that a narinfo says was signed: its references are in the store directory. -/
def NarInfo.fingerprint (storeDir : StoreDir) (narinfo : NarInfo) : Bytes :=
  asciiBytes "1;" ++ narinfo.storePath ++ 59 :: narinfo.narHash ++ 59 :: decimal narinfo.narSize ++
    59 :: joined 44 (narinfo.references.map storeDir.display)

/-! ## The lines of a narinfo -/

section Lines

omit [DataEncoding]

/-- Keys have names of their own, without colons and line ends. -/
theorem NarinfoKey.name_inj {left right : NarinfoKey} : left.name = right.name ↔ left = right := by
  constructor
  · intro same
    revert same
    cases left <;> cases right <;> decide +kernel
  · exact congrArg name

/-- No name has a colon or a line end. -/
theorem NarinfoKey.name_free (key : NarinfoKey) : (58 : UInt8) ∉ key.name ∧ (10 : UInt8) ∉ key.name := by
  cases key <;> decide +kernel

/-- The lines of a narinfo. -/
def NarInfo.fields (narinfo : NarInfo) : List (NarinfoKey × Bytes) :=
  [(.storePath, narinfo.storePath), (.url, narinfo.url), (.compression, narinfo.compression),
    (.fileHash, narinfo.narHash), (.fileSize, decimal narinfo.narSize), (.narHash, narinfo.narHash),
    (.narSize, decimal narinfo.narSize)] ++
  ((if narinfo.references.isEmpty then [] else [joined 32 narinfo.references]).map (Prod.mk .references) ++
    (narinfo.deriver.toList.map (Prod.mk .deriver) ++
      (narinfo.sigs.map (Prod.mk .sig) ++ narinfo.ca.toList.map (Prod.mk .ca))))

/-- A line is pushed. -/
theorem pushLine_eq (buf : Bytes) (key : NarinfoKey) (value : Bytes) :
    pushLine buf (key.name ++ [58, 32]) value = buf ++ endedLines 10 [lineOf (key, value)] := by
  simp [pushLine, endedLines, lineOf]

/-- Lines are pushed one after the other. -/
theorem endedLines_append (before after : List Bytes) :
    endedLines 10 (before ++ after) = endedLines 10 before ++ endedLines 10 after := List.flatMap_append

/-- References are written behind spaces. -/
theorem foldl_references (references : List Bytes) (some : references ≠ []) (buf : Bytes) :
    references.foldl (fun result r => result ++ 32 :: r) buf = buf ++ 32 :: joined 32 references := by
  induction references generalizing buf with
  | nil => exact absurd rfl some
  | cons first others ih =>
    cases others with
    | nil => rfl
    | cons second rest =>
      rw [List.foldl_cons, ih (List.cons_ne_nil _ _), joined, List.append_assoc, List.cons_append]

/-- Signatures are written line by line. -/
theorem foldl_sigs (sigs : List Bytes) (buf : Bytes) :
    sigs.foldl (fun result sig => pushLine result (asciiBytes "Sig: ") sig) buf =
      buf ++ endedLines 10 ((sigs.map (Prod.mk .sig)).map lineOf) := by
  have start : asciiBytes "Sig: " = NarinfoKey.sig.name ++ [58, 32] := by decide +kernel
  induction sigs generalizing buf with
  | nil => exact (List.append_nil buf).symm
  | cons sig rest ih =>
    rw [List.foldl_cons, ih, start, pushLine_eq, List.append_assoc, ← endedLines_append]
    rfl

/-- A line that may be missing is pushed. -/
theorem pushOptional_eq (buf : Bytes) (key : NarinfoKey) (value : Option Bytes) :
    (match value with
      | some value => pushLine buf (key.name ++ [58, 32]) value
      | none => buf) = buf ++ endedLines 10 ((value.toList.map (Prod.mk key)).map lineOf) := by
  cases value with
  | none => exact (List.append_nil buf).symm
  | some value => exact pushLine_eq buf key value

/-- The line of the references is pushed. -/
theorem pushReferences_eq (buf : Bytes) (references : List Bytes) :
    (if references.isEmpty then buf
      else references.foldl (fun result r => result ++ 32 :: r) (buf ++ asciiBytes "References:") ++ [10]) =
      buf ++ endedLines 10 (((if references.isEmpty then [] else [joined 32 references]).map
        (Prod.mk .references)).map lineOf) := by
  have start : asciiBytes "References:" = NarinfoKey.references.name ++ [58] := by decide +kernel
  cases empty : references.isEmpty with
  | true => exact (List.append_nil buf).symm
  | false =>
    have some : references ≠ [] := by
      rintro rfl
      cases empty
    rw [if_neg nofun, if_neg nofun, start, foldl_references references some]
    simp [endedLines, lineOf]

/-- The text of a narinfo is its lines. -/
theorem formatNarinfoTxt_eq (narinfo : NarInfo) :
    formatNarinfoTxt narinfo = endedLines 10 (narinfo.fields.map lineOf) := by
  have storePath : asciiBytes "StorePath: " = NarinfoKey.storePath.name ++ [58, 32] := by decide +kernel
  have url : asciiBytes "URL: " = NarinfoKey.url.name ++ [58, 32] := by decide +kernel
  have compression : asciiBytes "Compression: " = NarinfoKey.compression.name ++ [58, 32] := by decide +kernel
  have fileHash : asciiBytes "FileHash: " = NarinfoKey.fileHash.name ++ [58, 32] := by decide +kernel
  have fileSize : asciiBytes "FileSize: " = NarinfoKey.fileSize.name ++ [58, 32] := by decide +kernel
  have narHash : asciiBytes "NarHash: " = NarinfoKey.narHash.name ++ [58, 32] := by decide +kernel
  have narSize : asciiBytes "NarSize: " = NarinfoKey.narSize.name ++ [58, 32] := by decide +kernel
  have deriver : asciiBytes "Deriver: " = NarinfoKey.deriver.name ++ [58, 32] := by decide +kernel
  have ca : asciiBytes "CA: " = NarinfoKey.ca.name ++ [58, 32] := by decide +kernel
  unfold formatNarinfoTxt
  simp only [storePath, url, compression, fileHash, fileSize, narHash, narSize, deriver, ca]
  rw [pushOptional_eq, foldl_sigs, pushOptional_eq, pushReferences_eq]
  simp only [pushLine_eq, ← endedLines_append, List.append_assoc, ← List.map_append]
  rfl

/-- Values of lines in a row. -/
theorem valuesOf_append (key : NarinfoKey) (before after : List (Bytes × Bytes)) :
    valuesOf key (before ++ after) = valuesOf key before ++ valuesOf key after := by
  rw [valuesOf, List.filter_append, List.map_append]
  rfl

/-- The values of lines of one key. -/
theorem valuesOf_map (key other : NarinfoKey) (values : List Bytes) :
    valuesOf key (values.map (Prod.mk other.name)) = if other = key then values else [] := by
  induction values with
  | nil => exact (ite_self _).symm
  | cons value rest ih =>
    rw [valuesOf, List.map_cons]
    by_cases same : other = key
    · rw [List.filter_cons_of_pos (by simp [same]), if_pos same, List.map_cons]
      rw [if_pos same] at ih
      exact congrArg (value :: ·) ih
    · rw [List.filter_cons_of_neg (by simp [NarinfoKey.name_inj, same]), if_neg same]
      rw [if_neg same] at ih
      exact ih

/-- The values of a line and of those behind it. -/
theorem valuesOf_cons (key other : NarinfoKey) (value : Bytes) (rest : List (Bytes × Bytes)) :
    valuesOf key ((other.name, value) :: rest) = (if other = key then [value] else []) ++ valuesOf key rest := by
  rw [← valuesOf_map key other [value], ← valuesOf_append]
  rfl

/-- A line is split at its first colon. -/
theorem splitLine_lineOf (field : NarinfoKey × Bytes) : splitLine (lineOf field) = some (field.1.name, field.2) := by
  rw [splitLine, lineOf, splitOnce_append field.1.name_free.1]
  rfl

/-- Lines are split one by one. -/
theorem mapM_splitLine (fields : List (NarinfoKey × Bytes)) :
    (fields.map lineOf).mapM splitLine = some (fields.map fun field => (field.1.name, field.2)) := by
  induction fields with
  | nil => rfl
  | cons field rest ih =>
    rw [List.map_cons, List.mapM_cons, splitLine_lineOf, ih]
    rfl

/-- A narinfo is made again of its keys and values if no reference has a space. -/
theorem NarInfo.ofFields_fields {narinfo : NarInfo} (free : ∀ reference ∈ narinfo.references, (32 : UInt8) ∉ reference) :
    NarInfo.ofFields (narinfo.fields.map fun field => (field.1.name, field.2)) = some narinfo := by
  obtain ⟨fields, same⟩ : ∃ fields, narinfo.fields.map (fun field => (field.1.name, field.2)) = fields := ⟨_, rfl⟩
  have values (key : NarinfoKey) : valuesOf key fields =
      (if .storePath = key then [narinfo.storePath] else []) ++ ((if .url = key then [narinfo.url] else []) ++
      ((if .compression = key then [narinfo.compression] else []) ++
      ((if .fileHash = key then [narinfo.narHash] else []) ++
      ((if .fileSize = key then [decimal narinfo.narSize] else []) ++
      ((if .narHash = key then [narinfo.narHash] else []) ++
      ((if .narSize = key then [decimal narinfo.narSize] else []) ++
      ((if .references = key then (if narinfo.references.isEmpty then [] else [joined 32 narinfo.references])
        else []) ++
      ((if .deriver = key then narinfo.deriver.toList else []) ++
      ((if .sig = key then narinfo.sigs else []) ++
      (if .ca = key then narinfo.ca.toList else [])))))))))) := by
    rw [← same]
    simp only [NarInfo.fields, List.map_append, List.map_cons, List.map_map, Function.comp_def,
      List.cons_append, List.nil_append, valuesOf_cons, valuesOf_append, valuesOf_map]
  have references : (optionalOf .references fields).map (fun value => (value.map (pieces 32)).getD []) =
      some narinfo.references := by
    rw [optionalOf, values]
    cases empty : narinfo.references.isEmpty with
    | true =>
      rw [List.isEmpty_iff.mp empty]
      rfl
    | false =>
      have some : narinfo.references ≠ [] := fun nothing => by simp [nothing] at empty
      show Option.some (pieces 32 (joined 32 narinfo.references)) = _
      rw [pieces_joined some free]
  have deriver : optionalOf .deriver fields = some narinfo.deriver := by
    rw [optionalOf, values]
    cases narinfo.deriver <;> rfl
  have ca : optionalOf .ca fields = some narinfo.ca := by
    rw [optionalOf, values]
    cases narinfo.ca <;> rfl
  have sigs : valuesOf .sig fields = narinfo.sigs := by
    rw [values]
    exact List.append_nil _
  have storePath : valueOf .storePath fields = some narinfo.storePath := by
    rw [valueOf, values]
    rfl
  have url : valueOf .url fields = some narinfo.url := by
    rw [valueOf, values]
    rfl
  have compression : valueOf .compression fields = some narinfo.compression := by
    rw [valueOf, values]
    rfl
  have narHash : valueOf .narHash fields = some narinfo.narHash := by
    rw [valueOf, values]
    rfl
  have narSize : valueOf .narSize fields = some (decimal narinfo.narSize) := by
    rw [valueOf, values]
    rfl
  have size : UInt64.ofNat (decimalValue (decimal narinfo.narSize)) = narinfo.narSize := by
    rw [decimal, decimalValue_repr, UInt64.ofNat_toNat]
  obtain ⟨read, found, kept⟩ := Option.map_eq_some_iff.mp references
  rw [same, NarInfo.ofFields, storePath, url, compression, narHash, narSize, found, deriver, ca, sigs]
  simp only [Option.bind_eq_bind, Option.bind_some, size, kept]
  rfl

/-- A narinfo is read back if no line has a line end and no reference has a space. -/
theorem parseNarinfo_formatNarinfoTxt {narinfo : NarInfo} (ended : ∀ field ∈ narinfo.fields, (10 : UInt8) ∉ field.2)
    (free : ∀ reference ∈ narinfo.references, (32 : UInt8) ∉ reference) :
    parseNarinfo (formatNarinfoTxt narinfo) = some narinfo := by
  have lines : ∀ line ∈ narinfo.fields.map lineOf, (10 : UInt8) ∉ line := by
    intro line member
    obtain ⟨field, listed, rfl⟩ := List.mem_map.mp member
    have name := field.1.name_free.2
    have value := ended field listed
    simp [lineOf, name, value]
  rw [parseNarinfo, formatNarinfoTxt_eq, pieces_endedLines lines, List.dropLast_concat, mapM_splitLine]
  exact NarInfo.ofFields_fields free

end Lines

/-! ## What is served -/

/-- What is checked of the symbols that are read: nothing else stands in a text that is decoded. -/
def SymbolsOnly : Prop :=
  ∀ {text bytes : Bytes}, DataEncoding.nixBase32.decode text = some bytes → ∀ byte ∈ text, byte ∈ base32Symbols

/-- A hash part that is read has no line end. -/
theorem decodeDigest_free (symbols : SymbolsOnly) {hash : Bytes} {digest : StorePathHash}
    (read : StorePathHash.decodeDigest hash = some digest) : (10 : UInt8) ∉ hash := by
  unfold StorePathHash.decodeDigest at read
  split at read
  · cases read
  · split at read
    · rename_i bytes decoded
      intro member
      have symbol := symbols decoded 10 (List.mem_reverse.mpr member)
      revert symbol
      decide
    · cases read

/-- A hash is written without line ends. -/
theorem base32Display_free {H : Type} [CommonHash H] (hash : H) : (10 : UInt8) ∉ base32Display hash := by
  intro member
  rcases List.mem_append.mp member with name | rest
  · revert name
    cases CommonHash.algorithm hash <;> decide +kernel
  · rcases List.mem_cons.mp rest with colon | digest
    · cases colon
    · have symbol := bareBase32Display_symbols hash 10 digest
      cases symbol

/-- So is a content address. -/
theorem ContentAddress.display_free (ca : ContentAddress) : (10 : UInt8) ∉ ca.display := by
  intro member
  cases ca with
  | text digest =>
    rcases List.mem_append.mp member with name | rest
    · revert name
      decide +kernel
    · exact base32Display_free digest rest
  | flat hash =>
    rcases List.mem_append.mp member with name | rest
    · revert name
      decide +kernel
    · exact base32Display_free hash rest
  | recursive hash =>
    rcases List.mem_append.mp member with name | rest
    · revert name
      decide +kernel
    · exact base32Display_free hash rest

/-- A signature has no end of a line if the name of its key has none. -/
theorem Signature.display_free {signature : Signature} (name : (10 : UInt8) ∉ signature.keyName.bytes) :
    (10 : UInt8) ∉ signature.display := by
  intro member
  rcases List.mem_append.mp member with inside | rest
  · exact name inside
  · rcases List.mem_cons.mp rest with colon | digits
    · cases colon
    · have symbol := DataEncoding.base64.encode_symbols _ 10 digits
      revert symbol
      decide +kernel

/-- A NAR hash can be signed. -/
theorem fingerprintPath_ok (storeDir : StoreDir) (storePath : StorePath) (narHash : NarHash) (narSize : UInt64)
    (references : BTreeSet StorePath) :
    ∃ fingerprint, fingerprintPath storeDir storePath (base32Display narHash) narSize references = .ok fingerprint := by
  have start : (asciiBytes "sha256:").isPrefixOf (base32Display narHash) = true := by
    have whole : base32Display narHash = asciiBytes "sha256:" ++ bareBase32Display narHash := rfl
    rw [whole]
    exact List.isPrefixOf_iff_prefix.mpr (List.prefix_append _ _)
  have length : (base32Display narHash).length = 59 := by
    rw [base32Display, List.length_append, List.length_cons, bareBase32Display_length]
    show Algorithm.sha256.display.length + (Base.nixBase32.inputLen Algorithm.sha256.size + 1) = 59
    decide +kernel
  rw [fingerprintPath, start, length, if_neg (by decide), if_neg (by decide)]
  exact ⟨_, rfl⟩

/-- The narinfo of a path info whose fingerprint is at hand. -/
def narinfoOf (virtualNixStore : Bytes) (storePath : StorePath) (hash : Bytes) (signKeys : List SecretKey)
    (pathInfo : UnkeyedValidPathInfo) (fingerprint : Bytes) : NarInfo :=
  let sigs := signKeys.map fun sk => (sk.sign fingerprint).display
  { storePath := virtualNixStore ++ 47 :: storePath.display
    url := asciiBytes "nar/" ++ bareBase32Display pathInfo.narHash ++ asciiBytes ".nar?hash=" ++ hash
    compression := asciiBytes "none"
    narHash := base32Display pathInfo.narHash
    narSize := pathInfo.narSize
    references := pathInfo.references.items.map StorePath.display
    deriver := pathInfo.deriver.map StorePath.display
    sigs := if sigs.isEmpty then pathInfo.signatures.items.map Signature.display else sigs
    ca := pathInfo.ca.map ContentAddress.display }

/-- A path info that is there is queried. -/
theorem queryNarinfo_ok {settings : NarinfoConfig} {storeDir : StoreDir} {storePath : StorePath}
    {pathInfo : UnkeyedValidPathInfo} (hash : Bytes) (signKeys : List SecretKey)
    (found : settings.queryPathInfo storePath = some (some pathInfo)) :
    ∃ fingerprint, fingerprintPath storeDir storePath (base32Display pathInfo.narHash) pathInfo.narSize
        pathInfo.references = .ok fingerprint ∧
      queryNarinfo storeDir.text.bytes storePath hash signKeys settings =
        .ok (some (narinfoOf storeDir.text.bytes storePath hash signKeys pathInfo fingerprint)) := by
  obtain ⟨fingerprint, made⟩ := fingerprintPath_ok storeDir storePath pathInfo.narHash pathInfo.narSize
    pathInfo.references
  refine ⟨fingerprint, made, ?_⟩
  rw [queryNarinfo, found]
  simp only [Text.fromUtf8_bytes, made]
  rfl

section Served

variable {storeDir : StoreDir} {storePath : StorePath} {hash : Bytes} {signKeys : List SecretKey}
  {pathInfo : UnkeyedValidPathInfo} {fingerprint : Bytes}

/-- No value of a narinfo has a line end. -/
theorem narinfoOf_free (dir : (10 : UInt8) ∉ storeDir.text.bytes) (request : (10 : UInt8) ∉ hash)
    (keys : ∀ key ∈ signKeys, (10 : UInt8) ∉ key.name.bytes)
    (stored : ∀ signature ∈ pathInfo.signatures.items, (10 : UInt8) ∉ signature.keyName.bytes) :
    ∀ field ∈ (narinfoOf storeDir.text.bytes storePath hash signKeys pathInfo fingerprint).fields,
      (10 : UInt8) ∉ field.2 := by
  have name (path : StorePath) : (10 : UInt8) ∉ path.display := not_mem_display path (by decide)
  have number : (10 : UInt8) ∉ decimal pathInfo.narSize := decimal_free _ (by decide)
  have digest := base32Display_free pathInfo.narHash
  have bare : (10 : UInt8) ∉ bareBase32Display pathInfo.narHash :=
    fun member => digest (List.mem_append_right _ (List.mem_cons_of_mem _ member))
  intro field member
  rcases List.mem_append.mp member with plain | member
  · have slash : (10 : UInt8) ∉ storeDir.text.bytes ++ 47 :: storePath.display := by
      simp [dir, name storePath]
    have url : (10 : UInt8) ∉ asciiBytes "nar/" ++ bareBase32Display pathInfo.narHash ++
        asciiBytes ".nar?hash=" ++ hash := by
      have start : (10 : UInt8) ∉ asciiBytes "nar/" ∧ (10 : UInt8) ∉ asciiBytes ".nar?hash=" := by decide +kernel
      simp [start, bare, request]
    have compression : (10 : UInt8) ∉ asciiBytes "none" := by decide +kernel
    simp only [narinfoOf, List.mem_cons, List.not_mem_nil, or_false] at plain
    rcases plain with rfl | rfl | rfl | rfl | rfl | rfl | rfl
    · exact slash
    · exact url
    · exact compression
    · exact digest
    · exact number
    · exact digest
    · exact number
  rcases List.mem_append.mp member with references | member
  · obtain ⟨value, listed, rfl⟩ := List.mem_map.mp references
    split at listed
    · cases listed
    · rw [List.mem_singleton.mp listed]
      apply joined_free (by decide)
      intro piece inside
      obtain ⟨path, -, rfl⟩ := List.mem_map.mp inside
      exact name path
  rcases List.mem_append.mp member with deriver | member
  · obtain ⟨value, listed, rfl⟩ := List.mem_map.mp deriver
    obtain ⟨path, -, rfl⟩ := Option.map_eq_some_iff.mp (Option.mem_toList.mp listed)
    exact name path
  rcases List.mem_append.mp member with sigs | ca
  · obtain ⟨value, listed, rfl⟩ := List.mem_map.mp sigs
    have cases : value ∈ pathInfo.signatures.items.map Signature.display ∨
        value ∈ signKeys.map fun sk => (sk.sign fingerprint).display := by
      revert listed
      show value ∈ (if (signKeys.map _).isEmpty then _ else _) → _
      split
      · exact .inl
      · exact .inr
    rcases cases with kept | signed
    · obtain ⟨signature, inside, rfl⟩ := List.mem_map.mp kept
      exact Signature.display_free (stored signature inside)
    · obtain ⟨key, inside, rfl⟩ := List.mem_map.mp signed
      exact @Signature.display_free _ (key.sign fingerprint) (keys key inside)
  · obtain ⟨value, listed, rfl⟩ := List.mem_map.mp ca
    obtain ⟨address, -, rfl⟩ := Option.map_eq_some_iff.mp (Option.mem_toList.mp listed)
    exact ContentAddress.display_free address

/-- What a narinfo says was signed is what was signed. -/
theorem narinfoOf_fingerprint (made : fingerprintPath storeDir storePath (base32Display pathInfo.narHash)
    pathInfo.narSize pathInfo.references = .ok fingerprint) :
    (narinfoOf storeDir.text.bytes storePath hash signKeys pathInfo fingerprint).fingerprint storeDir =
      fingerprint := by
  unfold fingerprintPath at made
  split at made
  · cases made
  · split at made
    · cases made
    · cases made
      simp [NarInfo.fingerprint, narinfoOf, StoreDir.display, List.map_map, Function.comp_def]

end Served

/-- A fingerprint determines what it is about. A narinfo that is served is read back from its text, unless a
key name or the store directory has a line end; what it says was signed is what was signed, and the keys of
the cache, when it has any, signed that. -/
theorem narinfo_binds (symbols : SymbolsOnly) :
    (∀ (storeDir : StoreDir) (path path' : StorePath) (narHash narHash' : Bytes) (narSize narSize' : UInt64)
      (references references' : BTreeSet StorePath) (fingerprint : Bytes),
      fingerprintPath storeDir path narHash narSize references = .ok fingerprint →
      fingerprintPath storeDir path' narHash' narSize' references' = .ok fingerprint →
      path = path' ∧ narHash = narHash' ∧ narSize = narSize' ∧ references = references') ∧
    ∀ (settings : NarinfoConfig) (storeDir : StoreDir) (hash : Bytes) (storePath : StorePath)
      (pathInfo : UnkeyedValidPathInfo),
      settings.store.virtualStore = storeDir.text.bytes → (10 : UInt8) ∉ storeDir.text.bytes →
      (∀ key ∈ settings.secretKeys, (10 : UInt8) ∉ key.name.bytes) →
      (∀ signature ∈ pathInfo.signatures.items, (10 : UInt8) ∉ signature.keyName.bytes) →
      nixhash settings.toConfig hash = .ok (some storePath) →
      settings.queryPathInfo storePath = some (some pathInfo) →
      ∃ narinfo fingerprint body,
        queryNarinfo settings.store.virtualStore storePath hash settings.secretKeys settings = .ok (some narinfo) ∧
        (getNarinfo settings hash false = .ok (.text narinfo.url body) ∧ body = formatNarinfoTxt narinfo) ∧
        parseNarinfo body = some narinfo ∧
        fingerprintPath storeDir storePath (base32Display pathInfo.narHash) pathInfo.narSize pathInfo.references =
          .ok fingerprint ∧
        narinfo.fingerprint storeDir = fingerprint ∧
        narinfo.sigs = if settings.secretKeys.isEmpty then pathInfo.signatures.items.map Signature.display
          else settings.secretKeys.map fun key => (key.sign fingerprint).display := by
  constructor
  · intro storeDir path path' narHash narHash' narSize narSize' references references' fingerprint first second
    exact fingerprintPath_inj first second
  · intro settings storeDir hash storePath pathInfo virtual dir keys stored asked found
    obtain ⟨fingerprint, made, queried⟩ := @queryNarinfo_ok _ settings storeDir storePath pathInfo hash
      settings.secretKeys found
    have request : (10 : UInt8) ∉ hash := by
      cases read : StorePathHash.decodeDigest hash with
      | none =>
        rw [nixhash, read] at asked
        cases asked
      | some digest => exact decodeDigest_free symbols read
    have spaces : ∀ reference ∈ pathInfo.references.items.map StorePath.display, (32 : UInt8) ∉ reference := by
      intro reference member
      obtain ⟨path, -, rfl⟩ := List.mem_map.mp member
      exact not_mem_display path (by decide)
    refine ⟨narinfoOf storeDir.text.bytes storePath hash settings.secretKeys pathInfo fingerprint, fingerprint, _,
      ?_, ⟨?_, rfl⟩, ?_, made, narinfoOf_fingerprint made, ?_⟩
    · exact virtual ▸ queried
    · rw [getNarinfo, asked]
      simp only [virtual, queried]
      rfl
    · exact parseNarinfo_formatNarinfoTxt (narinfoOf_free dir request keys stored) spaces
    · show (if (settings.secretKeys.map _).isEmpty then _ else _) = _
      rw [List.isEmpty_map]

end Narinfo

section Sample

attribute [local instance] Store.standard

/-- The crate reads nothing but symbols. -/
theorem symbolsOnly_standard : SymbolsOnly := by
  intro text bytes read
  change Standard.nixDecode text = some bytes at read
  unfold Standard.nixDecode at read
  split at read
  case h_1 digits found => exact mem_of_digitsOfSymbols found
  case h_2 => cases read

/-- A path of the store. -/
def servedPath : StorePath := ⟨.zero, ⟨asciiBytes "a", isName_letter⟩⟩

/-- What is known of it. -/
def servedInfo (dir : StoreDir) : UnkeyedValidPathInfo :=
  ⟨some servedPath, ⟨⟨List.replicate 32 0, Digest.zeros_length⟩⟩, .insert .empty servedPath, none, 120, true, .empty, none, dir⟩

/-- A cache of a store directory, with one key. -/
def servingIn (dir : StoreDir) : NarinfoConfig where
  store := ⟨dir.text.bytes, none⟩
  query _ := some (some servedPath)
  secretKeys := [⟨⟨asciiBytes "k", by decide +kernel, by decide +kernel⟩, fun _ => ⟨List.replicate 64 0, by decide⟩⟩]
  queryPathInfo _ := some (some (servedInfo dir))

/-- A narinfo of it is served and read back. -/
theorem narinfo_binds_served : ∃ narinfo body,
    getNarinfo (servingIn .default) servedPath.hash.display false = .ok (.text narinfo.url body) ∧
      parseNarinfo body = some narinfo := by
  have free : (10 : UInt8) ∉ StoreDir.default.text.bytes := by decide +kernel
  have keys : ∀ key ∈ (servingIn .default).secretKeys, (10 : UInt8) ∉ key.name.bytes := by
    intro key member
    cases List.mem_singleton.mp member
    decide +kernel
  have asked : nixhash (servingIn .default).toConfig servedPath.hash.display = .ok (some servedPath) := by
    rw [nixhash, StorePathHash.decodeDigest_display]
    rfl
  obtain ⟨narinfo, _, body, _, served, read, _⟩ := (narinfo_binds symbolsOnly_standard).2 (servingIn .default)
    .default servedPath.hash.display servedPath (servedInfo .default) rfl free keys nofun asked rfl
  exact ⟨narinfo, body, served.1, read⟩

/-- A store directory with a line end. -/
def brokenDir : StoreDir := ⟨⟨[47, 10], by decide, by decide⟩⟩

/-- The narinfo of a path in it is not read back, although the directory has no separator of fingerprints and
no key name has a line end. -/
theorem narinfo_of_broken_dir :
    ((59 : UInt8) ∉ brokenDir.text.bytes ∧ (44 : UInt8) ∉ brokenDir.text.bytes) ∧
      (∀ key ∈ (servingIn brokenDir).secretKeys, (10 : UInt8) ∉ key.name.bytes) ∧
      ∃ narinfo, queryNarinfo brokenDir.text.bytes servedPath servedPath.hash.display
          (servingIn brokenDir).secretKeys (servingIn brokenDir) = .ok (some narinfo) ∧
        parseNarinfo (formatNarinfoTxt narinfo) ≠ some narinfo := by
  refine ⟨by decide, ?_, ?_⟩
  · intro key member
    cases List.mem_singleton.mp member
    decide +kernel
  · obtain ⟨fingerprint, -, queried⟩ := @queryNarinfo_ok _ (servingIn brokenDir) brokenDir servedPath
      (servedInfo brokenDir) servedPath.hash.display (servingIn brokenDir).secretKeys rfl
    have missed : parseNarinfo (formatNarinfoTxt (narinfoOf brokenDir.text.bytes servedPath servedPath.hash.display
        (servingIn brokenDir).secretKeys (servedInfo brokenDir) [])) = none := by
      decide +kernel
    refine ⟨_, queried, ?_⟩
    -- The key of the sample signs everything alike.
    intro read
    cases missed.symm.trans read

end Sample

end Harmonia.Cache
