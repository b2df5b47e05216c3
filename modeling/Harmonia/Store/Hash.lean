import Harmonia.Store.Path

/-!
# Hashes and content addresses

`harmonia-utils-hash` and `store_path/content_address.rs`: digests, the three bases they are
written in, and the texts `<algorithm>:<digest>`, `text:…`, `fixed:…` and `fixed:r:…`. How long a
digest's text is decides how it is read, so the lengths of the three bases have to differ.
-/

namespace Harmonia.Store

open Library

/-- `Algorithm`. -/
inductive Algorithm where
  | md5
  | sha1
  | sha256
  | sha512
  deriving DecidableEq, Repr

namespace Algorithm

/-- `Algorithm::size`. -/
def size : Algorithm → Nat
  | md5 => 16
  | sha1 => 20
  | sha256 => 32
  | sha512 => 64

/-- `Display for Algorithm`. -/
def display : Algorithm → Bytes
  | md5 => asciiBytes "md5"
  | sha1 => asciiBytes "sha1"
  | sha256 => asciiBytes "sha256"
  | sha512 => asciiBytes "sha512"

/-- `to_ascii_lowercase` of a byte. -/
def toAsciiLowercase (byte : UInt8) : UInt8 := if 65 ≤ byte ∧ byte ≤ 90 then byte + 32 else byte

/-- `eq_ignore_ascii_case`. -/
def eqIgnoreAsciiCase (left right : Bytes) : Bool :=
  left.map toAsciiLowercase == right.map toAsciiLowercase

/-- `FromStr for Algorithm`. -/
def fromStr (s : Bytes) : Option Algorithm :=
  if eqIgnoreAsciiCase s (asciiBytes "sha256") then some sha256
  else if eqIgnoreAsciiCase s (asciiBytes "sha512") then some sha512
  else if eqIgnoreAsciiCase s (asciiBytes "sha1") then some sha1
  else if eqIgnoreAsciiCase s (asciiBytes "md5") then some md5
  else none

/-- An algorithm's name is read back. -/
@[simp] theorem fromStr_display (algorithm : Algorithm) :
    fromStr algorithm.display = some algorithm := by
  cases algorithm <;> decide

/-- An algorithm's name holds no colon. -/
theorem display_colon (algorithm : Algorithm) : 58 ∉ algorithm.display := by
  cases algorithm <;> decide

/-- An algorithm's name is ASCII. -/
theorem display_ascii (algorithm : Algorithm) : ∀ byte ∈ algorithm.display, byte < 0x80 := by
  cases algorithm <;> decide +kernel

/-- An algorithm's name is short. -/
theorem display_length (algorithm : Algorithm) :
    0 < algorithm.display.length ∧ algorithm.display.length ≤ 6 := by
  cases algorithm <;> decide

end Algorithm

/-- `Hash`. -/
structure Hash where
  /-- The algorithm. -/
  algorithm : Algorithm
  /-- The digest. -/
  bytes : Bytes
  /-- It has the algorithm's size. -/
  size : bytes.length = algorithm.size
  deriving DecidableEq, Repr

/-- `Sha256`. -/
structure Sha256 where
  /-- The digest. -/
  bytes : Bytes
  /-- Its size. -/
  size : bytes.length = Algorithm.sha256.size
  deriving DecidableEq, Repr

/-- `NarHash`. -/
structure NarHash where
  /-- The digest. -/
  sha256 : Sha256
  deriving DecidableEq, Repr

/-- `CommonHash`. -/
class CommonHash (H : Type) where
  /-- `from_slice`. -/
  fromSlice : Algorithm → Bytes → Option H
  /-- `implied_algorithm`. -/
  impliedAlgorithm : Option Algorithm
  /-- `algorithm`. -/
  algorithm : H → Algorithm
  /-- `digest_bytes`. -/
  digestBytes : H → Bytes
  /-- A digest has its algorithm's size. -/
  digestBytes_length : ∀ hash, (digestBytes hash).length = (algorithm hash).size
  /-- A hash is made of its own digest. -/
  fromSlice_digestBytes : ∀ hash, fromSlice (algorithm hash) (digestBytes hash) = some hash

export CommonHash (impliedAlgorithm digestBytes digestBytes_length fromSlice_digestBytes)

/-- `Hash::from_slice`. -/
def Hash.fromSlice (algorithm : Algorithm) (hash : Bytes) : Option Hash :=
  if size : hash.length = algorithm.size then some ⟨algorithm, hash, size⟩ else none

/-- `Sha256::from_slice`, for a digest of an algorithm. -/
def Sha256.fromSlice (algorithm : Algorithm) (hash : Bytes) : Option Sha256 :=
  if algorithm ≠ .sha256 then none
  else if size : hash.length = Algorithm.sha256.size then some ⟨hash, size⟩ else none

instance : CommonHash Hash where
  fromSlice := Hash.fromSlice
  impliedAlgorithm := none
  algorithm := Hash.algorithm
  digestBytes := Hash.bytes
  digestBytes_length := Hash.size
  fromSlice_digestBytes hash := by rw [Hash.fromSlice, dif_pos hash.size]

instance : CommonHash Sha256 where
  fromSlice := Sha256.fromSlice
  impliedAlgorithm := some .sha256
  algorithm _ := .sha256
  digestBytes := Sha256.bytes
  digestBytes_length := Sha256.size
  fromSlice_digestBytes hash := by
    rw [Sha256.fromSlice, if_neg (by decide), dif_pos hash.size]

instance : CommonHash NarHash where
  fromSlice algorithm hash := (Sha256.fromSlice algorithm hash).map NarHash.mk
  impliedAlgorithm := some .sha256
  algorithm _ := .sha256
  digestBytes hash := hash.sha256.bytes
  digestBytes_length hash := hash.sha256.size
  fromSlice_digestBytes hash := by
    rw [Sha256.fromSlice, if_neg (by decide), dif_pos hash.sha256.size]
    rfl

/-- `From<Sha256> for Hash`. -/
def Sha256.toHash (hash : Sha256) : Hash := ⟨.sha256, hash.bytes, hash.size⟩

/-- `TryFrom<Hash> for Sha256`. -/
def Sha256.tryFrom (hash : Hash) : Option Sha256 := Sha256.fromSlice hash.algorithm hash.bytes

/-- `Base`. -/
inductive Base where
  | hex
  | nixBase32
  | base64
  deriving DecidableEq, Repr

/-- `Base::input_len`. -/
def Base.inputLen : Base → Nat → Nat
  | hex, size => size * 2
  | nixBase32, size => encodeLen size
  | base64, size => base64Len size

/-- Two bases write a digest at two lengths. -/
theorem Base.inputLen_inj (algorithm : Algorithm) {base other : Base}
    (same : base.inputLen algorithm.size = other.inputLen algorithm.size) : base = other := by
  revert same
  cases base <;> cases other <;> cases algorithm <;> decide

/-- `ContentAddressMethodAlgorithm`. -/
inductive ContentAddressMethodAlgorithm where
  | text
  | flat (algorithm : Algorithm)
  | recursive (algorithm : Algorithm)
  deriving DecidableEq, Repr

/-- `ContentAddressMethod`. -/
inductive ContentAddressMethod where
  | text
  | flat
  | recursive
  deriving DecidableEq, Repr

/-- `ContentAddress`. -/
inductive ContentAddress where
  | text (digest : Sha256)
  | flat (hash : Hash)
  | recursive (hash : Hash)
  deriving DecidableEq, Repr

namespace ContentAddressMethodAlgorithm

/-- `Display for ContentAddressMethodAlgorithm`. -/
def display : ContentAddressMethodAlgorithm → Bytes
  | text => asciiBytes "text:sha256"
  | flat algorithm => algorithm.display
  | recursive algorithm => asciiBytes "r:" ++ algorithm.display

/-- `FromStr for ContentAddressMethodAlgorithm`. -/
def fromStr (s : Bytes) : Option ContentAddressMethodAlgorithm :=
  if s = asciiBytes "text:sha256" then some text
  else
    match stripPrefix (asciiBytes "r:") s with
    | some algo => (Algorithm.fromStr algo).map recursive
    | none => (Algorithm.fromStr s).map flat

/-- `ContentAddressMethodAlgorithm::method`. -/
def method : ContentAddressMethodAlgorithm → ContentAddressMethod
  | text => .text
  | flat _ => .flat
  | recursive _ => .recursive

/-- A method and algorithm is read back. -/
@[simp] theorem fromStr_display (value : ContentAddressMethodAlgorithm) :
    fromStr value.display = some value := by
  cases value with
  | text => decide +kernel
  | flat algorithm | recursive algorithm => cases algorithm <;> decide +kernel

/-- The text of a method and algorithm is ASCII. -/
theorem display_ascii (value : ContentAddressMethodAlgorithm) :
    ∀ byte ∈ value.display, byte < 0x80 := by
  cases value with
  | text => decide +kernel
  | flat algorithm | recursive algorithm => cases algorithm <;> decide +kernel

/-- The text of a method and algorithm is short, and never empty. -/
theorem display_length (value : ContentAddressMethodAlgorithm) :
    0 < value.display.length ∧ value.display.length ≤ 11 := by
  cases value with
  | text => decide +kernel
  | flat algorithm | recursive algorithm => cases algorithm <;> decide +kernel

end ContentAddressMethodAlgorithm

section Texts

variable [DataEncoding]

/-- `decode_for_base`. -/
def Base.decode : Base → Bytes → Option Bytes
  | hex => DataEncoding.hexDecode
  | nixBase32 => base32Decode
  | base64 => DataEncoding.base64.decode

section Formats

variable {H : Type} [CommonHash H]

/-- `parse_with_base`. -/
def parseWithBase (algorithm : Algorithm) (s : Bytes) (base : Base) : Option H :=
  if s.length ≠ base.inputLen algorithm.size then none
  else
    match base.decode s with
    | some hash =>
      if hash.length ≠ algorithm.size then none else CommonHash.fromSlice algorithm hash
    | none => none

/-- `Any::parse`, which is `NonSRI::parse` too. -/
def parseAny (algorithm : Algorithm) (s : Bytes) : Option H :=
  if s.length = Base.hex.inputLen algorithm.size then parseWithBase algorithm s .hex
  else if s.length = Base.nixBase32.inputLen algorithm.size then
    parseWithBase algorithm s .nixBase32
  else if s.length = Base.base64.inputLen algorithm.size then parseWithBase algorithm s .base64
  else none

/-- `FromStr for NonSRI`. -/
def nonSriFromStr (s : Bytes) : Option H :=
  match splitOnce 58 s with
  | some (start, rest) => (Algorithm.fromStr start).bind fun algorithm => parseAny algorithm rest
  | none => (impliedAlgorithm H).bind fun algorithm => parseAny algorithm s

/-- `FromStr for Bare<Any>`. -/
def bareFromStr (s : Bytes) : Option H :=
  (impliedAlgorithm H).bind fun algorithm => parseAny algorithm s

/-- `FromStr for Base32`. -/
def base32FromStr (s : Bytes) : Option H :=
  match splitOnce 58 s with
  | some (start, rest) =>
    (Algorithm.fromStr start).bind fun algorithm => parseWithBase algorithm rest .nixBase32
  | none => none

/-- `Display for Bare<Base32>`. -/
def bareBase32Display (hash : H) : Bytes := base32Encode (digestBytes hash)

/-- `Display for Base32`. -/
def base32Display (hash : H) : Bytes :=
  (CommonHash.algorithm hash).display ++ 58 :: bareBase32Display hash

/-- `Display for Bare<Base16>`. -/
def bareBase16Display (hash : H) : Bytes := lowerHex (digestBytes hash)

/-- A text that is decoded to a digest is read as the hash. -/
theorem parseWithBase_of_decode {base : Base} {s : Bytes} {hash : H}
    (length : s.length = base.inputLen (CommonHash.algorithm hash).size)
    (decoded : base.decode s = some (digestBytes hash)) :
    parseWithBase (CommonHash.algorithm hash) s base = some hash := by
  rw [parseWithBase, if_neg fun other => other length, decoded]
  dsimp only
  rw [if_neg fun other => other (digestBytes_length hash), fromSlice_digestBytes]

/-- What the decoder of one base reads is what `Any` reads. -/
theorem parseAny_of_parseWithBase {algorithm : Algorithm} {s : Bytes} {base : Base} {hash : H}
    (read : parseWithBase algorithm s base = some hash) : parseAny algorithm s = some hash := by
  have length : s.length = base.inputLen algorithm.size := by
    by_contra other
    rw [parseWithBase, if_pos other] at read
    cases read
  have apart {other : Base} (different : base ≠ other) : s.length ≠ other.inputLen algorithm.size :=
    fun same => different (Base.inputLen_inj algorithm (length.symm.trans same))
  rw [parseAny]
  cases base with
  | hex => rw [if_pos length, read]
  | nixBase32 => rw [if_neg (apart (by decide)), if_pos length, read]
  | base64 => rw [if_neg (apart (by decide)), if_neg (apart (by decide)), if_pos length, read]

/-- A digest in Nix base32 has its length. -/
@[simp] theorem bareBase32Display_length (hash : H) :
    (bareBase32Display hash).length = Base.nixBase32.inputLen (CommonHash.algorithm hash).size := by
  rw [bareBase32Display, base32Encode_length, digestBytes_length]
  rfl

/-- A digest in Nix base32 consists of bytes of names. -/
theorem bareBase32Display_symbols (hash : H) :
    ∀ byte ∈ bareBase32Display hash, isNameByte byte = true := by
  intro byte member
  exact isNameByte_base32 (base32Encode_symbols _ byte member)

/-- A digest in Nix base32 is read back. -/
theorem parseAny_bareBase32Display (hash : H) :
    parseAny (CommonHash.algorithm hash) (bareBase32Display hash) = some hash := by
  have decoded : Base.nixBase32.decode (bareBase32Display hash) = some (digestBytes hash) :=
    base32Decode_base32Encode _
  exact parseAny_of_parseWithBase (parseWithBase_of_decode (bareBase32Display_length hash) decoded)

/-- A digest in base16 is read back. -/
theorem parseAny_bareBase16Display (hash : H) :
    parseAny (CommonHash.algorithm hash) (bareBase16Display hash) = some hash := by
  have length : (bareBase16Display hash).length = Base.hex.inputLen (CommonHash.algorithm hash).size := by
    rw [bareBase16Display, lowerHex_length, digestBytes_length]
    rfl
  have decoded : Base.hex.decode (bareBase16Display hash) = some (digestBytes hash) :=
    DataEncoding.hexDecode_lowerHex _
  exact parseAny_of_parseWithBase (parseWithBase_of_decode length decoded)

/-- A digest behind the name of its algorithm is read back. -/
@[simp] theorem nonSriFromStr_base32Display (hash : H) :
    nonSriFromStr (base32Display hash) = some hash := by
  rw [nonSriFromStr, base32Display, splitOnce_append (Algorithm.display_colon _)]
  show (Algorithm.fromStr _).bind _ = _
  rw [Algorithm.fromStr_display]
  exact parseAny_bareBase32Display hash

/-- A digest behind the name of its algorithm is ASCII. -/
theorem base32Display_ascii (hash : H) : ∀ byte ∈ base32Display hash, byte < 0x80 := by
  intro byte member
  rcases List.mem_append.mp member with name | rest
  · exact Algorithm.display_ascii _ byte name
  · rcases List.mem_cons.mp rest with rfl | digest
    · decide
    · exact (isNameByte_cases (bareBase32Display_symbols hash byte digest)).1

/-- A digest behind the name of its algorithm is short. -/
theorem base32Display_length (hash : H) : (base32Display hash).length ≤ 110 := by
  have name := (Algorithm.display_length (CommonHash.algorithm hash)).2
  have digest : Base.nixBase32.inputLen (CommonHash.algorithm hash).size ≤ 103 := by
    cases CommonHash.algorithm hash <;> decide
  rw [base32Display, List.length_append, List.length_cons, bareBase32Display_length]
  omega

/-- Without the name of an algorithm a text is not read as Nix base32. -/
theorem base32FromStr_bareBase32Display (hash : H) :
    (base32FromStr (bareBase32Display hash) : Option H) = none := by
  have free : 58 ∉ bareBase32Display hash := by
    intro member
    have symbol := bareBase32Display_symbols hash 58 member
    revert symbol
    decide
  rw [base32FromStr, splitOnce_none free]

end Formats

namespace ContentAddress

/-- `Display for ContentAddress`. -/
def display : ContentAddress → Bytes
  | text digest => asciiBytes "text:" ++ base32Display digest
  | flat hash => asciiBytes "fixed:" ++ base32Display hash
  | recursive hash => asciiBytes "fixed:r:" ++ base32Display hash

/-- `FromStr for ContentAddress`. -/
def fromStr (s : Bytes) : Option ContentAddress :=
  match stripPrefix (asciiBytes "text:") s with
  | some hash => (nonSriFromStr hash).map text
  | none =>
    match stripPrefix (asciiBytes "fixed:r:") s with
    | some hash => (nonSriFromStr hash).map recursive
    | none =>
      match stripPrefix (asciiBytes "fixed:") s with
      | some hash => (nonSriFromStr hash).map flat
      | none => none

/-- `ContentAddress::method_algorithm`. -/
def methodAlgorithm : ContentAddress → ContentAddressMethodAlgorithm
  | text _ => .text
  | flat hash => .flat hash.algorithm
  | recursive hash => .recursive hash.algorithm

/-- `ContentAddress::hash`. -/
def hash : ContentAddress → Hash
  | text digest => digest.toHash
  | flat hash => hash
  | recursive hash => hash

/-- `ContentAddress::from_hash`. -/
def fromHash (method : ContentAddressMethod) (hash : Hash) : Option ContentAddress :=
  match method with
  | .text => (Sha256.tryFrom hash).map text
  | .flat => some (flat hash)
  | .recursive => some (recursive hash)

/-- A content address is read back. -/
@[simp] theorem fromStr_display (address : ContentAddress) :
    fromStr address.display = some address := by
  cases address with
  | text digest =>
    rw [fromStr, display, stripPrefix_append]
    simp only [nonSriFromStr_base32Display, Option.map_some]
  | recursive hash =>
    have notText : stripPrefix (asciiBytes "text:")
        (asciiBytes "fixed:r:" ++ base32Display hash) = none := rfl
    rw [fromStr, display, notText]
    simp only [stripPrefix_append, nonSriFromStr_base32Display, Option.map_some]
  | flat hash =>
    have notText : stripPrefix (asciiBytes "text:")
        (asciiBytes "fixed:" ++ base32Display hash) = none := rfl
    -- No algorithm's name starts with the `r` of the recursive form.
    have notRecursive : stripPrefix (asciiBytes "fixed:r:")
        (asciiBytes "fixed:" ++ base32Display hash) = none := by
      obtain ⟨algorithm, bytes, size⟩ := hash
      cases algorithm <;> rfl
    rw [fromStr, display, notText]
    simp only [notRecursive, stripPrefix_append, nonSriFromStr_base32Display, Option.map_some]

/-- A content address is ASCII. -/
theorem display_ascii (address : ContentAddress) : ∀ byte ∈ address.display, byte < 0x80 := by
  have joined {start rest : Bytes} (first : ∀ byte ∈ start, byte < 0x80)
      (later : ∀ byte ∈ rest, byte < 0x80) : ∀ byte ∈ start ++ rest, byte < 0x80 :=
    List.forall_mem_append.mpr ⟨first, later⟩
  cases address with
  | text digest => exact joined (by decide +kernel) (base32Display_ascii digest)
  | flat hash => exact joined (by decide +kernel) (base32Display_ascii hash)
  | recursive hash => exact joined (by decide +kernel) (base32Display_ascii hash)

/-- A content address is short, and never empty. -/
theorem display_length (address : ContentAddress) :
    0 < address.display.length ∧ address.display.length ≤ 118 := by
  have joined {start rest : Bytes} (low : 0 < start.length) (high : start.length ≤ 8)
      (short : rest.length ≤ 110) :
      0 < (start ++ rest).length ∧ (start ++ rest).length ≤ 118 := by
    rw [List.length_append]
    omega
  cases address with
  | text digest => exact joined (by decide) (by decide) (base32Display_length digest)
  | flat hash => exact joined (by decide) (by decide) (base32Display_length hash)
  | recursive hash => exact joined (by decide) (by decide) (base32Display_length hash)

end ContentAddress

/-- A NAR hash is read back. -/
@[simp] theorem NarHash.bareFromStr_display (hash : NarHash) :
    bareFromStr (bareBase16Display hash) = some hash := parseAny_bareBase16Display hash

end Texts

/-- A written NAR hash is ASCII. -/
theorem NarHash.display_ascii (hash : NarHash) : ∀ byte ∈ bareBase16Display hash, byte < 0x80 := by
  intro byte member
  have all : ∀ symbol ∈ hexSymbols, symbol < 0x80 := by decide +kernel
  exact all byte (lowerHex_symbols _ byte member)

/-- A written NAR hash has sixty-four bytes. -/
theorem NarHash.display_length (hash : NarHash) : (bareBase16Display hash).length = 64 := by
  rw [bareBase16Display, lowerHex_length, digestBytes_length]
  rfl

end Harmonia.Store
