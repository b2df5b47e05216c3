import Harmonia.Store.Path

/-!
# Nix base32

`base32.rs`. Five bits make a symbol; `data_encoding` writes the lowest bits first, and the text is
turned round. A byte string is the number whose lowest byte comes first: its text is that number in
base 32, highest digit first. So texts of one length are in the order of the numbers, and a text is
read exactly if it is one that is written.
-/

namespace Harmonia.Store

open Library

/-- `decode_len_internal`. -/
def decodeLenInternal (len : Nat) : Nat × Nat :=
  let trail := len * 5 % 8
  (len - trail / 5, 5 * len / 8)

/-- `base32::decode_len`, which panics for lengths that nothing is written with. -/
def decodeLen (len : Nat) : Option Nat :=
  let (ilen, olen) := decodeLenInternal len
  if ilen ≠ len then none else some olen

/-- `DecodeKind`. -/
inductive DecodeKind where
  | length
  | symbol
  | trailing
  | padding
  deriving DecidableEq, Repr

/-- `DecodePartial`, with its `DecodeError`. -/
structure DecodePartial where
  /-- `read`. -/
  read : Nat
  /-- `written`. -/
  written : Nat
  /-- `error.position`. -/
  position : Nat
  /-- `error.kind`. -/
  kind : DecodeKind
  deriving DecidableEq, Repr

/-- `data_encoding::Encoding`, of which `NIX_BASE32` is one. -/
structure Encoding where
  /-- `encode`. -/
  encode : Bytes → Bytes
  /-- `decode_mut` into a slice of the right length. -/
  decode : Bytes → Except DecodePartial Bytes

namespace Encoding

variable (nixBase32 : Encoding)

/-- `base32::encode_string`. -/
def encodeString (input : Bytes) : Bytes := (nixBase32.encode input).reverse

/-- `base32::encode_mut` into a slice of a length, which panics unless that is the length of the
text. -/
def encodeMut (input : Bytes) (output : Nat) : Option Bytes :=
  let encoded := nixBase32.encode input
  if output ≠ encoded.length then none else some encoded.reverse

/-- `base32::decode_mut` into a slice of a length, which panics unless that is the one for the text. -/
def decodeMut (input : Bytes) (output : Nat) : Option (Except DecodePartial Bytes) :=
  let reversed := input.reverse
  if decodeLen reversed.length ≠ some output then none
  else
    match nixBase32.decode reversed with
    | .ok bytes => some (.ok bytes)
    | .error err =>
      -- The subtractions are in range.
      if input.length < err.position + 1 then none
      else
        let adjustedPos := input.length - err.position - 1
        some (.error ⟨adjustedPos / 8 * 8, adjustedPos / 8 * 5, adjustedPos, err.kind⟩)

end Encoding

/-- Writing as it is documented: the symbols of five bits each, lowest first. -/
structure LeastSignificantFirst (encode : Bytes → Bytes) : Prop where
  /-- As many symbols are written as the bits need. -/
  length : ∀ bytes, (encode bytes).length = encodeLen bytes.length
  /-- A symbol stands for the five bits at its place. -/
  bits : ∀ (bytes : Bytes) {place : Nat}, place < encodeLen bytes.length →
    (encode bytes)[place]? = some (symbolOf base32Symbols (leValue bytes / 2 ^ (5 * place) % 32))

/-- Reading as it is documented: bits that are left over are checked, and an error says where it is. -/
structure ChecksTrailing (decode : Bytes → Except DecodePartial Bytes) : Prop where
  /-- A text of symbols is read as the bytes with those bits, when no bit is left over. -/
  bits : ∀ (text bytes : Bytes), decode text = .ok bytes ↔
    ∃ digits, digitsOfSymbols base32Symbols text = some digits ∧
      decodeLen text.length = some bytes.length ∧ leValue bytes = valueOf 32 digits
  /-- The position of an error is a place of the text. -/
  position : ∀ {text : Bytes} {len : Nat} {err : DecodePartial}, decodeLen text.length = some len →
    decode text = .error err → err.position < text.length

/-! ## Numbers and texts -/

/-- Every digit of Nix base32 is found again. -/
theorem base32_readable : Readable base32Symbols 32 := by decide

/-- The value of bytes is that of their digits. -/
theorem leValue_eq (bytes : Bytes) : leValue bytes = valueOf 256 (bytes.map UInt8.toNat) := by
  induction bytes with
  | nil => rfl
  | cons byte rest ih => rw [leValue, List.map_cons, valueOf, ih]

/-- The bits of bytes fill as many symbols as are written. -/
theorem leValue_room (bytes : Bytes) : leValue bytes < 32 ^ encodeLen bytes.length := by
  have bits : 8 * bytes.length ≤ 5 * encodeLen bytes.length := by
    unfold encodeLen
    omega
  calc leValue bytes < 256 ^ bytes.length := leValue_lt bytes
    _ = 2 ^ (8 * bytes.length) := by rw [Nat.pow_mul]
    _ ≤ 2 ^ (5 * encodeLen bytes.length) := Nat.pow_le_pow_right (by decide) bits
    _ = 32 ^ encodeLen bytes.length := by rw [Nat.pow_mul]

/-- Symbols are in the order of their digits. -/
theorem symbolOf_order {digit digit' : Nat} (below : digit < 32) (below' : digit' < 32) :
    compare (symbolOf base32Symbols digit) (symbolOf base32Symbols digit') = compare digit digit' := by
  have all : ∀ low < 32, ∀ high < 32,
      compare (symbolOf base32Symbols low) (symbolOf base32Symbols high) = compare low high := by
    decide +kernel
  exact all digit below digit' below'

/-- Bytes are in the order of their numbers. -/
theorem toNat_order (byte other : UInt8) : compare byte.toNat other.toNat = compare byte other := by
  show compareOfLessAndEq byte.toNat other.toNat = compareOfLessAndEq byte other
  unfold compareOfLessAndEq
  simp only [UInt8.lt_iff_toNat_lt, UInt8.toNat_inj]

/-- As many bytes, read from the last one, are in the order of their numbers. -/
theorem compare_reverse {left right : Bytes} (same : left.length = right.length) :
    compare left.reverse right.reverse = compare (leValue left) (leValue right) := by
  have small (bytes : Bytes) : ∀ digit ∈ bytes.map UInt8.toNat, digit < 256 := by
    intro digit member
    obtain ⟨byte, _, rfl⟩ := List.mem_map.mp member
    exact byte.toNat_lt
  rw [leValue_eq, leValue_eq,
    ← compare_digits (by rw [List.length_map, List.length_map, same]) (small left) (small right),
    ← List.map_reverse, ← List.map_reverse, compare_map fun byte _ other _ => toNat_order byte other]

/-- The lengths that are accepted leave less than a symbol over. -/
theorem decodeLen_eq_some {len olen : Nat} :
    decodeLen len = some olen ↔ len * 5 % 8 < 5 ∧ olen = len * 5 / 8 := by
  have small : len * 5 % 8 < 8 := Nat.mod_lt _ (by decide)
  have shape : decodeLen len = if len - len * 5 % 8 / 5 ≠ len then none else some (5 * len / 8) := rfl
  by_cases room : len * 5 % 8 < 5
  · have whole : len - len * 5 % 8 / 5 = len := by omega
    rw [shape, if_neg fun wrong => wrong whole, Option.some.injEq]
    constructor
    · rintro rfl
      exact ⟨room, by rw [Nat.mul_comm]⟩
    · rintro ⟨_, rfl⟩
      rw [Nat.mul_comm]
  · have short : len - len * 5 % 8 / 5 ≠ len := by omega
    rw [shape, if_pos short]
    constructor
    · rintro ⟨⟩
    · rintro ⟨less, _⟩
      exact absurd less room

/-- The lengths that are written are accepted. -/
theorem decodeLen_encodeLen (len : Nat) : decodeLen (encodeLen len) = some len := by
  apply decodeLen_eq_some.mpr
  obtain ⟨extra, few, filled⟩ : ∃ extra < 5, encodeLen len * 5 = len * 8 + extra :=
    ⟨encodeLen len * 5 - len * 8, by unfold encodeLen; omega, by unfold encodeLen; omega⟩
  rw [filled]
  clear filled
  omega

/-- An accepted length is the one that is written for its bytes. -/
theorem encodeLen_decodeLen {len olen : Nat} (accepted : decodeLen len = some olen) :
    encodeLen olen = len := by
  obtain ⟨room, rfl⟩ := decodeLen_eq_some.mp accepted
  unfold encodeLen
  omega

section Writing

variable {encode : Bytes → Bytes}

/-- What is written is the number in base 32. -/
theorem LeastSignificantFirst.encode_eq (writes : LeastSignificantFirst encode) (bytes : Bytes) :
    encode bytes =
      (digitsOf 32 (encodeLen bytes.length) (leValue bytes)).map (symbolOf base32Symbols) := by
  apply List.ext_getElem?
  intro place
  by_cases inside : place < encodeLen bytes.length
  · have power : (32 : Nat) ^ place = 2 ^ (5 * place) := by rw [Nat.pow_mul]
    rw [writes.bits bytes inside, List.getElem?_map, digitsOf_getElem? _ _ inside, power]
    rfl
  · have outside : encodeLen bytes.length ≤ place := Nat.le_of_not_lt inside
    rw [List.getElem?_eq_none (by rw [writes.length]; exact outside),
      List.getElem?_eq_none (by rw [List.length_map, digitsOf_length]; exact outside)]

/-- The texts of as many bytes are in the order of the numbers. -/
theorem LeastSignificantFirst.compare_encode (writes : LeastSignificantFirst encode)
    {left right : Bytes} (same : left.length = right.length) :
    compare (encode left).reverse (encode right).reverse = compare (leValue left) (leValue right) := by
  have digits (bytes : Bytes) : ∀ digit ∈ digitsOf 32 (encodeLen bytes.length) (leValue bytes), digit < 32 :=
    digitsOf_lt (by decide) _ _
  have value (bytes : Bytes) : valueOf 32 (digitsOf 32 (encodeLen bytes.length) (leValue bytes)) =
      leValue bytes := valueOf_digitsOf _ _ (leValue_room bytes)
  have kept : ∀ digit ∈ (digitsOf 32 (encodeLen left.length) (leValue left)).reverse,
      ∀ other ∈ (digitsOf 32 (encodeLen right.length) (leValue right)).reverse,
        compare (symbolOf base32Symbols digit) (symbolOf base32Symbols other) = compare digit other :=
    fun digit member other member' => symbolOf_order (digits left digit (List.mem_reverse.mp member))
      (digits right other (List.mem_reverse.mp member'))
  rw [writes.encode_eq, writes.encode_eq, ← List.map_reverse, ← List.map_reverse, compare_map kept,
    compare_digits _ (digits left) (digits right), value, value]
  rw [digitsOf_length, digitsOf_length, same]

/-- The digits of what is written. -/
theorem LeastSignificantFirst.digits (writes : LeastSignificantFirst encode) (bytes : Bytes) :
    digitsOfSymbols base32Symbols (encode bytes) =
      some (digitsOf 32 (encodeLen bytes.length) (leValue bytes)) := by
  rw [writes.encode_eq]
  exact digitsOfSymbols_map base32_readable _ (digitsOf_lt (by decide) _ _)

end Writing

/-! ## Order -/

/-- The order of store paths is the order of their texts, so a set of them is gone through in the order
of the texts. -/
theorem compare_display [DataEncoding]
    (writes : LeastSignificantFirst DataEncoding.nixBase32.encode) :
    (∀ left right : StorePath, compare left right = compare left.display right.display) ∧
      ∀ set : BTreeSet StorePath,
        (set.items.map StorePath.display).Pairwise fun left right => compare left right = .lt := by
  have order (left right : StorePath) : compare left right = compare left.display right.display := by
    have hash : compare left.hash right.hash = compare left.hash.display right.hash.display := by
      have size : left.hash.bytes.length = right.hash.bytes.length := by
        rw [left.hash.size, right.hash.size]
      show compare left.hash.bytes.reverse right.hash.bytes.reverse = _
      rw [compare_reverse size, ← writes.compare_encode size]
      rfl
    have dash : compare (45 :: left.name.bytes) (45 :: right.name.bytes) =
        compare left.name.bytes right.name.bytes := by
      rw [List.compare_cons_cons, Std.ReflOrd.compare_self, Ordering.eq_then]
    have length : left.hash.display.length = right.hash.display.length := by
      rw [StorePathHash.display_length, StorePathHash.display_length]
    show (compare left.hash right.hash).then (compare left.name.bytes right.name.bytes) = _
    rw [StorePath.display, StorePath.display, compare_append length, dash, hash]
  refine ⟨order, ?_⟩
  intro set
  refine List.pairwise_map.mpr (set.sorted.imp ?_)
  intro left right less
  rw [← order]
  exact less

/-! ## Bijection -/

section Documented

variable {nixBase32 : Encoding} (writes : LeastSignificantFirst nixBase32.encode)
  (reads : ChecksTrailing nixBase32.decode)

include writes reads

/-- What is written is read back. -/
theorem decode_encode (bytes : Bytes) : nixBase32.decode (nixBase32.encode bytes) = .ok bytes := by
  refine (reads.bits _ bytes).mpr ⟨_, writes.digits bytes, ?_, ?_⟩
  · rw [writes.length, decodeLen_encodeLen]
  · rw [valueOf_digitsOf _ _ (leValue_room bytes)]

/-- What is read was written. -/
theorem encode_of_decode {text bytes : Bytes} (read : nixBase32.decode text = .ok bytes) :
    nixBase32.encode bytes = text := by
  obtain ⟨digits, found, length, value⟩ := (reads.bits text bytes).mp read
  obtain ⟨spelled, below⟩ := map_symbolOf found
  have wide : base32Symbols.length = 32 := by decide
  rw [wide] at below
  have width : encodeLen bytes.length = digits.length := by
    rw [encodeLen_decodeLen length, spelled, List.length_map]
  rw [writes.encode_eq, value, width, digitsOf_valueOf below, ← spelled]

omit reads in
/-- A text has the promised length. -/
theorem encodeString_length (bytes : Bytes) :
    (nixBase32.encodeString bytes).length = encodeLen bytes.length := by
  rw [Encoding.encodeString, List.length_reverse, writes.length]

/-- A text that is read. -/
theorem decodeMut_ok {text bytes : Bytes} {len : Nat} (accepted : decodeLen text.length = some len) :
    nixBase32.decodeMut text len = some (.ok bytes) ↔ nixBase32.encodeString bytes = text := by
  have whole : decodeLen text.reverse.length = some len := by rw [List.length_reverse, accepted]
  simp only [Encoding.decodeMut]
  rw [if_neg fun other => other whole]
  constructor
  · intro read
    split at read
    case h_1 found =>
      cases read
      rw [Encoding.encodeString, encode_of_decode writes reads found, List.reverse_reverse]
    case h_2 =>
      split at read <;> cases read
  · rintro rfl
    rw [Encoding.encodeString, List.reverse_reverse, decode_encode writes reads]

omit writes in
/-- A text that is not read is refused at a place of it. -/
theorem decodeMut_error {text : Bytes} {len : Nat} (accepted : decodeLen text.length = some len)
    (never : ∀ bytes, nixBase32.decodeMut text len ≠ some (.ok bytes)) :
    ∃ error, nixBase32.decodeMut text len = some (.error error) ∧ error.position < text.length := by
  have whole : decodeLen text.reverse.length = some len := by rw [List.length_reverse, accepted]
  simp only [Encoding.decodeMut] at never ⊢
  rw [if_neg fun other => other whole] at never ⊢
  cases read : nixBase32.decode text.reverse with
  | ok bytes =>
    rw [read] at never
    exact absurd rfl (never bytes)
  | error err =>
    have position := reads.position whole read
    rw [List.length_reverse] at position
    let adjusted := text.length - err.position - 1
    refine ⟨⟨adjusted / 8 * 8, adjusted / 8 * 5, adjusted, err.kind⟩, ?_, ?_⟩
    · dsimp only
      rw [if_neg (by omega)]
    · show text.length - err.position - 1 < text.length
      omega

/-- Writing in either way gives the number in base 32, highest digit first, and it is read back. A text
of an accepted length is read exactly if it is one that is written, as what it was written from; every
other one is refused with a position in it. -/
theorem base32_bijection :
    (∀ bytes : Bytes,
      nixBase32.encodeMut bytes (encodeLen bytes.length) = some (nixBase32.encodeString bytes) ∧
      (nixBase32.encodeString bytes).length = encodeLen bytes.length ∧
      (∀ place < encodeLen bytes.length, (nixBase32.encodeString bytes).reverse[place]? =
        some (symbolOf base32Symbols (leValue bytes / 2 ^ (5 * place) % 32))) ∧
      decodeLen (nixBase32.encodeString bytes).length = some bytes.length ∧
      nixBase32.decodeMut (nixBase32.encodeString bytes) bytes.length = some (.ok bytes)) ∧
    ∀ (text : Bytes) (len : Nat), decodeLen text.length = some len →
      ((∃ bytes, nixBase32.decodeMut text len = some (.ok bytes)) ↔
        ∃ bytes, text = nixBase32.encodeString bytes) ∧
      (∀ bytes, nixBase32.decodeMut text len = some (.ok bytes) → nixBase32.encodeString bytes = text) ∧
      ((¬ ∃ bytes, text = nixBase32.encodeString bytes) → ∃ error,
        nixBase32.decodeMut text len = some (.error error) ∧ error.position < text.length) := by
  constructor
  · intro bytes
    have accepted : decodeLen (nixBase32.encodeString bytes).length = some bytes.length := by
      rw [encodeString_length writes, decodeLen_encodeLen]
    refine ⟨?_, encodeString_length writes bytes, ?_, accepted, ?_⟩
    · rw [Encoding.encodeMut, if_neg fun other => other (writes.length bytes).symm]
      rfl
    · intro place inside
      rw [Encoding.encodeString, List.reverse_reverse, writes.bits bytes inside]
    · exact (decodeMut_ok writes reads accepted).mpr rfl
  · intro text len accepted
    have ok := fun bytes => @decodeMut_ok _ writes reads text bytes len accepted
    refine ⟨?_, fun bytes => (ok bytes).mp, ?_⟩
    · constructor
      · rintro ⟨bytes, read⟩
        exact ⟨bytes, ((ok bytes).mp read).symm⟩
      · rintro ⟨bytes, written⟩
        exact ⟨bytes, (ok bytes).mpr written.symm⟩
    · intro never
      apply decodeMut_error reads accepted
      intro bytes read
      exact never ⟨bytes, ((ok bytes).mp read).symm⟩

omit reads in
/-- What is written consists of symbols. -/
theorem encode_symbols (bytes : Bytes) : ∀ symbol ∈ nixBase32.encode bytes, symbol ∈ base32Symbols := by
  intro symbol member
  rw [writes.encode_eq] at member
  obtain ⟨digit, listed, rfl⟩ := List.mem_map.mp member
  apply symbolOf_mem
  exact digitsOf_lt (by decide) _ _ digit listed

omit writes in
/-- Nothing is read from less than is written for it. -/
theorem decode_length {text bytes : Bytes} (read : nixBase32.decode text = .ok bytes) :
    encodeLen bytes.length ≤ text.length := by
  obtain ⟨_, _, length, _⟩ := (reads.bits text bytes).mp read
  exact Nat.le_of_eq (encodeLen_decodeLen length)

/-- What the rest of the code relies on follows from what is documented. -/
def Encoding.codec : Codec encodeLen base32Symbols where
  encode := nixBase32.encode
  decode text := (nixBase32.decode text).toOption
  encode_length := writes.length
  encode_symbols := encode_symbols writes
  decode_encode bytes := by
    rw [decode_encode writes reads]
    rfl
  decode_length := by
    intro text bytes read
    cases found : nixBase32.decode text with
    | ok other =>
      rw [found] at read
      cases read
      exact decode_length reads found
    | error err =>
      rw [found] at read
      cases read

end Documented

section Sample

/-- `NIX_BASE32` as it is documented. An error is at the first symbol that is none, or else at the bits
of the last one. -/
def Standard.nixBase32 : Encoding where
  encode := Standard.nixEncode
  decode text :=
    match Standard.nixDecode text with
    | some bytes => .ok bytes
    | none =>
      let position := text.findIdx fun symbol => !base32Symbols.contains symbol
      if position < text.length then .error ⟨position / 8 * 8, position / 8 * 5, position, .symbol⟩
      else .error ⟨(text.length - 1) / 8 * 8, (text.length - 1) / 8 * 5, text.length - 1, .trailing⟩

/-- The standard encoder writes the least significant bits first. -/
theorem standard_writes : LeastSignificantFirst Standard.nixEncode where
  length bytes := by rw [Standard.nixEncode, List.length_map, digitsOf_length]
  bits := by
    intro bytes place inside
    have power : (2 : Nat) ^ (5 * place) = 32 ^ place := by rw [Nat.pow_mul]
    rw [Standard.nixEncode, List.getElem?_map, digitsOf_getElem? _ _ inside, power]
    rfl

/-- What it reads. -/
theorem nixDecode_eq_some (text bytes : Bytes) : Standard.nixDecode text = some bytes ↔
    ∃ digits, digitsOfSymbols base32Symbols text = some digits ∧
      decodeLen text.length = some bytes.length ∧ leValue bytes = valueOf 32 digits := by
  unfold Standard.nixDecode
  cases digitsOfSymbols base32Symbols text with
  | none =>
    constructor
    · rintro ⟨⟩
    · rintro ⟨_, ⟨⟩, _⟩
  | some digits =>
    dsimp only
    constructor
    · intro read
      split at read
      case isTrue => cases read
      case isFalse room =>
        split at read
        case isTrue fits =>
          cases read
          refine ⟨digits, rfl, decodeLen_eq_some.mpr ⟨Nat.lt_of_not_le room, leBytes_length _ _⟩, ?_⟩
          exact leValue_leBytes _ _ fits
        case isFalse => cases read
    · rintro ⟨_, ⟨⟩, accepted, value⟩
      obtain ⟨room, length⟩ := decodeLen_eq_some.mp accepted
      rw [if_neg (Nat.not_le_of_lt room), ← length, ← value, if_pos (leValue_lt bytes), leBytes_leValue]

/-- The standard decoder reads the least significant bits first and checks the trailing ones. -/
theorem standard_reads : ChecksTrailing Standard.nixBase32.decode where
  bits := by
    intro text bytes
    rw [← nixDecode_eq_some]
    show (match Standard.nixDecode text with | some bytes => _ | none => _) = _ ↔ _
    cases Standard.nixDecode text with
    | some other => simp
    | none =>
      dsimp only
      split <;> simp
  position := by
    intro text len err accepted refused
    change (match Standard.nixDecode text with | some bytes => _ | none => _) = _ at refused
    cases read : Standard.nixDecode text with
    | some bytes =>
      rw [read] at refused
      cases refused
    | none =>
      rw [read] at refused
      dsimp only at refused
      split at refused
      case isTrue inside =>
        cases refused
        exact inside
      case isFalse =>
        cases refused
        have some : text.length ≠ 0 := by
          intro none
          rw [List.length_eq_zero_iff.mp none] at read
          cases read
        show text.length - 1 < text.length
        omega

/-- Two paths whose digests differ in the first byte and in the last one. -/
def lowPath : StorePath := ⟨⟨1 :: List.replicate 19 0, by decide⟩, ⟨asciiBytes "a", isName_letter⟩⟩

/-- The one that comes later. -/
def highPath : StorePath := ⟨⟨List.replicate 19 0 ++ [1], by decide⟩, ⟨asciiBytes "a", isName_letter⟩⟩

/-- The last byte decides. -/
theorem compare_display_last :
    compare (@StorePath.display standard lowPath) (@StorePath.display standard highPath) = .lt := by
  rw [← (@compare_display standard standard_writes).1 lowPath highPath]
  decide

/-- Four symbols for two bytes, and two symbols whose last bits are left over. -/
theorem base32_bijection_sample :
    Standard.nixBase32.decodeMut (asciiBytes "0bqz") 2 = some (.ok [0x1F, 0x2F]) ∧
      ∃ error, Standard.nixBase32.decodeMut (asciiBytes "zz") 1 = some (.error error) ∧
        error.position < 2 := by
  obtain ⟨writes, reads⟩ := base32_bijection standard_writes standard_reads
  have text : Standard.nixBase32.encodeString [0x1F, 0x2F] = asciiBytes "0bqz" := by decide +kernel
  have read := (writes [0x1F, 0x2F]).2.2.2.2
  rw [text] at read
  refine ⟨read, ?_⟩
  obtain ⟨image, _, refused⟩ := reads (asciiBytes "zz") 1 (by decide)
  have error : Standard.nixBase32.decodeMut (asciiBytes "zz") 1 = some (.error ⟨0, 0, 0, .trailing⟩) := by
    decide +kernel
  apply refused
  intro written
  obtain ⟨bytes, found⟩ := image.mpr written
  cases error.symm.trans found

end Sample

end Harmonia.Store
