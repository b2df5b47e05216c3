import Harmonia.Io.Wire
import Harmonia.Library.Digits
import Harmonia.Library.Text

/-!
# Base encodings

`harmonia-utils-base-encoding` over the `data_encoding` crate. The crate is a parameter: of
each of its encodings the code relies on the length and the symbols of what it writes, on
reading back what it writes, and on reading no shorter text than that. `standard` is the crate as it is
documented: the symbols of Nix base32 for five bits at a time, least significant bits first;
those of base64 for six bits at a time, most significant bits first, with padding; and
hexadecimal digits of either case.
-/

namespace Harmonia.Store

open Library

/-- An encoding of `data_encoding`. -/
structure Codec (width : Nat → Nat) (alphabet : List UInt8) where
  /-- `encode`. -/
  encode : Bytes → Bytes
  /-- `decode`, without what an error says. -/
  decode : Bytes → Option Bytes
  /-- What is written has the length that is promised. -/
  encode_length : ∀ bytes, (encode bytes).length = width bytes.length
  /-- What is written consists of symbols. -/
  encode_symbols : ∀ bytes, ∀ symbol ∈ encode bytes, symbol ∈ alphabet
  /-- What is written is read back. -/
  decode_encode : ∀ bytes, decode (encode bytes) = some bytes
  /-- No text is read that is shorter than what is written. -/
  decode_length : ∀ {text bytes}, decode text = some bytes → width bytes.length ≤ text.length

/-- `base32::encode_len`. -/
def encodeLen (len : Nat) : Nat := (8 * len + 4) / 5

/-- `base64_len`. -/
def base64Len (len : Nat) : Nat := (4 * len / 3 + 3) / 4 * 4

/-- The symbols of Nix base32. -/
def base32Symbols : List UInt8 := asciiBytes "0123456789abcdfghijklmnpqrsvwxyz"

/-- The symbols of base64. -/
def base64Symbols : List UInt8 :=
  asciiBytes "ABCDEFGHIJKLMNOPQRSTUVWXYZabcdefghijklmnopqrstuvwxyz0123456789+/"

/-- The padding of base64. -/
def base64Padding : UInt8 := 61

/-- The digits that `{:02x}` writes. -/
def hexSymbols : List UInt8 := asciiBytes "0123456789abcdef"

/-- `write!(f, "{val:02x}")` for every byte. -/
def lowerHex (bytes : Bytes) : Bytes :=
  bytes.flatMap fun byte =>
    [symbolOf hexSymbols (byte.toNat / 16), symbolOf hexSymbols (byte.toNat % 16)]

/-- What the code uses of `data_encoding`. -/
class DataEncoding where
  /-- `NIX_BASE32`. -/
  nixBase32 : Codec encodeLen base32Symbols
  /-- `BASE64`. -/
  base64 : Codec base64Len (base64Symbols ++ [base64Padding])
  /-- `HEXLOWER_PERMISSIVE.decode`. -/
  hexDecode : Bytes → Option Bytes
  /-- Lower-case hexadecimal digits are read. -/
  hexDecode_lowerHex : ∀ bytes, hexDecode (lowerHex bytes) = some bytes

/-- Hexadecimal writing takes two digits a byte. -/
@[simp] theorem lowerHex_length (bytes : Bytes) : (lowerHex bytes).length = bytes.length * 2 := by
  induction bytes with
  | nil => rfl
  | cons byte rest ih =>
    rw [lowerHex, List.flatMap_cons, List.length_append]
    show 2 + (lowerHex rest).length = _
    rw [ih, List.length_cons]
    omega

/-- Digits are written as symbols. -/
theorem symbolOf_mem {symbols : List UInt8} {digit : Nat} (below : digit < symbols.length) :
    symbolOf symbols digit ∈ symbols := by
  have found : symbols.getD digit 0 = symbols[digit] := by
    rw [List.getD_eq_getElem?_getD, List.getElem?_eq_getElem below]
    rfl
  rw [symbolOf, found]
  exact List.getElem_mem below

/-- Hexadecimal writing consists of hexadecimal digits. -/
theorem lowerHex_symbols (bytes : Bytes) : ∀ symbol ∈ lowerHex bytes, symbol ∈ hexSymbols := by
  intro symbol member
  obtain ⟨byte, _, written⟩ := List.mem_flatMap.mp member
  have small := byte.toNat_lt
  have wide : hexSymbols.length = 16 := by decide
  rcases List.mem_cons.mp written with rfl | low
  · exact symbolOf_mem (by omega)
  · rw [List.mem_singleton.mp low]
    exact symbolOf_mem (by omega)

section Base32

variable [DataEncoding]

/-- `base32::encode_mut`. -/
def base32Encode (bytes : Bytes) : Bytes := (DataEncoding.nixBase32.encode bytes).reverse

/-- `base32::decode_mut`. -/
def base32Decode (text : Bytes) : Option Bytes := DataEncoding.nixBase32.decode text.reverse

/-- Nix base32 is read back. -/
@[simp] theorem base32Decode_base32Encode (bytes : Bytes) :
    base32Decode (base32Encode bytes) = some bytes := by
  rw [base32Decode, base32Encode, List.reverse_reverse]
  exact DataEncoding.nixBase32.decode_encode bytes

/-- The length of Nix base32. -/
@[simp] theorem base32Encode_length (bytes : Bytes) :
    (base32Encode bytes).length = encodeLen bytes.length := by
  rw [base32Encode, List.length_reverse]
  exact DataEncoding.nixBase32.encode_length bytes

/-- Nix base32 consists of its symbols. -/
theorem base32Encode_symbols (bytes : Bytes) :
    ∀ symbol ∈ base32Encode bytes, symbol ∈ base32Symbols := by
  intro symbol member
  exact DataEncoding.nixBase32.encode_symbols bytes symbol (List.mem_reverse.mp member)

end Base32

namespace Standard

/-- Nix base32 before it is reversed: five bits at a time from the lowest. -/
def nixEncode (bytes : Bytes) : Bytes :=
  (digitsOf 32 (encodeLen bytes.length) (leValue bytes)).map (symbolOf base32Symbols)

/-- Reading it: lengths that no bytes are written to and bits that are left over are refused. -/
def nixDecode (text : Bytes) : Option Bytes :=
  match digitsOfSymbols base32Symbols text with
  | some digits =>
    if 5 ≤ text.length * 5 % 8 then none
    else if valueOf 32 digits < 256 ^ (text.length * 5 / 8) then
      some (leBytes (text.length * 5 / 8) (valueOf 32 digits))
    else none
  | none => none

/-- What is written is read back. -/
theorem nixDecode_nixEncode (bytes : Bytes) : nixDecode (nixEncode bytes) = some bytes := by
  have readable : Readable base32Symbols 32 := by decide
  have below := digitsOf_lt (show 0 < 32 by decide) (encodeLen bytes.length) (leValue bytes)
  have small := leValue_lt bytes
  have room : leValue bytes < 32 ^ encodeLen bytes.length := by
    calc leValue bytes < 256 ^ bytes.length := small
      _ = 2 ^ (8 * bytes.length) := by rw [Nat.pow_mul]
      _ ≤ 2 ^ (5 * encodeLen bytes.length) :=
        Nat.pow_le_pow_right (by decide) (by unfold encodeLen; omega)
      _ = 32 ^ encodeLen bytes.length := by rw [Nat.pow_mul]
  have length : (nixEncode bytes).length = encodeLen bytes.length := by
    rw [nixEncode, List.length_map, digitsOf_length]
  obtain ⟨extra, few, filled⟩ : ∃ extra < 5, encodeLen bytes.length * 5 = bytes.length * 8 + extra :=
    ⟨encodeLen bytes.length * 5 - bytes.length * 8, by unfold encodeLen; omega,
      by unfold encodeLen; omega⟩
  have whole : encodeLen bytes.length * 5 / 8 = bytes.length := by omega
  have even : ¬ 5 ≤ encodeLen bytes.length * 5 % 8 := by omega
  rw [nixDecode, length, whole, nixEncode, digitsOfSymbols_map readable _ below]
  simp only [valueOf_digitsOf _ _ room, if_neg even, if_pos small, leBytes_leValue]

/-- Four symbols for three bytes. -/
def base64Encode : Bytes → Bytes
  | [] => []
  | [a] =>
    [symbolOf base64Symbols (a.toNat / 4), symbolOf base64Symbols (a.toNat % 4 * 16),
      base64Padding, base64Padding]
  | [a, b] =>
    [symbolOf base64Symbols (a.toNat / 4), symbolOf base64Symbols (a.toNat % 4 * 16 + b.toNat / 16),
      symbolOf base64Symbols (b.toNat % 16 * 4), base64Padding]
  | a :: b :: c :: rest =>
    symbolOf base64Symbols (a.toNat / 4) :: symbolOf base64Symbols (a.toNat % 4 * 16 + b.toNat / 16)
      :: symbolOf base64Symbols (b.toNat % 16 * 4 + c.toNat / 64)
      :: symbolOf base64Symbols (c.toNat % 64) :: base64Encode rest

/-- Three bytes for four symbols. -/
def fullBlock (w x y z : UInt8) : Option Bytes :=
  match digitsOfSymbols base64Symbols [w, x, y, z] with
  | some [p, q, r, s] =>
    some [UInt8.ofNat (p * 4 + q / 16), UInt8.ofNat (q % 16 * 16 + r / 4),
      UInt8.ofNat (r % 4 * 64 + s)]
  | _ => none

/-- Two bytes for three symbols; the bits left over are zero. -/
def pairBlock (w x y : UInt8) : Option Bytes :=
  match digitsOfSymbols base64Symbols [w, x, y] with
  | some [p, q, r] =>
    if r % 4 = 0 then some [UInt8.ofNat (p * 4 + q / 16), UInt8.ofNat (q % 16 * 16 + r / 4)]
    else none
  | _ => none

/-- One byte for two symbols; the bits left over are zero. -/
def byteBlock (w x : UInt8) : Option Bytes :=
  match digitsOfSymbols base64Symbols [w, x] with
  | some [p, q] => if q % 16 = 0 then some [UInt8.ofNat (p * 4 + q / 16)] else none
  | _ => none

/-- Four symbols, of which the last or the last two may be padding. -/
def block (w x y z : UInt8) : Option Bytes :=
  if z = base64Padding then if y = base64Padding then byteBlock w x else pairBlock w x y
  else fullBlock w x y z

/-- Block after block; `data_encoding` accepts padding in each of them. -/
def base64Decode : Bytes → Option Bytes
  | [] => some []
  | w :: x :: y :: z :: rest =>
    match block w x y z, base64Decode rest with
    | some bytes, some more => some (bytes ++ more)
    | _, _ => none
  | _ => none

/-- Every digit of base64 is found again. -/
theorem base64_readable : Readable base64Symbols 64 := by decide

/-- Padding is no digit. -/
theorem symbolOf_ne_padding {digit : Nat} (below : digit < 64) :
    symbolOf base64Symbols digit ≠ base64Padding := by
  decide +revert

/-- Three bytes are read back from their block. -/
theorem block_full (a b c : UInt8) :
    block (symbolOf base64Symbols (a.toNat / 4))
      (symbolOf base64Symbols (a.toNat % 4 * 16 + b.toNat / 16))
      (symbolOf base64Symbols (b.toNat % 16 * 4 + c.toNat / 64))
      (symbolOf base64Symbols (c.toNat % 64)) = some [a, b, c] := by
  have smallA := a.toNat_lt
  have smallB := b.toNat_lt
  have smallC := c.toNat_lt
  have read := digitsOfSymbols_map base64_readable
    [a.toNat / 4, a.toNat % 4 * 16 + b.toNat / 16, b.toNat % 16 * 4 + c.toNat / 64,
      c.toNat % 64] (by simp; omega)
  simp only [List.map_cons, List.map_nil] at read
  rw [block, if_neg (symbolOf_ne_padding (Nat.mod_lt _ (by decide))), fullBlock, read]
  have first : (a.toNat / 4) * 4 + (a.toNat % 4 * 16 + b.toNat / 16) / 16 = a.toNat := by omega
  have second : (a.toNat % 4 * 16 + b.toNat / 16) % 16 * 16 +
      (b.toNat % 16 * 4 + c.toNat / 64) / 4 = b.toNat := by
    omega
  have third : (b.toNat % 16 * 4 + c.toNat / 64) % 4 * 64 + c.toNat % 64 = c.toNat := by
    omega
  simp only [first, second, third, UInt8.ofNat_toNat]

/-- Two bytes are read back from their block. -/
theorem block_pair (a b : UInt8) :
    block (symbolOf base64Symbols (a.toNat / 4))
      (symbolOf base64Symbols (a.toNat % 4 * 16 + b.toNat / 16))
      (symbolOf base64Symbols (b.toNat % 16 * 4)) base64Padding = some [a, b] := by
  have smallA := a.toNat_lt
  have smallB := b.toNat_lt
  have read := digitsOfSymbols_map base64_readable
    [a.toNat / 4, a.toNat % 4 * 16 + b.toNat / 16, b.toNat % 16 * 4] (by simp; omega)
  simp only [List.map_cons, List.map_nil] at read
  rw [block, if_pos rfl, if_neg (symbolOf_ne_padding (by omega)), pairBlock, read]
  have first : (a.toNat / 4) * 4 + (a.toNat % 4 * 16 + b.toNat / 16) / 16 = a.toNat := by omega
  have second : (a.toNat % 4 * 16 + b.toNat / 16) % 16 * 16 + b.toNat % 16 * 4 / 4 = b.toNat := by
    omega
  have rest : b.toNat % 16 * 4 % 4 = 0 := by omega
  simp only [first, second, rest, UInt8.ofNat_toNat, if_true]

/-- One byte is read back from its block. -/
theorem block_byte (a : UInt8) :
    block (symbolOf base64Symbols (a.toNat / 4)) (symbolOf base64Symbols (a.toNat % 4 * 16))
      base64Padding base64Padding = some [a] := by
  have smallA := a.toNat_lt
  have read := digitsOfSymbols_map base64_readable
    [a.toNat / 4, a.toNat % 4 * 16] (by simp; omega)
  simp only [List.map_cons, List.map_nil] at read
  rw [block, if_pos rfl, if_pos rfl, byteBlock, read]
  have first : (a.toNat / 4) * 4 + a.toNat % 4 * 16 / 16 = a.toNat := by omega
  have rest : a.toNat % 4 * 16 % 16 = 0 := by omega
  simp only [first, rest, UInt8.ofNat_toNat, if_true]

/-- What is written is read back. -/
theorem base64Decode_base64Encode (bytes : Bytes) :
    base64Decode (base64Encode bytes) = some bytes := by
  induction bytes using base64Encode.induct with
  | case1 => rfl
  | case2 a => rw [base64Encode, base64Decode, block_byte, base64Decode]; rfl
  | case3 a b => rw [base64Encode, base64Decode, block_pair, base64Decode]; rfl
  | case4 a b c rest ih => rw [base64Encode, base64Decode, block_full, ih]; rfl

/-- The length of what is written. -/
theorem base64Encode_length (bytes : Bytes) :
    (base64Encode bytes).length = base64Len bytes.length := by
  induction bytes using base64Encode.induct with
  | case1 | case2 | case3 => simp only [base64Encode, List.length_cons, List.length_nil, base64Len]
  | case4 a b c rest ih =>
    simp only [base64Encode, List.length_cons, ih, base64Len]
    omega

/-- What is written consists of symbols and padding. -/
theorem base64Encode_symbols (bytes : Bytes) :
    ∀ symbol ∈ base64Encode bytes, symbol ∈ base64Symbols ++ [base64Padding] := by
  have listed {digit : Nat} (below : digit < 64) :
      symbolOf base64Symbols digit ∈ base64Symbols ++ [base64Padding] :=
    List.mem_append_left _ (symbolOf_mem below)
  have padding : base64Padding ∈ base64Symbols ++ [base64Padding] := by decide
  induction bytes using base64Encode.induct with
  | case1 =>
    intro symbol member
    cases member
  | case2 a =>
    have small := a.toNat_lt
    simp only [base64Encode, List.forall_mem_cons]
    exact ⟨listed (by omega), listed (by omega), padding, padding, List.forall_mem_nil _⟩
  | case3 a b =>
    have smallA := a.toNat_lt
    have smallB := b.toNat_lt
    simp only [base64Encode, List.forall_mem_cons]
    exact ⟨listed (by omega), listed (by omega), listed (by omega), padding, List.forall_mem_nil _⟩
  | case4 a b c rest ih =>
    have smallA := a.toNat_lt
    have smallB := b.toNat_lt
    have smallC := c.toNat_lt
    simp only [base64Encode, List.forall_mem_cons]
    exact ⟨listed (by omega), listed (by omega), listed (by omega), listed (by omega), ih⟩

/-- A block is read to at most three bytes. -/
theorem block_length {w x y z : UInt8} {bytes : Bytes} (read : block w x y z = some bytes) :
    bytes.length ≤ 3 := by
  unfold block fullBlock pairBlock byteBlock at read
  split at read
  case isTrue =>
    split at read
    case isTrue =>
      split at read
      case h_1 =>
        split at read
        case isTrue =>
          cases read
          simp
        case isFalse => cases read
      case h_2 => cases read
    case isFalse =>
      split at read
      case h_1 =>
        split at read
        case isTrue =>
          cases read
          simp
        case isFalse => cases read
      case h_2 => cases read
  case isFalse =>
    split at read
    case h_1 =>
      cases read
      simp
    case h_2 => cases read

/-- Four symbols are read to at most three bytes. -/
theorem base64Decode_length : ∀ {text bytes : Bytes}, base64Decode text = some bytes →
    base64Len bytes.length ≤ text.length
  | [], _, read => by
    cases read
    decide
  | w :: x :: y :: z :: rest, bytes, read => by
    rw [base64Decode] at read
    split at read
    case h_1 first more found later =>
      cases read
      have here := block_length found
      have there := base64Decode_length later
      simp only [base64Len, List.length_append, List.length_cons] at there ⊢
      omega
    case h_2 => cases read
  | [_], _, read | [_, _], _, read | [_, _, _], _, read => by cases read

/-- One digit of either case. -/
def hexDigit (symbol : UInt8) : Option Nat :=
  (digitOf hexSymbols symbol).or (digitOf (asciiBytes "0123456789ABCDEF") symbol)

/-- Two digits a byte. -/
def hexDecode : Bytes → Option Bytes
  | [] => some []
  | high :: low :: rest =>
    match hexDigit high, hexDigit low, hexDecode rest with
    | some high, some low, some more => some (UInt8.ofNat (high * 16 + low) :: more)
    | _, _, _ => none
  | _ => none

/-- A digit that is written is read. -/
theorem hexDigit_symbolOf {digit : Nat} (below : digit < 16) :
    hexDigit (symbolOf hexSymbols digit) = some digit := by
  decide +revert

/-- What is written is read back. -/
theorem hexDecode_lowerHex (bytes : Bytes) : hexDecode (lowerHex bytes) = some bytes := by
  induction bytes with
  | nil => rfl
  | cons byte rest ih =>
    have small := byte.toNat_lt
    show hexDecode (symbolOf hexSymbols (byte.toNat / 16) ::
      symbolOf hexSymbols (byte.toNat % 16) :: lowerHex rest) = _
    rw [hexDecode, hexDigit_symbolOf (by omega), hexDigit_symbolOf (by omega), ih]
    have whole : byte.toNat / 16 * 16 + byte.toNat % 16 = byte.toNat := by omega
    simp only [whole, UInt8.ofNat_toNat]

/-- The digits that Nix base32 writes are symbols. -/
theorem nixEncode_symbols (bytes : Bytes) :
    ∀ symbol ∈ nixEncode bytes, symbol ∈ base32Symbols := by
  intro symbol member
  obtain ⟨digit, listed, rfl⟩ := List.mem_map.mp member
  apply symbolOf_mem
  exact digitsOf_lt (by decide) _ _ digit listed

/-- Eight symbols are read to at most five bytes. -/
theorem nixDecode_length {text bytes : Bytes} (read : nixDecode text = some bytes) :
    encodeLen bytes.length ≤ text.length := by
  unfold nixDecode at read
  split at read
  case h_1 digits found =>
    split at read
    case isTrue => cases read
    case isFalse =>
      split at read
      case isTrue =>
        cases read
        rw [leBytes_length, encodeLen]
        omega
      case isFalse => cases read
  case h_2 => cases read

end Standard

/-- The crate as it is documented. -/
@[reducible] def standard : DataEncoding where
  nixBase32 :=
    { encode := Standard.nixEncode
      decode := Standard.nixDecode
      encode_length := fun bytes => by rw [Standard.nixEncode, List.length_map, digitsOf_length]
      encode_symbols := Standard.nixEncode_symbols
      decode_encode := Standard.nixDecode_nixEncode
      decode_length := Standard.nixDecode_length }
  base64 :=
    { encode := Standard.base64Encode
      decode := Standard.base64Decode
      encode_length := Standard.base64Encode_length
      encode_symbols := Standard.base64Encode_symbols
      decode_encode := Standard.base64Decode_base64Encode
      decode_length := Standard.base64Decode_length }
  hexDecode := Standard.hexDecode
  hexDecode_lowerHex := Standard.hexDecode_lowerHex

end Harmonia.Store
