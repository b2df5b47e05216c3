import Harmonia.Store.Base32
import Harmonia.Store.Hash

/-!
# The formats of hashes

The formats of `harmonia-utils-hash`: a digest in one of three bases, alone where its algorithm is
known, or else behind it, after a colon in any base, and after a dash in base64, as a subresource
integrity expression has it. The length of a digest's text tells its base, so that what one of the
decoders reads is what `Any` reads.
-/

namespace Harmonia.Store

open Library

variable [DataEncoding] {H : Type} [CommonHash H]

/-- `FromStr for Any`. -/
def anyFromStr (s : Bytes) : Option H :=
  match splitOnce 58 s with
  | some (start, rest) => (Algorithm.fromStr start).bind fun algorithm => parseAny algorithm rest
  | none =>
    match splitOnce 45 s with
    | some (start, rest) => (Algorithm.fromStr start).bind fun algorithm => parseWithBase algorithm rest .base64
    | none => (impliedAlgorithm H).bind fun algorithm => parseAny algorithm s

/-- `Display for SRI`. -/
def sriDisplay (hash : H) : Bytes :=
  (CommonHash.algorithm hash).display ++ 45 :: DataEncoding.base64.encode (digestBytes hash)

/-- `FromStr for SRI`. -/
def sriFromStr (s : Bytes) : Option H :=
  match splitOnce 45 s with
  | some (start, rest) => (Algorithm.fromStr start).bind fun algorithm => parseWithBase algorithm rest .base64
  | none => none

omit [DataEncoding] in
/-- An algorithm's name has no dash. -/
theorem Algorithm.display_dash (algorithm : Algorithm) : 45 ∉ algorithm.display := by
  cases algorithm <;> decide

/-- `encode_for_base`. -/
def Base.encode : Base → Bytes → Bytes
  | hex => lowerHex
  | nixBase32 => base32Encode
  | base64 => DataEncoding.base64.encode

/-- `Base::scratch_len`. -/
def Base.scratchLen : Base → Nat → Nat
  | hex, decodedSize => decodedSize
  | nixBase32, decodedSize => decodedSize
  | base64, decodedSize => base64Len decodedSize / 4 * 3

/-- The length that `decode_mut` asserts of the slice it decodes a text into, if it does not panic for
the length of the text. -/
def Base.decodedLen : Base → Nat → Option Nat
  | hex, len => if len % 2 = 0 then some (len / 2) else none
  | nixBase32, len => decodeLen len
  | base64, len => if len % 4 = 0 then some (len / 4 * 3) else none

/-- `Display for Bare` of the format of a base. -/
def bareDisplay (base : Base) (hash : H) : Bytes := base.encode (digestBytes hash)

/-- `Display` of the format of a base. -/
def formatDisplay (base : Base) (hash : H) : Bytes :=
  (CommonHash.algorithm hash).display ++ 58 :: bareDisplay base hash

/-- `FromStr` of the format of a base. -/
def formatFromStr (base : Base) (s : Bytes) : Option H :=
  match splitOnce 58 s with
  | some (start, rest) => (Algorithm.fromStr start).bind fun algorithm => parseWithBase algorithm rest base
  | none => none

/-- `FromStr for Bare` of the format of a base. -/
def bareFormatFromStr (base : Base) (s : Bytes) : Option H :=
  (impliedAlgorithm H).bind fun algorithm => parseWithBase algorithm s base

/-- `FromStr for Base16`. -/
def base16FromStr : Bytes → Option H := formatFromStr .hex

/-- `FromStr for Base64`. -/
def base64FromStr : Bytes → Option H := formatFromStr .base64

/-- `Display for Base16`. -/
def base16Display : H → Bytes := formatDisplay .hex

/-- `Display for Base64`. -/
def base64Display : H → Bytes := formatDisplay .base64

omit [DataEncoding] in
/-- The slices that the decoders are given have the lengths they assert, and hold a digest. -/
theorem Base.decodedLen_inputLen (base : Base) (algorithm : Algorithm) :
    base.decodedLen (base.inputLen algorithm.size) = some (base.scratchLen algorithm.size) ∧
      algorithm.size ≤ base.scratchLen algorithm.size ∧
      base.scratchLen algorithm.size ≤ base.scratchLen Algorithm.sha512.size := by
  cases base <;> cases algorithm <;> decide

/-- A digest's text has the length of its base. -/
theorem bareDisplay_length (base : Base) (hash : H) :
    (bareDisplay base hash).length = base.inputLen (CommonHash.algorithm hash).size := by
  cases base with
  | hex =>
    show (lowerHex _).length = _
    rw [lowerHex_length, digestBytes_length]
    rfl
  | nixBase32 => exact bareBase32Display_length hash
  | base64 =>
    show (DataEncoding.base64.encode _).length = _
    rw [DataEncoding.base64.encode_length, digestBytes_length]
    rfl

/-- A digest's text is decoded to the digest. -/
theorem Base.decode_encode (base : Base) (bytes : Bytes) : base.decode (base.encode bytes) = some bytes := by
  cases base with
  | hex => exact DataEncoding.hexDecode_lowerHex bytes
  | nixBase32 => exact base32Decode_base32Encode bytes
  | base64 => exact DataEncoding.base64.decode_encode bytes

/-- A digest's text has neither a colon nor a dash. -/
theorem bareDisplay_free (base : Base) (hash : H) :
    58 ∉ bareDisplay base hash ∧ 45 ∉ bareDisplay base hash := by
  have free {symbols : Bytes} (colon : 58 ∉ symbols) (dash : 45 ∉ symbols)
      (all : ∀ symbol ∈ bareDisplay base hash, symbol ∈ symbols) :
      58 ∉ bareDisplay base hash ∧ 45 ∉ bareDisplay base hash :=
    ⟨fun member => colon (all 58 member), fun member => dash (all 45 member)⟩
  cases base with
  | hex => exact free (by decide +kernel) (by decide +kernel) (lowerHex_symbols _)
  | nixBase32 => exact free (by decide +kernel) (by decide +kernel) (base32Encode_symbols _)
  | base64 => exact free (by decide +kernel) (by decide +kernel) (DataEncoding.base64.encode_symbols _)

/-- A digest's text is read back as the hash, in its own base. -/
theorem parseWithBase_bareDisplay (base : Base) (hash : H) :
    parseWithBase (CommonHash.algorithm hash) (bareDisplay base hash) base = some hash :=
  parseWithBase_of_decode (bareDisplay_length base hash) (base.decode_encode _)

/-- A subresource integrity expression is read back. -/
@[simp] theorem sriFromStr_sriDisplay (hash : H) : sriFromStr (sriDisplay hash) = some hash := by
  rw [sriFromStr, sriDisplay, splitOnce_append (Algorithm.display_dash _)]
  show (Algorithm.fromStr _).bind _ = _
  rw [Algorithm.fromStr_display]
  exact parseWithBase_bareDisplay .base64 hash

/-- Every text of a hash is read as the hash. -/
structure TextsRead (hash : H) : Prop where
  /-- Behind its algorithm, by the format of its base. -/
  own : ∀ base, formatFromStr base (formatDisplay base hash) = some hash
  /-- By `Any`. -/
  any : ∀ base, anyFromStr (formatDisplay base hash) = some hash
  /-- By `NonSRI`. -/
  nonSri : ∀ base, nonSriFromStr (formatDisplay base hash) = some hash
  /-- A subresource integrity expression, by its own format and by `Any`. -/
  sri : sriFromStr (sriDisplay hash) = some hash ∧ anyFromStr (sriDisplay hash) = some hash
  /-- Where an algorithm is implied, without it too, and by `Bare<Any>` and `Bare<NonSRI>`. -/
  bare : (impliedAlgorithm H).isSome → ∀ base,
    bareFormatFromStr base (bareDisplay base hash) = some hash ∧
      anyFromStr (bareDisplay base hash) = some hash ∧
      nonSriFromStr (bareDisplay base hash) = some hash ∧ bareFromStr (bareDisplay base hash) = some hash

/-- The texts of a hash are read back if its algorithm is the implied one or none is implied. -/
theorem textsRead_of {hash : H}
    (implied : ∀ algorithm, impliedAlgorithm H = some algorithm → algorithm = CommonHash.algorithm hash) :
    TextsRead hash := by
  have digest (base : Base) : parseAny (CommonHash.algorithm hash) (bareDisplay base hash) = some hash :=
    parseAny_of_parseWithBase (parseWithBase_bareDisplay base hash)
  have start (base : Base) : splitOnce 58 (formatDisplay base hash) =
      some ((CommonHash.algorithm hash).display, bareDisplay base hash) :=
    splitOnce_append (Algorithm.display_colon _) _
  constructor
  · intro base
    rw [formatFromStr, start]
    dsimp only
    rw [Algorithm.fromStr_display]
    exact parseWithBase_bareDisplay base hash
  · intro base
    rw [anyFromStr, start]
    dsimp only
    rw [Algorithm.fromStr_display]
    exact digest base
  · intro base
    rw [nonSriFromStr, start]
    dsimp only
    rw [Algorithm.fromStr_display]
    exact digest base
  · refine ⟨sriFromStr_sriDisplay hash, ?_⟩
    have colon : 58 ∉ sriDisplay hash := by
      intro member
      rcases List.mem_append.mp member with name | rest
      · exact Algorithm.display_colon _ name
      · rcases List.mem_cons.mp rest with dash | later
        · revert dash
          decide
        · exact (bareDisplay_free .base64 hash).1 later
    rw [anyFromStr, splitOnce_none colon]
    dsimp only
    rw [sriDisplay, splitOnce_append (Algorithm.display_dash _)]
    dsimp only
    rw [Algorithm.fromStr_display]
    exact parseWithBase_bareDisplay .base64 hash
  · intro some base
    obtain ⟨algorithm, known⟩ := Option.isSome_iff_exists.mp some
    have same := implied algorithm known
    obtain ⟨colon, dash⟩ := bareDisplay_free base hash
    refine ⟨?_, ?_, ?_, ?_⟩
    · rw [bareFormatFromStr, known, same]
      exact parseWithBase_bareDisplay base hash
    · rw [anyFromStr, splitOnce_none colon]
      dsimp only
      rw [splitOnce_none dash, known, same]
      exact digest base
    · rw [nonSriFromStr, splitOnce_none colon, known, same]
      exact digest base
    · rw [bareFromStr, known, same]
      exact digest base

/-- Every text of every hash is read as that hash, and so is the text of a content address. What one of
the decoders reads is what `Any` reads, and none of them is given a slice of another length than it
asserts. -/
theorem texts_read :
    (∀ hash : Hash, TextsRead hash) ∧ (∀ hash : Sha256, TextsRead hash) ∧
      (∀ hash : NarHash, TextsRead hash) ∧
      (∀ address : ContentAddress, ContentAddress.fromStr address.display = some address) ∧
      (∀ (algorithm : Algorithm) (s : Bytes) (base : Base) (hash : H),
        parseWithBase algorithm s base = some hash → parseAny algorithm s = some hash) ∧
      ∀ (base : Base) (algorithm : Algorithm),
        base.decodedLen (base.inputLen algorithm.size) = some (base.scratchLen algorithm.size) ∧
          algorithm.size ≤ base.scratchLen algorithm.size ∧
          base.scratchLen algorithm.size ≤ base.scratchLen Algorithm.sha512.size := by
  refine ⟨?_, ?_, ?_, fun address => address.fromStr_display, ?_, Base.decodedLen_inputLen⟩
  · intro hash
    apply textsRead_of
    intro algorithm known
    cases known
  · intro hash
    apply textsRead_of
    intro algorithm known
    cases known
    rfl
  · intro hash
    apply textsRead_of
    intro algorithm known
    cases known
    rfl
  · intro algorithm s base hash read
    exact parseAny_of_parseWithBase read

end Harmonia.Store
