import Mathlib.Data.List.Basic
import Mathlib.Algebra.Order.Ring.Nat
import Harmonia.Io.Poll
import Harmonia.Library.LittleEndian

/-!
# Wire words and alignment

`harmonia_utils_io::wire`: everything variable is a little-endian 64-bit length, the bytes,
and zero bytes up to the next multiple of eight. `calc_aligned` adds with wrap-around, so
the seven largest lengths align to zero; `alignNat` is the alignment without that limit.
-/

namespace Harmonia

open Library

/-- `ZEROS`. -/
def zeros : Bytes := [0, 0, 0, 0, 0, 0, 0, 0]

/-- `calc_aligned`: round up to a multiple of eight, wrapping at 2⁶⁴. -/
def calcAligned (len : UInt64) : UInt64 := (len + 7) &&& ~~~7

/-- `calc_padding`: the bytes between a length and its aligned length. -/
def calcPadding (len : UInt64) : Nat := (calcAligned len - len).toNat

/-- Rounding up to a multiple of eight, for lengths of any size. -/
def alignNat (len : Nat) : Nat := (len + 7) / 8 * 8

/-- Clearing the low three bits is rounding down to a multiple of eight. -/
theorem clear_low_bits (word : UInt64) : (word &&& ~~~7).toNat = word.toNat / 8 * 8 := by
  have bits : word.toBitVec &&& ~~~7#64 = (word.toBitVec >>> 3) <<< 3 := by
    ext i hi
    simp only [BitVec.getElem_and, BitVec.getElem_not, BitVec.getElem_shiftLeft]
    by_cases low : i < 3
    · have small : i = 0 ∨ i = 1 ∨ i = 2 := by omega
      rcases small with rfl | rfl | rfl <;> simp
    · have high : (7#64)[i] = false := by
        rw [← BitVec.getLsbD_eq_getElem, BitVec.getLsbD_ofNat]
        have : (7 : Nat).testBit i = false :=
          Nat.testBit_lt_two_pow (Nat.lt_of_lt_of_le (by decide : 7 < 2 ^ 3)
            (Nat.pow_le_pow_right (by decide) (by omega)))
        simp [this]
      rw [high]
      simp [low, show 3 + (i - 3) = i by omega, BitVec.getLsbD_eq_getElem hi]
  change (word.toBitVec &&& ~~~7#64).toNat = _
  rw [bits, BitVec.toNat_shiftLeft, BitVec.toNat_ushiftRight, Nat.shiftRight_eq_div_pow,
    Nat.shiftLeft_eq]
  change word.toNat / 2 ^ 3 * 2 ^ 3 % 2 ^ 64 = _
  have small := word.toNat_lt
  rw [Nat.mod_eq_of_lt (by omega)]

/-- `calc_aligned` aligns the wrapped sum. -/
theorem calcAligned_toNat (len : UInt64) :
    (calcAligned len).toNat = (len.toNat + 7) % 2 ^ 64 / 8 * 8 := by
  rw [calcAligned, clear_low_bits, UInt64.toNat_add]
  rfl

/-- A length whose aligned length does not exceed a machine word: at most 2⁶⁴ − 8. -/
def Fits (len : UInt64) : Prop := len.toNat ≤ 2 ^ 64 - 8

instance (len : UInt64) : Decidable (Fits len) := inferInstanceAs (Decidable (_ ≤ _))

/-- A length that fits aligns as a natural number does. -/
theorem calcAligned_fits {len : UInt64} (fits : Fits len) :
    (calcAligned len).toNat = alignNat len.toNat := by
  unfold Fits at fits
  rw [calcAligned_toNat, alignNat, Nat.mod_eq_of_lt (by omega)]

/-- A length that does not fit aligns to zero. -/
theorem calcAligned_wraps {len : UInt64} (wraps : ¬ Fits len) : (calcAligned len).toNat = 0 := by
  unfold Fits at wraps
  have := len.toNat_lt
  rw [calcAligned_toNat]
  omega

/-- The padding of a length is what is missing to a multiple of eight. -/
theorem calcPadding_eq (len : UInt64) : calcPadding len = (8 - len.toNat % 8) % 8 := by
  have aligned := calcAligned_toNat len
  have bound := len.toNat_lt
  rw [calcPadding, UInt64.toNat_sub, aligned]
  omega

/-- The padding of any length is less than a word. -/
theorem calcPadding_lt (len : UInt64) : calcPadding len < 8 := by
  rw [calcPadding_eq]
  exact Nat.mod_lt _ (by omega)

/-- Aligning never loses content. -/
theorem le_alignNat (len : Nat) : len ≤ alignNat len := by
  unfold alignNat
  omega

/-- The padding of a length that fits is what the alignment adds. -/
theorem calcPadding_fits {len : UInt64} (fits : Fits len) :
    calcPadding len = alignNat len.toNat - len.toNat := by
  have aligned := calcAligned_fits fits
  have grows := le_alignNat len.toNat
  rw [calcPadding, UInt64.toNat_sub_of_le, aligned]
  rw [UInt64.le_iff_toNat_le, aligned]
  exact grows

/-- Subtracting a length that does not exceed a word is exact. -/
theorem toNat_sub_ofNat {word : UInt64} {len : Nat} (within : len ≤ word.toNat) :
    (word - UInt64.ofNat len).toNat = word.toNat - len := by
  have small : (UInt64.ofNat len).toNat = len :=
    UInt64.toNat_ofNat_of_lt' (Nat.lt_of_le_of_lt within word.toNat_lt)
  rw [UInt64.toNat_sub_of_le, small]
  rw [UInt64.le_iff_toNat_le, small]
  exact within

/-- `u64::to_le_bytes`. -/
def toLeBytes (word : UInt64) : Bytes := leBytes 8 word.toNat

/-- `u64::from_le_bytes`. -/
def fromLeBytes (bytes : Bytes) : UInt64 := UInt64.ofNat (leValue bytes)

/-- A written word has eight bytes. -/
@[simp] theorem toLeBytes_length (word : UInt64) : (toLeBytes word).length = 8 :=
  leBytes_length 8 word.toNat

/-- A written word is read back. -/
@[simp] theorem fromLeBytes_toLeBytes (word : UInt64) : fromLeBytes (toLeBytes word) = word := by
  rw [fromLeBytes, toLeBytes, leValue_leBytes 8 _ word.toNat_lt]
  exact UInt64.ofNat_toNat

/-- Eight bytes are the writing of the word they read as. -/
theorem toLeBytes_fromLeBytes {bytes : Bytes} (eight : bytes.length = 8) :
    toLeBytes (fromLeBytes bytes) = bytes := by
  have small := leValue_lt bytes
  rw [eight] at small
  rw [toLeBytes, fromLeBytes, UInt64.toNat_ofNat_of_lt' small, ← eight, leBytes_leValue]

/-- `put_nix_slice`: the length of a slice, the slice, and zeros up to a multiple of eight. -/
def putNixSlice (src : Bytes) : Bytes :=
  toLeBytes (UInt64.ofNat src.length) ++ src ++
    List.replicate (calcPadding (UInt64.ofNat src.length)) 0

end Harmonia
