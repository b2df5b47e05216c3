import Mathlib.Data.List.Basic
import Mathlib.Algebra.Order.Ring.Nat

/-!
# SHA-256

The secure hash standard's function on bytes, with the message schedule computed as the rounds go:
a window of sixteen words moves along it.
-/

namespace Harmonia.Library.Sha2

/-- A word. -/
abbrev Word := BitVec 32

/-- The eight working variables. -/
structure State where
  a : Word
  b : Word
  c : Word
  d : Word
  e : Word
  f : Word
  g : Word
  h : Word

/-- The chaining value of no blocks. -/
def initial : State :=
  ⟨0x6a09e667, 0xbb67ae85, 0x3c6ef372, 0xa54ff53a, 0x510e527f, 0x9b05688c, 0x1f83d9ab, 0x5be0cd19⟩

/-- The constants of the sixty-four rounds. -/
def constants : List Word :=
  [0x428a2f98, 0x71374491, 0xb5c0fbcf, 0xe9b5dba5, 0x3956c25b, 0x59f111f1, 0x923f82a4, 0xab1c5ed5,
    0xd807aa98, 0x12835b01, 0x243185be, 0x550c7dc3, 0x72be5d74, 0x80deb1fe, 0x9bdc06a7, 0xc19bf174,
    0xe49b69c1, 0xefbe4786, 0x0fc19dc6, 0x240ca1cc, 0x2de92c6f, 0x4a7484aa, 0x5cb0a9dc, 0x76f988da,
    0x983e5152, 0xa831c66d, 0xb00327c8, 0xbf597fc7, 0xc6e00bf3, 0xd5a79147, 0x06ca6351, 0x14292967,
    0x27b70a85, 0x2e1b2138, 0x4d2c6dfc, 0x53380d13, 0x650a7354, 0x766a0abb, 0x81c2c92e, 0x92722c85,
    0xa2bfe8a1, 0xa81a664b, 0xc24b8b70, 0xc76c51a3, 0xd192e819, 0xd6990624, 0xf40e3585, 0x106aa070,
    0x19a4c116, 0x1e376c08, 0x2748774c, 0x34b0bcb5, 0x391c0cb3, 0x4ed8aa4a, 0x5b9cca4f, 0x682e6ff3,
    0x748f82ee, 0x78a5636f, 0x84c87814, 0x8cc70208, 0x90befffa, 0xa4506ceb, 0xbef9a3f7, 0xc67178f2]

/-- The words of some bytes. -/
def words : List UInt8 → List Word
  | w :: x :: y :: z :: rest =>
    .ofNat 32 (((w.toNat * 256 + x.toNat) * 256 + y.toNat) * 256 + z.toNat) :: words rest
  | _ => []

/-- The word that enters the window when its first word leaves. -/
def following (first : Word) (later : List Word) : Word :=
  let w1 := later.getD 0 0
  let w14 := later.getD 13 0
  first + (w1.rotateRight 7 ^^^ w1.rotateRight 18 ^^^ w1 >>> 3) + later.getD 8 0 +
    (w14.rotateRight 17 ^^^ w14.rotateRight 19 ^^^ w14 >>> 10)

/-- One round. -/
def round (constant word : Word) (state : State) : State :=
  let ⟨a, b, c, d, e, f, g, h⟩ := state
  let t1 := h + (e.rotateRight 6 ^^^ e.rotateRight 11 ^^^ e.rotateRight 25) +
    ((e &&& f) ^^^ (~~~e &&& g)) + constant + word
  let t2 := (a.rotateRight 2 ^^^ a.rotateRight 13 ^^^ a.rotateRight 22) +
    ((a &&& b) ^^^ (a &&& c) ^^^ (b &&& c))
  ⟨t1 + t2, a, b, c, d + t1, e, f, g⟩

/-- A round for each constant. -/
def rounds : List Word → List Word → State → State
  | constant :: constants, first :: later, state =>
    rounds constants (later ++ [following first later]) (round constant first state)
  | _, _, state => state

/-- A block is compressed into the chaining value. -/
def compress (state : State) (block : List UInt8) : State :=
  let done := rounds constants (words block) state
  ⟨state.a + done.a, state.b + done.b, state.c + done.c, state.d + done.d, state.e + done.e,
    state.f + done.f, state.g + done.g, state.h + done.h⟩

/-- The chaining value after some blocks. -/
def compressAll : Nat → List UInt8 → State → State
  | 0, _, state => state
  | blocks + 1, bytes, state => compressAll blocks (bytes.drop 64) (compress state (bytes.take 64))

/-- The bytes of a number, the highest first. -/
def bytesOf (count number : Nat) : List UInt8 :=
  (List.range count).reverse.map fun index => .ofNat (number >>> (8 * index))

/-- A message with its padding. -/
def padded (message : List UInt8) : List UInt8 :=
  message ++ 0x80 :: List.replicate ((119 - message.length % 64) % 64) 0 ++
    bytesOf 8 (8 * message.length)

/-- The bytes of a chaining value. -/
def State.bytes (state : State) : List UInt8 :=
  [state.a, state.b, state.c, state.d, state.e, state.f, state.g, state.h].flatMap fun word =>
    bytesOf 4 word.toNat

/-- The digest of a message. -/
def sha256 (message : List UInt8) : List UInt8 :=
  (compressAll ((padded message).length / 64) (padded message) initial).bytes

/-- A digest has thirty-two bytes. -/
theorem sha256_length (message : List UInt8) : (sha256 message).length = 32 := rfl

end Harmonia.Library.Sha2
