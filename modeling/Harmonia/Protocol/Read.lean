import Harmonia.Io.BytesReader
import Harmonia.Store.Derivation

/-!
# Writing to and reading from a connection

`NixWriter` writes a value as a sequence of tokens: words, slices, and displayed texts, which
have to fit into its buffer. A deserialiser is a computation that asks its reader for one word or
one byte string after the other; `Read` is that computation, and `Read.run` answers it from the
bytes of a connection. How a `NixReader` answers it from chunks is the matter of `Chunked`.
-/

namespace Harmonia.Protocol

open Library Store

/-- What serialisers and deserialisers ask of their connection, and the limit of its reader. -/
structure Ctx where
  /-- `version().minor()`. -/
  minor : Nat
  /-- `store_dir()`. -/
  storeDir : StoreDir
  /-- `max_buf_size`. -/
  maxBufSize : Nat
  /-- No buffer is larger than `isize::MAX`. -/
  small : maxBufSize < 2 ^ 63
  deriving DecidableEq, Repr

/-- The default limit fits into memory. -/
theorem defaultMaxBufSize_small : BytesReader.defaultMaxBufSize < 2 ^ 63 := by decide

/-- Version 1.37 and the defaults of a `NixReader`. -/
def Ctx.standard : Ctx := ⟨37, .default, BytesReader.defaultMaxBufSize, defaultMaxBufSize_small⟩

/-! ## Writing -/

/-- One call to the `NixWriter`. -/
inductive Token where
  /-- `write_number`. -/
  | number (value : UInt64)
  /-- `write_slice`. -/
  | slice (bytes : Bytes)
  /-- `write_display` of anything but a path. -/
  | text (bytes : Bytes)
  /-- `write_display` of a store path below a directory. -/
  | path (dir : StoreDir) (path : StorePath)
  /-- `write_display` of a derived path below a directory. -/
  | derived (dir : StoreDir) (path : DerivedPath)
  /-- `unsupported_data`: a value that has no writing. -/
  | unsupported
  deriving DecidableEq

/-- How a deserialisation comes out. -/
inductive Outcome (α : Type) where
  /-- With a value, before the bytes that are left. -/
  | ok (value : α) (rest : Bytes)
  /-- With an error. -/
  | error (error : IoError)
  /-- It panicked. -/
  | panic
  deriving DecidableEq, Repr

section Tokens

variable [DataEncoding]

/-- The text of a displayed token. -/
def Token.display : Token → Option Bytes
  | number _ | slice _ | unsupported => none
  | text bytes => some bytes
  | path dir target => some (dir.display target.display)
  | derived dir target => some (dir.display target.toLegacyFormat)

/-- What a token puts on the wire. -/
def Token.bytes : Token → Bytes
  | number value => toLeBytes value
  | slice bytes | text bytes => putNixSlice bytes
  | path dir target => putNixSlice (dir.display target.display)
  | derived dir target => putNixSlice (dir.display target.toLegacyFormat)
  | unsupported => []

/-- `write_display` fails when the text and its length do not fit into the buffer. -/
def Token.succeeds (room : Nat) (token : Token) : Bool :=
  match token, token.display with
  | unsupported, _ => false
  | _, some shown => shown.length + 8 ≤ room
  | _, none => true

/-- What tokens put on the wire. -/
def encode (tokens : List Token) : Bytes := tokens.flatMap Token.bytes

/-- Write tokens; `room` is the room in the writer's buffer at each of them, which depends on
what was written before. -/
def write (room : Nat → Nat) : List Token → Option Bytes
  | [] => some []
  | token :: rest =>
    if token.succeeds (room 0) then
      (write (fun index => room (index + 1)) rest).map fun bytes => token.bytes ++ bytes
    else none

@[simp] theorem encode_nil : encode [] = [] := rfl

@[simp] theorem encode_cons (token : Token) (rest : List Token) :
    encode (token :: rest) = token.bytes ++ encode rest := rfl

@[simp] theorem encode_append (left right : List Token) :
    encode (left ++ right) = encode left ++ encode right := List.flatMap_append

/-- One token. -/
theorem encode_singleton (token : Token) : encode [token] = token.bytes := List.append_nil _

/-- A write that succeeds puts all tokens on the wire, and none of them is unsupported. -/
theorem write_some {room : Nat → Nat} {tokens : List Token} {bytes : Bytes}
    (written : write room tokens = some bytes) :
    bytes = encode tokens ∧ .unsupported ∉ tokens := by
  induction tokens generalizing room bytes with
  | nil =>
    cases written
    exact ⟨rfl, List.not_mem_nil⟩
  | cons token rest ih =>
    rw [write] at written
    split at written
    case isTrue succeeds =>
      obtain ⟨more, later, made⟩ := Option.map_eq_some_iff.mp written
      obtain ⟨same, supported⟩ := ih later
      refine ⟨by rw [← made, same, encode_cons], ?_⟩
      intro member
      rcases List.mem_cons.mp member with rfl | listed
      · cases succeeds
      · exact supported listed
    case isFalse => cases written

end Tokens

/-! ## Reading -/

/-- `invalid_data`. -/
def invalidData (message : String) : IoError := ⟨.invalidData, message⟩

/-- `missing_data("unexpected end-of-file")`. -/
def missingData : IoError := ⟨.unexpectedEof, "unexpected end-of-file"⟩

/-- What a parser says of a text that it refuses. -/
def unparsed : IoError := invalidData "not of the expected form"

/-- A deserialiser, by the calls it makes on its reader. -/
inductive Read (α : Type) : Type where
  /-- It has a value. -/
  | done (value : α)
  /-- It gives up. -/
  | fail (error : IoError)
  /-- `try_read_number`. -/
  | number (next : Option UInt64 → Read α)
  /-- `try_read_bytes`. -/
  | bytes (next : Option ByteString → Read α)
  /-- `Vec::with_capacity` for so many items of such a size. -/
  | reserve (count size : Nat) (next : Read α)
  /-- So many calls of a parser inside one another. -/
  | nested (depth : Nat) (next : Read α)

namespace Read

variable {α β : Type}

/-- One deserialiser after another. -/
def bind (first : Read α) (second : α → Read β) : Read β :=
  match first with
  | done value => second value
  | fail error => fail error
  | number next => number fun value => (next value).bind second
  | bytes next => bytes fun value => (next value).bind second
  | reserve count size next => reserve count size (next.bind second)
  | nested depth next => nested depth (next.bind second)

instance : Monad Read where
  pure := done
  bind := bind

/-- `TryReadU64` on the bytes of a connection. -/
def tryReadNumber (input : Bytes) : Outcome (Option UInt64) :=
  if input = [] then .ok none []
  else if input.length < 8 then .error ⟨.unexpectedEof, "EOF reading u64"⟩
  else .ok (some (fromLeBytes (input.take 8))) (input.drop 8)

/-- The first bytes of an input, at most as many as a buffer holds. -/
def takeBytes (ctx : Ctx) (input : Bytes) (len : Nat) (within : len ≤ ctx.maxBufSize) : ByteString :=
  ⟨input.take len, Nat.lt_of_le_of_lt (Nat.le_trans (List.length_take_le _ _) within) ctx.small⟩

/-- `TryReadBytesLimited` on what follows the length. -/
def readContents (ctx : Ctx) (rawLen : UInt64) (input : Bytes) : Outcome (Option ByteString) :=
  let aligned := (calcAligned rawLen).toNat
  if within : rawLen.toNat ≤ ctx.maxBufSize then
    if 2 ^ 64 ≤ rawLen.toNat + 7 then .error (invalidData "aligned bytes length out of range")
    else if aligned = 0 then .ok (some ⟨[], ByteString.nil_small⟩) input
    else if input.length < aligned then .error BytesReader.forceEof
    else if (input.take aligned).drop rawLen.toNat ≠ zeros.take (aligned - rawLen.toNat) then
      .error (invalidData "non-zero padding")
    else .ok (some (takeBytes ctx input rawLen.toNat within)) (input.drop aligned)
  else .error (invalidData "bytes length out of range")

/-- `try_read_bytes` on the bytes of a connection. -/
def tryReadBytes (ctx : Ctx) (input : Bytes) : Outcome (Option ByteString) :=
  match tryReadNumber input with
  | .ok (some rawLen) rest => readContents ctx rawLen rest
  | .ok none rest => .ok none rest
  | .error error => .error error
  | .panic => .panic

/-- Run a deserialiser on the bytes of a connection, on a stack that has room for all its calls. -/
def run (ctx : Ctx) : Read α → Bytes → Outcome α
  | done value, input => .ok value input
  | fail error, _ => .error error
  | number next, input =>
    match tryReadNumber input with
    | .ok value rest => (next value).run ctx rest
    | .error error => .error error
    | .panic => .panic
  | bytes next, input =>
    match tryReadBytes ctx input with
    | .ok value rest => (next value).run ctx rest
    | .error error => .error error
    | .panic => .panic
  | reserve count size next, input => if 2 ^ 63 ≤ count * size then .panic else next.run ctx input
  | nested _ next, input => next.run ctx input

/-- What follows an outcome. -/
def andThen (ctx : Ctx) (second : α → Read β) : Outcome α → Outcome β
  | .ok value rest => (second value).run ctx rest
  | .error error => .error error
  | .panic => .panic

/-- Running one deserialiser after another. -/
theorem run_bind (ctx : Ctx) (first : Read α) (second : α → Read β) (input : Bytes) :
    (first >>= second).run ctx input = andThen ctx second (first.run ctx input) := by
  show (first.bind second).run ctx input = _
  induction first generalizing input with
  | done value => rfl
  | fail error => rfl
  | number next ih =>
    unfold bind run
    cases tryReadNumber input with
    | ok value rest => exact ih value rest
    | error error => rfl
    | panic => rfl
  | bytes next ih =>
    unfold bind run
    cases tryReadBytes ctx input with
    | ok value rest => exact ih value rest
    | error error => rfl
    | panic => rfl
  | reserve count size next ih =>
    unfold bind run
    split
    · rfl
    · exact ih input
  | nested depth next ih =>
    unfold bind run
    exact ih input

/-- When one deserialiser after another gives a value, both give one. -/
theorem run_bind_ok {ctx : Ctx} {first : Read α} {second : α → Read β} {input rest : Bytes}
    {value : β} (ran : (first >>= second).run ctx input = .ok value rest) :
    ∃ mid between, first.run ctx input = .ok mid between ∧
      (second mid).run ctx between = .ok value rest := by
  rw [run_bind] at ran
  cases outcome : first.run ctx input with
  | ok mid between => exact ⟨mid, between, rfl, by rw [outcome] at ran; exact ran⟩
  | error error => rw [outcome] at ran; cases ran
  | panic => rw [outcome] at ran; cases ran

/-- Asking for a word. -/
theorem run_number_done (ctx : Ctx) (input : Bytes) :
    (number done).run ctx input = tryReadNumber input := by
  unfold run
  cases tryReadNumber input <;> rfl

/-- Asking for a byte string. -/
theorem run_bytes_done (ctx : Ctx) (input : Bytes) :
    (bytes done).run ctx input = tryReadBytes ctx input := by
  unfold run
  cases tryReadBytes ctx input <;> rfl

/-- A written word is read. -/
@[simp] theorem tryReadNumber_toLeBytes (value : UInt64) (tail : Bytes) :
    tryReadNumber (toLeBytes value ++ tail) = .ok (some value) tail := by
  have length := toLeBytes_length value
  have some : toLeBytes value ++ tail ≠ [] := by
    intro none
    rw [(List.append_eq_nil_iff.mp none).1] at length
    cases length
  have long : ¬ (toLeBytes value ++ tail).length < 8 := by
    rw [List.length_append]
    omega
  rw [tryReadNumber, if_neg some, if_neg long, List.take_left' length, List.drop_left' length,
    fromLeBytes_toLeBytes]

/-- A written slice is read, unless it is too long. -/
theorem tryReadBytes_putNixSlice (ctx : Ctx) {src : Bytes} (small : src.length ≤ 2 ^ 64 - 8)
    (tail : Bytes) :
    tryReadBytes ctx (putNixSlice src ++ tail) =
      if within : src.length ≤ ctx.maxBufSize then
        .ok (some ⟨src, Nat.lt_of_le_of_lt within ctx.small⟩) tail
      else .error (invalidData "bytes length out of range") := by
  have exact : (UInt64.ofNat src.length).toNat = src.length :=
    UInt64.toNat_ofNat_of_lt' (Nat.lt_of_le_of_lt small (by decide))
  have fits : Fits (UInt64.ofNat src.length) := by
    unfold Fits
    omega
  have aligned := calcAligned_fits fits
  have padding := calcPadding_fits fits
  rw [exact] at aligned padding
  have grows := le_alignNat src.length
  have near : alignNat src.length < src.length + 8 := by
    unfold alignNat
    omega
  have joins : putNixSlice src ++ tail = toLeBytes (UInt64.ofNat src.length) ++
      (src ++ (List.replicate (alignNat src.length - src.length) 0 ++ tail)) := by
    rw [putNixSlice, padding]
    simp only [List.append_assoc]
  have zeroed : List.replicate (alignNat src.length - src.length) (0 : UInt8) =
      zeros.take (alignNat src.length - src.length) := by
    show _ = (List.replicate 8 (0 : UInt8)).take _
    rw [List.take_replicate, Nat.min_eq_left (by omega)]
  rw [tryReadBytes, joins, tryReadNumber_toLeBytes]
  show readContents _ _ _ = _
  rw [readContents]
  simp only [exact, aligned, takeBytes]
  split
  case isFalse => rfl
  case isTrue =>
    rw [if_neg (by omega)]
    split
    case isTrue empty =>
      have nothing : src = [] := List.eq_nil_of_length_eq_zero (by omega)
      subst nothing
      rfl
    case isFalse =>
      have whole : (src ++ (List.replicate (alignNat src.length - src.length) 0 ++ tail)).take
          (alignNat src.length) = src ++ List.replicate (alignNat src.length - src.length) 0 := by
        rw [← List.append_assoc]
        exact List.take_left' (by simp; omega)
      have after : (src ++ (List.replicate (alignNat src.length - src.length) 0 ++ tail)).drop
          (alignNat src.length) = tail := by
        rw [← List.append_assoc]
        exact List.drop_left' (by simp; omega)
      rw [if_neg (by simp; omega), whole, after, List.drop_left, if_neg (by rw [zeroed]; simp)]
      simp only [List.take_left]

/-- A byte string that is read is within the limit. -/
theorem tryReadBytes_length {ctx : Ctx} {input rest : Bytes} {contents : ByteString}
    (read : tryReadBytes ctx input = .ok (some contents) rest) :
    contents.bytes.length ≤ ctx.maxBufSize := by
  unfold tryReadBytes at read
  split at read
  case h_1 rawLen between _ =>
    unfold readContents at read
    simp only at read
    repeat' split at read
    all_goals cases read
    · exact Nat.zero_le _
    · rename_i within _ _ _ _
      exact Nat.le_trans (List.length_take_le _ _) within
  case h_2 => cases read
  case h_3 => cases read
  case h_4 => cases read

end Read

end Harmonia.Protocol
