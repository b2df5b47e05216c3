import Harmonia.Cache.Narinfo

/-!
# Ranges of an archive

`nar.rs` of the cache: a request for an archive may ask for a range of it. `create_range_stream` cuts the
range out of a stream of chunks, and keeps no more for it than the number of bytes it has seen. The text of
the header, the length of the body and the bytes in it are three descriptions of one range.
-/

namespace Harmonia.Cache

open Library Store Protocol

/-! ## Cutting a range out of a stream -/

/-- How an operation on `u64`s leaves its type. -/
inductive Arith where
  /-- The result would be too large. -/
  | overflow
  /-- The result would be negative. -/
  | underflow
  deriving DecidableEq, Repr

/-- `+` of `u64`s. -/
def addU64 (left right : Nat) : Except Arith Nat :=
  if left + right < 2 ^ 64 then .ok (left + right) else .error .overflow

/-- `-` of `u64`s. -/
def subU64 (left right : Nat) : Except Arith Nat :=
  if right ≤ left then .ok (left - right) else .error .underflow

/-- What the closure of `unfold` makes of one chunk. -/
inductive Sliced where
  /-- Nothing, and it goes on with so many bytes seen. -/
  | skip (sent : Nat)
  /-- A part of the chunk. -/
  | part (slice : Bytes) (sent : Nat)
  /-- The range is over. -/
  | exhausted
  deriving DecidableEq, Repr

/-- `start`: where the range starts in a chunk. -/
def startIn (offset sent : Nat) : Except Arith Nat := if sent < offset then subU64 offset sent else .ok 0

/-- `remaining`: how much of the range is still to come. -/
def remainingOf (offset length sent : Nat) : Except Arith Nat := subU64 length (min (sent - offset) length)

/-- What the loop in the closure does with `Some(Ok(data))`. -/
def sliceChunk (offset length sent : Nat) (data : Bytes) : Except Arith Sliced := do
  let dataLen := data.length
  let seen ← addU64 sent dataLen
  if seen ≤ offset then .ok (.skip seen)
  else
    let start ← startIn offset sent
    let remaining ← remainingOf offset length sent
    if remaining = 0 then .ok .exhausted
    else
      let bound ← addU64 start remaining
      let last := min bound dataLen
      if start < last then .ok (.part ((data.take last).drop start) seen) else .ok (.skip seen)

/-- What a stream yields. -/
inductive Yields where
  /-- It is over. -/
  | done
  /-- It panics. -/
  | panic (cause : Arith)
  /-- An item, and what comes after it. -/
  | item (item : Except IoError Bytes) (rest : Yields)
  deriving Repr

/-- `unfold`, with so many bytes seen. -/
def rangeFrom (offset length : Nat) : Nat → List (Except IoError Bytes) → Yields
  | _, [] => .done
  | sent, .error error :: rest => .item (.error error) (rangeFrom offset length sent rest)
  | sent, .ok data :: rest =>
    match sliceChunk offset length sent data with
    | .error cause => .panic cause
    | .ok (.skip sent) => rangeFrom offset length sent rest
    | .ok (.part slice sent) => .item (.ok slice) (rangeFrom offset length sent rest)
    | .ok .exhausted => .done

/-- `create_range_stream`. -/
def createRangeStream (stream : List (Except IoError Bytes)) (offset length : Nat) : Yields :=
  rangeFrom offset length 0 stream

/-- The chunks of a stream before its first error. -/
def chunksOf : List (Except IoError Bytes) → List Bytes
  | .ok data :: rest => data :: chunksOf rest
  | _ => []

/-- The chunks that are yielded before the first error, unless there is a panic before it. -/
def Yields.chunks : Yields → Option (List Bytes)
  | .done | .item (.error _) _ => some []
  | .panic _ => none
  | .item (.ok data) rest => rest.chunks.map fun later => data :: later

/-- Nothing becomes negative, however long the stream is polled. -/
def Yields.Sane : Yields → Prop
  | .done => True
  | .panic cause => cause = .overflow
  | .item _ rest => rest.Sane

/-- The part of some bytes that lies in the range, when so many were seen before them. -/
def partOf (offset length sent : Nat) (bytes : Bytes) : Bytes :=
  (bytes.take (offset + length - sent)).drop (offset - sent)

/-- The part of some bytes and of those behind them. -/
theorem partOf_append (offset length sent : Nat) (data rest : Bytes) :
    partOf offset length sent (data ++ rest) =
      partOf offset length sent data ++ partOf offset length (sent + data.length) rest := by
  have starts : offset - (sent + data.length) = offset - sent - data.length := Nat.sub_add_eq _ _ _
  have ends : offset + length - (sent + data.length) = offset + length - sent - data.length :=
    Nat.sub_add_eq _ _ _
  rw [partOf, partOf, partOf, List.take_append, List.drop_append, starts, ends, List.length_take]
  by_cases long : data.length ≤ offset + length - sent
  · rw [Nat.min_eq_right long]
  · have none : offset + length - sent - data.length = 0 := by omega
    rw [none, List.take_zero, List.drop_nil, List.drop_nil]

/-- Behind the range there is no part of it. -/
theorem partOf_over {offset length sent : Nat} (gone : offset + length ≤ sent ∨ length = 0) (bytes : Bytes) :
    partOf offset length sent bytes = [] := by
  apply List.drop_eq_nil_of_le
  rw [List.length_take]
  omega

/-- What is made of a chunk is the part of it that lies in the range. -/
inductive Slicing (offset length sent : Nat) (data : Bytes) : Except Arith Sliced → Prop
  | skip (none : partOf offset length sent data = []) :
    Slicing offset length sent data (.ok (.skip (sent + data.length)))
  | part (some : partOf offset length sent data ≠ []) :
    Slicing offset length sent data (.ok (.part (partOf offset length sent data) (sent + data.length)))
  | exhausted (gone : offset + length ≤ sent ∨ length = 0) : Slicing offset length sent data (.ok .exhausted)

/-- The start of the range in a chunk is never negative. -/
theorem startIn_eq (offset sent : Nat) : startIn offset sent = .ok (offset - sent) := by
  by_cases before : sent < offset
  · rw [startIn, if_pos before, subU64, if_pos (Nat.le_of_lt before)]
  · rw [startIn, if_neg before, Nat.sub_eq_zero_of_le (Nat.le_of_not_lt before)]

/-- Nor is what is still to come of it. -/
theorem remainingOf_eq (offset length sent : Nat) :
    remainingOf offset length sent = .ok (length - min (sent - offset) length) :=
  if_pos (Nat.min_le_right _ _)

/-- A chunk is sliced so, as long as its bytes can be counted. -/
theorem sliceChunk_slicing {offset length sent : Nat} {data : Bytes} (fits : offset + length < 2 ^ 64)
    (counted : sent + data.length < 2 ^ 64) :
    Slicing offset length sent data (sliceChunk offset length sent data) := by
  have seen : addU64 sent data.length = .ok (sent + data.length) := if_pos counted
  rw [sliceChunk, seen, startIn_eq, remainingOf_eq]
  show Slicing offset length sent data (if _ then _ else _)
  split
  case isTrue early =>
    apply Slicing.skip
    apply List.drop_eq_nil_of_le
    rw [List.length_take]
    omega
  case isFalse late =>
    show Slicing offset length sent data (if _ then _ else _)
    split
    case isTrue nothing =>
      apply Slicing.exhausted
      omega
    case isFalse more =>
      have total : offset - sent + (length - min (sent - offset) length) = offset + length - sent := by omega
      have bound : addU64 (offset - sent) (length - min (sent - offset) length) = .ok (offset + length - sent) := by
        rw [addU64, total, if_pos (by omega)]
      have same : (data.take (min (offset + length - sent) data.length)).drop (offset - sent) =
          partOf offset length sent data := by
        rw [← List.take_eq_take_min]
        rfl
      have size : (partOf offset length sent data).length =
          min (offset + length - sent) data.length - (offset - sent) := by
        rw [partOf, List.length_drop, List.length_take]
      rw [bound]
      show Slicing offset length sent data (if _ then _ else _)
      split
      case isTrue some =>
        rw [same]
        apply Slicing.part
        intro none
        rw [none, List.length_nil] at size
        omega
      case isFalse none =>
        apply Slicing.skip
        apply List.length_eq_zero_iff.mp
        omega

/-- Whatever a chunk is, no subtraction goes below zero. -/
theorem sliceChunk_sane {offset length sent : Nat} {data : Bytes} {cause : Arith}
    (failed : sliceChunk offset length sent data = .error cause) : cause = .overflow := by
  have sum {left right : Nat} {cause : Arith} (failed : addU64 left right = .error cause) : cause = .overflow := by
    unfold addU64 at failed
    split at failed
    · cases failed
    · exact (Except.error.inj failed).symm
  rw [sliceChunk, startIn_eq, remainingOf_eq] at failed
  cases seen : addU64 sent data.length with
  | error other =>
    rw [seen] at failed
    cases failed
    exact sum seen
  | ok total =>
    rw [seen] at failed
    change (if _ then _ else _) = _ at failed
    split at failed
    · cases failed
    · change (if _ then _ else _) = _ at failed
      split at failed
      · cases failed
      · cases bound : addU64 (offset - sent) (length - min (sent - offset) length) with
        | error other =>
          rw [bound] at failed
          cases failed
          exact sum bound
        | ok last =>
          rw [bound] at failed
          change (if _ then _ else _) = _ at failed
          split at failed <;> cases failed

/-- No subtraction of a stream goes below zero. -/
theorem rangeFrom_sane (offset length sent : Nat) (stream : List (Except IoError Bytes)) :
    (rangeFrom offset length sent stream).Sane := by
  induction stream generalizing sent with
  | nil => trivial
  | cons item rest ih =>
    cases item with
    | error error => exact ih sent
    | ok data =>
      rw [rangeFrom]
      cases sliced : sliceChunk offset length sent data with
      | error cause => exact sliceChunk_sane sliced
      | ok made =>
        cases made with
        | skip sent => exact ih sent
        | part slice sent => exact ih sent
        | exhausted => trivial

/-- What is yielded from some point on is the part of what comes then. -/
theorem rangeFrom_chunks {offset length sent : Nat} {stream : List (Except IoError Bytes)}
    (fits : offset + length < 2 ^ 64) (counted : sent + (chunksOf stream).flatten.length < 2 ^ 64) :
    ∃ slices, (rangeFrom offset length sent stream).chunks = some slices ∧
      slices.flatten = partOf offset length sent (chunksOf stream).flatten ∧ ∀ slice ∈ slices, slice ≠ [] := by
  have nothing : partOf offset length sent [] = [] := by rw [partOf, List.take_nil, List.drop_nil]
  induction stream generalizing sent with
  | nil => exact ⟨[], rfl, nothing.symm, List.forall_mem_nil _⟩
  | cons item rest ih =>
    cases item with
    | error error => exact ⟨[], rfl, nothing.symm, List.forall_mem_nil _⟩
    | ok data =>
      have size : (chunksOf (.ok data :: rest)).flatten = data ++ (chunksOf rest).flatten := rfl
      rw [size, List.length_append] at counted
      rw [size, partOf_append, rangeFrom]
      have later := @ih (sent + data.length) (by omega) (by rw [partOf, List.take_nil, List.drop_nil])
      have slicing := @sliceChunk_slicing offset length sent data fits (by omega)
      generalize sliceChunk offset length sent data = made at slicing
      cases slicing with
      | skip none =>
        rw [none]
        exact later
      | part some =>
        obtain ⟨slices, yielded, joined, filled⟩ := later
        refine ⟨partOf offset length sent data :: slices, ?_, ?_, List.forall_mem_cons.mpr ⟨some, filled⟩⟩
        · show Option.map _ (Yields.chunks _) = _
          rw [yielded]
          rfl
        · rw [List.flatten_cons, joined]
      | exhausted gone =>
        refine ⟨[], rfl, ?_, List.forall_mem_nil _⟩
        rw [partOf_over gone, partOf_over (gone.imp_left fun past => Nat.le_trans past (Nat.le_add_right _ _))]
        rfl

/-- For every stream of chunks and every range that ends within a `u64`, no subtraction goes below zero. If
the chunks before the first error have fewer than `2^64` bytes, then what is yielded before the first
error is exactly the range of these bytes, never more than was asked for, and no chunk of it is empty. -/
theorem createRangeStream_range (stream : List (Except IoError Bytes)) {offset length : Nat}
    (fits : offset + length < 2 ^ 64) :
    (createRangeStream stream offset length).Sane ∧
      ((chunksOf stream).flatten.length < 2 ^ 64 →
        ∃ slices, (createRangeStream stream offset length).chunks = some slices ∧
          slices.flatten = ((chunksOf stream).flatten.take
            (min (offset + length) (chunksOf stream).flatten.length)).drop offset ∧
          slices.flatten.length ≤ length ∧ ∀ slice ∈ slices, slice ≠ []) := by
  apply And.intro (rangeFrom_sane offset length 0 stream)
  intro counted
  obtain ⟨slices, yielded, joined, filled⟩ := @rangeFrom_chunks offset length 0 stream fits (by omega)
  have range : partOf offset length 0 (chunksOf stream).flatten = ((chunksOf stream).flatten.take
      (min (offset + length) (chunksOf stream).flatten.length)).drop offset := by
    rw [← List.take_eq_take_min]
    rfl
  refine ⟨slices, yielded, joined.trans range, ?_, filled⟩
  rw [joined, partOf, List.length_drop, List.length_take]
  omega

/-- Three chunks, of which the second is empty, before an error. -/
def someChunks : List (Except IoError Bytes) :=
  [.ok [1, 2, 3], .ok [], .ok [4, 5, 6], .error ⟨.other, "gone"⟩, .ok [7]]

/-- A range from within the first chunk into the third. -/
theorem createRangeStream_range_someChunks :
    (createRangeStream someChunks 1 3).Sane ∧
      ∃ slices, (createRangeStream someChunks 1 3).chunks = some slices ∧ slices.flatten = [2, 3, 4] ∧
        slices.flatten.length ≤ 3 ∧ ∀ slice ∈ slices, slice ≠ [] := by
  have served := createRangeStream_range someChunks (show 1 + 3 < 2 ^ 64 by decide)
  exact ⟨served.1, served.2 (by decide)⟩

/-- A chunk whose bytes cannot be counted is a panic. -/
theorem rangeFrom_overflow {offset length sent : Nat} {data : Bytes} (rest : List (Except IoError Bytes))
    (large : 2 ^ 64 ≤ sent + data.length) :
    rangeFrom offset length sent (.ok data :: rest) = .panic .overflow := by
  have seen : addU64 sent data.length = .error .overflow := if_neg (Nat.not_lt.mpr large)
  rw [rangeFrom, sliceChunk, seen]
  rfl

/-- A chunk that ends before the range is passed. -/
theorem rangeFrom_before {offset length sent : Nat} {data : Bytes} (rest : List (Except IoError Bytes))
    (early : sent + data.length ≤ offset) (small : sent + data.length < 2 ^ 64) :
    rangeFrom offset length sent (.ok data :: rest) = rangeFrom offset length (sent + data.length) rest := by
  have seen : addU64 sent data.length = .ok (sent + data.length) := if_pos small
  have passed : sliceChunk offset length sent data = .ok (.skip (sent + data.length)) := by
    rw [sliceChunk, seen]
    exact if_pos early
  rw [rangeFrom, passed]

/-- Copies of one chunk that end before the range are passed. -/
theorem rangeFrom_copies {offset length sent : Nat} {data : Bytes} (copies : Nat)
    (rest : List (Except IoError Bytes)) (early : sent + copies * data.length ≤ offset)
    (small : offset < 2 ^ 64) :
    rangeFrom offset length sent (List.replicate copies (.ok data) ++ rest) =
      rangeFrom offset length (sent + copies * data.length) rest := by
  induction copies generalizing sent with
  | zero => rw [Nat.zero_mul, Nat.add_zero, List.replicate_zero, List.nil_append]
  | succ copies ih =>
    have total : sent + (copies + 1) * data.length = sent + data.length + copies * data.length := by
      rw [Nat.add_one_mul]
      omega
    rw [total] at early
    rw [List.replicate_succ, List.cons_append, rangeFrom_before _ (by omega) (by omega), ih early, total]

/-- From a stream of `2^64` bytes, the range of its last byte but one is not yielded: the last of `2^44` chunks
of a mebibyte overflows the number of bytes that were seen. -/
theorem createRangeStream_overflows :
    ¬ ∀ (stream : List (Except IoError Bytes)) (offset length : Nat), offset + length < 2 ^ 64 →
      ∃ slices, (createRangeStream stream offset length).chunks = some slices ∧
        slices.flatten = ((chunksOf stream).flatten.take
          (min (offset + length) (chunksOf stream).flatten.length)).drop offset := by
  intro every
  obtain ⟨data, size⟩ : ∃ data : Bytes, data.length = 2 ^ 20 := ⟨List.replicate _ 0, List.length_replicate⟩
  obtain ⟨copies, count⟩ : ∃ copies : Nat, copies = 2 ^ 44 - 1 := ⟨_, rfl⟩
  have total : copies * data.length = 2 ^ 64 - 2 ^ 20 := by
    rw [size, count]
    decide
  obtain ⟨slices, yielded, -⟩ :=
    every (List.replicate copies (.ok data) ++ [.ok data]) (2 ^ 64 - 2) 1 (by decide)
  rw [createRangeStream, rangeFrom_copies copies _ (by omega) (by decide),
    rangeFrom_overflow _ (by omega)] at yielded
  cases yielded

/-! ## Requests for an archive -/

/-- The headers that are set. -/
inductive Header where
  | contentEncoding
  | contentRange
  | contentType
  | acceptRanges
  | cacheControl
  deriving DecidableEq, Repr

/-- The statuses of an answer. -/
inductive Status where
  | ok
  | badRequest
  | notFound
  | rangeNotSatisfiable
  deriving DecidableEq, Repr

/-- The body of an answer. -/
inductive NarBody where
  /-- None. -/
  | none
  /-- A text. -/
  | text (text : Bytes)
  /-- `SizedStream`. -/
  | sized (size : UInt64) (stream : Yields)

/-- `HttpResponse`. -/
structure NarResponse where
  /-- The status. -/
  status : Status
  /-- The headers, in the order in which they were set. -/
  headers : List (Header × Bytes)
  /-- The body. -/
  body : NarBody

/-- The value of a header. -/
def NarResponse.header (this : NarResponse) (name : Header) : Option Bytes :=
  (this.headers.find? fun header => header.1 == name).map Prod.snd

/-- `CacheError`, as far as it is told here. -/
inductive NarError where
  /-- `PathQuery`. -/
  | pathQuery
  /-- `Remote`. -/
  | remote
  deriving DecidableEq, Repr

/-- How a request for an archive is answered. -/
inductive NarAnswer where
  /-- `Ok`. -/
  | ok (response : NarResponse)
  /-- `Err`. -/
  | err (error : NarError)
  /-- It panics. -/
  | panic

/-- `HttpRange`. -/
structure HttpRange where
  /-- `start`. -/
  start : UInt64
  /-- `length`. -/
  length : UInt64
  deriving DecidableEq, Repr

/-- `PathParams`. -/
structure PathParams where
  /-- `narhash`. -/
  narhash : Bytes
  /-- `outhash`. -/
  outhash : Option Bytes

/-- `NarRequest`. -/
structure NarRequest where
  /-- `hash`. -/
  hash : Option Bytes

/-- `Config`, as far as it is asked. -/
structure NarConfig extends NarinfoConfig where
  /-- `enable_compression`. -/
  enableCompression : Bool

/-- `HeaderValue::to_str`: only visible symbols, spaces and tabs are text. -/
def headerText (value : Bytes) : Option Bytes :=
  if value.all fun byte => (32 ≤ byte && byte < 127) || byte == 9 then some value else none

/-- The answer to a request for something that is not there. -/
def missing (text : String) : NarResponse :=
  ⟨.notFound, [(.cacheControl, asciiBytes "no-store")], .text (asciiBytes text)⟩

section Handler

variable [DataEncoding]

/-- The start of `get`: what is known of the archive that is asked for, or the answer if there is none. -/
def findNar (settings : NarConfig) (path : PathParams) (q : NarRequest) :
    Except NarAnswer (StorePath × UnkeyedValidPathInfo) :=
  match q.hash.or path.outhash with
  | none => .error (.ok (missing "missing outhash"))
  | some outhash =>
    match StorePathHash.decodeDigest outhash with
    | none => .error (.err .pathQuery)
    | some storePathHash =>
      match settings.query storePathHash with
      | none => .error (.err .pathQuery)
      | some none => .error (.ok (missing "store path not found"))
      | some (some storePath) =>
        match settings.queryPathInfo storePath with
        | none => .error (.err .remote)
        | some none => .error (.ok (missing "path info not found"))
        | some (some info) =>
          if path.narhash ≠ bareBase32Display info.narHash then .error (.ok (missing "hash mismatch detected"))
          else .ok (storePath, info)

/-- `http_range::HttpRange::parse`, with starts and lengths; `none` is an error. -/
abbrev RangeParser := Bytes → UInt64 → Option (List (UInt64 × UInt64))

/-- `HttpRange::parse`. -/
def HttpRange.parse (httpRange : RangeParser) (header : Bytes) (size : UInt64) : Option (List HttpRange) :=
  (httpRange header size).map fun ranges => ranges.map fun range => ⟨range.1, range.2⟩

/-- The value of `CONTENT_RANGE` for a part. -/
def contentRange (offset : UInt64) (last : Nat) (narSize : UInt64) : Bytes :=
  asciiBytes "bytes " ++ decimal offset ++ 45 :: asciiBytes (Nat.repr last) ++ 47 :: decimal narSize

/-- The headers of every answer with an archive in it. -/
def narHeaders : List (Header × Bytes) :=
  [(.contentType, asciiBytes "application/x-nix-archive"), (.acceptRanges, asciiBytes "bytes"),
    (.cacheControl, asciiBytes "max-age=31536000")]

/-- A stream as it is. -/
def Yields.ofItems : List (Except IoError Bytes) → Yields
  | [] => .done
  | first :: rest => .item first (ofItems rest)

/-- `offset + range_length - 1`. -/
def lastOf (range : HttpRange) : Except Arith Nat := do
  let bound ← addU64 range.start.toNat range.length.toNat
  subU64 bound 1

/-- The response with a range whose last byte is known. -/
def rangeResponse (settings : NarConfig) (narSize : UInt64) (stream : List (Except IoError Bytes))
    (range : HttpRange) (last : Nat) : NarResponse where
  status := .ok
  headers := (if settings.enableCompression then [(.contentEncoding, asciiBytes "none")] else []) ++
    (.contentRange, contentRange range.start last narSize) :: narHeaders
  body := .sized range.length (createRangeStream stream range.start.toNat range.length.toNat)

/-- The answer with the first of the ranges. -/
def rangeAnswer (settings : NarConfig) (narSize : UInt64) (stream : List (Except IoError Bytes)) :
    List HttpRange → NarAnswer
  | [] => .panic
  | range :: _ =>
    match lastOf range with
    | .error _ => .panic
    | .ok last => .ok (rangeResponse settings narSize stream range last)

/-- `get`; the stream of an archive is given by its path. -/
def getNar (httpRange : RangeParser) (narByteStream : Bytes → List (Except IoError Bytes))
    (settings : NarConfig) (path : PathParams) (range : Option Bytes) (q : NarRequest) : NarAnswer :=
  match findNar settings path q with
  | .error answer => answer
  | .ok (storePath, info) =>
    let stream := narByteStream (settings.store.getRealPath storePath)
    match range with
    | none => .ok ⟨.ok, narHeaders, .sized info.narSize (.ofItems stream)⟩
    | some value =>
      match headerText value with
      | none => .ok ⟨.badRequest, [], .none⟩
      | some header =>
        match HttpRange.parse httpRange header info.narSize with
        | none =>
          .ok ⟨.rangeNotSatisfiable, [(.contentRange, asciiBytes "bytes */" ++ decimal info.narSize)], .none⟩
        | some ranges => rangeAnswer settings info.narSize stream ranges

/-- A response with a body of an archive names, declares and sends one range of it. -/
structure Describes (narSize : UInt64) (stream : List (Except IoError Bytes)) (response : NarResponse)
    (size : UInt64) (yields : Yields) (start length : Nat) : Prop where
  /-- The range has something in it. -/
  some : 1 ≤ length
  /-- The header names it by its first and its last byte. -/
  named : response.header .contentRange =
    .some (contentRange (.ofNat start) (start + length - 1) narSize) ∧ start < 2 ^ 64
  /-- The body declares its length. -/
  declared : size.toNat = length
  /-- The stream is asked for it. -/
  asked : yields = createRangeStream stream start length
  /-- Of an archive of the known size, exactly its bytes are sent. -/
  sent : (chunksOf stream).flatten.length = narSize.toNat →
    ∃ slices, yields.chunks = .some slices ∧ slices.flatten.length = length ∧
      slices.flatten = ((chunksOf stream).flatten.take (start + length)).drop start

section Requests

variable (httpRange : RangeParser) (narByteStream : Bytes → List (Except IoError Bytes)) (settings : NarConfig)
  (path : PathParams) (value : Bytes) (q : NarRequest)

/-- A request for a range is answered, and what a body of an archive is sent with describes it. -/
def RangeServed : Prop :=
  getNar httpRange narByteStream settings path (some value) q ≠ .panic ∧
    ∀ response size yields, getNar httpRange narByteStream settings path (some value) q = .ok response →
      response.body = .sized size yields →
      ∃ storePath info start length, findNar settings path q = .ok (storePath, info) ∧
        Describes info.narSize (narByteStream (settings.store.getRealPath storePath)) response size yields
          start length

/-- If the parser gives ranges for the request, there is one, and the first of them is not empty. -/
def RangeGiven : Prop :=
  ∀ storePath info header ranges, findNar settings path q = .ok (storePath, info) →
    headerText value = some header → HttpRange.parse httpRange header info.narSize = some ranges →
    ∃ first rest, ranges = first :: rest ∧ 1 ≤ first.length.toNat

end Requests

/-- What is documented of the parser: no range goes beyond the size. -/
def Bounded (httpRange : RangeParser) : Prop :=
  ∀ header size ranges, httpRange header size = some ranges →
    ∀ range ∈ ranges, range.1.toNat + range.2.toNat ≤ size.toNat

/-- An answer without an archive in it. -/
def NarAnswer.Bodiless : NarAnswer → Prop
  | .panic => False
  | .err _ => True
  | .ok response => ∀ size yields, response.body ≠ .sized size yields

/-- Without an archive, a text or an error is answered. -/
theorem findNar_error {settings : NarConfig} {path : PathParams} {q : NarRequest} {answer : NarAnswer}
    (missed : findNar settings path q = .error answer) : answer.Bodiless := by
  have text (text : String) : NarAnswer.Bodiless (.ok (missing text)) := fun _ _ same => by cases same
  unfold findNar at missed
  split at missed
  · cases missed
    exact text _
  · split at missed
    · cases missed
      trivial
    · split at missed
      · cases missed
        trivial
      · cases missed
        exact text _
      · split at missed
        · cases missed
          trivial
        · cases missed
          exact text _
        · split at missed
          · cases missed
            exact text _
          · cases missed

/-- An archive that the daemon knows under the hash that is asked for. -/
theorem findNar_ok {settings : NarConfig} {path : PathParams} {q : NarRequest} {text : Bytes}
    {hash : StorePathHash} {storePath : StorePath} {info : UnkeyedValidPathInfo}
    (asked : q.hash.or path.outhash = some text) (decoded : StorePathHash.decodeDigest text = some hash)
    (known : settings.query hash = some (some storePath))
    (there : settings.queryPathInfo storePath = some (some info))
    (same : path.narhash = bareBase32Display info.narHash) :
    findNar settings path q = .ok (storePath, info) := by
  simp only [findNar, asked, decoded, known, there]
  exact if_neg (not_not.mpr same)

omit [DataEncoding] in
/-- The last byte of a range that does not end at the start. -/
theorem lastOf_eq {range : HttpRange} (fits : range.start.toNat + range.length.toNat < 2 ^ 64)
    (some : 0 < range.start.toNat + range.length.toNat) :
    lastOf range = .ok (range.start.toNat + range.length.toNat - 1) := by
  rw [lastOf, addU64, if_pos fits]
  exact if_pos some

omit [DataEncoding] in
/-- The first of the ranges is answered with. -/
theorem rangeAnswer_ok (settings : NarConfig) (narSize : UInt64) (stream : List (Except IoError Bytes))
    {first : HttpRange} (rest : List HttpRange) (fits : first.start.toNat + first.length.toNat < 2 ^ 64)
    (some : 0 < first.start.toNat + first.length.toNat) :
    rangeAnswer settings narSize stream (first :: rest) =
      .ok (rangeResponse settings narSize stream first (first.start.toNat + first.length.toNat - 1)) := by
  rw [rangeAnswer, lastOf_eq fits some]

omit [DataEncoding] in
/-- The answer for a range describes it if there is something in it. -/
theorem rangeResponse_describes (settings : NarConfig) {narSize : UInt64} (stream : List (Except IoError Bytes))
    {range : HttpRange} (fits : range.start.toNat + range.length.toNat < 2 ^ 64)
    (within : range.start.toNat + range.length.toNat ≤ narSize.toNat) (some : 1 ≤ range.length.toNat) :
    Describes narSize stream
      (rangeResponse settings narSize stream range (range.start.toNat + range.length.toNat - 1)) range.length
      (createRangeStream stream range.start.toNat range.length.toNat) range.start.toNat range.length.toNat := by
  refine ⟨some, ⟨?_, range.start.toNat_lt⟩, rfl, rfl, ?_⟩
  · rw [UInt64.ofNat_toNat, NarResponse.header, rangeResponse]
    cases settings.enableCompression <;> rfl
  · intro known
    have size := narSize.toNat_lt
    obtain ⟨slices, yielded, joined, -⟩ := @rangeFrom_chunks range.start.toNat range.length.toNat 0 stream fits
      (by omega)
    refine ⟨slices, yielded, ?_, joined⟩
    rw [joined, partOf, List.length_drop, List.length_take]
    omega

section Requests

variable {httpRange : RangeParser} {narByteStream : Bytes → List (Except IoError Bytes)} {settings : NarConfig}
  {path : PathParams} {value : Bytes} {q : NarRequest}

/-- A request for a range of an archive that is there. -/
theorem getNar_found {header : Bytes} {storePath : StorePath} {info : UnkeyedValidPathInfo}
    {ranges : List HttpRange} (found : findNar settings path q = .ok (storePath, info))
    (text : headerText value = some header)
    (parsed : HttpRange.parse httpRange header info.narSize = some ranges) :
    getNar httpRange narByteStream settings path (some value) q =
      rangeAnswer settings info.narSize (narByteStream (settings.store.getRealPath storePath)) ranges := by
  simp only [getNar, found, text, parsed]

/-- An answer without an archive in it leaves nothing to describe. -/
theorem rangeServed_of_bodiless {answer : NarAnswer} (bodiless : answer.Bodiless)
    (answered : getNar httpRange narByteStream settings path (some value) q = answer) :
    RangeServed httpRange narByteStream settings path value q := by
  rw [RangeServed, answered]
  constructor
  · rintro rfl
    exact bodiless
  · rintro response size yields rfl body
    exact absurd body (bodiless size yields)

/-- Without a first range that has something in it, a request is not answered as it should be. -/
theorem given_of_rangeServed (served : RangeServed httpRange narByteStream settings path value q) :
    RangeGiven httpRange settings path value q := by
  intro storePath info header ranges found text parsed
  obtain ⟨answered, described⟩ := served
  rw [getNar_found found text parsed] at answered described
  cases ranges with
  | nil => exact absurd rfl answered
  | cons first rest =>
    refine ⟨first, rest, rfl, ?_⟩
    apply Nat.pos_of_ne_zero
    intro empty
    have bound : addU64 first.start.toNat first.length.toNat = .ok first.start.toNat := by
      rw [addU64, empty, Nat.add_zero, if_pos first.start.toNat_lt]
    by_cases start : first.start.toNat = 0
    · -- The byte before the start of the archive.
      apply answered
      rw [rangeAnswer, lastOf, bound, start]
      rfl
    · have some : 0 < first.start.toNat + first.length.toNat := Nat.add_pos_left (Nat.pos_of_ne_zero start) _
      have fits : first.start.toNat + first.length.toNat < 2 ^ 64 := by
        rw [empty]
        exact first.start.toNat_lt
      obtain ⟨_, _, _, length, _, describes⟩ := described _ _ _ (rangeAnswer_ok _ _ _ rest fits some) rfl
      have nonempty := describes.some
      have declared := describes.declared
      omega

omit [DataEncoding] in
/-- The ranges that are made of what the parser gives lie within the size. -/
theorem Bounded.parse (bounded : Bounded httpRange) {header : Bytes} {size : UInt64} {ranges : List HttpRange}
    (parsed : HttpRange.parse httpRange header size = some ranges) {range : HttpRange} (listed : range ∈ ranges) :
    range.start.toNat + range.length.toNat ≤ size.toNat := by
  obtain ⟨raw, read, rfl⟩ := Option.map_eq_some_iff.mp parsed
  obtain ⟨range, member, rfl⟩ := List.mem_map.mp listed
  exact bounded _ _ _ read range member

/-- With a first range that has something in it, it is. -/
theorem rangeServed_of_given (bounded : Bounded httpRange) (given : RangeGiven httpRange settings path value q) :
    RangeServed httpRange narByteStream settings path value q := by
  cases looked : findNar settings path q with
  | error answer =>
    apply rangeServed_of_bodiless (findNar_error looked)
    simp only [getNar, looked]
  | ok found =>
    obtain ⟨storePath, info⟩ := found
    cases text : headerText value with
    | none =>
      apply @rangeServed_of_bodiless _ _ _ _ _ _ _ (.ok ⟨.badRequest, [], .none⟩) fun _ _ same => by cases same
      simp only [getNar, looked, text]
    | some header =>
      cases parsed : HttpRange.parse httpRange header info.narSize with
      | none =>
        apply @rangeServed_of_bodiless _ _ _ _ _ _ _ (.ok ⟨.rangeNotSatisfiable,
          [(.contentRange, asciiBytes "bytes */" ++ decimal info.narSize)], .none⟩) fun _ _ same => by cases same
        simp only [getNar, looked, text, parsed]
      | some ranges =>
        obtain ⟨first, rest, rfl, some⟩ := given storePath info header ranges looked text parsed
        have within := bounded.parse parsed List.mem_cons_self
        have size := info.narSize.toNat_lt
        have fits : first.start.toNat + first.length.toNat < 2 ^ 64 := by omega
        rw [RangeServed, getNar_found looked text parsed, rangeAnswer_ok _ _ _ rest fits (by omega)]
        refine ⟨fun panicked => (by cases panicked), ?_⟩
        intro response size yields same sent
        cases same
        cases sent
        exact ⟨storePath, info, _, _, looked, rangeResponse_describes settings _ fits within some⟩

end Requests

/-- For every request with a range, every configuration and every archive, and whatever ranges within the size
the parser gives: the request is answered, and the header, the declared length and the bytes of a body are one
range with something in it, exactly if the parser gives no empty list and no empty first range. -/
theorem rangeServed_iff {httpRange : RangeParser} (bounded : Bounded httpRange)
    (narByteStream : Bytes → List (Except IoError Bytes)) (settings : NarConfig) (path : PathParams)
    (value : Bytes) (q : NarRequest) :
    RangeServed httpRange narByteStream settings path value q ↔ RangeGiven httpRange settings path value q :=
  ⟨given_of_rangeServed, rangeServed_of_given bounded⟩

end Handler

section Samples

attribute [local instance] standard

/-- A cache of the usual store directory. -/
def rangesIn : NarConfig := { servingIn .default with enableCompression := true }

/-- A path whose archive is there. -/
def rangesPath : PathParams := ⟨bareBase32Display (servedInfo .default).narHash, none⟩

/-- The query of the same path. -/
def rangesQuery : NarRequest := ⟨some servedPath.hash.display⟩

/-- The archive that the path and the query name is found. -/
theorem findNar_ranges : findNar rangesIn rangesPath rangesQuery = .ok (servedPath, servedInfo .default) :=
  findNar_ok rfl servedPath.hash.decodeDigest_display rfl rfl rfl

/-- The parser, for the first four bytes of an archive and for no range at all. -/
def firstBytes : RangeParser := fun header size =>
  if header = asciiBytes "bytes=0-3" ∧ 4 ≤ size then some [(0, 4)]
  else if header = asciiBytes "bytes=" then some []
  else none

/-- The parser for the first bytes gives ranges within the size. -/
theorem firstBytes_bounded : Bounded firstBytes := by
  intro header size ranges parsed range listed
  unfold firstBytes at parsed
  split at parsed
  case isTrue asked =>
    cases parsed
    cases List.mem_singleton.mp listed
    exact asked.2
  case isFalse =>
    split at parsed
    · cases parsed
      cases listed
    · cases parsed

/-- The archive of every path: 120 bytes in two chunks, the first of which ends within the range. -/
def twoChunks (_ : Bytes) : List (Except IoError Bytes) :=
  [.ok [13, 0, 0], .ok (List.replicate 117 7)]

/-- The first four bytes of that archive are served. -/
theorem rangeServed_twoChunks :
    RangeServed firstBytes twoChunks rangesIn rangesPath (asciiBytes "bytes=0-3") rangesQuery := by
  have text : headerText (asciiBytes "bytes=0-3") = some (asciiBytes "bytes=0-3") := by decide +kernel
  have some : HttpRange.parse firstBytes (asciiBytes "bytes=0-3") (servedInfo .default).narSize =
    some [⟨0, 4⟩] := by decide +kernel
  apply (rangeServed_iff firstBytes_bounded twoChunks rangesIn rangesPath _ rangesQuery).mpr
  intro storePath info header ranges found shown parsed
  rw [findNar_ranges] at found
  cases found
  rw [text] at shown
  cases shown
  rw [some] at parsed
  cases parsed
  exact ⟨_, _, rfl, by decide⟩

/-- Whoever asks for no range at all gets no answer. -/
theorem getNar_noRange :
    getNar firstBytes (fun _ => []) rangesIn rangesPath (some (asciiBytes "bytes=")) rangesQuery = .panic ∧
      ¬ ∀ (httpRange : RangeParser) (narByteStream : Bytes → List (Except IoError Bytes)) (settings : NarConfig)
        (path : PathParams) (value : Bytes) (q : NarRequest), Bounded httpRange →
        RangeServed httpRange narByteStream settings path value q := by
  have text : headerText (asciiBytes "bytes=") = some (asciiBytes "bytes=") := by decide +kernel
  have none : HttpRange.parse firstBytes (asciiBytes "bytes=") (servedInfo .default).narSize = some [] := by
    decide +kernel
  have panicked : getNar firstBytes (fun _ => []) rangesIn rangesPath (some (asciiBytes "bytes=")) rangesQuery =
      .panic := getNar_found findNar_ranges text none
  refine ⟨panicked, fun every => ?_⟩
  exact (every _ _ _ _ _ _ firstBytes_bounded).1 panicked

end Samples

end Harmonia.Cache
