import Harmonia.Protocol.FramedWriter

/-!
# The buffered writer of the protocol

`AsyncWrite` for `NixWriter`, in `ser/writer.rs`. Slices are gathered in a buffer, which is written out
when there is no room for another; a slice for which the empty buffer is too small is handed to the
writer below.
-/

namespace Harmonia.Protocol

/-- `NixWriter`, as far as it is a writer. -/
structure NixWriter (W : Type) where
  /-- `inner`. -/
  inner : W
  /-- `buf`. -/
  buf : Bytes
  /-- `buf.capacity()`. -/
  capacity : Nat
  /-- `reserved_buf_size`. -/
  reservedBufSize : Nat
  deriving DecidableEq, Repr

namespace NixWriter

variable {W : Type} [AsyncWrite W]

/-- `remaining_mut`. -/
def remainingMut (this : NixWriter W) : Nat := this.capacity - this.buf.length

/-- The loop of `poll_flush_buf`. Every turn takes one byte at least, so there are no more turns than
bytes. -/
def writeBuf : Nat → NixWriter W → Poll Unit × NixWriter W
  | 0, this => (.ready (), this)
  | turns + 1, this =>
    if this.buf = [] then (.ready (), this)
    else
      match pollWrite this.inner this.buf with
      | (.ready n, inner) =>
        if n = 0 then (.error FramedWriter.writeZero, { this with inner := inner })
        else if this.buf.length < n then (.panic, { this with inner := inner })
        else
          writeBuf turns { this with
            inner := inner, buf := this.buf.drop n, capacity := this.capacity - n }
      | (.pending, inner) => (.pending, { this with inner := inner })
      | (.error error, inner) => (.error error, { this with inner := inner })
      | (.panic, inner) => (.panic, { this with inner := inner })

/-- `poll_flush_buf`. -/
def pollFlushBuf (spare : Spare) (this : NixWriter W) : Poll Unit × NixWriter W :=
  match this.writeBuf this.buf.length with
  | (.ready (), this) =>
    if this.capacity < this.reservedBufSize then
      (.ready (), { this with
        capacity := reserved (spare (written this.inner).length) this.capacity this.buf.length
          (this.reservedBufSize - this.capacity) })
    else (.ready (), this)
  | result => result

/-- The end of `poll_write`: a slice that is too large for the buffer is handed on. -/
def put (this : NixWriter W) (buf : Bytes) : Poll Nat × NixWriter W :=
  if this.capacity < buf.length then
    match pollWrite this.inner buf with
    | (result, inner) => (result, { this with inner := inner })
  else (.ready buf.length, { this with buf := this.buf ++ buf })

/-- `poll_write`. -/
def pollWriteData (spare : Spare) (this : NixWriter W) (buf : Bytes) : Poll Nat × NixWriter W :=
  if this.remainingMut < buf.length then
    match this.pollFlushBuf spare with
    | (.ready (), this) => this.put buf
    | (.pending, this) => (.pending, this)
    | (.error error, this) => (.error error, this)
    | (.panic, this) => (.panic, this)
  else this.put buf

/-- `poll_flush` of the writer below, and its `poll_shutdown`. -/
def settleInner (this : NixWriter W) : Poll Unit × NixWriter W :=
  match pollFlush this.inner with
  | (result, inner) => (result, { this with inner := inner })

/-- `poll_flush`. -/
def pollFlushAll (spare : Spare) (this : NixWriter W) : Poll Unit × NixWriter W :=
  match this.pollFlushBuf spare with
  | (.ready (), this) => this.settleInner
  | result => result

/-- `poll_shutdown`. -/
def pollShutdown (spare : Spare) (this : NixWriter W) : Poll Unit × NixWriter W :=
  match this.pollFlushAll spare with
  | (.ready (), this) => this.settleInner
  | result => result

end NixWriter

end Harmonia.Protocol
