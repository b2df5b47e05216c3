import Mathlib.Data.List.Basic
import Mathlib.Algebra.Order.Ring.Nat
import Harmonia.Nar.Drive
import Harmonia.Nar.PaddedReader

/-!
# The event parser

`archive/parser.rs` over `lending.rs` and `compat.rs`. The parser drives the automaton
without `P` and turns the states in which it stops into events. For a file it lends its
reader out; the parser goes on once the lent reader has come back and what is left of the
file has been drained. A `Session` is a parser together with the file reader it last lent,
which the caller may read, consume from and drop in any order.
-/

namespace Harmonia.Nar

open Library

/-- `NarEvent`. -/
inductive NarEvent (C : Type) where
  /-- A regular file. -/
  | file (name : Bytes) (executable : Bool) (size : UInt64) (reader : C)
  /-- A symbolic link. -/
  | symlink (name target : Bytes)
  /-- The start of a directory. -/
  | startDirectory (name : Bytes)
  /-- The end of a directory. -/
  | endDirectory
  deriving DecidableEq, Repr

/-- An event with another reader for its contents. -/
def NarEvent.map {C D : Type} (f : C → D) : NarEvent C → NarEvent D
  | .file name executable size reader => .file name executable size (f reader)
  | .symlink name target => .symlink name target
  | .startDirectory name => .startDirectory name
  | .endDirectory => .endDirectory

/-- `Lending<R, PaddedReader<R>>`. -/
inductive Lending (R : Type) where
  /-- `Lent`: the reader is out, or has been sent back. -/
  | lent (returned : Option (PaddedReader R))
  /-- `Drain`. -/
  | drain (reader : PaddedReader R)
  /-- `Available`. -/
  | available (reader : R)
  deriving DecidableEq, Repr

/-- `NarParser`. -/
structure NarParser (R : Type) where
  /-- The reader, or what it was lent for. -/
  reader : Lending R
  /-- The name of the entry being read. -/
  name : Option Bytes
  /-- The automaton. -/
  state : Inner
  deriving DecidableEq, Repr

variable {R : Type} [AsyncBytesRead R]

/-- Turns that are enough to drain a reader. -/
def PaddedReader.drainTurns (padded : PaddedReader R) : Nat := budget padded.reader + 9

/-- `Lending::poll_ready`: take the reader back and drain it. -/
def Lending.pollReady (lending : Lending R) : Poll R × Lending R :=
  match lending with
  | .lent none => (.pending, .lent none)
  | .lent (some padded) | .drain padded =>
    match padded.pollDrain padded.drainTurns with
    | (.ready _, padded) => (.ready padded.reader, .available padded.reader)
    | (.pending, padded) => (.pending, .drain padded)
    | (.error error, padded) => (.error error, .drain padded)
    | (.panic, padded) => (.panic, .drain padded)
  | .available reader => (.ready reader, .available reader)

/-- The error of an archive that ends early. -/
def eofReadingNar : IoError := ⟨.unexpectedEof, "EOF while reading NAR"⟩

/-- The match at the start of `poll_next`: leave the state of the last event. -/
def Inner.wake (inner : Inner) : Option Inner :=
  match inner.state with
  | .readContents .symlink _ _ => some inner
  | .readContents _ _ _ | .readDir | .finishReadEntry => inner.bumpState
  | _ => some inner

/-- A name or a target: gather its aligned bytes and take its own. `split_to` and the
subtraction behind it are checked. -/
def takeField (reader : R) (buf : Bytes) (len aligned : Nat) : Poll Bytes × R :=
  match forceUntil aligned aligned reader buf with
  | (.ready buf, reader) =>
    if buf.length < len ∨ aligned < len then (.panic, reader)
    else
      match consume reader aligned with
      | some reader => (.ready (buf.take len), reader)
      | none => (.panic, reader)
  | (.pending, reader) => (.pending, reader)
  | (.error error, reader) => (.error error, reader)
  | (.panic, reader) => (.panic, reader)

namespace NarParser

/-- `NarParser::new`. -/
def new (reader : R) : NarParser R := ⟨.available reader, none, .start⟩

/-- The match at the end of the loop of `poll_next`: the event of a state, or round again. -/
def stopped (again : R → Option Bytes → Inner →
      Poll (Option (NarEvent (PaddedReader R))) × NarParser R)
    (reader : R) (buf : Bytes) (name : Option Bytes) (state : Inner) :
    Poll (Option (NarEvent (PaddedReader R))) × NarParser R :=
  match state.state with
  | .readContents .symlink len aligned =>
    match takeField reader buf len.toNat aligned.toNat, state.bumpState with
    | (.ready target, reader), some state =>
      (.ready (some (.symlink (name.getD []) target)), ⟨.available reader, none, state⟩)
    | (.pending, reader), _ => (.pending, ⟨.available reader, name, state⟩)
    | (.error error, reader), _ => (.error error, ⟨.available reader, name, state⟩)
    | (_, reader), _ => (.panic, ⟨.available reader, name, state⟩)
  | .readContents nodeType size _ =>
    (.ready (some (.file (name.getD []) (nodeType = .executableFile) size
      (PaddedReader.new reader size))), ⟨.lent none, none, state⟩)
  | .readEntryName len aligned =>
    match takeField reader buf len.toNat aligned.toNat, state.bumpState with
    | (.ready bytes, reader), some state => again reader (some bytes) state
    | (.pending, reader), _ => (.pending, ⟨.available reader, name, state⟩)
    | (.error error, reader), _ => (.error error, ⟨.available reader, name, state⟩)
    | (_, reader), _ => (.panic, ⟨.available reader, name, state⟩)
  | .readDir => (.ready (some (.startDirectory (name.getD []))), ⟨.available reader, none, state⟩)
  | .finishReadEntry => (.ready (some .endDirectory), ⟨.available reader, name, state⟩)
  | .eof => (.ready none, ⟨.available reader, name, state⟩)
  | _ => again reader name state

/-- The loop of `poll_next`. -/
def pollLoop : Nat → R → Option Bytes → Inner →
    Poll (Option (NarEvent (PaddedReader R))) × NarParser R
  | 0, reader, name, state => (.panic, ⟨.available reader, name, state⟩)
  | fuel + 1, reader, name, state =>
    match pollFillBuf reader with
    | (.pending, reader) => (.pending, ⟨.available reader, name, state⟩)
    | (.error error, reader) => (.error error, ⟨.available reader, name, state⟩)
    | (.panic, reader) => (.panic, ⟨.available reader, name, state⟩)
    | (.ready buf, reader) =>
      if buf = [] then (.error eofReadingNar, ⟨.available reader, name, state⟩)
      else
        match drive false state buf with
        | .fail state error => (.error error, ⟨.available reader, name, state⟩)
        | .panic => (.panic, ⟨.available reader, name, state⟩)
        | .done state cnt =>
          match consume reader cnt with
          | none => (.panic, ⟨.available reader, name, state⟩)
          | some reader => stopped (pollLoop fuel) reader (buf.drop cnt) name state

/-- `poll_next`. -/
def pollNext (this : NarParser R) : Poll (Option (NarEvent (PaddedReader R))) × NarParser R :=
  match this.reader.pollReady with
  | (.pending, lending) => (.pending, { this with reader := lending })
  | (.error error, lending) => (.error error, { this with reader := lending })
  | (.panic, lending) => (.panic, { this with reader := lending })
  | (.ready reader, lending) =>
    match this.state.wake with
    | none => (.panic, { this with reader := lending })
    | some state =>
      if state.state = .eof then (.ready none, { this with reader := lending, state := state })
      else pollLoop (3 * budget reader + 3) reader this.name state

end NarParser

/-- The reader lent for a file: `AsyncBufReadCompat<LentReader<PaddedReader<R>>>`. -/
structure FileReader (R : Type) where
  /-- The contents, until they are returned. -/
  lent : Option (PaddedReader R)
  /-- Bytes shown and not consumed. -/
  buffer : Bytes
  deriving DecidableEq, Repr

/-- A parser and the file reader it lent last. -/
structure Session (R : Type) where
  /-- The parser. -/
  parser : NarParser R
  /-- The reader, while it is held. -/
  file : Option (FileReader R)
  deriving DecidableEq, Repr

namespace Session

/-- A fresh parser. -/
def new (reader : R) : Session R := ⟨.new reader, none⟩

/-- Send the contents back to the parser. -/
def giveBack (this : Session R) (padded : PaddedReader R) : NarParser R :=
  { this.parser with reader := .lent (some padded) }

/-- `poll_next` of the parser. -/
def next (this : Session R) : Poll (Option (NarEvent Unit)) × Session R :=
  match this.parser.pollNext with
  | (.ready (some (.file name executable size padded)), parser) =>
    (.ready (some (.file name executable size ())), ⟨parser, some ⟨some padded, []⟩⟩)
  | (.ready (some (.symlink name target)), parser) =>
    (.ready (some (.symlink name target)), { this with parser := parser })
  | (.ready (some (.startDirectory name)), parser) =>
    (.ready (some (.startDirectory name)), { this with parser := parser })
  | (.ready (some .endDirectory), parser) =>
    (.ready (some .endDirectory), { this with parser := parser })
  | (.ready none, parser) => (.ready none, { this with parser := parser })
  | (.pending, parser) => (.pending, { this with parser := parser })
  | (.error error, parser) => (.error error, { this with parser := parser })
  | (.panic, parser) => (.panic, { this with parser := parser })

/-- `poll_fill_buf` of the file reader. An empty buffer of the contents is the end, and sends
them back. -/
def fill (this : Session R) : Poll Bytes × Session R :=
  match this.file with
  | none => (.ready [], this)
  | some file =>
    if file.buffer ≠ [] then (.ready file.buffer, this)
    else
      match file.lent with
      | none => (.ready [], this)
      | some padded =>
        match padded.pollFill with
        | (.ready buf, padded) =>
          if buf = [] then (.ready [], ⟨this.giveBack padded, some ⟨none, []⟩⟩)
          else (.ready buf, { this with file := some ⟨some padded, buf⟩ })
        | (.pending, padded) => (.pending, { this with file := some ⟨some padded, []⟩ })
        | (.error error, padded) => (.error error, { this with file := some ⟨some padded, []⟩ })
        | (.panic, padded) => (.panic, { this with file := some ⟨some padded, []⟩ })

/-- `consume` of the file reader. -/
def take (this : Session R) (amt : Nat) : Option (Session R) :=
  match this.file with
  | none => if amt = 0 then some this else none
  | some file =>
    if file.buffer.length < amt then none
    else
      match file.lent with
      | some padded =>
        (padded.consumePadded amt).map fun padded =>
          { this with file := some ⟨some padded, file.buffer.drop amt⟩ }
      | none => if amt = 0 then some this else none

/-- Drop the file reader, which sends the contents back. -/
def dropFile (this : Session R) : Session R :=
  match this.file with
  | some ⟨some padded, _⟩ => ⟨this.giveBack padded, none⟩
  | _ => { this with file := none }

end Session

end Harmonia.Nar
