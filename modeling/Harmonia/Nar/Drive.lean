import Mathlib.Data.List.Basic
import Mathlib.Algebra.Order.Ring.Nat
import Mathlib.Data.List.TakeDrop
import Harmonia.Io.Wire
import Harmonia.Library.Machine
import Harmonia.Nar.RadixTree

/-!
# The framing automaton

`archive/read_nar.rs`: `Inner<P>` reads the tokens of a NAR off whatever slices of it arrive.
With `P` it also skips names, targets and contents inline; without `P` it stops in front of
them and after the start and the end of a directory, and its caller moves it on by
`bump_next`. One turn of the loop in `drive` is `driveStep`; the loop is `Machine.run`, and
that `driveStep` obeys the laws of a turn makes `drive` independent of how its input is cut.
-/

namespace Harmonia.Nar

open Library

/-- A byte string literal. -/
def ascii (chars : List Char) : Bytes := chars.map fun c => UInt8.ofNat c.toNat

/-- `token!`: the encodings of some strings after each other. -/
def token (parts : List Bytes) : Bytes := (parts.map putNixSlice).flatten

/-- `b"nix-archive-1"`. -/
def nixArchive1 : Bytes :=
  ascii ['n', 'i', 'x', '-', 'a', 'r', 'c', 'h', 'i', 'v', 'e', '-', '1']
/-- `b"contents"`. -/
def contents : Bytes := ascii ['c', 'o', 'n', 't', 'e', 'n', 't', 's']
/-- `b"executable"`. -/
def executable : Bytes := ascii ['e', 'x', 'e', 'c', 'u', 't', 'a', 'b', 'l', 'e']
/-- `b"regular"`. -/
def regular : Bytes := ascii ['r', 'e', 'g', 'u', 'l', 'a', 'r']
/-- `b"type"`. -/
def typeWord : Bytes := ascii ['t', 'y', 'p', 'e']

/-- `TOK_ROOT`. -/
def tokRoot : Bytes := token [nixArchive1, ascii ['('], typeWord]
/-- `TOK_PAR`. -/
def tokPar : Bytes := putNixSlice (ascii [')'])
/-- `TOK_ENTRY`. -/
def tokEntry : Bytes :=
  token [ascii ['e', 'n', 't', 'r', 'y'], ascii ['('], ascii ['n', 'a', 'm', 'e']]
/-- `TOK_NODE`. -/
def tokNode : Bytes := token [ascii ['n', 'o', 'd', 'e'], ascii ['('], typeWord]
/-- `TOK_FILE_E`. -/
def tokFileE : Bytes := token [regular, executable, [], contents]
/-- `TOK_FILE`. -/
def tokFile : Bytes := token [regular, contents]
/-- `TOK_SYM`. -/
def tokSym : Bytes :=
  token [ascii ['s', 'y', 'm', 'l', 'i', 'n', 'k'], ascii ['t', 'a', 'r', 'g', 'e', 't']]
/-- `TOK_DIR`. -/
def tokDir : Bytes := token [ascii ['d', 'i', 'r', 'e', 'c', 't', 'o', 'r', 'y']]

/-- `NodeType`: the kinds of node with a length-prefixed body. -/
inductive NodeType where
  | file
  | executableFile
  | symlink
  deriving DecidableEq, Repr

/-- `InnerState`. A count is the number of bytes of the current token or word already read. -/
inductive InnerState where
  | root (read : Nat)
  | selectNode (state : RLookup)
  | readContentsLen (nodeType : NodeType) (value : Bytes) (read : Nat)
  | readContents (nodeType : NodeType) (size rem : UInt64)
  | finishNode (read : Nat)
  | readDir
  | finishEntry (read : Nat)
  | readEntries (state : RLookup)
  | finishReadEntry
  | readEntryNameLen (value : Bytes) (read : Nat)
  | readEntryName (len rem : UInt64)
  | readNode (read : Nat)
  | eof
  deriving DecidableEq, Repr

/-- `Inner`: the state and the number of open directories. -/
structure Inner where
  /-- Where in the grammar the input stands. -/
  state : InnerState
  /-- Open directories. -/
  level : Nat
  deriving DecidableEq, Repr

/-- The state of a fresh reader: `Root(0)` at level 0. -/
def Inner.start : Inner := ⟨.root 0, 0⟩

/-- `bump_state`: past the body, the name or the directory mark; any other state panics. -/
def Inner.bumpState (inner : Inner) : Option Inner :=
  match inner.state with
  | .readContents _ _ _ => some { inner with state := .finishNode 0 }
  | .readEntryName _ _ => some { inner with state := .readNode 0 }
  | .readDir => some { inner with state := .readEntries default }
  | .finishReadEntry =>
    if inner.level > 1 then some ⟨.finishEntry 0, inner.level - 1⟩
    else some { inner with state := .eof }
  | _ => none

/-- The insertions that build `NODE_SELECT`. -/
def buildNodeSelect : Option (RTree 7 6 2 InnerState) := do
  let t ← RTree.new.insert tokDir .readDir
  let t ← t.insert tokSym (.readContentsLen .symlink zeros 0)
  let t ← t.insert tokFile (.readContentsLen .file zeros 0)
  t.insert tokFileE (.readContentsLen .executableFile zeros 0)

/-- `NODE_SELECT`. -/
def nodeSelect : RTree 7 6 2 InnerState := buildNodeSelect.getD .new

/-- The insertions that build `ENTRY_SELECT`. -/
def buildEntrySelect : Option (RTree 3 2 2 InnerState) := do
  let t ← RTree.new.insert tokEntry (.readEntryNameLen zeros 0)
  t.insert tokPar .finishReadEntry

/-- `ENTRY_SELECT`. -/
def entrySelect : RTree 3 2 2 InnerState := buildEntrySelect.getD .new

/-- No insertion into `NODE_SELECT` panics. -/
theorem buildNodeSelect_eq : buildNodeSelect = some nodeSelect := by decide +kernel

/-- No insertion into `ENTRY_SELECT` panics. -/
theorem buildEntrySelect_eq : buildEntrySelect = some entrySelect := by decide +kernel

/-- The bytes that lead to each node of `NODE_SELECT`. -/
def nodeLabel : Nat → Bytes
  | 0 => []
  | 1 => tokDir
  | 2 => tokSym
  | 3 => tokFile.take 8
  | 4 => tokFile
  | 5 => tokFile.take 16
  | _ => tokFileE

/-- The bytes that lead to each node of `ENTRY_SELECT`. -/
def entryLabel : Nat → Bytes
  | 0 => []
  | 1 => tokEntry
  | _ => tokPar

/-- `NODE_SELECT` selects among the four node headers. -/
theorem nodeSelect_selects : nodeSelect.Selects nodeLabel where
  labelled := by decide +kernel
  bears := by decide +kernel
  spelled := by decide +kernel

/-- `ENTRY_SELECT` selects between an entry and the end of a directory. -/
theorem entrySelect_selects : entrySelect.Selects entryLabel where
  labelled := by decide +kernel
  bears := by decide +kernel
  spelled := by decide +kernel

/-! ## One turn of the loop -/

/-- The error of `read_token!`. -/
def invalidDataInNar : IoError := ⟨.invalidData, "invalid data in NAR"⟩
/-- The error of a node header that is none of the four. -/
def couldNotSelect : IoError := ⟨.invalidData, "could not select node type"⟩
/-- The error of an entry that is neither an entry nor the end of its directory. -/
def couldNotReadEntry : IoError := ⟨.invalidData, "could not read entry"⟩

/-- `read_token!`: compare the rest of a token with the buffer as far as both go. -/
def readToken (wait : Nat → InnerState) (tok : Bytes) (read : Nat) (next : InnerState)
    (level : Nat) (buf : Bytes) : Verdict Inner IoError :=
  if tok.length < read then .panic
  else
    let rem := tok.drop read
    let cmp := min rem.length buf.length
    if rem.take cmp ≠ buf.take cmp then .fail invalidDataInNar
    else if cmp < rem.length then .stop ⟨wait (read + cmp), level⟩ cmp
    else .again ⟨next, level⟩ cmp

/-- The lookup of `SelectNode` and `ReadEntries`: the state of a matched token comes next. -/
def selectToken {N E B : Nat} (tree : RTree N E B InnerState) (wait : RLookup → InnerState)
    (error : IoError) (state : RLookup) (level : Nat) (buf : Bytes) : Verdict Inner IoError :=
  match tree.lookup buf state 0 with
  | some (.matched read, state) =>
    match tree.getValue state with
    | some next => .again ⟨next, level⟩ read
    | none => .panic
  | some (.needsMore, state) => .stop ⟨wait state, level⟩ buf.length
  | some (.mismatch _, _) => .fail error
  | none => .panic

/-- `ReadContentsLen` and `ReadEntryNameLen`: collect the eight bytes of a length. -/
def readLen (wait : Bytes → Nat → InnerState) (done : UInt64 → InnerState) (value : Bytes)
    (read level : Nat) (buf : Bytes) : Verdict Inner IoError :=
  let rem := min buf.length (8 - read)
  let newRead := read + rem
  -- `8 - read` and the slice `value[read..new_read]` stay in range.
  if 8 < read ∨ value.length < newRead then .panic
  else
    let value := value.take read ++ buf.take rem ++ value.drop newRead
    if newRead < 8 then .stop ⟨wait value newRead, level⟩ rem
    else .again ⟨done (fromLeBytes value), level⟩ rem

/-- `ReadContents` and `ReadEntryName` with `P`: pass over the aligned bytes. -/
def skipBytes (wait : UInt64 → InnerState) (next : InnerState) (rem : UInt64) (level : Nat)
    (buf : Bytes) : Verdict Inner IoError :=
  if buf.length < rem.toNat then .stop ⟨wait (rem - UInt64.ofNat buf.length), level⟩ buf.length
  else .again ⟨next, level⟩ rem.toNat

/-- `self.bump_state()` and round again, without using bytes. -/
def bumpAgain (inner : Inner) : Verdict Inner IoError :=
  match inner.bumpState with
  | some next => .again next 0
  | none => .panic

/-- One turn of the loop in `drive`. -/
def driveStep (P : Bool) (inner : Inner) (buf : Bytes) : Verdict Inner IoError :=
  let level := inner.level
  match inner.state with
  | .root read => readToken .root tokRoot read (.selectNode default) level buf
  | .selectNode state => selectToken nodeSelect .selectNode couldNotSelect state level buf
  | .readContentsLen nodeType value read =>
    readLen (.readContentsLen nodeType)
      (fun len => .readContents nodeType len (calcAligned len)) value read level buf
  | .readContents nodeType size rem =>
    if P then skipBytes (.readContents nodeType size) (.finishNode 0) rem level buf
    else .stop inner 0
  | .finishNode read =>
    readToken .finishNode tokPar read (if level > 0 then .finishEntry 0 else .eof) level buf
  | .readDir =>
    let entered : Inner := ⟨.readDir, level + 1⟩
    if P then bumpAgain entered else .stop entered 0
  | .finishEntry read => readToken .finishEntry tokPar read (.readEntries default) level buf
  | .readEntries state => selectToken entrySelect .readEntries couldNotReadEntry state level buf
  | .finishReadEntry => if P then bumpAgain inner else .stop inner 0
  | .readEntryNameLen value read =>
    readLen .readEntryNameLen (fun len => .readEntryName len (calcAligned len)) value read
      level buf
  | .readEntryName len rem =>
    if P then skipBytes (.readEntryName len) (.readNode 0) rem level buf else .stop inner 0
  | .readNode read => readToken .readNode tokNode read (.selectNode default) level buf
  | .eof => .stop inner 0

/-- The states in which `drive` leaves its loop whatever the buffer holds. -/
def Halted (P : Bool) (inner : Inner) : Prop :=
  match inner.state with
  | .eof => True
  | .readContents _ _ _ | .readDir | .finishReadEntry | .readEntryName _ _ => P = false
  | _ => False

instance (P : Bool) (inner : Inner) : Decidable (Halted P inner) := by
  unfold Halted
  split <;> exact inferInstance

/-- How many turns a state can take without using a byte. A state that starts a token or a
word is of rank 0. -/
def driveRank (inner : Inner) : Nat :=
  match inner.state with
  | .root read | .finishNode read | .finishEntry read | .readNode read => min read 1
  | .selectNode state | .readEntries state => if state = default then 0 else 2
  | .readContentsLen _ _ read | .readEntryNameLen _ read => if read < 8 then 0 else 2
  | .readContents _ _ _ | .readDir | .finishReadEntry | .readEntryName _ _ => 1
  | .eof => 0

/-- The loop of `drive` as a machine over bytes. -/
def driveMachine (P : Bool) : Machine UInt8 Inner IoError where
  step := driveStep P
  halted := Halted P
  rank := driveRank
  bound := 2

/-- `drive`: read a slice from a state. -/
def drive (P : Bool) (inner : Inner) (buf : Bytes) : Run Inner IoError :=
  (driveMachine P).run inner buf

/-! ## The laws of a turn -/

/-- A turn that only ever waits for more input: it decides early or continues elsewhere. -/
structure Waits (halted : Inner → Prop) (cont : Inner → Bytes → Verdict Inner IoError)
    (turn : Bytes → Verdict Inner IoError) : Prop where
  /-- A decision to go round again stands, and rests on the bytes it uses. -/
  again : ∀ {a s n}, turn a = .again s n →
    n ≤ a.length ∧ turn (a.take n) = .again s n ∧ ∀ b, turn (a ++ b) = .again s n
  /-- A failure stands. -/
  fail : ∀ {a e}, turn a = .fail e → ∀ b, turn (a ++ b) = .fail e
  /-- A panic stands. -/
  panic : ∀ {a}, turn a = .panic → ∀ b, turn (a ++ b) = .panic
  /-- A stop has used everything, is not for good, and goes on in its state. -/
  stop : ∀ {a s n}, turn a = .stop s n →
    n = a.length ∧ ¬ halted s ∧ ∀ b, turn (a ++ b) = (cont s b).shift n

/-- `read_token!` decides by which of the rest of the token and the buffer starts with the
other. -/
theorem readToken_eq (wait : Nat → InnerState) {tok : Bytes} {read : Nat}
    (within : read ≤ tok.length) (next : InnerState) (level : Nat) (buf : Bytes) :
    readToken wait tok read next level buf =
      if tok.drop read <+: buf then .again ⟨next, level⟩ (tok.length - read)
      else if buf <+: tok.drop read then .stop ⟨wait (read + buf.length), level⟩ buf.length
      else .fail invalidDataInNar := by
  have length : (tok.drop read).length = tok.length - read := List.length_drop
  unfold readToken
  rw [if_neg (by omega : ¬ tok.length < read)]
  generalize tok.drop read = rem at length
  simp only
  by_cases covers : rem.length ≤ buf.length
  · rw [Nat.min_eq_left covers, List.take_length]
    by_cases starts : rem <+: buf
    · rw [if_pos starts, if_neg (by simpa using List.prefix_iff_eq_take.mp starts),
        if_neg (Nat.lt_irrefl _), length]
    · rw [if_neg starts, if_pos (fun same => starts (List.prefix_iff_eq_take.mpr same)), if_neg]
      intro shorter
      have same : buf = rem := shorter.eq_of_length (Nat.le_antisymm shorter.length_le covers)
      exact starts (same ▸ List.prefix_rfl)
  · rw [Nat.min_eq_right (by omega), List.take_length]
    have long : ¬ rem <+: buf := fun starts => covers starts.length_le
    rw [if_neg long]
    by_cases starts : buf <+: rem
    · rw [if_pos starts, if_neg (by simpa using (List.prefix_iff_eq_take.mp starts).symm),
        if_pos (by omega)]
    · rw [if_neg starts, if_pos (fun same => starts (List.prefix_iff_eq_take.mpr same.symm))]

/-- Reading a token only waits. -/
theorem readToken_waits {wait : Nat → InnerState} {tok : Bytes} {read : Nat} {next : InnerState}
    {level : Nat} {halted : Inner → Prop} {cont : Inner → Bytes → Verdict Inner IoError}
    (idle : ∀ r, ¬ halted ⟨wait r, level⟩)
    (continues : ∀ r, cont ⟨wait r, level⟩ = readToken wait tok r next level) :
    Waits halted cont (readToken wait tok read next level) := by
  by_cases within : read ≤ tok.length
  · have length : (tok.drop read).length = tok.length - read := List.length_drop
    have known := readToken_eq wait within next level
    refine ⟨?_, ?_, ?_, ?_⟩
    · intro a s n turn
      rw [known] at turn
      split at turn
      · rename_i starts
        cases turn
        refine ⟨length ▸ starts.length_le, ?_, fun b => ?_⟩
        · rw [known, if_pos]
          rw [← length, ← List.prefix_iff_eq_take.mp starts]
        · rw [known, if_pos (starts.trans (List.prefix_append a b))]
      · split at turn <;> cases turn
    · intro a e turn b
      rw [known] at turn
      split at turn
      · cases turn
      · rename_i long
        split at turn
        · cases turn
        · rename_i short
          cases turn
          rw [known, if_neg, if_neg]
          · exact fun starts => short ((List.prefix_append a b).trans starts)
          · intro starts
            rcases List.prefix_or_prefix_of_prefix starts (List.prefix_append a b) with h | h
            · exact long h
            · exact short h
    · intro a turn
      rw [known] at turn
      split at turn
      · cases turn
      · split at turn <;> cases turn
    · intro a s n turn
      rw [known] at turn
      split at turn
      · cases turn
      · rename_i long
        split at turn
        · rename_i short
          cases turn
          refine ⟨rfl, idle _, fun b => ?_⟩
          obtain ⟨tail, joined⟩ := short
          have later : read + a.length ≤ tok.length := by
            have := congrArg List.length joined
            simp at this
            omega
          have rest : tok.drop (read + a.length) = tail := by
            rw [← List.drop_drop, ← joined, List.drop_left]
          rw [known, continues, readToken_eq wait later, rest, ← joined]
          simp only [List.prefix_append_right_inj]
          split
          · simp only [Verdict.shift, Verdict.again.injEq, true_and]
            omega
          · split
            · simp only [Verdict.shift, List.length_append, Nat.add_assoc]
            · rfl
        · cases turn
  · have refused : ∀ buf, readToken wait tok read next level buf = .panic := fun buf => by
      rw [readToken, if_pos (by omega)]
    refine ⟨?_, ?_, fun _ b => refused _, ?_⟩ <;> intro a <;> simp [refused]

/-- Selecting a token only waits. -/
theorem selectToken_waits {N E B : Nat} {tree : RTree N E B InnerState}
    {wait : RLookup → InnerState} {error : IoError} {state : RLookup} {level : Nat}
    {halted : Inner → Prop} {cont : Inner → Bytes → Verdict Inner IoError}
    (idle : ∀ c, ¬ halted ⟨wait c, level⟩)
    (continues : ∀ c, cont ⟨wait c, level⟩ = selectToken tree wait error c level) :
    Waits halted cont (selectToken tree wait error state level) := by
  -- Every decision is the lookup's, so each law is a law of `lookup`.
  have decided {a : Bytes} (b : Bytes) {result : RMatch × RLookup}
      (looked : tree.lookup a state 0 = some result) (final : result.1 ≠ .needsMore) :
      tree.lookup (a ++ b) state 0 = some result := RTree.lookup_append_final b looked final
  refine ⟨?_, ?_, ?_, ?_⟩
  · intro a s n turn
    unfold selectToken at turn
    split at turn
    · rename_i read next looked
      split at turn
      · rename_i value found
        cases turn
        have taken := (RTree.lookup_matched_take looked).2
        rw [Nat.sub_zero] at taken
        refine ⟨by simpa using RTree.lookup_matched_le looked, ?_, fun b => ?_⟩
        · simp only [selectToken, taken, found]
        · simp only [selectToken, decided b looked (by simp), found]
      · cases turn
    all_goals cases turn
  · intro a e turn b
    unfold selectToken at turn
    split at turn
    · split at turn <;> cases turn
    · cases turn
    · rename_i looked
      cases turn
      simp only [selectToken, decided b looked (by simp)]
    · cases turn
  · intro a turn b
    unfold selectToken at turn
    split at turn
    · rename_i looked
      split at turn
      · cases turn
      · rename_i found
        simp only [selectToken, decided b looked (by simp), found]
    · cases turn
    · cases turn
    · rename_i looked
      simp only [selectToken, RTree.lookup_append_none b looked]
  · intro a s n turn
    unfold selectToken at turn
    split at turn
    · split at turn <;> cases turn
    · rename_i next looked
      cases turn
      refine ⟨rfl, idle _, fun b => ?_⟩
      rw [continues, selectToken, selectToken, RTree.lookup_append_more b looked, Nat.zero_add,
        ← Nat.add_zero a.length, RTree.lookup_shift]
      cases looked' : tree.lookup b next 0 with
      | none => rfl
      | some result =>
        obtain ⟨found, cursor⟩ := result
        cases found with
        | matched read =>
          simp only [Option.map_some, RMatch.shift]
          cases tree.getValue cursor <;> simp [Verdict.shift]
        | needsMore => simp [RMatch.shift, Verdict.shift]
        | mismatch read => rfl
    · cases turn
    · cases turn

/-- Collecting a length only waits. -/
theorem readLen_waits {wait : Bytes → Nat → InnerState} {done : UInt64 → InnerState}
    {value : Bytes} {read level : Nat} {halted : Inner → Prop}
    {cont : Inner → Bytes → Verdict Inner IoError} (idle : ∀ v r, ¬ halted ⟨wait v r, level⟩)
    (continues : ∀ v r, cont ⟨wait v r, level⟩ = readLen wait done v r level) :
    Waits halted cont (readLen wait done value read level) := by
  refine ⟨?_, ?_, ?_, ?_⟩
  · intro a s n turn
    simp only [readLen] at turn
    split at turn
    · cases turn
    · rename_i inside
      split at turn
      · cases turn
      · rename_i full
        cases turn
        have count : 8 - read ≤ a.length := by omega
        refine ⟨Nat.min_le_left _ _, ?_, fun b => ?_⟩
        · have same : min (a.take (min a.length (8 - read))).length (8 - read) =
              min a.length (8 - read) := by
            rw [List.length_take]
            omega
          simp only [readLen]
          rw [same, if_neg inside, if_neg full, List.take_take, Nat.min_self]
        · have same : min (a ++ b).length (8 - read) = min a.length (8 - read) := by
            rw [List.length_append]
            omega
          simp only [readLen]
          rw [same, if_neg inside, if_neg full, Nat.min_eq_right count,
            List.take_append_of_le_length count]
  · intro a e turn
    simp only [readLen] at turn
    split at turn
    · cases turn
    · split at turn <;> cases turn
  · intro a turn b
    simp only [readLen] at turn
    split at turn
    · rename_i outside
      simp only [readLen]
      rw [if_pos]
      rw [List.length_append]
      omega
    · split at turn <;> cases turn
  · intro a s n turn
    simp only [readLen] at turn
    split at turn
    · cases turn
    · rename_i inside
      split at turn
      · rename_i short
        cases turn
        have count : min a.length (8 - read) = a.length := by omega
        rw [count] at inside short ⊢
        refine ⟨rfl, idle _ _, fun b => ?_⟩
        -- The bytes of `a` are in the value already; those of `b` go behind them.
        have head : (value.take read).length = read := by
          rw [List.length_take]
          omega
        have whole : (value.take read ++ a ++ value.drop (read + a.length)).length =
            value.length := by
          simp only [List.length_append, head, List.length_drop]
          omega
        have front : (value.take read ++ a ++ value.drop (read + a.length)).take
            (read + a.length) = value.take read ++ a := by
          rw [List.take_left']
          simp [head]
        have back (k : Nat) : (value.take read ++ a ++ value.drop (read + a.length)).drop
            (read + a.length + k) = value.drop (read + a.length + k) := by
          rw [← List.drop_drop, List.drop_left' (by simp [head]), List.drop_drop]
        have joined : min (a ++ b).length (8 - read) =
            a.length + min b.length (8 - (read + a.length)) := by
          rw [List.length_append]
          omega
        have taken (k : Nat) : (a ++ b).take (a.length + k) = a ++ b.take k :=
          List.take_length_add_append k
        rw [continues]
        simp only [readLen]
        rw [joined, List.take_length, whole, front, back, taken]
        have bounds : (8 < read ∨ value.length <
            read + (a.length + min b.length (8 - (read + a.length)))) ↔
            (8 < read + a.length ∨ value.length <
              read + a.length + min b.length (8 - (read + a.length))) := by omega
        rw [if_congr bounds rfl rfl, ← Nat.add_assoc]
        split
        · rfl
        · split
          · simp [Verdict.shift]
          · simp [Verdict.shift]
      · cases turn

/-- Skipping bytes only waits. -/
theorem skipBytes_waits {wait : UInt64 → InnerState} {next : InnerState} {rem : UInt64}
    {level : Nat} {halted : Inner → Prop} {cont : Inner → Bytes → Verdict Inner IoError}
    (idle : ∀ r, ¬ halted ⟨wait r, level⟩)
    (continues : ∀ r, cont ⟨wait r, level⟩ = skipBytes wait next r level) :
    Waits halted cont (skipBytes wait next rem level) := by
  refine ⟨?_, ?_, ?_, ?_⟩
  · intro a s n turn
    unfold skipBytes at turn
    split at turn
    · cases turn
    · rename_i enough
      cases turn
      refine ⟨by omega, ?_, fun b => ?_⟩
      · rw [skipBytes, if_neg (by rw [List.length_take]; omega)]
      · rw [skipBytes, if_neg (by rw [List.length_append]; omega)]
  · intro a e turn
    unfold skipBytes at turn
    split at turn <;> cases turn
  · intro a turn
    unfold skipBytes at turn
    split at turn <;> cases turn
  · intro a s n turn
    unfold skipBytes at turn
    split at turn
    · rename_i short
      cases turn
      refine ⟨rfl, idle _, fun b => ?_⟩
      have left : (rem - UInt64.ofNat a.length).toNat = rem.toNat - a.length :=
        toNat_sub_ofNat (Nat.le_of_lt short)
      rw [continues, skipBytes, skipBytes, left]
      by_cases more : (a ++ b).length < rem.toNat
      · have more' : b.length < rem.toNat - a.length := by
          rw [List.length_append] at more
          omega
        have total : rem - UInt64.ofNat (a ++ b).length =
            rem - UInt64.ofNat a.length - UInt64.ofNat b.length := by
          apply UInt64.toNat_inj.mp
          rw [toNat_sub_ofNat (Nat.le_of_lt more), toNat_sub_ofNat (by omega), left,
            List.length_append]
          omega
        rw [if_pos more, if_pos more', total]
        simp [Verdict.shift]
      · have enough : ¬ b.length < rem.toNat - a.length := by
          rw [List.length_append] at more
          omega
        rw [if_neg more, if_neg enough]
        simp only [Verdict.shift, Verdict.again.injEq, true_and]
        omega
    · cases turn

/-- A turn of `drive` waits for input, or leaves the loop at once, or moves on at once. -/
theorem driveStep_kinds (P : Bool) (inner : Inner) :
    Waits (Halted P) (driveStep P) (driveStep P inner) ∨
      (∃ next, (Halted P next ∧ (0 < driveRank inner ∨ inner.state = .eof)) ∧
        ∀ buf, driveStep P inner buf = .stop next 0) ∨
      (∃ next, driveRank next = 0 ∧ driveRank inner = 1 ∧
        ∀ buf, driveStep P inner buf = .again next 0) := by
  obtain ⟨state, level⟩ := inner
  cases state with
  | root read => exact .inl (readToken_waits (fun _ => id) fun _ => rfl)
  | selectNode state => exact .inl (selectToken_waits (fun _ => id) fun _ => rfl)
  | readContentsLen nodeType value read =>
    have waits : Waits (Halted P) (driveStep P) (readLen (.readContentsLen nodeType)
        (fun len => .readContents nodeType len (calcAligned len)) value read level) :=
      readLen_waits (fun _ _ => id) fun _ _ => rfl
    exact .inl waits
  | readContents nodeType size rem =>
    cases P with
    | true => exact .inl (skipBytes_waits (fun _ => Bool.noConfusion) fun _ => rfl)
    | false =>
      exact .inr (.inl ⟨⟨.readContents nodeType size rem, level⟩, ⟨rfl, .inl Nat.one_pos⟩, fun _ => rfl⟩)
  | finishNode read => exact .inl (readToken_waits (fun _ => id) fun _ => rfl)
  | readDir =>
    cases P with
    | true => exact .inr (.inr ⟨⟨.readEntries default, level + 1⟩, rfl, rfl, fun _ => rfl⟩)
    | false => exact .inr (.inl ⟨⟨.readDir, level + 1⟩, ⟨rfl, .inl Nat.one_pos⟩, fun _ => rfl⟩)
  | finishEntry read => exact .inl (readToken_waits (fun _ => id) fun _ => rfl)
  | readEntries state => exact .inl (selectToken_waits (fun _ => id) fun _ => rfl)
  | finishReadEntry =>
    cases P with
    | true =>
      by_cases nested : level > 1
      · refine .inr (.inr ⟨⟨.finishEntry 0, level - 1⟩, rfl, rfl, fun _ => ?_⟩)
        simp [driveStep, bumpAgain, Inner.bumpState, nested]
      · refine .inr (.inr ⟨⟨.eof, level⟩, rfl, rfl, fun _ => ?_⟩)
        simp [driveStep, bumpAgain, Inner.bumpState, nested]
    | false => exact .inr (.inl ⟨⟨.finishReadEntry, level⟩, ⟨rfl, .inl Nat.one_pos⟩, fun _ => rfl⟩)
  | readEntryNameLen value read =>
    have waits : Waits (Halted P) (driveStep P) (readLen .readEntryNameLen
        (fun len => .readEntryName len (calcAligned len)) value read level) :=
      readLen_waits (fun _ _ => id) fun _ _ => rfl
    exact .inl waits
  | readEntryName len rem =>
    cases P with
    | true => exact .inl (skipBytes_waits (fun _ => Bool.noConfusion) fun _ => rfl)
    | false => exact .inr (.inl ⟨⟨.readEntryName len rem, level⟩, ⟨rfl, .inl Nat.one_pos⟩, fun _ => rfl⟩)
  | readNode read => exact .inl (readToken_waits (fun _ => id) fun _ => rfl)
  | eof => exact .inr (.inl ⟨⟨.eof, level⟩, ⟨trivial, .inr rfl⟩, fun _ => rfl⟩)

/-- Completing a token uses a byte unless it was complete, and leads to `next`. -/
theorem readToken_again {wait : Nat → InnerState} {tok : Bytes} {read : Nat}
    {next : InnerState} {level : Nat} {buf : Bytes} {s : Inner} {n : Nat}
    (turn : readToken wait tok read next level buf = .again s n) :
    s = ⟨next, level⟩ ∧ read ≤ tok.length ∧ n = tok.length - read ∧ tok.drop read <+: buf := by
  by_cases within : read ≤ tok.length
  · rw [readToken_eq wait within] at turn
    split at turn
    · rename_i starts
      cases turn
      exact ⟨rfl, within, rfl, starts⟩
    · split at turn <;> cases turn
  · rw [readToken, if_pos (by omega)] at turn
    cases turn

/-- The headers of a node and the states after them. -/
def nodeHeaders : List (Bytes × InnerState) :=
  [(tokDir, .readDir), (tokSym, .readContentsLen .symlink zeros 0),
    (tokFile, .readContentsLen .file zeros 0),
    (tokFileE, .readContentsLen .executableFile zeros 0)]

/-- The two ways a directory goes on and the states after them. -/
def entryHeaders : List (Bytes × InnerState) :=
  [(tokEntry, .readEntryNameLen zeros 0), (tokPar, .finishReadEntry)]

/-- A tree that selects among the headers of a list: its leaves are the headers in order. -/
structure Offers {N E B : Nat} (tree : RTree N E B InnerState) (label : Nat → Bytes)
    (headers : List (Bytes × InnerState)) : Prop where
  /-- The tree looks its labels up. -/
  selects : tree.Selects label
  /-- Its leaves are the headers. -/
  leaves : tree.leaves.map (fun k => (label k, tree.getValue (.node k))) =
    headers.map fun header => (header.1, some header.2)

/-- `NODE_SELECT` offers the node headers. -/
theorem nodeSelect_offers : Offers nodeSelect nodeLabel nodeHeaders :=
  ⟨nodeSelect_selects, by decide +kernel⟩

/-- `ENTRY_SELECT` offers the entry headers. -/
theorem entrySelect_offers : Offers entrySelect entryLabel entryHeaders :=
  ⟨entrySelect_selects, by decide +kernel⟩

section Offers

variable {N E B : Nat} {tree : RTree N E B InnerState} {label : Nat → Bytes}
  {headers : List (Bytes × InnerState)}

/-- Every leaf of the tree is a header. -/
theorem Offers.header_of_leaf (offers : Offers tree label headers) {k : Nat}
    (leaf : k ∈ tree.leaves) :
    ∃ header ∈ headers, header.1 = label k ∧ tree.getValue (.node k) = some header.2 := by
  have member : (label k, tree.getValue (.node k)) ∈
      tree.leaves.map (fun k => (label k, tree.getValue (.node k))) :=
    List.mem_map.mpr ⟨k, leaf, rfl⟩
  rw [offers.leaves] at member
  obtain ⟨header, listed, same⟩ := List.mem_map.mp member
  exact ⟨header, listed, congrArg Prod.fst same, (congrArg Prod.snd same).symm⟩

/-- Every header is a leaf of the tree. -/
theorem Offers.leaf_of_header (offers : Offers tree label headers)
    {header : Bytes × InnerState} (listed : header ∈ headers) :
    ∃ k ∈ tree.leaves, label k = header.1 ∧ tree.getValue (.node k) = some header.2 := by
  have member : (header.1, some header.2) ∈
      headers.map (fun header => (header.1, some header.2)) :=
    List.mem_map.mpr ⟨header, listed, rfl⟩
  rw [← offers.leaves] at member
  obtain ⟨k, leaf, same⟩ := List.mem_map.mp member
  exact ⟨k, leaf, congrArg Prod.fst same, congrArg Prod.snd same⟩

variable {wait : RLookup → InnerState} {error : IoError} {level : Nat}

/-- Input that starts with a header selects it. -/
theorem Offers.select (offers : Offers tree label headers) {header : Bytes × InnerState}
    (listed : header ∈ headers) (rest : Bytes) :
    selectToken tree wait error default level (header.1 ++ rest) =
      .again ⟨header.2, level⟩ header.1.length := by
  obtain ⟨k, leaf, spelled, value⟩ := offers.leaf_of_header listed
  have looked := offers.selects.matched leaf rest
  rw [spelled] at looked
  change tree.lookup (header.1 ++ rest) default 0 = _ at looked
  simp only [selectToken, looked, value]

/-- A selected state is that of a header the input starts with. -/
theorem Offers.of_again (offers : Offers tree label headers) {buf : Bytes} {s : Inner} {n : Nat}
    (turn : selectToken tree wait error default level buf = .again s n) :
    ∃ header ∈ headers, s = ⟨header.2, level⟩ ∧ n = header.1.length ∧
      buf = header.1 ++ buf.drop n := by
  unfold selectToken at turn
  split at turn
  · rename_i read state looked
    obtain ⟨k, leaf, rfl, count, spelled⟩ := offers.selects.of_matched looked
    obtain ⟨header, listed, same, value⟩ := offers.header_of_leaf leaf
    rw [value] at turn
    cases turn
    exact ⟨header, listed, rfl, by rw [count, same], by rw [same]; exact spelled⟩
  all_goals cases turn

/-- Input that runs out during the selection is a proper beginning of a header. -/
theorem Offers.of_stop (offers : Offers tree label headers) {buf : Bytes} {s : Inner} {n : Nat}
    (turn : selectToken tree wait error default level buf = .stop s n) :
    ∃ header ∈ headers, ∃ tail, tail ≠ [] ∧ header.1 = buf ++ tail := by
  unfold selectToken at turn
  split at turn
  · split at turn <;> cases turn
  · rename_i state looked
    obtain ⟨k, leaf, tail, nonempty, spelled⟩ := offers.selects.of_needsMore looked
    obtain ⟨header, listed, same, _⟩ := offers.header_of_leaf leaf
    exact ⟨header, listed, tail, nonempty, same.trans spelled⟩
  all_goals cases turn

/-- From any cursor the selected state is that of a header. -/
theorem Offers.value (offers : Offers tree label headers) {state : RLookup} {buf : Bytes}
    {s : Inner} {n : Nat} (turn : selectToken tree wait error state level buf = .again s n) :
    ∃ header ∈ headers, s = ⟨header.2, level⟩ := by
  unfold selectToken at turn
  split at turn
  · rename_i read next looked
    split at turn
    · rename_i value found
      cases turn
      cases next with
      | node idx =>
        have leaf : idx ∈ tree.leaves := by
          rw [RTree.mem_leaves]
          simp only [RTree.getValue] at found
          split at found
          · rename_i leaf
            exact ⟨_, leaf⟩
          · cases found
        obtain ⟨header, listed, _, same⟩ := offers.header_of_leaf leaf
        rw [found, Option.some.injEq] at same
        exact ⟨header, listed, by rw [same]⟩
      | edge idx read => cases found
    · cases turn
  all_goals cases turn

end Offers

/-- Every header has bytes. -/
theorem headers_nonempty :
    ∀ header ∈ nodeHeaders ++ entryHeaders, 0 < header.1.length := by decide +kernel

/-- After a header at most one turn is taken without using a byte. -/
theorem headers_rank (level : Nat) : ∀ header ∈ nodeHeaders ++ entryHeaders,
    driveRank ⟨header.2, level⟩ ≤ 1 := by
  simp [nodeHeaders, entryHeaders, driveRank]

/-- The fixed tokens have bytes. -/
theorem tokens_nonempty : 0 < tokRoot.length ∧ 0 < tokPar.length ∧ 0 < tokNode.length := by
  decide +kernel

/-- A token that is completed uses a byte or was at its end. -/
theorem readToken_ranked {wait : Nat → InnerState} {tok : Bytes} {read : Nat}
    {next : InnerState} {level : Nat} {buf : Bytes} {s : Inner} {n : Nat}
    (nonempty : 0 < tok.length) (fresh : driveRank ⟨next, level⟩ = 0)
    (turn : readToken wait tok read next level buf = .again s n) :
    driveRank s ≤ 2 ∧ (0 < n ∨ driveRank s < min read 1) := by
  obtain ⟨rfl, within, rfl, _⟩ := readToken_again turn
  rw [fresh]
  omega

/-- A selected header uses a byte or was at its end. -/
theorem selectToken_ranked {N E B : Nat} {tree : RTree N E B InnerState} {label : Nat → Bytes}
    {headers : List (Bytes × InnerState)} {wait : RLookup → InnerState} {error : IoError}
    {level : Nat} {state : RLookup} {buf : Bytes} {s : Inner} {n : Nat}
    (offers : Offers tree label headers)
    (known : ∀ header ∈ headers, header ∈ nodeHeaders ++ entryHeaders)
    (turn : selectToken tree wait error state level buf = .again s n) :
    driveRank s ≤ 2 ∧ (0 < n ∨ driveRank s < if state = default then 0 else 2) := by
  by_cases fresh : state = default
  · subst fresh
    obtain ⟨header, listed, rfl, rfl, _⟩ := offers.of_again turn
    have bytes := headers_nonempty header (known header listed)
    have rank := headers_rank level header (known header listed)
    omega
  · obtain ⟨header, listed, rfl⟩ := offers.value turn
    have rank := headers_rank level header (known header listed)
    rw [if_neg fresh]
    omega

/-- A collected length uses a byte or was complete. -/
theorem readLen_ranked {wait : Bytes → Nat → InnerState} {done : UInt64 → InnerState}
    {value : Bytes} {read level : Nat} {buf : Bytes} {s : Inner} {n : Nat}
    (rank : ∀ len, driveRank ⟨done len, level⟩ = 1)
    (turn : readLen wait done value read level buf = .again s n) :
    driveRank s ≤ 2 ∧ (0 < n ∨ driveRank s < if read < 8 then 0 else 2) := by
  simp only [readLen] at turn
  split at turn
  · cases turn
  · split at turn
    · cases turn
    · cases turn
      rw [rank]
      split <;> omega

/-- Skipping leads to the start of a token. -/
theorem skipBytes_ranked {wait : UInt64 → InnerState} {next : InnerState} {rem : UInt64}
    {level : Nat} {buf : Bytes} {s : Inner} {n : Nat} (fresh : driveRank ⟨next, level⟩ = 0)
    (turn : skipBytes wait next rem level buf = .again s n) :
    driveRank s ≤ 2 ∧ (0 < n ∨ driveRank s < 1) := by
  unfold skipBytes at turn
  split at turn
  · cases turn
  · cases turn
    omega

/-- A turn of `drive` that goes round again uses a byte or lowers the rank. -/
theorem driveStep_ranked {P : Bool} {inner s : Inner} {buf : Bytes} {n : Nat}
    (turn : driveStep P inner buf = .again s n) :
    driveRank s ≤ 2 ∧ (0 < n ∨ driveRank s < driveRank inner) := by
  obtain ⟨root, par, node⟩ := tokens_nonempty
  obtain ⟨state, level⟩ := inner
  cases state with
  | root read => exact readToken_ranked root rfl turn
  | selectNode state =>
    exact selectToken_ranked nodeSelect_offers (fun _ => List.mem_append_left _) turn
  | readContentsLen nodeType value read =>
    change readLen (.readContentsLen nodeType)
      (fun len => .readContents nodeType len (calcAligned len)) value read level buf = _ at turn
    exact readLen_ranked (fun _ => rfl) turn
  | readContents nodeType size rem =>
    cases P with
    | true => exact skipBytes_ranked rfl turn
    | false => cases turn
  | finishNode read =>
    refine readToken_ranked par ?_ turn
    by_cases nested : level > 0 <;> simp [driveRank, nested]
  | finishEntry read => exact readToken_ranked par rfl turn
  | readEntries state =>
    exact selectToken_ranked entrySelect_offers (fun _ => List.mem_append_right _) turn
  | readEntryNameLen value read =>
    change readLen .readEntryNameLen
      (fun len => .readEntryName len (calcAligned len)) value read level buf = _ at turn
    exact readLen_ranked (fun _ => rfl) turn
  | readEntryName len rem =>
    cases P with
    | true => exact skipBytes_ranked rfl turn
    | false => cases turn
  | readNode read => exact readToken_ranked node rfl turn
  | readDir =>
    cases P with
    | true =>
      cases turn
      exact ⟨Nat.zero_le _, .inr Nat.one_pos⟩
    | false => cases turn
  | finishReadEntry =>
    cases P with
    | true =>
      by_cases nested : level > 1
      · simp only [driveStep, bumpAgain, Inner.bumpState, nested, ↓reduceIte] at turn
        cases turn
        exact ⟨Nat.zero_le _, .inr Nat.one_pos⟩
      · simp only [driveStep, bumpAgain, Inner.bumpState, nested, ↓reduceIte] at turn
        cases turn
        exact ⟨Nat.zero_le _, .inr Nat.one_pos⟩
    | false => cases turn
  | eof => cases turn

/-- `drive` obeys the laws of a recogniser. -/
theorem drive_lawful (P : Bool) : (driveMachine P).Lawful where
  again_used := by
    intro s buf s' n turn
    rcases driveStep_kinds P s with waits | ⟨next, _, stops⟩ | ⟨next, _, _, moves⟩
    · exact (waits.again turn).1
    · cases (stops buf).symm.trans turn
    · cases (moves buf).symm.trans turn
      exact Nat.zero_le _
  again_bound := fun turn => (driveStep_ranked turn).1
  again_ranked := fun turn => (driveStep_ranked turn).2
  again_append := by
    intro s a s' n b turn
    rcases driveStep_kinds P s with waits | ⟨next, _, stops⟩ | ⟨next, _, _, moves⟩
    · exact (waits.again turn).2.2 b
    · cases (stops a).symm.trans turn
    · exact (moves (a ++ b)).trans ((moves a).symm.trans turn)
  fail_append := by
    intro s a e b turn
    rcases driveStep_kinds P s with waits | ⟨next, _, stops⟩ | ⟨next, _, _, moves⟩
    · exact waits.fail turn b
    · cases (stops a).symm.trans turn
    · cases (moves a).symm.trans turn
  panic_append := by
    intro s a b turn
    rcases driveStep_kinds P s with waits | ⟨next, _, stops⟩ | ⟨next, _, _, moves⟩
    · exact waits.panic turn b
    · cases (stops a).symm.trans turn
    · cases (moves a).symm.trans turn
  more_append := by
    intro s a s' n b turn idle
    rcases driveStep_kinds P s with waits | ⟨next, halted, stops⟩ | ⟨next, _, _, moves⟩
    · obtain ⟨whole, _, later⟩ := waits.stop turn
      exact ⟨whole, later b⟩
    · cases (stops a).symm.trans turn
      exact absurd halted.1 idle
    · cases (moves a).symm.trans turn
  again_take := by
    intro s a s' n turn
    rcases driveStep_kinds P s with waits | ⟨next, _, stops⟩ | ⟨next, _, _, moves⟩
    · exact (waits.again turn).2.1
    · cases (stops a).symm.trans turn
    · exact (moves (a.take n)).trans ((moves a).symm.trans turn)
  halt_any := by
    intro s a s' n b turn halted
    rcases driveStep_kinds P s with waits | ⟨next, _, stops⟩ | ⟨next, _, _, moves⟩
    · exact absurd halted (waits.stop turn).2.1
    · cases (stops a).symm.trans turn
      exact ⟨rfl, stops b⟩
    · cases (moves a).symm.trans turn

end Harmonia.Nar
