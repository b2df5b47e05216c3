import Mathlib.Data.List.Basic
import Mathlib.Algebra.Order.Ring.Nat
import Harmonia.Nar.Agreement
import Harmonia.Nar.Encoding

/-!
# Decoding undoes encoding

The encoding of a well-formed sequence of events is a story with the same events, so the parser
tells them again, however its input is cut and however much of each file is read.
-/

namespace Harmonia.Nar

open Library

/-- Events inside open directories, up to the end of the outermost. -/
inductive Listing : Nat → List (NarEvent Bytes) → Prop
  | finished : Listing 0 []
  | file {level : Nat} {events : List (NarEvent Bytes)} (name : Bytes) (executable : Bool)
    (size : UInt64) (contents : Bytes) (sized : size.toNat = contents.length)
    (later : Listing (level + 1) events) :
    Listing (level + 1) (.file name executable size contents :: events)
  | symlink {level : Nat} {events : List (NarEvent Bytes)} (name target : Bytes)
    (later : Listing (level + 1) events) : Listing (level + 1) (.symlink name target :: events)
  | startDirectory {level : Nat} {events : List (NarEvent Bytes)} (name : Bytes)
    (later : Listing (level + 2) events) : Listing (level + 1) (.startDirectory name :: events)
  | endDirectory {level : Nat} {events : List (NarEvent Bytes)} (later : Listing level events) :
    Listing (level + 1) (.endDirectory :: events)

/-- The events of one file, symbolic link or directory tree, whose root has no name. -/
inductive WellFormed : List (NarEvent Bytes) → Prop
  | file (executable : Bool) (size : UInt64) (contents : Bytes)
    (sized : size.toNat = contents.length) : WellFormed [.file [] executable size contents]
  | symlink (target : Bytes) : WellFormed [.symlink [] target]
  | directory {events : List (NarEvent Bytes)} (later : Listing 1 events) :
    WellFormed (.startDirectory [] :: events)

/-- The name and the target of an event fit in a buffer, and the size of a file in a word. -/
def NarEvent.Within (limit : Nat) : NarEvent Bytes → Prop
  | .file name _ size _ => alignNat name.length ≤ limit ∧ Fits size
  | .symlink name target => alignNat name.length ≤ limit ∧ alignNat target.length ≤ limit
  | .startDirectory name => alignNat name.length ≤ limit
  | .endDirectory => True

/-- A slice is a length and a payload that the length counts. -/
theorem putNixSlice_field {src : Bytes} (small : alignNat src.length < 2 ^ 64) :
    ∃ len payload, putNixSlice src = toLeBytes len ++ payload ∧ Fits len ∧
      payload.length = codeAlign len ∧ payload.take len.toNat = src ∧
      codeAlign len = alignNat src.length := by
  have inside : src.length < 2 ^ 64 - 7 := by
    unfold alignNat at small
    omega
  have count : (UInt64.ofNat src.length).toNat = src.length :=
    UInt64.toNat_ofNat_of_lt' (show src.length < 2 ^ 64 by omega)
  have fits : Fits (UInt64.ofNat src.length) := by
    unfold Fits
    omega
  have aligned : codeAlign (UInt64.ofNat src.length) = alignNat src.length := by
    rw [codeAlign, calcAligned_fits fits, count]
  have grows := le_alignNat src.length
  refine ⟨UInt64.ofNat src.length, src ++ List.replicate (calcPadding (UInt64.ofNat src.length)) 0,
    by rw [putNixSlice, List.append_assoc], fits, ?_, ?_, aligned⟩
  · rw [List.length_append, List.length_replicate, calcPadding_fits fits, aligned, count]
    omega
  · rw [count, List.take_left]

section Parts

variable {level limit : Nat} {rest : Bytes} {events : List (NarEvent Bytes)} {fields : List Nat}

/-- The tokens and the name in front of an entry. -/
theorem Story.entry {name : Bytes} (story : Story .node (level + 1) (some name) rest events fields)
    (before : Option Bytes) (small : alignNat name.length < 2 ^ 64) :
    Story .entries (level + 1) before (NarWriter.entry (level + 1) name ++ rest) events
      (alignNat name.length :: fields) := by
  obtain ⟨len, payload, slice, fits, sized, taken, aligned⟩ := putNixSlice_field small
  have named := (Adds.name (level + 1) before len payload sized fits)
  rw [taken, aligned, ← slice] at named
  have whole := Story.part (.entry (level + 1) before)
    (.part named (.part (.mark (level + 1) (some name)) story))
  simpa only [NarWriter.entry, Nat.zero_lt_succ, ↓reduceIte, List.append_assoc, List.nil_append,
    List.singleton_append] using whole

/-- A file up to its closing tokens. -/
theorem Story.file {name : Option Bytes} {contents : Bytes} {size : UInt64}
    (story : Story .close level none rest events fields) (executable : Bool)
    (sized : size.toNat = contents.length) (fits : Fits size) :
    Story .node level name ((if executable then tokFileE else tokFile) ++ toLeBytes size ++
        contents ++ List.replicate (calcPadding size) 0 ++ rest)
      (.file (name.getD []) executable size contents :: events) fields := by
  have length : (contents ++ List.replicate (calcPadding size) 0).length = codeAlign size := by
    have grows := le_alignNat size.toNat
    rw [List.length_append, List.length_replicate, calcPadding_fits fits, codeAlign,
      calcAligned_fits fits]
    omega
  have taken : (contents ++ List.replicate (calcPadding size) 0).take size.toNat = contents := by
    rw [sized, List.take_left]
  have node (nodeType : NodeType) (file : nodeType ≠ .symlink) :
      Story .node level name (nodeType.header ++ (toLeBytes size ++
          (contents ++ List.replicate (calcPadding size) 0) ++ rest))
        (.file (name.getD []) (nodeType = .executableFile) size contents :: events) fields := by
    have body := Adds.contents nodeType file level name size _ length fits
    rw [taken] at body
    exact .part (.header nodeType level name) (.part body story)
  simp only [List.append_assoc] at node ⊢
  cases executable with
  | true => exact node .executableFile NodeType.noConfusion
  | false => exact node .file NodeType.noConfusion

/-- A symbolic link up to its closing tokens. -/
theorem Story.symlink {name : Option Bytes} {target : Bytes}
    (story : Story .close level none rest events fields)
    (small : alignNat target.length < 2 ^ 64) :
    Story .node level name (tokSym ++ putNixSlice target ++ rest)
      (.symlink (name.getD []) target :: events) (alignNat target.length :: fields) := by
  obtain ⟨len, payload, slice, fits, sized, taken, aligned⟩ := putNixSlice_field small
  have body := Adds.target level name len payload sized fits
  rw [taken, aligned, ← slice] at body
  rw [List.append_assoc]
  exact .part (.header .symlink level name) (.part body story)

/-- The closing tokens of an entry. -/
theorem Story.closing {name : Option Bytes}
    (story : Story .entries (level + 1) name rest events fields) :
    Story .close (level + 1) name (closing (level + 1) ++ rest) events fields := by
  have whole := Story.part (.close level name) (.part (.closeEntry (level + 1) name) story)
  simpa only [Nar.closing, Nat.succ_ne_zero, ↓reduceIte, List.append_assoc, List.nil_append]
    using whole

/-- The closing token of a root. -/
theorem Story.closing_root (name : Option Bytes) : Story .close 0 name (Nar.closing 0) [] [] :=
  .part (.closeRoot name) (.finished 0 name)

end Parts

/-- The encoding of events inside open directories tells them again. -/
theorem Listing.story {limit level : Nat} {events : List (NarEvent Bytes)}
    (listing : Listing level events) (machine : limit < 2 ^ 64)
    (within : ∀ event ∈ events, event.Within limit) (positive : 0 < level) (name : Option Bytes) :
    ∃ fields, Story .entries level name (encode level events) events fields ∧
      ∀ field ∈ fields, field ≤ limit := by
  induction listing generalizing name with
  | finished => exact absurd positive (Nat.lt_irrefl 0)
  | @file level events own executable size contents sized later ih =>
    obtain ⟨⟨small, fits⟩, within⟩ := List.forall_mem_cons.mp within
    obtain ⟨fields, story, bounded⟩ := ih within (Nat.succ_pos level) none
    refine ⟨alignNat own.length :: fields, ?_, List.forall_mem_cons.mpr ⟨small, bounded⟩⟩
    have node : Story .node (level + 1) (some own) _ (.file own executable size contents :: events)
        fields := story.closing.file executable sized fits
    simpa only [encode, encodeEvent, NarEvent.levelAfter, Nat.succ_ne_zero, ↓reduceIte,
      List.nil_append, List.append_assoc] using node.entry name (Nat.lt_of_le_of_lt small machine)
  | @symlink level events own target later ih =>
    obtain ⟨⟨small, short⟩, within⟩ := List.forall_mem_cons.mp within
    obtain ⟨fields, story, bounded⟩ := ih within (Nat.succ_pos level) none
    refine ⟨alignNat own.length :: alignNat target.length :: fields, ?_,
      List.forall_mem_cons.mpr ⟨small, List.forall_mem_cons.mpr ⟨short, bounded⟩⟩⟩
    have node : Story .node (level + 1) (some own) _ (.symlink own target :: events)
        (alignNat target.length :: fields) :=
      story.closing.symlink (Nat.lt_of_le_of_lt short machine)
    simpa only [encode, encodeEvent, NarEvent.levelAfter, Nat.succ_ne_zero, ↓reduceIte,
      List.nil_append, List.append_assoc] using node.entry name (Nat.lt_of_le_of_lt small machine)
  | @startDirectory level events own later ih =>
    obtain ⟨small, within⟩ := List.forall_mem_cons.mp within
    obtain ⟨fields, story, bounded⟩ := ih within (Nat.succ_pos _) none
    refine ⟨alignNat own.length :: fields, ?_, List.forall_mem_cons.mpr ⟨small, bounded⟩⟩
    have node : Story .node (level + 1) (some own) _ (.startDirectory own :: events) fields :=
      .part (.directory (level + 1) (some own)) story
    simpa only [encode, encodeEvent, NarEvent.levelAfter, Nat.succ_ne_zero, ↓reduceIte,
      List.nil_append, List.append_assoc] using node.entry name (Nat.lt_of_le_of_lt small machine)
  | @endDirectory level events later ih =>
    obtain ⟨_, within⟩ := List.forall_mem_cons.mp within
    cases level with
    | zero =>
      cases later
      exact ⟨[], .part (.closeRootDirectory name) (.finished 1 name), by simp⟩
    | succ level =>
      obtain ⟨fields, story, bounded⟩ := ih within (Nat.succ_pos level) name
      refine ⟨fields, ?_, bounded⟩
      have closed : Story .entries (level + 2) name _ (.endDirectory :: events) fields :=
        .part (.closeDirectory level name) (.part (.closeEntry (level + 1) name) story)
      simpa only [encode, encodeEvent, closing, NarEvent.levelAfter, Nat.succ_ne_zero,
        Nat.add_one_sub_one, ↓reduceIte, List.nil_append, List.append_assoc] using closed

/-- The encoding of well-formed events tells them again. -/
theorem WellFormed.story {limit : Nat} {events : List (NarEvent Bytes)}
    (formed : WellFormed events) (machine : limit < 2 ^ 64)
    (within : ∀ event ∈ events, event.Within limit) :
    ∃ bytes fields, encode 0 events = tokRoot ++ bytes ∧ Story .node 0 none bytes events fields ∧
      ∀ field ∈ fields, field ≤ limit := by
  cases formed with
  | file executable size contents sized =>
    obtain ⟨⟨_, fits⟩, _⟩ := List.forall_mem_cons.mp within
    have node : Story .node 0 none _ [.file [] executable size contents] [] :=
      (Story.closing_root none).file executable sized fits
    refine ⟨_, [], ?_, node, by simp⟩
    simp [encode, encodeEvent, NarWriter.entry]
  | symlink target =>
    obtain ⟨⟨_, short⟩, _⟩ := List.forall_mem_cons.mp within
    have node : Story .node 0 none _ [.symlink [] target] _ :=
      (Story.closing_root none).symlink (Nat.lt_of_le_of_lt short machine)
    refine ⟨_, _, ?_, node, by simpa using short⟩
    simp [encode, encodeEvent, NarWriter.entry]
  | directory listing =>
    obtain ⟨_, within⟩ := List.forall_mem_cons.mp within
    obtain ⟨fields, story, bounded⟩ := listing.story machine within Nat.one_pos none
    refine ⟨_, fields, ?_, .part (.directory 0 none) story, bounded⟩
    simp [encode, encodeEvent, NarWriter.entry, NarEvent.levelAfter]

/-- Events inside open directories close no others. -/
theorem Listing.nested {level : Nat} {events : List (NarEvent Bytes)}
    (listing : Listing level events) : Nested level events := by
  induction listing with
  | finished => trivial
  | file name executable size contents sized later ih => exact ih
  | symlink name target later ih => exact ih
  | startDirectory name later ih => exact ih
  | endDirectory later ih => exact ⟨Nat.succ_pos _, ih⟩

/-- Well-formed events close no directory that is not open. -/
theorem WellFormed.nested {events : List (NarEvent Bytes)} (formed : WellFormed events) :
    Nested 0 events := by
  cases formed with
  | file executable size contents sized => trivial
  | symlink target => trivial
  | directory listing => exact listing.nested

/-- Directories are opened and closed whatever the files contain. -/
theorem Nested.of_contents {R : Type} [AsyncBufRead R] [LawfulBufRead R] {level : Nat}
    {events : List (NarEvent R)} (nested : Nested level (events.map NarEvent.contents)) :
    Nested level events := by
  induction events generalizing level with
  | nil => trivial
  | cons event events ih =>
    cases event with
    | file name executable size reader => exact ih nested
    | symlink name target => exact ih nested
    | startDirectory name => exact ih nested
    | endDirectory => exact ⟨nested.1, ih nested.2⟩

/-- What a writer delivers for well-formed events is told again by the parser, with whatever
stands behind it left unread. -/
theorem parseNar_writeNar {R : Type} [AsyncBufRead R] [LawfulBufRead R]
    (events : List (NarEvent R × Bool)) (accepts : List Accept) (most : Nat)
    (takes : Sink.Steady ⟨[], accepts, most⟩)
    (readers : ∀ item ∈ events, item.1.Valid ∧ item.1.Regular)
    (formed : WellFormed (events.map fun item => item.1.contents))
    (reserved limit : Nat) (positive : 0 < reserved) (room : reserved * 2 ≤ limit)
    (machine : limit < 2 ^ 64)
    (within : ∀ item ∈ events, item.1.contents.Within (limit - reserved))
    (trailing : Bytes) (plan : List Turn) (most' : Nat) (steady : Source.Steady ⟨[], plan, most'⟩)
    (chunk : Source.largest ⟨encode 0 (events.map fun item => item.1.contents) ++ trailing, plan,
      most'⟩ + 8 ≤ limit - reserved)
    (appetites : List Appetite) :
    ∃ writer, writeNar events ⟨[], accepts, most⟩ = (.ready (), writer) ∧
      ∃ log session reader,
        parseNar reserved limit appetites ⟨writer.writer.written ++ trailing, plan, most'⟩ =
          .ended log session ∧
        Delivers appetites (events.map fun item => item.1.contents) log ∧
        session.parser.reader = .available reader ∧ view.unread reader = trailing := by
  have nested : Nested 0 (events.map Prod.fst) := by
    apply Nested.of_contents
    rw [List.map_map]
    exact formed.nested
  obtain ⟨writer, wrote, written⟩ := writeNar_delivers takes readers nested
  have small : ∀ event ∈ events.map fun item => item.1.contents, event.Within (limit - reserved) := by
    intro event listed
    obtain ⟨item, member, rfl⟩ := List.mem_map.mp listed
    exact within item member
  obtain ⟨bytes, fields, encoded, story, bounded⟩ :=
    formed.story (Nat.lt_of_le_of_lt (Nat.sub_le _ _) machine) small
  have told := story.archive trailing
  rw [← encoded] at told
  refine ⟨writer, wrote, ?_⟩
  rw [written, List.nil_append]
  have collects := @parseNar_collects reserved limit appetites
    ⟨encode 0 (events.map fun item => item.1.contents) ++ trailing, plan, most'⟩ steady positive room
  rw [told] at collects
  rcases collects.of_clean rfl trivial with
    ⟨log, session, reader, ended, delivers, holds, unread⟩ | ⟨_, _, _, _, _, large⟩
  · exact ⟨log, session, reader, ended, delivers, holds, unread⟩
  · exfalso
    rcases large with large | ⟨field, listed, large⟩
    · exact absurd large (Nat.not_lt.mpr chunk)
    · exact absurd large (Nat.not_lt.mpr (bounded field listed))

/-- A file of thirty-five bytes, behind no name. -/
def plainFile : List (NarEvent BufReader × Bool) :=
  [(.file [] false 35 (BufReader.new 8 ⟨List.replicate 35 7, [], 2⟩), false)]

/-- The last word of the plain file is not gathered by a reader whose buffer one read has filled. -/
theorem parseNar_plainFile :
    (writeNar plainFile ⟨[], [.pending], 5⟩).1 = .ready () ∧
      parseNar 16 32 [] ⟨(writeNar plainFile ⟨[], [.pending], 5⟩).2.writer.written, [], 100⟩ =
        .failed [] true (BytesReader.tooLarge 48) := by
  decide +kernel

/-- A directory with an executable file and a symbolic link. -/
def smallTree : List (NarEvent BufReader × Bool) :=
  [(.startDirectory [], true), (.file [97] true 3 (BufReader.new 2 ⟨[1, 2, 3], [.pending], 0⟩), false),
    (.symlink [98] [47], false), (.endDirectory, false)]

/-- The small directory is told again, and the two bytes behind its archive are left. -/
theorem parseNar_writeNar_smallTree :
    ∃ writer, writeNar smallTree ⟨[], [.take 5, .pending], 0⟩ = (.ready (), writer) ∧
      ∃ log session reader,
        parseNar 8192 8388608 [⟨[1], false⟩]
            ⟨writer.writer.written ++ [1, 2], [.data 3, .pending], 9⟩ = .ended log session ∧
        Delivers [⟨[1], false⟩] (smallTree.map fun item => item.1.contents) log ∧
        session.parser.reader = .available reader ∧ view.unread reader = [1, 2] := by
  have file : view.Valid (BufReader.new 2 ⟨[1, 2, 3], [.pending], 0⟩) ∧
      view.Regular (BufReader.new 2 ⟨[1, 2, 3], [.pending], 0⟩) :=
    ⟨(by decide : 0 < 2), (by decide : Source.Steady ⟨[1, 2, 3], [.pending], 0⟩)⟩
  have readers : ∀ item ∈ smallTree, item.1.Valid ∧ item.1.Regular := by
    intro item listed
    simp only [smallTree, List.mem_cons, List.not_mem_nil, or_false] at listed
    rcases listed with rfl | rfl | rfl | rfl
    · exact ⟨trivial, trivial⟩
    · exact file
    · exact ⟨trivial, trivial⟩
    · exact ⟨trivial, trivial⟩
  have formed : WellFormed (smallTree.map fun item => item.1.contents) :=
    .directory (.file [97] true 3 [1, 2, 3] (by decide) (.symlink [98] [47] (.endDirectory .finished)))
  have empty : alignNat 0 ≤ 8388608 - 8192 := by decide
  have short : alignNat 1 ≤ 8388608 - 8192 := by decide
  have within : ∀ item ∈ smallTree, item.1.contents.Within (8388608 - 8192) := by
    intro item listed
    simp only [smallTree, List.mem_cons, List.not_mem_nil, or_false] at listed
    rcases listed with rfl | rfl | rfl | rfl
    · exact empty
    · exact ⟨short, by decide⟩
    · exact ⟨short, short⟩
    · trivial
  exact parseNar_writeNar smallTree [.take 5, .pending] 0 (by decide) readers formed 8192 8388608
    (by decide) (by decide) (by decide) within [1, 2] [.data 3, .pending] 9 (by decide)
    (by decide +kernel) [⟨[1], false⟩]

end Harmonia.Nar
