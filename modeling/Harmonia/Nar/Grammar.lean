import Mathlib.Data.List.Basic
import Mathlib.Algebra.Order.Ring.Nat
import Harmonia.Nar.Framing

/-!
# The grammar of an archive

The comment at the head of `archive/read_nar.rs` gives the format as a recursive grammar over
length-prefixed strings. `Derives` is that grammar: its literals are the byte strings the
comment spells out, zeros included, and its `String` and `Bytes` are a length word followed
by as many bytes as the alignment asks. It describes the same strings as the parts that the
automaton follows, where nesting is only a count of open directories.
-/

namespace Harmonia.Nar

/-- The nonterminals of the grammar. -/
inductive Symbol where
  /-- `Root`. -/
  | root
  /-- `Node`. -/
  | node
  /-- The entries of a `DirectoryNode`. -/
  | entries
  /-- `String` and `Bytes`. -/
  | field
  deriving DecidableEq, Repr

/-- A node's opening: `"("` and `"type"`. -/
def opening : Bytes := putNixSlice (ascii ['(']) ++ putNixSlice typeWord

/-- The grammar of the head comment. A field is a length and `align` bytes behind it. -/
inductive Derives (align : UInt64 → Nat) : Symbol → Bytes → Prop
  | field (len : UInt64) (payload : Bytes) (sized : payload.length = align len) :
    Derives align .field (toLeBytes len ++ payload)
  | root {node : Bytes} (inner : Derives align .node node) :
    Derives align .root (putNixSlice nixArchive1 ++ node)
  | body (nodeType : NodeType) {contents : Bytes} (inner : Derives align .field contents) :
    Derives align .node (opening ++ (nodeType.header ++ contents) ++ tokPar)
  | directory {entries : Bytes} (inner : Derives align .entries entries) :
    Derives align .node (opening ++ (tokDir ++ entries) ++ tokPar)
  | none : Derives align .entries []
  | entry {entries name node : Bytes} (before : Derives align .entries entries)
    (named : Derives align .field name) (inner : Derives align .node node) :
    Derives align .entries
      (entries ++ (tokEntry ++ name ++ putNixSlice (ascii ['n', 'o', 'd', 'e']) ++ node ++ tokPar))

variable {align : UInt64 → Nat}

/-- The root's token is the archive's name and the root's opening. -/
theorem tokRoot_eq : tokRoot = putNixSlice nixArchive1 ++ opening := by decide +kernel

/-- A node's token is its keyword and the node's opening. -/
theorem tokNode_eq : tokNode = putNixSlice (ascii ['n', 'o', 'd', 'e']) ++ opening := by
  decide +kernel

/-! ## From the grammar to the parts -/

/-- The bytes lead behind a node: to the end of the archive or of the node's entry. -/
def Closed (align : UInt64 → Nat) (word : Bytes) : Nat → Prop
  | 0 => ∃ after, Reads align word .finished after
  | level + 1 => Reads align word .closeEntry (level + 1)

/-- What a derivation says about the parts, for each nonterminal. -/
def Symbol.Reading (align : UInt64 → Nat) (bytes : Bytes) : Symbol → Prop
  | .root => ∃ after, Reads align bytes .finished after
  | .node => ∃ inner, bytes = opening ++ inner ∧
      ∀ word level, Reads align word .node level → Closed align (word ++ inner) level
  | .entries => ∀ word level, Reads align word .entries level →
      Reads align (word ++ bytes) .entries level
  | .field => ∃ len payload, payload.length = align len ∧ bytes = toLeBytes len ++ payload

/-- A parenthesis behind a file or a symbolic link closes its node. -/
theorem Reads.closed_body {word : Bytes} {level : Nat} (reads : Reads align word .close level) :
    Closed align (word ++ tokPar) level := by
  cases level with
  | zero => exact ⟨0, reads.more .closeRoot⟩
  | succ level => exact reads.more (.close level)

/-- A parenthesis behind the entries of a directory closes its node. -/
theorem Reads.closed_directory {word : Bytes} {level : Nat}
    (reads : Reads align word .entries (level + 1)) : Closed align (word ++ tokPar) level := by
  cases level with
  | zero => exact ⟨1, reads.more .closeRootDirectory⟩
  | succ level => exact reads.more (.closeDirectory level)

/-- Every derivation is read part by part. -/
theorem Derives.reading {symbol : Symbol} {bytes : Bytes} (derived : Derives align symbol bytes) :
    symbol.Reading align bytes := by
  induction derived with
  | field len payload sized => exact ⟨len, payload, sized, rfl⟩
  | root _ ih =>
    obtain ⟨inner, rfl, closes⟩ := ih
    rw [← List.append_assoc, ← tokRoot_eq]
    exact closes tokRoot 0 .start
  | body nodeType _ ih =>
    obtain ⟨len, payload, sized, rfl⟩ := ih
    refine ⟨nodeType.header ++ (toLeBytes len ++ payload) ++ tokPar, by simp, ?_⟩
    intro word level reads
    have behind := (reads.more (.header nodeType level)).more (.body nodeType level len payload sized)
    simpa only [List.append_assoc] using behind.closed_body
  | directory _ ih =>
    rename_i entries _
    refine ⟨tokDir ++ entries ++ tokPar, by simp, ?_⟩
    intro word level reads
    have behind := ih _ _ (reads.more (.directory level))
    simpa only [List.append_assoc] using behind.closed_directory
  | none =>
    intro word level reads
    rwa [List.append_nil]
  | entry _ _ _ before named node =>
    obtain ⟨len, payload, sized, rfl⟩ := named
    obtain ⟨inner, rfl, closes⟩ := node
    intro word level reads
    have entered := (before word level reads).more (.entry level)
    have opened := (entered.more (.name level len payload sized)).more (.mark level)
    obtain ⟨below, rfl⟩ := Nat.exists_eq_succ_of_ne_zero (Nat.ne_of_gt (reads.opened (.inl rfl)))
    have closed : Reads align _ .entries (below + 1) :=
      Reads.more (closes _ _ opened) (.closeEntry (below + 1))
    rw [tokNode_eq] at closed
    simpa only [List.append_assoc] using closed

/-! ## From the parts to the grammar -/

/-- The bytes before a node inside a number of directories: in each of them the entries so
far, and the name of the entry that holds the next. -/
inductive Before (align : UInt64 → Nat) : Nat → Bytes → Prop
  | root : Before align 0 tokRoot
  | entry {level : Nat} {word entries name : Bytes} (outer : Before align level word)
    (listed : Derives align .entries entries) (named : Derives align .field name) :
    Before align (level + 1) (word ++ (tokDir ++ entries) ++ (tokEntry ++ name ++ tokNode))

/-- A node's inside, between its opening and its parenthesis. -/
def Inside (align : UInt64 → Nat) (inner : Bytes) : Prop :=
  Derives align .node (opening ++ inner ++ tokPar)

/-- What the bytes up to a place are in the grammar. -/
def Place.Derived (align : UInt64 → Nat) (level : Nat) (bytes : Bytes) : Place → Prop
  | .node => Before align level bytes
  | .body nodeType => ∃ word, Before align level word ∧ bytes = word ++ nodeType.header
  | .close => ∃ word inner, Before align level word ∧ Inside align inner ∧ bytes = word ++ inner
  | .entries => ∃ below word entries, level = below + 1 ∧ Before align below word ∧
      Derives align .entries entries ∧ bytes = word ++ (tokDir ++ entries)
  | .name => ∃ below word entries, level = below + 1 ∧ Before align below word ∧
      Derives align .entries entries ∧ bytes = word ++ (tokDir ++ entries) ++ tokEntry
  | .mark => ∃ below word entries name, level = below + 1 ∧ Before align below word ∧
      Derives align .entries entries ∧ Derives align .field name ∧
      bytes = word ++ (tokDir ++ entries) ++ (tokEntry ++ name)
  | .closeEntry => ∃ below word inner, level = below + 1 ∧ Before align (below + 1) word ∧
      Inside align inner ∧ bytes = word ++ inner ++ tokPar
  | .finished => Derives align .root bytes

/-- A closed root node is an archive. -/
theorem Inside.archive {inner : Bytes} (inside : Inside align inner) :
    Derives align .root (tokRoot ++ inner ++ tokPar) := by
  have derived := Derives.root inside
  rw [tokRoot_eq]
  simpa only [List.append_assoc] using derived

/-- A part keeps to the grammar. -/
theorem Part.derived {place next : Place} {level after : Nat} {word part : Bytes}
    (step : Part align place level part next after) (before : place.Derived align level word) :
    next.Derived align after (word ++ part) := by
  cases step with
  | header nodeType => exact ⟨word, before, rfl⟩
  | directory => exact ⟨level, word, [], rfl, before, .none, by rw [List.append_nil]⟩
  | body nodeType _ len payload sized =>
    obtain ⟨outer, before, rfl⟩ := before
    exact ⟨outer, _, before, .body nodeType (.field len payload sized), List.append_assoc ..⟩
  | closeRoot =>
    obtain ⟨outer, inner, before, inside, rfl⟩ := before
    cases before
    exact inside.archive
  | close level =>
    obtain ⟨outer, inner, before, inside, rfl⟩ := before
    exact ⟨level, outer, inner, rfl, before, inside, rfl⟩
  | entry =>
    obtain ⟨below, outer, entries, rfl, before, listed, rfl⟩ := before
    exact ⟨below, outer, entries, rfl, before, listed, rfl⟩
  | name _ len payload sized =>
    obtain ⟨below, outer, entries, rfl, before, listed, rfl⟩ := before
    exact ⟨below, outer, entries, _, rfl, before, listed, .field len payload sized,
      List.append_assoc ..⟩
  | mark =>
    obtain ⟨below, outer, entries, name, rfl, before, listed, named, rfl⟩ := before
    have entered := Before.entry before listed named
    simpa only [Place.Derived, List.append_assoc] using entered
  | closeEntry =>
    obtain ⟨below, outer, inner, rfl, before, inside, rfl⟩ := before
    cases before with
    | entry outer listed named =>
      have more := Derives.entry listed named inside
      refine ⟨_, _, _, rfl, outer, more, ?_⟩
      rw [tokNode_eq]
      simp only [List.append_assoc]
  | closeRootDirectory =>
    obtain ⟨below, outer, entries, same, before, listed, rfl⟩ := before
    obtain rfl : below = 0 := by omega
    cases before
    exact Inside.archive (.directory listed)
  | closeDirectory level =>
    obtain ⟨below, outer, entries, same, before, listed, rfl⟩ := before
    obtain rfl : below = level + 1 := by omega
    exact ⟨level, outer, _, rfl, before, .directory listed, rfl⟩

/-- The bytes up to a place are what the grammar has before it. -/
theorem Reads.derived {word : Bytes} {place : Place} {level : Nat}
    (reads : Reads align word place level) : place.Derived align level word := by
  induction reads with
  | start => exact .root
  | more _ step ih => exact step.derived ih

/-- The strings of the grammar are those that lead to the end. -/
theorem derives_root_iff {bytes : Bytes} :
    Derives align .root bytes ↔ ∃ level, Reads align bytes .finished level :=
  ⟨fun derived => derived.reading, fun ⟨_, reads⟩ => reads.derived⟩

end Harmonia.Nar
