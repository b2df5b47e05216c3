import Harmonia.Fs.Path
import Harmonia.Library.Ordered

/-!
# Trees of files

What a file system holds below a path, and how `walkdir` goes through it: a directory before what it
contains, and the entries of a directory in the order of the comparator it is given. What the walk
yields of a file is its path, its metadata, and the target if it is a symbolic link.
-/

namespace Harmonia.Fs

open Library

/-- `std::fs::FileType`. -/
inductive FileType where
  /-- `is_file`. -/
  | file
  /-- `is_dir`. -/
  | dir
  /-- `is_symlink`. -/
  | symlink
  /-- A socket, a pipe or a device. -/
  | special
  deriving DecidableEq, Repr

/-- `std::fs::Metadata`, not following links. -/
structure Metadata where
  /-- `file_type`. -/
  fileType : FileType
  /-- `permissions().mode()`. -/
  mode : UInt32
  /-- `len`. -/
  len : UInt64
  deriving DecidableEq, Repr

mutual

/-- What can be at a path. -/
inductive Node where
  /-- A regular file. -/
  | file (mode : UInt32) (contents : Bytes)
  /-- A symbolic link. -/
  | symlink (target : Bytes)
  /-- A directory. -/
  | directory (entries : Entries)
  /-- A socket, a pipe or a device. -/
  | special (mode : UInt32)

/-- The entries of a directory, in the order in which it lists them. -/
inductive Entries where
  /-- No more entries. -/
  | nil
  /-- One entry and the rest of them. -/
  | cons (name : Bytes) (node : Node) (rest : Entries)

end

deriving instance DecidableEq for Node, Entries

/-- The metadata of what is at a path. -/
def Node.metadata : Node → Metadata
  | .file mode contents => ⟨.file, mode, UInt64.ofNat contents.length⟩
  | .symlink target => ⟨.symlink, 0o777, UInt64.ofNat target.length⟩
  | .directory _ => ⟨.dir, 0o755, 0⟩
  | .special mode => ⟨.special, mode, 0⟩

/-- The error of `read_link` for what is not a symbolic link. -/
def notALink : IoError := ⟨.other, "Invalid argument (os error 22)"⟩

/-- `read_link`. -/
def Node.readLink : Node → Except IoError Bytes
  | .symlink target => .ok target
  | _ => .error notALink

/-- The names in a directory. -/
def Entries.names : Entries → List Bytes
  | .nil => []
  | .cons name _ rest => name :: rest.names

/-- What a name stands for in a directory. -/
def Entries.get (name : Bytes) : Entries → Option Node
  | .nil => none
  | .cons first node rest => if first = name then some node else rest.get name

/-- A socket, a pipe or a device. -/
def Node.isSpecial : Node → Bool
  | .special _ => true
  | _ => false

/-! ## Legal trees -/

mutual

/-- The names of every directory are legal and distinct. -/
def Node.Legal : Node → Prop
  | .directory entries => entries.Legal
  | _ => True

/-- The names of a directory are legal and distinct, and so they are below it. -/
def Entries.Legal : Entries → Prop
  | .nil => True
  | .cons name node rest => LegalName name ∧ name ∉ rest.names ∧ node.Legal ∧ rest.Legal

end

mutual

/-- There is nothing but files, symbolic links and directories. -/
def Node.Plain : Node → Prop
  | .directory entries => entries.Plain
  | .special _ => False
  | _ => True

/-- There is nothing but files, symbolic links and directories below. -/
def Entries.Plain : Entries → Prop
  | .nil => True
  | .cons _ node rest => node.Plain ∧ rest.Plain

end

/-- What is plain is not special. -/
theorem Node.Plain.ordinary {node : Node} (plain : node.Plain) : node.isSpecial = false := by
  cases node with
  | special mode => exact plain.elim
  | _ => rfl

/-! ## Walking -/

/-- `walkdir::DirEntry`, with the answers to the questions that are asked about it. -/
structure DirEntry where
  /-- `path`. -/
  path : Path
  /-- `metadata`. -/
  metadata : Except IoError Metadata
  /-- `read_link` of the path. -/
  link : Except IoError Bytes

/-- The entry of what is at a path. -/
def Node.entry (path : Path) (node : Node) : DirEntry :=
  ⟨path, .ok node.metadata, node.readLink⟩

mutual

/-- A walk: a directory before what it contains. -/
def Node.walk (path : Path) : Node → List DirEntry
  | .directory entries => (Node.directory entries).entry path :: entries.walk path
  | .file mode contents => [(Node.file mode contents).entry path]
  | .symlink target => [(Node.symlink target).entry path]
  | .special mode => [(Node.special mode).entry path]

/-- The walk through the entries of a directory. -/
def Entries.walk (path : Path) : Entries → List DirEntry
  | .nil => []
  | .cons name node rest => node.walk (path.join name) ++ rest.walk path

end

/-- A walk begins where it was asked to. -/
theorem Node.walk_head (path : Path) (node : Node) :
    ∃ rest, node.walk path = node.entry path :: rest := by
  cases node with
  | directory entries => exact ⟨entries.walk path, rfl⟩
  | _ => exact ⟨[], rfl⟩

section Sorted

variable (key : Bytes → Bytes)

/-- Put an entry in front of the first one that does not come before it. -/
def Entries.place (name : Bytes) (node : Node) : Entries → Entries
  | .nil => .cons name node .nil
  | .cons first other rest =>
    if compare (key first) (key name) = .lt then .cons first other (rest.place name node)
    else .cons name node (.cons first other rest)

mutual

/-- The tree with the entries of every directory in the order of a key of their names. -/
def Node.sorted : Node → Node
  | .directory entries => .directory entries.sorted
  | .file mode contents => .file mode contents
  | .symlink target => .symlink target
  | .special mode => .special mode

/-- The entries in the order of a key of their names. -/
def Entries.sorted : Entries → Entries
  | .nil => .nil
  | .cons name node rest => rest.sorted.place key name node.sorted

end

/-- What `walkdir` yields for a path, with a comparator that compares a key of the names. -/
def Node.walkdir (path : Path) (node : Node) : List (Except IoError DirEntry) :=
  ((node.sorted key).walk path).map Except.ok

mutual

/-- The entries of every directory are in strictly increasing order. -/
def Node.Ascends : Node → Prop
  | .directory entries => entries.Ascends
  | _ => True

/-- The entries are in strictly increasing order, and so they are below. -/
def Entries.Ascends : Entries → Prop
  | .nil => True
  | .cons name node rest =>
    (∀ other ∈ rest.names, compare (key name) (key other) = .lt) ∧ node.Ascends ∧ rest.Ascends

end

mutual

/-- The names of every directory have distinct keys. -/
def Node.Apart : Node → Prop
  | .directory entries => entries.Apart
  | _ => True

/-- The names have distinct keys, and so they have below. -/
def Entries.Apart : Entries → Prop
  | .nil => True
  | .cons name node rest =>
    (∀ other ∈ rest.names, key other ≠ key name) ∧ node.Apart ∧ rest.Apart

end

variable {key}

/-- The names with another one put at its place. -/
theorem Entries.names_place (name : Bytes) (node : Node) : ∀ entries : Entries,
    (entries.place key name node).names.Perm (name :: entries.names)
  | .nil => List.Perm.refl _
  | .cons first other rest => by
    rw [place]
    split
    · exact ((names_place name node rest).cons first).trans (List.Perm.swap name first rest.names)
    · exact List.Perm.refl _

/-- Sorting keeps the names. -/
theorem Entries.names_sorted : ∀ entries : Entries, (entries.sorted key).names.Perm entries.names
  | .nil => List.Perm.refl _
  | .cons name node rest =>
    (names_place name (node.sorted key) (rest.sorted key)).trans ((names_sorted rest).cons name)

/-- An entry put at its place leaves the entries sorted. -/
theorem Entries.place_ascends {name : Bytes} {node : Node} (below : node.Ascends key) :
    ∀ {entries : Entries}, (∀ other ∈ entries.names, key other ≠ key name) →
      entries.Ascends key → (entries.place key name node).Ascends key
  | .nil, _, _ => ⟨fun _ none => absurd none List.not_mem_nil, below, trivial⟩
  | .cons first other rest, apart, ⟨least, inner, later⟩ => by
    have distinct : key first ≠ key name := apart first List.mem_cons_self
    have others : ∀ other ∈ rest.names, key other ≠ key name :=
      fun other member => apart other (List.mem_cons_of_mem _ member)
    rw [place]
    split
    case isTrue less =>
      refine ⟨?_, inner, place_ascends below others later⟩
      intro other member
      rcases List.mem_cons.mp ((names_place name node rest).mem_iff.mp member) with rfl | old
      · exact less
      · exact least other old
    case isFalse notLess =>
      have less : compare (key name) (key first) = .lt := by
        cases order : compare (key first) (key name) with
        | lt => exact absurd order notLess
        | eq => exact absurd (Std.LawfulEqOrd.eq_of_compare order) distinct
        | gt => exact Std.OrientedCmp.gt_iff_lt.mp order
      refine ⟨?_, below, least, inner, later⟩
      intro other member
      rcases List.mem_cons.mp member with rfl | old
      · exact less
      · exact Std.TransCmp.lt_trans less (least other old)

mutual

/-- A tree whose names have distinct keys is sorted strictly. -/
theorem Node.sorted_ascends : ∀ {node : Node}, node.Apart key → (node.sorted key).Ascends key
  | .directory _, apart => Entries.sorted_ascends apart
  | .file _ _, _ => trivial
  | .symlink _, _ => trivial
  | .special _, _ => trivial

/-- Entries whose names have distinct keys are sorted strictly. -/
theorem Entries.sorted_ascends : ∀ {entries : Entries}, entries.Apart key →
    (entries.sorted key).Ascends key
  | .nil, _ => trivial
  | .cons _ _ rest, ⟨distinct, inner, later⟩ =>
    Entries.place_ascends (Node.sorted_ascends inner)
      (fun other member => distinct other ((Entries.names_sorted rest).mem_iff.mp member))
      (Entries.sorted_ascends later)

end

/-- Entries with another one put at its place are legal. -/
theorem Entries.place_legal {name : Bytes} {node : Node} (legal : LegalName name)
    (inner : node.Legal) : ∀ {entries : Entries}, name ∉ entries.names → entries.Legal →
      (entries.place key name node).Legal
  | .nil, fresh, _ => ⟨legal, fresh, inner, trivial⟩
  | .cons first other rest, fresh, ⟨legal', fresh', inner', later⟩ => by
    rw [place]
    split
    · refine ⟨legal', ?_, inner', place_legal legal inner (fun old => fresh (.tail _ old)) later⟩
      intro member
      rcases List.mem_cons.mp ((names_place name node rest).mem_iff.mp member) with rfl | old
      · exact fresh List.mem_cons_self
      · exact fresh' old
    · exact ⟨legal, fresh, inner, legal', fresh', inner', later⟩

mutual

/-- Sorting keeps a tree legal. -/
theorem Node.sorted_legal : ∀ {node : Node}, node.Legal → (node.sorted key).Legal
  | .directory _, legal => Entries.sorted_legal legal
  | .file _ _, _ => trivial
  | .symlink _, _ => trivial
  | .special _, _ => trivial

/-- Sorting keeps entries legal. -/
theorem Entries.sorted_legal : ∀ {entries : Entries}, entries.Legal → (entries.sorted key).Legal
  | .nil, _ => trivial
  | .cons _ _ rest, ⟨legal, fresh, inner, later⟩ =>
    Entries.place_legal legal (Node.sorted_legal inner)
      (fun member => fresh ((Entries.names_sorted rest).mem_iff.mp member))
      (Entries.sorted_legal later)

end

/-- Entries with another one put at its place are plain if both are. -/
theorem Entries.place_plain (name : Bytes) (node : Node) : ∀ entries : Entries,
    (entries.place key name node).Plain ↔ node.Plain ∧ entries.Plain
  | .nil => Iff.rfl
  | .cons first other rest => by
    rw [place]
    split
    · show other.Plain ∧ (rest.place key name node).Plain ↔ node.Plain ∧ other.Plain ∧ rest.Plain
      rw [place_plain name node rest]
      exact and_left_comm
    · exact Iff.rfl

mutual

/-- Sorting keeps a tree plain. -/
theorem Node.sorted_plain : ∀ {node : Node}, (node.sorted key).Plain ↔ node.Plain
  | .directory _ => Entries.sorted_plain
  | .file _ _ => Iff.rfl
  | .symlink _ => Iff.rfl
  | .special _ => Iff.rfl

/-- Sorting keeps entries plain. -/
theorem Entries.sorted_plain : ∀ {entries : Entries}, (entries.sorted key).Plain ↔ entries.Plain
  | .nil => Iff.rfl
  | .cons name node rest =>
    (Entries.place_plain name (node.sorted key) (rest.sorted key)).trans
      (and_congr Node.sorted_plain Entries.sorted_plain)

end

end Sorted

mutual

/-- Names that are distinct are apart. -/
theorem Node.Legal.apart : ∀ {node : Node}, node.Legal → node.Apart id
  | .directory _, legal => Entries.Legal.apart legal
  | .file _ _, _ => trivial
  | .symlink _, _ => trivial
  | .special _, _ => trivial

/-- Names that are distinct are apart. -/
theorem Entries.Legal.apart : ∀ {entries : Entries}, entries.Legal → entries.Apart id
  | .nil, _ => trivial
  | .cons name _ _, ⟨_, fresh, inner, later⟩ =>
    ⟨fun other member (same : other = name) => fresh (same ▸ member), Node.Legal.apart inner,
      Entries.Legal.apart later⟩

end

end Harmonia.Fs
