import Mathlib.Data.List.Basic
import Mathlib.Algebra.Order.Ring.Nat
import Harmonia.Io.Poll
import Harmonia.Library.Text

/-!
# Paths

`std::path::Path` as the components it is compared by. A name that is joined to a path is text: it
may be absolute, it may have several components, and it may be `..`. Only a legal file name adds
itself and nothing else.
-/

namespace Harmonia.Fs

open Library

/-- `/`. -/
def slash : UInt8 := 0x2F

/-- `.`. -/
def dot : UInt8 := 0x2E

/-- `std::path::Component`. -/
inductive Component where
  /-- `/` at the front. -/
  | rootDir
  /-- `.` at the front. -/
  | curDir
  /-- `..`. -/
  | parentDir
  /-- Anything else. -/
  | normal (name : Bytes)
  deriving DecidableEq, Repr

/-- The component between two separators. An empty one and `.` are passed over. -/
def Component.ofPiece (piece : Bytes) : Option Component :=
  if piece = [] ∨ piece = [dot] then none
  else if piece = [dot, dot] then some .parentDir
  else some (.normal piece)

/-- The components of a text, but for what stands only at the front. -/
def Component.inner (text : Bytes) : List Component := (pieces slash text).filterMap ofPiece

/-- `std::path::PathBuf`. -/
structure Path where
  /-- `components`. -/
  components : List Component
  deriving DecidableEq, Repr

namespace Path

/-- `Path::new`. -/
def new (text : Bytes) : Path :=
  if text.head? = some slash then ⟨.rootDir :: Component.inner text⟩
  else if (pieces slash text).head? = some [dot] then ⟨.curDir :: Component.inner text⟩
  else ⟨Component.inner text⟩

/-- `join`: an absolute text takes the place of the path. -/
def join (path : Path) (text : Bytes) : Path :=
  if path.components = [] ∨ text.head? = some slash then new text
  else ⟨path.components ++ Component.inner text⟩

/-- `pop`: to the parent, if there is one. -/
def pop (path : Path) : Path :=
  match path.components.getLast? with
  | none => path
  | some .rootDir => path
  | some _ => ⟨path.components.dropLast⟩

/-- `file_name`. -/
def fileName (path : Path) : Option Bytes :=
  match path.components.getLast? with
  | some (.normal name) => some name
  | _ => none

/-- `starts_with`: component by component. -/
def startsWith (path base : Path) : Bool := base.components.isPrefixOf path.components

/-- The path of a legal name in a directory. -/
def child (path : Path) (name : Bytes) : Path := ⟨path.components ++ [.normal name]⟩

@[simp] theorem child_components (path : Path) (name : Bytes) :
    (path.child name).components = path.components ++ [.normal name] := rfl

@[simp] theorem pop_child (path : Path) (name : Bytes) : (path.child name).pop = path := by
  simp [pop]

@[simp] theorem fileName_child (path : Path) (name : Bytes) :
    (path.child name).fileName = some name := by
  simp [fileName]

/-- A path starts with another if that one can be extended to it. -/
theorem startsWith_iff {path base : Path} :
    path.startsWith base = true ↔ ∃ rest, base.components ++ rest = path.components := by
  rw [startsWith, List.isPrefixOf_iff_prefix]
  rfl

@[simp] theorem startsWith_self (path : Path) : path.startsWith path = true :=
  startsWith_iff.mpr ⟨[], List.append_nil _⟩

/-- What starts with a path starts with the one it was joined to. -/
theorem startsWith_of_child {path base : Path} {name : Bytes}
    (below : path.startsWith (base.child name) = true) : path.startsWith base = true := by
  obtain ⟨rest, same⟩ := startsWith_iff.mp below
  apply startsWith_iff.mpr
  exact ⟨.normal name :: rest, by rw [← same, child_components, List.append_assoc]; rfl⟩

/-- The path of a name starts with the directory. -/
theorem child_startsWith (path : Path) (name : Bytes) :
    (path.child name).startsWith path = true :=
  startsWith_of_child (startsWith_self _)

/-- Two names in a directory are apart. -/
theorem child_apart {path below : Path} {left right : Bytes} (apart : left ≠ right)
    (starts : below.startsWith (path.child left) = true) :
    below.startsWith (path.child right) = false := by
  apply Bool.eq_false_iff.mpr
  intro also
  obtain ⟨rest, same⟩ := startsWith_iff.mp starts
  obtain ⟨rest', same'⟩ := startsWith_iff.mp also
  rw [child_components, List.append_assoc] at same same'
  have equal := List.append_cancel_left (same.trans same'.symm)
  exact apart (Component.normal.inj (List.cons.inj equal).1)

end Path

/-- A name a directory can have an entry of. -/
structure LegalName (name : Bytes) : Prop where
  /-- It is not empty. -/
  filled : name ≠ []
  /-- It has no separator. -/
  whole : slash ∉ name
  /-- It is not `.`. -/
  cur : name ≠ [dot]
  /-- It is not `..`. -/
  parent : name ≠ [dot, dot]

instance (name : Bytes) : Decidable (LegalName name) :=
  decidable_of_iff (name ≠ [] ∧ slash ∉ name ∧ name ≠ [dot] ∧ name ≠ [dot, dot])
    ⟨fun ⟨filled, whole, cur, parent⟩ => ⟨filled, whole, cur, parent⟩,
      fun legal => ⟨legal.filled, legal.whole, legal.cur, legal.parent⟩⟩

/-- A legal name is one component. -/
theorem LegalName.inner {name : Bytes} (legal : LegalName name) :
    Component.inner name = [.normal name] := by
  rw [Component.inner, pieces_free legal.whole]
  simp [Component.ofPiece, legal.filled, legal.cur, legal.parent]

/-- A legal name is relative. -/
theorem LegalName.relative {name : Bytes} (legal : LegalName name) : name.head? ≠ some slash := by
  intro absolute
  exact legal.whole (List.mem_of_mem_head? absolute)

/-- Joining a legal name adds it and nothing else. -/
@[simp] theorem LegalName.join {name : Bytes} (legal : LegalName name) (path : Path) :
    path.join name = path.child name := by
  have first : (pieces slash name).head? ≠ some [dot] := by
    rw [pieces_free legal.whole]
    intro same
    exact legal.cur (Option.some.inj same)
  by_cases none : path.components = []
  · rw [Path.join, if_pos (.inl none), Path.new, if_neg legal.relative, if_neg first, legal.inner,
      Path.child, none, List.nil_append]
  · have both : ¬ (path.components = [] ∨ name.head? = some slash) :=
      fun either => either.elim none legal.relative
    rw [Path.join, if_neg both, legal.inner, Path.child]

/-- The file name of a path that ends with a legal name is that name. -/
theorem LegalName.fileName_new {name : Bytes} (legal : LegalName name) (directory : Bytes) :
    (Path.new (directory ++ slash :: name)).fileName = some name := by
  have inner : Component.inner (directory ++ slash :: name) =
      Component.inner directory ++ [.normal name] := by
    rw [← legal.inner, Component.inner, Component.inner, Component.inner, pieces_join,
      List.filterMap_append]
  have last (front : List Component) :
      Path.fileName ⟨front ++ Component.inner (directory ++ slash :: name)⟩ = some name := by
    rw [inner, ← List.append_assoc, Path.fileName, List.getLast?_concat]
  unfold Path.new
  split
  · exact last [.rootDir]
  · split
    · exact last [.curDir]
    · exact last []

end Harmonia.Fs
