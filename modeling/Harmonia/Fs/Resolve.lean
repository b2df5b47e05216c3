import Harmonia.Fs.Tree

/-!
# Paths resolved

What the system makes of a path: it goes from directory to directory, and for a symbolic link it goes
on with the target. The place it comes to is reached without links, so going there again ends there.
-/

namespace Harmonia.Fs

open Library

/-- `No such file or directory`. -/
def noEntry : IoError := ⟨.other, "No such file or directory (os error 2)"⟩

/-- `Not a directory`. -/
def notADirectory : IoError := ⟨.other, "Not a directory (os error 20)"⟩

/-- `Too many levels of symbolic links`. -/
def tooManyLinks : IoError := ⟨.other, "Too many levels of symbolic links (os error 40)"⟩

/-- What is between two separators of a path. Nothing and `.` ask for a directory. -/
def Component.ofStep (piece : Bytes) : Component :=
  if piece = [] ∨ piece = [dot] then .curDir
  else if piece = [dot, dot] then .parentDir
  else .normal piece

/-- The steps of a path, with those that `Path` passes over. An empty text has none. -/
def steps (text : Bytes) : List Component :=
  if text = [] then []
  else (if text.head? = some slash then [.rootDir] else []) ++ (pieces slash text).map .ofStep

/-- `PathBuf::join`, of texts. -/
def joinText (base text : Bytes) : Bytes :=
  if text.head? = some slash then text
  else if base = [] ∨ base.getLast? = some slash then base ++ text
  else base ++ slash :: text

/-- A place in a file system: the names on the way there. -/
abbrev Place := List Bytes

/-- What is at a place. -/
def Node.lookup : Node → Place → Option Node
  | node, [] => some node
  | .directory entries, name :: rest => (entries.get name).bind fun node => node.lookup rest
  | _, _ :: _ => none

/-- A directory. -/
def Node.IsDir : Node → Prop
  | .directory _ => True
  | _ => False

instance (node : Node) : Decidable node.IsDir := by
  cases node <;> unfold Node.IsDir <;> infer_instance

/-- A symbolic link. -/
def Node.IsLink : Node → Prop
  | .symlink _ => True
  | _ => False

/-- A file system, as a process sees it. -/
structure FileSystem where
  /-- The root directory. -/
  root : Entries
  /-- The current directory. -/
  cwd : Place
  /-- It is one. -/
  there : ∃ entries, (Node.directory root).lookup cwd = some (.directory entries)
  /-- How many links are followed for a path. -/
  links : Nat

namespace FileSystem

variable (fs : FileSystem)

/-- What is at a place. -/
def nodeAt (place : Place) : Option Node := (Node.directory fs.root).lookup place

/-- Where a walk comes to. -/
inductive Walked where
  /-- It ends. -/
  | ends (place : Place)
  /-- It comes to a link in a directory. -/
  | link (here : Place) (target : Bytes) (rest : List Component)
  /-- It fails. -/
  | failed (error : IoError)

/-- Go as far as there are no links. -/
def walk (here : Place) : List Component → Walked
  | [] => .ends here
  | .rootDir :: rest => walk [] rest
  | .curDir :: rest => walk here rest
  | .parentDir :: rest => walk here.dropLast rest
  | .normal name :: rest =>
    match fs.nodeAt (here ++ [name]) with
    | none => .failed noEntry
    | some (.directory _) => walk (here ++ [name]) rest
    | some (.symlink target) => .link here target rest
    | some _ => if rest = [] then .ends (here ++ [name]) else .failed notADirectory

/-- Go on at links, so many times. -/
def follow : Nat → Place → List Component → Except IoError Place
  | links, here, pending =>
    match fs.walk here pending with
    | .ends place => .ok place
    | .failed error => .error error
    | .link here target rest =>
      match links with
      | 0 => .error tooManyLinks
      | links + 1 => if target = [] then .error noEntry else follow links here (steps target ++ rest)

/-- The place of a path. -/
def resolve (pending : List Component) : Except IoError Place :=
  if pending = [] then .error noEntry else fs.follow fs.links fs.cwd pending

end FileSystem

/-- The path of a place: what `canonicalize` returns. -/
def Path.ofPlace (place : Place) : Path := ⟨.rootDir :: place.map .normal⟩

/-- A path starts with another where the places do. -/
theorem Path.startsWith_ofPlace {place base : Place} :
    (Path.ofPlace place).startsWith (Path.ofPlace base) = true ↔ base <+: place := by
  have normals (left right : Place) : left.map Component.normal <+: right.map .normal ↔ left <+: right :=
    List.prefix_map_iff_of_injective fun _ _ same => Component.normal.inj same
  rw [startsWith, ofPlace, ofPlace, List.isPrefixOf_iff_prefix, List.cons_prefix_cons, normals]
  exact and_iff_right rfl

/-- A place in a directory is that of a name there. -/
theorem Path.ofPlace_append (place : Place) (name : Bytes) :
    Path.ofPlace (place ++ [name]) = (Path.ofPlace place).child name := by
  rw [ofPlace, List.map_append, child]
  rfl

/-- What is at a place below another is below what is there. -/
theorem Node.lookup_append (node : Node) (place rest : Place) :
    node.lookup (place ++ rest) = (node.lookup place).bind fun below => below.lookup rest := by
  induction place generalizing node with
  | nil => cases node <;> rfl
  | cons name others ih =>
    cases node with
    | directory entries =>
      show ((entries.get name).bind fun below => below.lookup (others ++ rest)) =
        ((entries.get name).bind fun below => below.lookup others).bind _
      cases entries.get name with
      | none => rfl
      | some below => exact ih below
    | _ => rfl

namespace FileSystem

variable {fs : FileSystem}

/-- There is a directory at a place. -/
def DirAt (fs : FileSystem) (place : Place) : Prop := ∃ entries, fs.nodeAt place = some (.directory entries)

/-- There is something at a place, and not a link. -/
def Real (fs : FileSystem) (place : Place) : Prop := ∃ node, fs.nodeAt place = some node ∧ ¬ node.IsLink

/-- A directory is something. -/
theorem DirAt.real {place : Place} (dir : fs.DirAt place) : fs.Real place := by
  obtain ⟨entries, same⟩ := dir
  exact ⟨_, same, id⟩

/-- The root is a directory. -/
theorem dirAt_root : fs.DirAt [] := ⟨fs.root, rfl⟩

/-- Whatever has something below it is a directory. -/
theorem dirAt_of_append {place : Place} {name : Bytes} {rest : Place}
    (there : (fs.nodeAt (place ++ name :: rest)).isSome = true) : fs.DirAt place := by
  rw [FileSystem.nodeAt, Node.lookup_append] at there
  rw [DirAt, FileSystem.nodeAt]
  cases node : (Node.directory fs.root).lookup place with
  | none =>
    rw [node] at there
    cases there
  | some below =>
    rw [node] at there
    cases below with
    | directory entries => exact ⟨entries, rfl⟩
    | _ => cases there

/-- The parent of a directory is one; that of the root is the root. -/
theorem DirAt.dropLast {place : Place} (dir : fs.DirAt place) : fs.DirAt place.dropLast := by
  rcases List.eq_nil_or_concat' place with rfl | ⟨front, name, rfl⟩
  · exact dir
  · rw [List.dropLast_concat]
    obtain ⟨entries, same⟩ := dir
    exact dirAt_of_append (by rw [same]; rfl)

/-- A walk from a directory ends at something that is not a link, or at a link in a directory. -/
theorem walk_real {here : Place} (dir : fs.DirAt here) (pending : List Component) :
    match fs.walk here pending with
    | .ends place => fs.Real place
    | .link place _ _ => fs.DirAt place
    | .failed _ => True := by
  induction pending generalizing here with
  | nil => exact dir.real
  | cons component rest ih =>
    cases component with
    | rootDir => exact ih dirAt_root
    | curDir => exact ih dir
    | parentDir => exact ih dir.dropLast
    | normal name =>
      unfold walk
      cases node : fs.nodeAt (here ++ [name]) with
      | none => trivial
      | some below =>
        cases below with
        | directory entries => exact ih ⟨entries, node⟩
        | symlink target => exact dir
        | file mode contents =>
          by_cases last : rest = []
          · simp only [if_pos last]
            exact ⟨_, node, id⟩
          · simp only [if_neg last]
        | special mode =>
          by_cases last : rest = []
          · simp only [if_pos last]
            exact ⟨_, node, id⟩
          · simp only [if_neg last]

/-- So does a walk that goes on at links. -/
theorem follow_real (links : Nat) {here : Place} (dir : fs.DirAt here) {pending : List Component} {place : Place}
    (reached : fs.follow links here pending = .ok place) : fs.Real place := by
  induction links generalizing here pending with
  | zero =>
    have real := walk_real dir pending
    unfold follow at reached
    cases walked : fs.walk here pending with
    | ends other =>
      rw [walked] at reached real
      rw [← Except.ok.inj reached]
      exact real
    | link other target rest =>
      rw [walked] at reached
      cases reached
    | failed error =>
      rw [walked] at reached
      cases reached
  | succ links ih =>
    have real := walk_real dir pending
    unfold follow at reached
    cases walked : fs.walk here pending with
    | ends other =>
      rw [walked] at reached real
      rw [← Except.ok.inj reached]
      exact real
    | link other target rest =>
      rw [walked] at reached real
      by_cases empty : target = []
      · simp only [if_pos empty] at reached
        cases reached
      · simp only [if_neg empty] at reached
        exact ih real reached
    | failed error =>
      rw [walked] at reached
      cases reached

/-- A path is resolved to something that is not a link. -/
theorem resolve_real {pending : List Component} {place : Place} (resolved : fs.resolve pending = .ok place) :
    fs.Real place := by
  rw [resolve] at resolved
  split at resolved
  · cases resolved
  · exact follow_real fs.links fs.there resolved

/-- A walk along the names of a directory goes on there. -/
theorem walk_append (here : Place) {place : Place} (dir : fs.DirAt (here ++ place)) (rest : List Component) :
    fs.walk here (place.map .normal ++ rest) = fs.walk (here ++ place) rest := by
  induction place generalizing here with
  | nil =>
    rw [List.append_nil]
    rfl
  | cons name others ih =>
    have split : here ++ name :: others = here ++ [name] ++ others := by rw [List.append_assoc]; rfl
    rw [split] at dir ⊢
    have first : fs.DirAt (here ++ [name]) := by
      cases others with
      | nil =>
        rw [List.append_nil] at dir
        exact dir
      | cons second others =>
        obtain ⟨entries, same⟩ := dir
        exact dirAt_of_append (by rw [same]; rfl)
    obtain ⟨entries, same⟩ := first
    rw [List.map_cons, List.cons_append, walk, same]
    exact ih (here ++ [name]) dir

/-- A walk along names that are no links ends there. -/
theorem walk_names (here : Place) {place : Place} (real : fs.Real (here ++ place)) :
    fs.walk here (place.map .normal) = .ends (here ++ place) := by
  rcases List.eq_nil_or_concat' place with rfl | ⟨front, name, rfl⟩
  · rw [List.append_nil]
    rfl
  · obtain ⟨node, same, real⟩ := real
    rw [← List.append_assoc] at same ⊢
    have dir : fs.DirAt (here ++ front) := dirAt_of_append (by rw [same]; rfl)
    rw [List.map_append, walk_append here dir, List.map_singleton, walk, same]
    cases node with
    | symlink target => exact absurd trivial real
    | _ => rfl

/-- A walk to a name that is not in a directory fails. -/
theorem walk_absent {place : Place} (dir : fs.DirAt place) {name : Bytes}
    (absent : fs.nodeAt (place ++ [name]) = none) :
    fs.walk [] (place.map .normal ++ [.normal name]) = .failed noEntry := by
  rw [walk_append [] dir, List.nil_append, walk, absent]

/-- A walk that fails is not resolved. -/
theorem resolve_walked {pending : List Component} {error : IoError} (failed : fs.walk fs.cwd pending = .failed error) :
    ∃ error, fs.resolve pending = .error error := by
  rw [resolve]
  split
  · exact ⟨_, rfl⟩
  · refine ⟨error, ?_⟩
    unfold follow
    rw [failed]

/-- The path of a place that is not a link is resolved to that place. -/
theorem Real.resolve {place : Place} (real : fs.Real place) :
    fs.resolve (Path.ofPlace place).components = .ok place := by
  have walked : fs.walk fs.cwd (.rootDir :: place.map .normal) = .ends place := by
    unfold walk
    exact walk_names [] real
  have filled : (Path.ofPlace place).components ≠ [] := List.cons_ne_nil _ _
  rw [FileSystem.resolve, if_neg filled, Path.ofPlace]
  unfold follow
  rw [walked]

end FileSystem

end Harmonia.Fs
