import Harmonia.Daemon.Handler

/-!
# Paths looked up by their hash part

The query reads one row: the first path from the store directory and the hash part on. In the order of
bytes whatever starts with these stands before everything else that comes later, so that row is the
path searched for, if there is one.
-/

namespace Harmonia.Daemon

open Library Store Protocol Db

/-- The valid paths. -/
def validTexts (db : Database) : List Bytes := db.validPaths.map ValidPathsRow.path

/-- The index holds the valid paths. -/
theorem mem_pathIndex {db : Database} {path : Bytes} : path ∈ db.pathIndex ↔ path ∈ validTexts db :=
  List.mem_mergeSort

section Lookup

variable [DataEncoding]

/-- What is searched for is what the path of a hash part starts with. -/
theorem display_split (dir : StoreDir) (path : StorePath) :
    dir.display path.display = (dir.text.bytes ++ 47 :: path.hash.display) ++ 45 :: path.name.bytes := by
  rw [StoreDir.display, StorePath.display, List.append_assoc]
  rfl

/-- A path that starts with a hash part has that hash. -/
theorem hash_of_isPrefix {dir : StoreDir} {hash : StorePathHash} {path : StorePath}
    (starts : dir.text.bytes ++ 47 :: hash.display <+: dir.display path.display) : path.hash = hash := by
  obtain ⟨rest, same⟩ := starts
  rw [display_split] at same
  have lengths : (dir.text.bytes ++ 47 :: hash.display).length =
      (dir.text.bytes ++ 47 :: path.hash.display).length := by
    simp only [List.length_append, List.length_cons, StorePathHash.display_length]
  have digits := List.append_cancel_left (List.append_inj_left same lengths)
  have read := hash.decodeDigest_display
  rw [(List.cons.inj digits).2, StorePathHash.decodeDigest_display] at read
  exact Option.some.inj read

section Scan

variable {dir : StoreDir} {db : Database} {hash : StorePathHash}

/-- What a path starts with, if it is the path of a hash below a directory. -/
abbrev searched (dir : StoreDir) (hash : StorePathHash) : Bytes := dir.text.bytes ++ 47 :: hash.display

/-- Rows below the directory are those of store paths. -/
def Below (dir : StoreDir) (db : Database) : Prop :=
  ∀ text ∈ validTexts db, dir.text.bytes ++ [47] <+: text → ∃ path : StorePath, text = dir.display path.display

/-- The first row from the searched text on, if a path of the hash is valid. -/
theorem first_of_valid {first : Bytes} {others : List Bytes}
    (rows : (db.pathIndex.filter fun text => searched dir hash ≤ text) = first :: others)
    {path : StorePath} (valid : dir.display path.display ∈ validTexts db) (same : path.hash = hash) :
    searched dir hash <+: first := by
  obtain ⟨_, low, least⟩ := filter_sorted_cons (mergeSort_bytes_sorted _) rows
  have split : dir.display path.display = searched dir hash ++ 45 :: path.name.bytes := by
    rw [display_split, same]
  have after : searched dir hash ≤ dir.display path.display := by
    rw [split]
    exact le_append_bytes _ _
  have high := least _ (mem_pathIndex.mpr valid) after
  rw [split] at high
  exact isPrefix_of_between low high

/-- A row that starts with the searched text is the path of the hash. -/
theorem path_of_isPrefix {text : Bytes} (below : Below dir db) (row : text ∈ validTexts db)
    (starts : searched dir hash <+: text) :
    ∃ path : StorePath, text = dir.display path.display ∧ path.hash = hash := by
  have under : dir.text.bytes ++ [47] <+: text := by
    apply List.IsPrefix.trans _ starts
    exact ⟨hash.display, by rw [searched, List.append_assoc]; rfl⟩
  obtain ⟨path, rfl⟩ := below text row under
  exact ⟨path, rfl, hash_of_isPrefix starts⟩

/-- What the query finds when it does not fail. -/
def firstRow (start : Bytes) : List Bytes → Option Text
  | [] => none
  | first :: _ => (Text.fromUtf8 first).bind fun text => if start.isPrefixOf first then some text else none

omit [DataEncoding] in
/-- A query that does not fail looks at the first row only. -/
theorem queryPathFromHashPart_healthy {faults : Faults} {storeDir hashPart : Bytes}
    (healthy : faults (.selectFirstFrom (storeDir ++ 47 :: hashPart)) = none) :
    Db.queryPathFromHashPart faults db storeDir hashPart =
      .ok (firstRow (storeDir ++ 47 :: hashPart)
        (db.pathIndex.filter fun text => storeDir ++ 47 :: hashPart ≤ text)) := by
  have prepared : prepareCached faults (.selectFirstFrom (storeDir ++ 47 :: hashPart)) = .ok () := by
    rw [prepareCached, healthy]
    exact if_neg (Option.some_ne_none _).symm
  rw [Db.queryPathFromHashPart, prepared]
  dsimp only [bind, Except.bind]
  rw [queryRow.eq_def, healthy, if_neg (Option.some_ne_none _).symm]
  cases db.pathIndex.filter fun text => decide (storeDir ++ 47 :: hashPart ≤ text) with
  | nil => rfl
  | cons first others =>
    dsimp only
    cases read : Text.fromUtf8 first with
    | none =>
      rw [getText, read, firstRow, read]
      rfl
    | some text =>
      rw [getText, read, firstRow, read, ← Text.fromUtf8_some read]
      rfl

end Scan

/-- For every directory, every database whose rows below it are those of store paths with hash parts
that are pairwise different, and every hash part, the path found is the valid path of the hash. -/
theorem queryPathFromHashPart_finds (this : LocalStoreHandler) (hash : StorePathHash)
    (kept : this.kept = true) (healthy : ∀ start, this.faults (.selectFirstFrom start) = none)
    (fits : ∀ text ∈ validTexts this.db, text.length < 2 ^ 63) (below : Below this.storeDir this.db)
    (apart : ∀ left right : StorePath, this.storeDir.display left.display ∈ validTexts this.db →
      this.storeDir.display right.display ∈ validTexts this.db → left.hash = right.hash → left = right) :
    ∃ found, this.queryPathFromHashPart hash = .ok found ∧
      ∀ path, found = some path ↔
        this.storeDir.display path.display ∈ validTexts this.db ∧ path.hash = hash := by
  have answer : this.queryPathFromHashPart hash =
      .ok ((firstRow (searched this.storeDir hash)
        (this.db.pathIndex.filter fun text => searched this.storeDir hash ≤ text)).bind fun path =>
          parseBasePath path.bytes) := by
    rw [LocalStoreHandler.queryPathFromHashPart, queryPathFromHashPart_healthy (healthy _), kept]
    rfl
  refine ⟨_, answer, fun path => ?_⟩
  cases rows : this.db.pathIndex.filter fun text => decide (searched this.storeDir hash ≤ text) with
  | nil =>
    constructor
    · exact nofun
    · rintro ⟨valid, same⟩
      have split : this.storeDir.display path.display =
          searched this.storeDir hash ++ 45 :: path.name.bytes := by rw [display_split, same]
      have member : this.storeDir.display path.display ∈
          this.db.pathIndex.filter fun text => decide (searched this.storeDir hash ≤ text) := by
        apply List.mem_filter.mpr
        refine ⟨mem_pathIndex.mpr valid, decide_eq_true ?_⟩
        rw [split]
        exact le_append_bytes _ _
      rw [rows] at member
      cases member
  | cons first others =>
    obtain ⟨inside, _, _⟩ := filter_sorted_cons (mergeSort_bytes_sorted _) rows
    have row := mem_pathIndex.mp inside
    by_cases starts : searched this.storeDir hash <+: first
    · obtain ⟨known, rfl, same⟩ := path_of_isPrefix below row starts
      have read : Text.fromUtf8 (this.storeDir.display known.display) =
          some ⟨_, this.storeDir.display_utf8 known.display_utf8, fits _ row⟩ := Text.fromUtf8_bytes ⟨_, _, _⟩
      have found : firstRow (searched this.storeDir hash) (this.storeDir.display known.display :: others) =
          some ⟨_, this.storeDir.display_utf8 known.display_utf8, fits _ row⟩ := by
        rw [firstRow, read]
        exact if_pos (List.isPrefixOf_iff_prefix.mpr starts)
      rw [found]
      show parseBasePath (this.storeDir.display known.display) = some path ↔ _
      rw [parseBasePath_display]
      constructor
      · intro equal
        obtain rfl := Option.some.inj equal
        exact ⟨row, same⟩
      · rintro ⟨valid, same'⟩
        rw [apart known path row valid (same.trans same'.symm)]
    · have found : firstRow (searched this.storeDir hash) (first :: others) = none := by
        rw [firstRow]
        cases Text.fromUtf8 first with
        | none => rfl
        | some text => exact if_neg fun prefixed => starts (List.isPrefixOf_iff_prefix.mp prefixed)
      rw [found]
      constructor
      · exact nofun
      · rintro ⟨valid, same⟩
        exact absurd (first_of_valid rows valid same) starts

end Lookup

section Sample

attribute [local instance] standard

/-- A store path of zeros. -/
def zeroPath : StorePath := ⟨.zero, ⟨asciiBytes "a", isName_letter⟩⟩

/-- A store path of ones. -/
def onesPath : StorePath := ⟨⟨List.replicate 20 1, by decide⟩, ⟨asciiBytes "a", isName_letter⟩⟩

/-- A database with one path and a row outside the store directory. -/
def onePath : Database :=
  { Database.empty with
    validPaths :=
      [⟨1, asciiBytes "/zzz", [], 0, none, none, none, none, none⟩,
        ⟨2, StoreDir.default.display zeroPath.display, [], 0, none, none, none, none, none⟩]
    lastPathId := 2 }

/-- A database with the paths of zeros and of ones, and a row outside the store directory. -/
def twoPaths : Database :=
  { onePath with
    validPaths := onePath.validPaths ++
      [⟨3, StoreDir.default.display onesPath.display, [], 0, none, none, none, none, none⟩]
    lastPathId := 3 }

/-- Each of the two paths is found by its own hash part. -/
theorem queryPathFromHashPart_finds_sample :
    (⟨.default, twoPaths, .none, true⟩ : LocalStoreHandler).queryPathFromHashPart .zero =
        .ok (some zeroPath) ∧
      (⟨.default, twoPaths, .none, true⟩ : LocalStoreHandler).queryPathFromHashPart onesPath.hash =
        .ok (some onesPath) := by
  have texts : validTexts twoPaths = [asciiBytes "/zzz", StoreDir.default.display zeroPath.display,
    StoreDir.default.display onesPath.display] := rfl
  have outside : ¬ StoreDir.default.text.bytes ++ [47] <+: asciiBytes "/zzz" := by decide
  have far (path : StorePath) : StoreDir.default.display path.display ≠ asciiBytes "/zzz" := by
    intro same
    apply outside
    rw [← same]
    exact ⟨path.display, by rw [StoreDir.display, List.append_assoc]; rfl⟩
  have shown {path other : StorePath}
      (same : StoreDir.default.display path.display = StoreDir.default.display other.display) :
      path = other := by
    have same := congrArg parseBasePath same
    rw [parseBasePath_display, parseBasePath_display] at same
    exact Option.some.inj same
  have both (path : StorePath) (valid : StoreDir.default.display path.display ∈ validTexts twoPaths) :
      path = zeroPath ∨ path = onesPath := by
    rw [texts] at valid
    rcases List.mem_cons.mp valid with same | valid
    · exact absurd same (far path)
    · rcases List.mem_cons.mp valid with same | valid
      · exact .inl (shown same)
      · exact .inr (shown (List.mem_singleton.mp valid))
  have differ : zeroPath.hash ≠ onesPath.hash := by decide
  have finds (hash : StorePathHash) := queryPathFromHashPart_finds ⟨.default, twoPaths, .none, true⟩ hash rfl
    (fun _ => rfl) (by decide +kernel)
    (by
      intro text row under
      rw [texts] at row
      rcases List.mem_cons.mp row with rfl | row
      · exact absurd under outside
      · rcases List.mem_cons.mp row with rfl | row
        · exact ⟨zeroPath, rfl⟩
        · exact ⟨onesPath, List.mem_singleton.mp row⟩)
    (by
      intro left right first second same
      rcases both left first with rfl | rfl <;> rcases both right second with rfl | rfl
      · rfl
      · exact absurd same differ
      · exact absurd same.symm differ
      · rfl)
  constructor
  · obtain ⟨found, answer, exactly⟩ := finds .zero
    rw [answer, (exactly zeroPath).mpr ⟨by rw [texts]; simp, rfl⟩]
  · obtain ⟨found, answer, exactly⟩ := finds onesPath.hash
    rw [answer, (exactly onesPath).mpr ⟨by rw [texts]; simp, rfl⟩]

end Sample

end Harmonia.Daemon
