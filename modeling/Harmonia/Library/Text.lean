import Mathlib.Data.List.Basic
import Mathlib.Algebra.Order.Ring.Nat

/-!
# Texts as bytes

A text is a list of bytes that is valid UTF-8. The first half recognises such lists byte by
byte; the second half cuts a list at a separator, as `split_once`, `rsplitn`, `split` and
`strip_prefix` do.
-/

namespace Harmonia.Library

/-- The bytes of a literal of ASCII characters. -/
def asciiBytes (literal : String) : List UInt8 := literal.toList.map fun c => UInt8.ofNat c.toNat

/-- The decimal digits of a number are the bytes from `0` to `9`. -/
theorem mem_decimal {number : Nat} {byte : UInt8} (member : byte ∈ asciiBytes (Nat.repr number)) :
    48 ≤ byte.toNat ∧ byte.toNat ≤ 57 := by
  rw [asciiBytes, Nat.toList_repr] at member
  obtain ⟨c, digit, rfl⟩ := List.mem_map.mp member
  have bounds := Nat.isDigit_of_mem_toDigits (by decide) (by decide) digit
  rw [Char.isDigit, Bool.and_eq_true, decide_eq_true_eq, decide_eq_true_eq] at bounds
  have low : 48 ≤ c.toNat := bounds.1
  have high : c.toNat ≤ 57 := bounds.2
  rw [UInt8.toNat_ofNat']
  omega

/-- The number that decimal digits stand for. -/
def decimalValue (digits : List UInt8) : Nat := digits.foldl (fun value byte => 10 * value + (byte.toNat - 48)) 0

/-- A number is read back from its decimal digits. -/
theorem decimalValue_repr (number : Nat) : decimalValue (asciiBytes (Nat.repr number)) = number := by
  have all (digits : List Char) (decimal : ∀ c ∈ digits, c.isDigit) (value : Nat) :
      (digits.map fun c => UInt8.ofNat c.toNat).foldl (fun value byte => 10 * value + (byte.toNat - 48)) value =
        Nat.ofDigitChars 10 digits value := by
    induction digits generalizing value with
    | nil => rfl
    | cons c rest ih =>
      have digit := decimal c List.mem_cons_self
      rw [Char.isDigit, Bool.and_eq_true, decide_eq_true_eq, decide_eq_true_eq] at digit
      have high : c.toNat ≤ 57 := digit.2
      have same : (UInt8.ofNat c.toNat).toNat = c.toNat := by
        rw [UInt8.toNat_ofNat']
        omega
      rw [List.map_cons, List.foldl_cons, Nat.ofDigitChars_cons, same]
      exact ih (fun other member => decimal other (List.mem_cons_of_mem _ member)) _
  rw [decimalValue, asciiBytes, Nat.toList_repr, all _ fun c => Nat.isDigit_of_mem_toDigits (by decide) (by decide)]
  exact Nat.ofDigitChars_ten_toDigits

namespace Utf8

/-- What a decoder expects after some bytes: how many more bytes the character it is in has,
and the range the next of them is confined to. -/
structure Expect where
  /-- Continuation bytes still to come. -/
  owed : Nat
  /-- The least value of the next one. -/
  low : UInt8
  /-- The greatest value of the next one. -/
  high : UInt8
  deriving DecidableEq, Repr

/-- Between two characters. -/
def boundary : Expect := ⟨0, 0x80, 0xBF⟩

/-- The first byte of a character. Overlong forms, surrogates and values behind the last code
point are excluded by the range of the second byte. -/
def lead (byte : UInt8) : Option Expect :=
  if byte < 0x80 then some boundary
  else if byte < 0xC2 then none
  else if byte < 0xE0 then some ⟨1, 0x80, 0xBF⟩
  else if byte = 0xE0 then some ⟨2, 0xA0, 0xBF⟩
  else if byte = 0xED then some ⟨2, 0x80, 0x9F⟩
  else if byte < 0xF0 then some ⟨2, 0x80, 0xBF⟩
  else if byte = 0xF0 then some ⟨3, 0x90, 0xBF⟩
  else if byte < 0xF4 then some ⟨3, 0x80, 0xBF⟩
  else if byte = 0xF4 then some ⟨3, 0x80, 0x8F⟩
  else none

/-- One byte. -/
def step (expect : Expect) (byte : UInt8) : Option Expect :=
  if expect.owed = 0 then lead byte
  else if 0x80 ≤ byte ∧ expect.low ≤ byte ∧ byte ≤ expect.high then
    some ⟨expect.owed - 1, 0x80, 0xBF⟩
  else none

/-- What is expected after a list of bytes, unless one of them cannot stand where it does. -/
def scan (expect : Expect) (bytes : List UInt8) : Option Expect := bytes.foldlM step expect

/-- A list of whole characters. -/
def Valid (bytes : List UInt8) : Prop := scan boundary bytes = some boundary

instance (bytes : List UInt8) : Decidable (Valid bytes) := inferInstanceAs (Decidable (_ = _))

/-- Scanning goes on where it has left off. -/
theorem scan_append (expect : Expect) (left right : List UInt8) :
    scan expect (left ++ right) = (scan expect left).bind fun mid => scan mid right :=
  List.foldlM_append

/-- A byte below 128 is a character of its own, and stands between characters only. -/
theorem step_ascii {byte : UInt8} (ascii : byte < 0x80) (expect : Expect) :
    step expect byte = if expect.owed = 0 then some boundary else none := by
  unfold step lead
  split
  · rfl
  · apply if_neg
    intro tail
    exact absurd tail.1 (UInt8.not_le.mpr ascii)

/-- No bytes are a text. -/
@[simp] theorem valid_nil : Valid [] := rfl

/-- Two texts in a row are a text. -/
theorem Valid.append {left right : List UInt8} (first : Valid left) (second : Valid right) :
    Valid (left ++ right) := by
  unfold Valid at first ⊢
  rw [scan_append, first]
  exact second

/-- ASCII bytes are a text. -/
theorem valid_of_ascii {bytes : List UInt8} (ascii : ∀ byte ∈ bytes, byte < 0x80) :
    Valid bytes := by
  induction bytes with
  | nil => exact valid_nil
  | cons byte rest ih =>
    have first : Valid [byte] := by
      show (step boundary byte).bind some = _
      rw [step_ascii (ascii byte List.mem_cons_self)]
      rfl
    exact first.append (ih fun other member => ascii other (List.mem_cons_of_mem _ member))

/-- The replacement character. -/
def replacement : List UInt8 := [0xEF, 0xBF, 0xBD]

/-- Replace what is not UTF-8, with the bytes of an unfinished character at hand. The longest
beginning of a character is replaced as one. -/
def lossyFrom (expect : Expect) (held : List UInt8) : List UInt8 → List UInt8
  | [] => if held = [] then [] else replacement
  | byte :: rest =>
    match step expect byte with
    | some next =>
      if next = boundary then held ++ byte :: lossyFrom boundary [] rest
      else lossyFrom next (held ++ [byte]) rest
    | none =>
      if held = [] then replacement ++ lossyFrom boundary [] rest
      else
        -- What was held is replaced, and the byte is the first of what follows.
        match step boundary byte with
        | some next =>
          if next = boundary then replacement ++ byte :: lossyFrom boundary [] rest
          else replacement ++ lossyFrom next [byte] rest
        | none => replacement ++ replacement ++ lossyFrom boundary [] rest

/-- `String::from_utf8_lossy`. -/
def lossy (bytes : List UInt8) : List UInt8 := lossyFrom boundary [] bytes

/-- The replacement character is a text. -/
theorem valid_replacement : Valid replacement := rfl

/-- A text is kept. -/
theorem lossyFrom_of_scan {expect : Expect} {held rest : List UInt8}
    (ends : scan expect rest = some boundary) (empty : expect = boundary → held = []) :
    lossyFrom expect held rest = held ++ rest := by
  induction rest generalizing expect held with
  | nil =>
    rw [lossyFrom, empty (Option.some.inj ends)]
    rfl
  | cons byte rest ih =>
    have scanned : (step expect byte).bind (fun next => scan next rest) = some boundary := ends
    cases first : step expect byte with
    | none =>
      rw [first] at scanned
      cases scanned
    | some next =>
      rw [first] at scanned
      have ends' : scan next rest = some boundary := scanned
      simp only [lossyFrom, first]
      by_cases whole : next = boundary
      · rw [if_pos whole, ih (whole ▸ ends') (fun _ => rfl)]
        rfl
      · rw [if_neg whole, ih ends' (fun same => absurd same whole), List.append_assoc]
        rfl

/-- A text is kept. -/
theorem lossy_of_valid {bytes : List UInt8} (valid : Valid bytes) : lossy bytes = bytes :=
  lossyFrom_of_scan valid (fun _ => rfl)

/-- What is held and what replaces the rest are a text. -/
theorem valid_lossyFrom {expect : Expect} {held : List UInt8} (rest : List UInt8)
    (scanned : scan boundary held = some expect) : Valid (lossyFrom expect held rest) := by
  induction rest generalizing expect held with
  | nil =>
    rw [lossyFrom]
    split
    · exact valid_nil
    · exact valid_replacement
  | cons byte rest ih =>
    have again : Valid (lossyFrom boundary [] rest) := ih rfl
    have character {next : Expect} {start : Expect} {bytes : List UInt8}
        (begun : scan boundary bytes = some start) (first : step start byte = some next) :
        scan boundary (bytes ++ [byte]) = some next := by
      rw [scan_append, begun]
      show (step start byte).bind some = _
      rw [first]
      rfl
    simp only [lossyFrom]
    cases first : step expect byte with
    | some next =>
      by_cases whole : next = boundary
      · simp only [if_pos whole]
        have finished : Valid (held ++ [byte]) :=
          (character scanned first).trans (congrArg some whole)
        rw [List.append_cons]
        exact finished.append again
      · simp only [if_neg whole]
        exact ih (character scanned first)
    | none =>
      by_cases empty : held = []
      · simp only [if_pos empty]
        exact valid_replacement.append again
      · simp only [if_neg empty]
        cases second : step boundary byte with
        | some next =>
          have begun : scan boundary [byte] = some next := @character next boundary [] rfl second
          by_cases whole : next = boundary
          · simp only [if_pos whole]
            have finished : Valid [byte] := begun.trans (congrArg some whole)
            exact valid_replacement.append (finished.append again)
          · simp only [if_neg whole]
            exact valid_replacement.append (ih begun)
        | none => exact (valid_replacement.append valid_replacement).append again

/-- Whatever the bytes are, a text comes out. -/
theorem valid_lossy (bytes : List UInt8) : Valid (lossy bytes) := valid_lossyFrom bytes rfl

/-- Only a text is kept. -/
theorem lossy_eq_self {bytes : List UInt8} : lossy bytes = bytes ↔ Valid bytes :=
  ⟨fun same => same ▸ valid_lossy bytes, lossy_of_valid⟩

end Utf8

section Splitting

variable {α : Type} [DecidableEq α]

/-- `split_once`: what stands before and after the first separator. -/
def splitOnce (sep : α) : List α → Option (List α × List α)
  | [] => none
  | head :: rest =>
    if head = sep then some ([], rest)
    else (splitOnce sep rest).map fun parts => (head :: parts.1, parts.2)

/-- `rsplitn(2, sep)`: what stands before and after the last separator. -/
def rsplitOnce (sep : α) (list : List α) : Option (List α × List α) :=
  (splitOnce sep list.reverse).map fun parts => (parts.2.reverse, parts.1.reverse)

/-- `split`: the pieces between the separators. -/
def pieces (sep : α) : List α → List (List α)
  | [] => [[]]
  | head :: rest =>
    if head = sep then [] :: pieces sep rest
    else
      match pieces sep rest with
      | [] => [[head]]
      | first :: others => (head :: first) :: others

/-- Pieces with separators between them. -/
def joined (sep : α) : List (List α) → List α
  | [] => []
  | [last] => last
  | first :: second :: others => first ++ sep :: joined sep (second :: others)

/-- `strip_prefix`. -/
def stripPrefix (start list : List α) : Option (List α) :=
  if start.isPrefixOf list then some (list.drop start.length) else none

/-- `strip_suffix`. -/
def stripSuffix (ending list : List α) : Option (List α) :=
  if ending.isSuffixOf list then some (list.take (list.length - ending.length)) else none

/-- A list is split at its first separator. -/
theorem splitOnce_append {sep : α} {before : List α} (free : sep ∉ before) (after : List α) :
    splitOnce sep (before ++ sep :: after) = some (before, after) := by
  induction before with
  | nil => exact if_pos rfl
  | cons head rest ih =>
    have other : head ≠ sep := fun same => free (same ▸ List.mem_cons_self)
    have free' : sep ∉ rest := fun member => free (List.mem_cons_of_mem _ member)
    rw [List.cons_append, splitOnce, if_neg other, ih free']
    rfl

/-- A list without the separator is not split. -/
theorem splitOnce_none {sep : α} {list : List α} (free : sep ∉ list) :
    splitOnce sep list = none := by
  induction list with
  | nil => rfl
  | cons head rest ih =>
    have other : head ≠ sep := fun same => free (same ▸ List.mem_cons_self)
    rw [splitOnce, if_neg other, ih fun member => free (List.mem_cons_of_mem _ member)]
    rfl

/-- Splitting finds a separator that is the first one. -/
theorem splitOnce_some {sep : α} {list before after : List α}
    (split : splitOnce sep list = some (before, after)) :
    list = before ++ sep :: after ∧ sep ∉ before := by
  induction list generalizing before with
  | nil => cases split
  | cons head rest ih =>
    rw [splitOnce] at split
    by_cases same : head = sep
    · rw [if_pos same] at split
      cases split
      exact ⟨by rw [same]; rfl, List.not_mem_nil⟩
    · rw [if_neg same] at split
      obtain ⟨parts, found, made⟩ := Option.map_eq_some_iff.mp split
      cases made
      obtain ⟨joins, free⟩ := ih found
      refine ⟨by rw [joins]; rfl, ?_⟩
      intro member
      cases member with
      | head => exact same rfl
      | tail _ later => exact free later

/-- A list is split at its last separator. -/
theorem rsplitOnce_append {sep : α} (before : List α) {after : List α} (free : sep ∉ after) :
    rsplitOnce sep (before ++ sep :: after) = some (before, after) := by
  have turned : (before ++ sep :: after).reverse = after.reverse ++ sep :: before.reverse := by
    simp
  rw [rsplitOnce, turned, splitOnce_append (by simpa using free)]
  simp

/-- A list without the separator is not split from its end. -/
theorem rsplitOnce_none {sep : α} {list : List α} (free : sep ∉ list) :
    rsplitOnce sep list = none := by
  rw [rsplitOnce, splitOnce_none (by simpa using free)]
  rfl

/-- A list without the separator is one piece. -/
theorem pieces_free {sep : α} {list : List α} (free : sep ∉ list) : pieces sep list = [list] := by
  induction list with
  | nil => rfl
  | cons head rest ih =>
    have other : head ≠ sep := fun same => free (same ▸ List.mem_cons_self)
    rw [pieces, if_neg other, ih fun member => free (List.mem_cons_of_mem _ member)]

/-- The first separator ends the first piece. -/
theorem pieces_append {sep : α} {before : List α} (free : sep ∉ before) (after : List α) :
    pieces sep (before ++ sep :: after) = before :: pieces sep after := by
  induction before with
  | nil => exact if_pos rfl
  | cons head rest ih =>
    have other : head ≠ sep := fun same => free (same ▸ List.mem_cons_self)
    rw [List.cons_append, pieces, if_neg other,
      ih fun member => free (List.mem_cons_of_mem _ member)]

/-- Pieces without separators are found again after they were joined. -/
theorem pieces_joined {sep : α} {list : List (List α)} (some : list ≠ [])
    (free : ∀ piece ∈ list, sep ∉ piece) : pieces sep (joined sep list) = list := by
  induction list with
  | nil => exact absurd rfl some
  | cons first others ih =>
    cases others with
    | nil => exact pieces_free (free first List.mem_cons_self)
    | cons second others =>
      rw [joined, pieces_append (free first List.mem_cons_self)]
      rw [ih (List.cons_ne_nil _ _) fun piece member => free piece (List.mem_cons_of_mem _ member)]

/-- Pieces are never nothing. -/
theorem pieces_ne_nil (sep : α) (list : List α) : pieces sep list ≠ [] := by
  cases list with
  | nil => exact List.cons_ne_nil _ _
  | cons head rest =>
    unfold pieces
    split
    · exact List.cons_ne_nil _ _
    · split
      · exact List.cons_ne_nil _ _
      · exact List.cons_ne_nil _ _

/-- The lengths of pieces, each with a separator. -/
def spread (list : List (List α)) : Nat := (list.map fun piece => piece.length + 1).sum

/-- Pieces are spread over the list and one more separator. -/
theorem spread_pieces (sep : α) (list : List α) : spread (pieces sep list) = list.length + 1 := by
  induction list with
  | nil => rfl
  | cons head rest ih =>
    unfold pieces
    split
    · show 0 + 1 + spread (pieces sep rest) = _
      rw [ih, List.length_cons]
      omega
    · have more := pieces_ne_nil sep rest
      cases first : pieces sep rest with
      | nil => exact absurd first more
      | cons piece others =>
        rw [first] at ih
        show piece.length + 1 + 1 + spread others = _
        have parts : piece.length + 1 + spread others = rest.length + 1 := ih
        rw [List.length_cons]
        omega

omit [DecidableEq α] in
/-- Joined pieces have the length they are spread over, less one separator. -/
theorem joined_length {sep : α} {list : List (List α)} (some : list ≠ []) :
    (joined sep list).length + 1 = spread list := by
  induction list with
  | nil => exact absurd rfl some
  | cons first others ih =>
    cases others with
    | nil => rfl
    | cons second others =>
      have later := ih (List.cons_ne_nil _ _)
      rw [joined, List.length_append, List.length_cons, later]
      show _ = first.length + 1 + spread (second :: others)
      omega

/-- What follows a prefix. -/
theorem stripPrefix_append (start rest : List α) : stripPrefix start (start ++ rest) = some rest := by
  rw [stripPrefix, if_pos (List.isPrefixOf_iff_prefix.mpr (List.prefix_append _ _)),
    List.drop_left]

/-- A stripped prefix and what follows it are the list. -/
theorem stripPrefix_some {start list rest : List α} (found : stripPrefix start list = some rest) :
    list = start ++ rest := by
  unfold stripPrefix at found
  split at found
  case isTrue starts =>
    obtain ⟨more, joins⟩ := List.isPrefixOf_iff_prefix.mp starts
    rw [← joins, List.drop_left] at found
    cases found
    exact joins.symm
  case isFalse => cases found

/-- What is left of a suffix. -/
theorem stripSuffix_append (start ending : List α) :
    stripSuffix ending (start ++ ending) = some start := by
  rw [stripSuffix, if_pos (List.isSuffixOf_iff_suffix.mpr (List.suffix_append _ _)),
    List.length_append, Nat.add_sub_cancel, List.take_left]

/-- A list without the suffix is not stripped. -/
theorem stripSuffix_none {ending list : List α} (other : ¬ ending <:+ list) :
    stripSuffix ending list = none := by
  rw [stripSuffix, if_neg fun ends => other (List.isSuffixOf_iff_suffix.mp ends)]

/-- The pieces of two lists with a separator between them. -/
theorem pieces_join (sep : α) (before after : List α) :
    pieces sep (before ++ sep :: after) = pieces sep before ++ pieces sep after := by
  induction before with
  | nil =>
    show (if sep = sep then _ else _) = _
    rw [if_pos rfl]
    rfl
  | cons head rest ih =>
    rw [List.cons_append, pieces, pieces, ih]
    by_cases same : head = sep
    · rw [if_pos same, if_pos same]
      rfl
    · rw [if_neg same, if_neg same]
      cases split : pieces sep rest with
      | nil => exact absurd split (pieces_ne_nil sep rest)
      | cons first others => rfl

omit [DecidableEq α] in
/-- What is neither the separator nor in a piece is not in what pieces are joined to. -/
theorem joined_free {sep item : α} (other : item ≠ sep) {list : List (List α)}
    (free : ∀ piece ∈ list, item ∉ piece) : item ∉ joined sep list := by
  induction list with
  | nil => exact List.not_mem_nil
  | cons first rest ih =>
    have here := free first List.mem_cons_self
    cases rest with
    | nil => exact here
    | cons second others =>
      have later := ih fun piece member => free piece (List.mem_cons_of_mem _ member)
      simp [joined, here, other, later]

/-- Lines, each with its end. -/
def endedLines (ending : α) (lines : List (List α)) : List α := lines.flatMap fun line => line ++ [ending]

/-- Lines without ends in them are the pieces, and nothing is behind the last. -/
theorem pieces_endedLines {ending : α} {lines : List (List α)} (free : ∀ line ∈ lines, ending ∉ line) :
    pieces ending (endedLines ending lines) = lines ++ [[]] := by
  induction lines with
  | nil => rfl
  | cons line rest ih =>
    have here := free line List.mem_cons_self
    rw [endedLines, List.flatMap_cons, List.append_assoc, List.singleton_append, pieces_append here]
    exact congrArg (line :: ·) (ih fun other member => free other (List.mem_cons_of_mem _ member))

/-- Pieces without separators are determined by what they are joined to, each behind the same start. -/
theorem joined_start_inj {sep : α} {start : List α} (some : start ≠ []) {left right : List (List α)}
    (free : ∀ piece ∈ left, sep ∉ piece) (free' : ∀ piece ∈ right, sep ∉ piece)
    (same : joined sep (left.map (start ++ ·)) = joined sep (right.map (start ++ ·))) : left = right := by
  induction left generalizing right with
  | nil =>
    cases right with
    | nil => rfl
    | cons first others =>
      cases others with
      | nil => exact absurd (List.append_eq_nil_iff.mp same.symm).1 some
      | cons second others =>
        exact absurd (List.append_eq_nil_iff.mp (List.append_eq_nil_iff.mp same.symm).1).1 some
  | cons piece rest ih =>
    cases right with
    | nil =>
      cases rest with
      | nil => exact absurd (List.append_eq_nil_iff.mp same).1 some
      | cons second others =>
        exact absurd (List.append_eq_nil_iff.mp (List.append_eq_nil_iff.mp same).1).1 some
    | cons piece' rest' =>
      have here := free piece List.mem_cons_self
      have here' := free' piece' List.mem_cons_self
      cases rest with
      | nil =>
        cases rest' with
        | nil =>
          have equal := List.append_cancel_left (show start ++ piece = start ++ piece' from same)
          rw [equal]
        | cons second others =>
          have equal : start ++ piece = (start ++ piece') ++ sep :: joined sep _ := same
          rw [List.append_assoc] at equal
          exact absurd (List.append_cancel_left equal ▸ List.mem_append_right _ List.mem_cons_self) here
      | cons second others =>
        cases rest' with
        | nil =>
          have equal : (start ++ piece) ++ sep :: joined sep _ = start ++ piece' := same
          rw [List.append_assoc] at equal
          exact absurd ((List.append_cancel_left equal).symm ▸ List.mem_append_right _ List.mem_cons_self) here'
        | cons second' others' =>
          have equal : (start ++ piece) ++ sep :: joined sep ((second :: others).map (start ++ ·)) =
              (start ++ piece') ++ sep :: joined sep ((second' :: others').map (start ++ ·)) := same
          rw [List.append_assoc, List.append_assoc] at equal
          have split := congrArg (splitOnce sep) (List.append_cancel_left equal)
          rw [splitOnce_append here, splitOnce_append here'] at split
          obtain ⟨first, later⟩ := Prod.mk.inj (Option.some.inj split)
          rw [first, ih (fun other member => free other (List.mem_cons_of_mem _ member))
            (fun other member => free' other (List.mem_cons_of_mem _ member)) later]

end Splitting

section Whitespace

/-- How many bytes the character of `White_Space` has that a text starts with, if it starts with one. -/
def whitespaceLength : List UInt8 → Nat
  | 0xC2 :: byte :: _ => if byte = 0x85 ∨ byte = 0xA0 then 2 else 0
  | 0xE1 :: 0x9A :: 0x80 :: _ => 3
  | 0xE2 :: 0x80 :: byte :: _ =>
    if byte ≤ 0x8A ∨ byte = 0xA8 ∨ byte = 0xA9 ∨ byte = 0xAF then 3 else 0
  | 0xE2 :: 0x81 :: 0x9F :: _ => 3
  | 0xE3 :: 0x80 :: 0x80 :: _ => 3
  | byte :: _ => if (9 ≤ byte ∧ byte ≤ 13) ∨ byte = 32 then 1 else 0
  | [] => 0

/-- The words of the rest of a text, with the bytes of white space still to be skipped and the bytes of
the word at hand. -/
def wordsFrom : Nat → List UInt8 → List UInt8 → List (List UInt8)
  | _, word, [] => if word = [] then [] else [word]
  | skipped + 1, word, _ :: rest => wordsFrom skipped word rest
  | 0, word, byte :: rest =>
    match whitespaceLength (byte :: rest) with
    | 0 => wordsFrom 0 (word ++ [byte]) rest
    | length + 1 => if word = [] then wordsFrom length [] rest else word :: wordsFrom length [] rest

/-- `split_whitespace`. -/
def splitWhitespace (text : List UInt8) : List (List UInt8) := wordsFrom 0 [] text

/-- Words between a space, a tab and a character of three bytes. -/
example : splitWhitespace (asciiBytes " ab\tc" ++ [0xE2, 0x80, 0x83] ++ asciiBytes "d ") =
    [asciiBytes "ab", asciiBytes "c", asciiBytes "d"] := by decide +kernel

end Whitespace

end Harmonia.Library
