import Mathlib.Data.List.Basic
import Mathlib.Algebra.Order.Ring.Nat

/-!
# Positional digits

Numbers as digits of a base, least significant first, and symbols for digits. Read from the most
significant one, as many digits are in the order of the numbers they denote.
-/

namespace Harmonia.Library

/-- The lowest digits of a number. -/
def digitsOf (base : Nat) : Nat → Nat → List Nat
  | 0, _ => []
  | width + 1, value => value % base :: digitsOf base width (value / base)

/-- The number that digits denote. -/
def valueOf (base : Nat) : List Nat → Nat
  | [] => 0
  | digit :: rest => digit + base * valueOf base rest

/-- There are as many digits as asked for. -/
@[simp] theorem digitsOf_length (base width value : Nat) :
    (digitsOf base width value).length = width := by
  induction width generalizing value with
  | zero => rfl
  | succ width ih => rw [digitsOf, List.length_cons, ih]

/-- Every digit is below the base. -/
theorem digitsOf_lt {base : Nat} (positive : 0 < base) (width value : Nat) :
    ∀ digit ∈ digitsOf base width value, digit < base := by
  induction width generalizing value with
  | zero =>
    intro digit member
    cases member
  | succ width ih =>
    intro digit member
    rcases List.mem_cons.mp member with rfl | later
    · exact Nat.mod_lt _ positive
    · exact ih _ digit later

/-- Enough digits denote the number they were taken from. -/
theorem valueOf_digitsOf {base : Nat} (width value : Nat) (fits : value < base ^ width) :
    valueOf base (digitsOf base width value) = value := by
  induction width generalizing value with
  | zero =>
    rw [Nat.pow_zero] at fits
    show 0 = value
    omega
  | succ width ih =>
    have smaller : value / base < base ^ width := by
      rw [Nat.pow_succ] at fits
      exact Nat.div_lt_of_lt_mul (by rw [Nat.mul_comm]; exact fits)
    rw [digitsOf, valueOf, ih _ smaller]
    exact Nat.mod_add_div value base

/-- The digits of the number that digits denote are those digits. -/
theorem digitsOf_valueOf {base : Nat} {digits : List Nat} (below : ∀ digit ∈ digits, digit < base) :
    digitsOf base digits.length (valueOf base digits) = digits := by
  induction digits with
  | nil => rfl
  | cons digit rest ih =>
    have low := below digit List.mem_cons_self
    have first : (digit + base * valueOf base rest) % base = digit := by
      rw [Nat.add_mul_mod_self_left]
      exact Nat.mod_eq_of_lt low
    have later : (digit + base * valueOf base rest) / base = valueOf base rest := by
      have positive : 0 < base := Nat.lt_of_le_of_lt (Nat.zero_le _) low
      rw [Nat.add_mul_div_left _ _ positive, Nat.div_eq_of_lt low, Nat.zero_add]
    rw [List.length_cons, valueOf, digitsOf, first, later,
      ih fun other member => below other (List.mem_cons_of_mem _ member)]

/-- A digit is a quotient by a power of the base. -/
theorem digitsOf_getElem? (base : Nat) {width place : Nat} (value : Nat) (inside : place < width) :
    (digitsOf base width value)[place]? = some (value / base ^ place % base) := by
  induction width generalizing place value with
  | zero => exact absurd inside (Nat.not_lt_zero _)
  | succ width ih =>
    rw [digitsOf]
    cases place with
    | zero => rw [List.getElem?_cons_zero, Nat.pow_zero, Nat.div_one]
    | succ place =>
      rw [List.getElem?_cons_succ, ih _ (Nat.lt_of_succ_lt_succ inside), Nat.div_div_eq_div_mul,
        Nat.pow_succ, Nat.mul_comm]

section Order

/-- Lists are compared at the first place in which they differ. -/
theorem compare_append {α : Type} [Ord α] {left right : List α} (same : left.length = right.length)
    (more more' : List α) :
    compare (left ++ more) (right ++ more') = (compare left right).then (compare more more') := by
  induction left generalizing right with
  | nil =>
    have none : right = [] := List.length_eq_zero_iff.mp same.symm
    rw [none, List.nil_append, List.nil_append, List.compare_nil_nil, Ordering.eq_then]
  | cons first left ih =>
    cases right with
    | nil => cases same
    | cons other right =>
      rw [List.cons_append, List.cons_append, List.compare_cons_cons, List.compare_cons_cons,
        ih (Nat.succ.inj same), Ordering.then_assoc]

/-- What is compared place by place may be written in other symbols of the same order. -/
theorem compare_map {α β : Type} [Ord α] [Ord β] {symbol : α → β} {left right : List α}
    (kept : ∀ item ∈ left, ∀ other ∈ right, compare (symbol item) (symbol other) = compare item other) :
    compare (left.map symbol) (right.map symbol) = compare left right := by
  induction left generalizing right with
  | nil =>
    cases right with
    | nil => rw [List.map_nil, List.compare_nil_nil, List.compare_nil_nil]
    | cons other right => rw [List.map_nil, List.map_cons, List.compare_nil_cons, List.compare_nil_cons]
  | cons first left ih =>
    cases right with
    | nil => rw [List.map_nil, List.map_cons, List.compare_cons_nil, List.compare_cons_nil]
    | cons other right =>
      rw [List.map_cons, List.map_cons, List.compare_cons_cons, List.compare_cons_cons,
        kept first List.mem_cons_self other List.mem_cons_self,
        ih fun item member item' member' =>
          kept item (List.mem_cons_of_mem _ member) item' (List.mem_cons_of_mem _ member')]

/-- Numbers are compared by their high part first. -/
theorem compare_digit {base low low' : Nat} (small : low < base) (small' : low' < base)
    (high high' : Nat) : compare (low + base * high) (low' + base * high') =
      (compare high high').then (compare low low') := by
  cases order : compare high high' with
  | lt =>
    have less := Nat.compare_eq_lt.mp order
    rw [Ordering.lt_then, Nat.compare_eq_lt]
    have scaled := Nat.mul_le_mul_left base less
    rw [Nat.mul_succ] at scaled
    omega
  | eq =>
    have same := Nat.compare_eq_eq.mp order
    rw [Ordering.eq_then, same]
    cases ends : compare low low' with
    | lt =>
      rw [Nat.compare_eq_lt] at ends ⊢
      omega
    | eq =>
      rw [Nat.compare_eq_eq] at ends ⊢
      omega
    | gt =>
      rw [Nat.compare_eq_gt] at ends ⊢
      omega
  | gt =>
    have more := Nat.compare_eq_gt.mp order
    rw [Ordering.gt_then, Nat.compare_eq_gt]
    have scaled := Nat.mul_le_mul_left base more
    rw [Nat.mul_succ] at scaled
    omega

/-- As many digits, read from the most significant one, are in the order of their numbers. -/
theorem compare_digits {base : Nat} {digits digits' : List Nat}
    (same : digits.length = digits'.length) (below : ∀ digit ∈ digits, digit < base)
    (below' : ∀ digit ∈ digits', digit < base) :
    compare digits.reverse digits'.reverse = compare (valueOf base digits) (valueOf base digits') := by
  induction digits generalizing digits' with
  | nil =>
    have none : digits' = [] := List.length_eq_zero_iff.mp same.symm
    rw [none]
    rfl
  | cons digit rest ih =>
    cases digits' with
    | nil => cases same
    | cons digit' rest' =>
      have length : rest.length = rest'.length := Nat.succ.inj same
      have high := ih length (fun other member => below other (List.mem_cons_of_mem _ member))
        fun other member => below' other (List.mem_cons_of_mem _ member)
      have low : compare [digit] [digit'] = compare digit digit' := by
        rw [List.compare_cons_cons, List.compare_nil_nil, Ordering.then_eq]
      rw [List.reverse_cons, List.reverse_cons,
        compare_append (by rw [List.length_reverse, List.length_reverse, length]), low, high, valueOf,
        valueOf, compare_digit (below digit List.mem_cons_self) (below' digit' List.mem_cons_self)]

end Order

section Symbols

variable (symbols : List UInt8)

/-- The symbol of a digit. -/
def symbolOf (digit : Nat) : UInt8 := symbols.getD digit 0

/-- The digit of a symbol. -/
def digitOf (symbol : UInt8) : Option Nat := symbols.idxOf? symbol

/-- The digits of a list of symbols, when all of them are symbols. -/
def digitsOfSymbols : List UInt8 → Option (List Nat)
  | [] => some []
  | symbol :: rest =>
    match digitOf symbols symbol, digitsOfSymbols rest with
    | some digit, some digits => some (digit :: digits)
    | _, _ => none

variable {symbols}

/-- Every digit below the base is found again from its symbol. -/
def Readable (symbols : List UInt8) (base : Nat) : Prop :=
  ∀ digit < base, digitOf symbols (symbolOf symbols digit) = some digit

instance (symbols : List UInt8) (base : Nat) : Decidable (Readable symbols base) :=
  inferInstanceAs (Decidable (∀ digit < base, _))

/-- Nothing but symbols has digits. -/
theorem mem_of_digitsOfSymbols {text : List UInt8} {digits : List Nat}
    (read : digitsOfSymbols symbols text = some digits) : ∀ symbol ∈ text, symbol ∈ symbols := by
  induction text generalizing digits with
  | nil => exact nofun
  | cons head rest ih =>
    rw [digitsOfSymbols] at read
    split at read
    case h_1 digit later first second =>
      intro symbol member
      rcases List.mem_cons.mp member with rfl | inside
      · have found : (symbols.idxOf? symbol).isSome := Option.isSome_iff_exists.mpr ⟨digit, first⟩
        simpa using found
      · exact ih second symbol inside
    case h_2 => cases read

/-- What has digits consists of the symbols of those digits. -/
theorem map_symbolOf {text : List UInt8} {digits : List Nat}
    (read : digitsOfSymbols symbols text = some digits) :
    text = digits.map (symbolOf symbols) ∧ ∀ digit ∈ digits, digit < symbols.length := by
  induction text generalizing digits with
  | nil =>
    cases read
    exact ⟨rfl, List.forall_mem_nil _⟩
  | cons head rest ih =>
    rw [digitsOfSymbols] at read
    split at read
    case h_1 digit later first second =>
      cases read
      obtain ⟨same, below⟩ := ih second
      obtain ⟨inside, found, _⟩ := List.idxOf?_eq_some_iff.mp first
      have symbol : symbolOf symbols digit = head := by
        rw [symbolOf, List.getD_eq_getElem?_getD, List.getElem?_eq_getElem inside]
        exact found
      rw [List.map_cons, symbol, ← same]
      exact ⟨rfl, List.forall_mem_cons.mpr ⟨inside, below⟩⟩
    case h_2 => cases read

/-- Digits are found again from their symbols. -/
theorem digitsOfSymbols_map {base : Nat} (readable : Readable symbols base) (digits : List Nat)
    (below : ∀ digit ∈ digits, digit < base) :
    digitsOfSymbols symbols (digits.map (symbolOf symbols)) = some digits := by
  induction digits with
  | nil => rfl
  | cons digit rest ih =>
    rw [List.map_cons, digitsOfSymbols, readable digit (below digit List.mem_cons_self),
      ih fun other member => below other (List.mem_cons_of_mem _ member)]

end Symbols

end Harmonia.Library
