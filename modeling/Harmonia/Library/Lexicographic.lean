import Mathlib.Data.List.Basic
import Mathlib.Algebra.Order.Ring.Nat

/-!
# Lists of bytes in order

What starts with a list stands together in the order of lists: right behind the list itself, with
nothing else between. So the first list from a given one on tells whether any starts with it.
-/

namespace Harmonia.Library

/-- A list comes before what starts with it. -/
theorem le_append_bytes (start rest : List UInt8) : start ≤ start ++ rest := by
  induction start with
  | nil => exact List.nil_le _
  | cons byte start ih => exact List.cons_le_cons_iff.mpr (.inr ⟨rfl, ih⟩)

/-- What stands between a list and what starts with it starts with it. -/
theorem isPrefix_of_between {start between rest : List UInt8} (low : start ≤ between)
    (high : between ≤ start ++ rest) : start <+: between := by
  induction start generalizing between with
  | nil => exact List.nil_prefix
  | cons byte start ih =>
    cases between with
    | nil => exact absurd low (by simp)
    | cons other between =>
      rcases List.cons_le_cons_iff.mp low with less | ⟨same, below⟩
      · rcases List.cons_le_cons_iff.mp high with more | ⟨same, _⟩
        · exact absurd more (UInt8.lt_asymm less)
        · exact absurd (same ▸ less) (UInt8.lt_irrefl _)
      · rcases List.cons_le_cons_iff.mp high with more | ⟨_, above⟩
        · exact absurd (same ▸ more) (UInt8.lt_irrefl _)
        · subst same
          exact List.cons_prefix_cons.mpr ⟨rfl, ih below above⟩

/-- The lists of a sorted list that are not before another one, the first of them. -/
theorem filter_sorted_cons {start first : List UInt8} {lists others : List (List UInt8)}
    (sorted : lists.Pairwise (· ≤ ·)) (found : (lists.filter fun list => start ≤ list) = first :: others) :
    first ∈ lists ∧ start ≤ first ∧ ∀ list ∈ lists, start ≤ list → first ≤ list := by
  have member : first ∈ lists.filter fun list => start ≤ list := found ▸ List.mem_cons_self
  have kept := sorted.filter fun list => start ≤ list
  rw [found] at kept
  refine ⟨(List.mem_filter.mp member).1, of_decide_eq_true (List.mem_filter.mp member).2, ?_⟩
  intro list inside after
  have among : list ∈ first :: others := found ▸ List.mem_filter.mpr ⟨inside, decide_eq_true after⟩
  rcases List.mem_cons.mp among with rfl | later
  · exact List.le_refl _
  · exact (List.pairwise_cons.mp kept).1 list later

/-- Sorting lists of bytes sorts them. -/
theorem mergeSort_bytes_sorted (lists : List (List UInt8)) :
    (lists.mergeSort fun left right => decide (left ≤ right)).Pairwise (· ≤ ·) := by
  have sorted := @List.pairwise_mergeSort _ (fun left right : List UInt8 => decide (left ≤ right))
    (fun a b c ab bc => decide_eq_true (List.le_trans (of_decide_eq_true ab) (of_decide_eq_true bc)))
    (fun a b => by
      rcases List.le_total a b with le | le
      · exact Bool.or_eq_true_iff.mpr (.inl (decide_eq_true le))
      · exact Bool.or_eq_true_iff.mpr (.inr (decide_eq_true le))) lists
  exact sorted.imp of_decide_eq_true

end Harmonia.Library
