import Mathlib.Algebra.BigOperators.Group.Finset.Basic
import Mathlib.Algebra.BigOperators.Group.Finset.Piecewise
import Mathlib.Algebra.BigOperators.Intervals
import Mathlib.Order.Defs.LinearOrder

/-!
# Tallies

The elements of a list are put into classes, or bring weights that are summed up. This module says
how a sum of weights changes with one element, that the sizes of the classes up to some class add up
to the number of elements in them, and what the class of an element is if it is the first bound of an
increasing table that the element does not exceed.
-/

namespace Tally

variable {α β : Type*}

/-- What all elements of a list weigh. -/
def total (weight : α → Nat) (l : List α) : Nat := (l.map weight).sum

@[simp]
theorem total_nil (weight : α → Nat) : total weight [] = 0 := rfl

@[simp]
theorem total_cons (weight : α → Nat) (a : α) (l : List α) :
    total weight (a :: l) = weight a + total weight l := rfl

@[simp]
theorem total_append (weight : α → Nat) (l l' : List α) :
    total weight (l ++ l') = total weight l + total weight l' := by
  rw [total, List.map_append, List.sum_append]
  rfl

/-- An element is replaced by one that weighs `n` more. -/
theorem total_set {weight : α → Nat} {l : List α} {i : Nat} {a b : α} {n : Nat}
    (hi : l[i]? = some a) (hb : weight b = weight a + n) :
    total weight (l.set i b) = total weight l + n := by
  induction l generalizing i with
  | nil => simp at hi
  | cons c l ih =>
      cases i with
      | zero =>
          obtain rfl : c = a := by simpa using hi
          rw [List.set_cons_zero, total_cons, total_cons, hb]
          omega
      | succ i =>
          rw [List.set_cons_succ, total_cons, total_cons, ih (by simpa using hi)]
          omega

theorem total_congr {weight weight' : α → Nat} {l : List α}
    (h : ∀ a ∈ l, weight a = weight' a) : total weight l = total weight' l := by
  rw [total, total, List.map_congr_left h]

/-- Where every element weighs nothing or one, those that weigh one are counted. -/
theorem total_ite (p : α → Prop) [DecidablePred p] (l : List α) :
    total (fun a => if p a then 1 else 0) l = l.countP p := by
  induction l with
  | nil => rfl
  | cons a l ih =>
      rw [total_cons, ih, List.countP_cons, Nat.add_comm]
      by_cases h : p a <;> simp [h]

/-- The sizes of the classes below `k` add up to the number of elements in them. -/
theorem sum_range_countP (f : α → Nat) (l : List α) (k : Nat) :
    ∑ j ∈ Finset.range k, l.countP (f · = j) = l.countP (f · < k) := by
  induction l with
  | nil => simp
  | cons a l ih =>
      simp only [List.countP_cons, Finset.sum_add_distrib, ih, decide_eq_true_eq,
        Finset.sum_ite_eq, Finset.mem_range]

/-- **First match.** In an increasing table, the first bound that an element does not exceed stands no
later than some place if and only if the element does not exceed the bound there. -/
theorem findIdx_le_iff [LinearOrder β] {bound : α → β} {table : List α}
    (hsorted : (table.map bound).Pairwise (· ≤ ·)) (x : β) {i : Nat} (hi : i < table.length) :
    table.findIdx (fun a => decide (x ≤ bound a)) ≤ i ↔ x ≤ bound table[i] := by
  constructor
  · intro hle
    have hlt := hle.trans_lt hi
    have hfound : x ≤ bound (table[table.findIdx fun a => decide (x ≤ bound a)]) := by
      simpa using @List.findIdx_getElem _ (fun a => decide (x ≤ bound a)) table hlt
    rcases hle.eq_or_lt with heq | hlt'
    · rwa [← getElem_congr_idx heq]
    · rw [List.pairwise_map] at hsorted
      exact hfound.trans (List.pairwise_iff_getElem.mp hsorted _ _ hlt hi hlt')
  · intro hle
    by_contra hlt
    have hexceeds := List.not_of_lt_findIdx (Nat.not_le.mp hlt)
    rw [decide_eq_false_iff_not] at hexceeds
    exact hexceeds hle

end Tally
