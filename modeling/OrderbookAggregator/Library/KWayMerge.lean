import Mathlib.Data.List.Sort
import Mathlib.Order.Compare

/-!
# Merging several sorted lists

A merge of `k` sorted lists repeatedly emits the first of the smallest heads. This module says what
that produces, for any comparator that is a total preorder: a prefix of the stable sort of the
concatenation. It also says why cutting every list to the number of elements asked for changes
nothing.

The stable sort is `List.mergeSort`. Its recursion is inconvenient for induction on the input, so
the proofs go through `List.insertionSort`, which sorts the same way.
-/

namespace Merging

open Std

variable {α : Type*}

/-- `a` may stand before `b`. -/
def Le (cmp : α → α → Ordering) (a b : α) : Prop := (cmp a b).isLE

instance (cmp : α → α → Ordering) : DecidableRel (Le cmp) :=
  fun a b => inferInstanceAs (Decidable ((cmp a b).isLE = true))

/-- The list in order, ties in the order in which they came. -/
def stableSort (cmp : α → α → Ordering) (l : List α) : List α :=
  l.mergeSort fun a b => (cmp a b).isLE

def Ordered (cmp : α → α → Ordering) (l : List α) : Prop := l.Pairwise (Le cmp)

instance (cmp : α → α → Ordering) : DecidablePred (Ordered cmp) :=
  fun l => inferInstanceAs (Decidable (l.Pairwise (Le cmp)))

section Comparator

variable {cmp : α → α → Ordering}

theorem le_of_not_le [OrientedCmp cmp] {a b : α} (h : ¬ Le cmp a b) : Le cmp b a := by
  unfold Le at h ⊢
  rw [@OrientedCmp.eq_swap _ cmp]
  cases hab : cmp a b <;> simp_all

theorem le_of_lt {a b : α} (h : cmp a b = .lt) : Le cmp a b := by
  simp [Le, h]

theorem not_le_of_lt [OrientedCmp cmp] {a b : α} (h : cmp a b = .lt) : ¬ Le cmp b a := by
  unfold Le
  rw [@OrientedCmp.eq_swap _ cmp, h]
  simp

theorem le_of_not_lt [OrientedCmp cmp] {a b : α} (h : cmp a b ≠ .lt) : Le cmp b a := by
  unfold Le
  rw [@OrientedCmp.eq_swap _ cmp]
  cases hab : cmp a b <;> simp_all

theorem le_trans [TransCmp cmp] {a b c : α} (hab : Le cmp a b) (hbc : Le cmp b c) : Le cmp a c :=
  TransCmp.isLE_trans hab hbc

theorem lt_of_lt_of_le [TransCmp cmp] {a b c : α} (hab : cmp a b = .lt) (hbc : Le cmp b c) :
    cmp a c = .lt :=
  TransCmp.lt_of_lt_of_isLE hab hbc

end Comparator

/-! ### The stable sort, by insertion -/

section StableSort

variable {cmp : α → α → Ordering}

/-- Where insertion puts an element is decided by the elements it may stand before. -/
theorem orderedInsert_append_of_forall {a : α} {left right : List α}
    (hleft : ∀ b ∈ left, ¬ Le cmp a b) (hright : ∀ b ∈ right.head?, Le cmp a b) :
    (left ++ right).orderedInsert (Le cmp) a = left ++ a :: right := by
  induction left with
  | nil =>
      cases right with
      | nil => rfl
      | cons b right => exact List.orderedInsert_cons_of_le _ _ (hright b rfl)
  | cons b left ih =>
      rw [List.cons_append, List.orderedInsert_of_not_le _ _ (hleft b List.mem_cons_self),
        ih fun c hc => hleft c (List.mem_cons_of_mem b hc)]
      rfl

theorem stableSort_eq_insertionSort [TransCmp cmp] (l : List α) :
    stableSort cmp l = l.insertionSort (Le cmp) := by
  have htrans : ∀ a b c : α, (cmp a b).isLE = true → (cmp b c).isLE = true →
      (cmp a c).isLE = true := fun a b c hab hbc => TransCmp.isLE_trans hab hbc
  have htotal : ∀ a b : α, ((cmp a b).isLE || (cmp b a).isLE) = true := by
    intro a b
    by_cases hab : Le cmp a b
    · simp [show (cmp a b).isLE = true from hab]
    · simp [show (cmp b a).isLE = true from le_of_not_le hab]
  induction l with
  | nil => simp [stableSort]
  | cons a l ih =>
      obtain ⟨left, right, hcons, htail, hleft⟩ := List.mergeSort_cons htrans htotal a l
      have hsorted := List.pairwise_mergeSort htrans htotal (a :: l)
      rw [hcons, List.pairwise_append, List.pairwise_cons] at hsorted
      have hright : ∀ b ∈ right.head?, Le cmp a b := fun b hb =>
        hsorted.2.1.1 b (List.mem_of_mem_head? hb)
      rw [List.insertionSort_cons, ← ih, stableSort, stableSort, hcons, htail]
      exact (orderedInsert_append_of_forall (fun b hb => by simpa [Le] using hleft b hb)
        hright).symm

/-- An element that is smaller than all before it and no larger than any after it comes first. -/
theorem stableSort_middle [TransCmp cmp] {x : α} {pre post : List α}
    (hpre : ∀ b ∈ pre, cmp x b = .lt) (hpost : ∀ b ∈ post, Le cmp x b) :
    stableSort cmp (pre ++ x :: post) = x :: stableSort cmp (pre ++ post) := by
  simp only [stableSort_eq_insertionSort]
  induction pre with
  | nil => exact List.insertionSort_cons_of_forall_rel (Le cmp) hpost
  | cons b pre ih =>
      have hbx : ¬ Le cmp b x := not_le_of_lt (hpre b List.mem_cons_self)
      rw [List.cons_append, List.insertionSort_cons,
        ih fun c hc => hpre c (List.mem_cons_of_mem b hc),
        List.orderedInsert_of_not_le _ _ hbx, List.cons_append, List.insertionSort_cons]

/-- Two comparators that agree on every pair in the order of the list sort it the same way. -/
theorem stableSort_congr {cmp' : α → α → Ordering} [TransCmp cmp] [TransCmp cmp'] {l : List α}
    (hagree : l.Pairwise fun a b => Le cmp a b ↔ Le cmp' a b) :
    stableSort cmp l = stableSort cmp' l := by
  simp only [stableSort_eq_insertionSort]
  induction l with
  | nil => rfl
  | cons a l ih =>
      obtain ⟨hhead, htail⟩ := List.pairwise_cons.mp hagree
      rw [List.insertionSort_cons, List.insertionSort_cons, ← ih htail]
      have hmem : ∀ b ∈ l.insertionSort (Le cmp), (Le cmp a b ↔ Le cmp' a b) := fun b hb =>
        hhead b ((List.mem_insertionSort (Le cmp)).mp hb)
      generalize l.insertionSort (Le cmp) = sorted at hmem
      induction sorted with
      | nil => rfl
      | cons b sorted ihs =>
          have hab := hmem b List.mem_cons_self
          by_cases h : Le cmp a b
          · rw [List.orderedInsert_cons_of_le _ _ h,
              List.orderedInsert_cons_of_le _ _ (hab.mp h)]
          · rw [List.orderedInsert_of_not_le _ _ h,
              List.orderedInsert_of_not_le _ _ (fun h' => h (hab.mpr h')),
              ihs fun c hc => hmem c (List.mem_cons_of_mem b hc)]

end StableSort

/-! ### Merging -/

/-- `KWayMerge cmp n lists out`: taking the first of the smallest heads of `lists`, `n` times or
until all are exhausted, gives `out`. -/
inductive KWayMerge (cmp : α → α → Ordering) : Nat → List (List α) → List α → Prop
  | stop {lists} : KWayMerge cmp 0 lists []
  | exhausted {n lists} (hempty : ∀ l ∈ lists, l = []) : KWayMerge cmp n lists []
  | emit {n x tail pre post out}
      (hpre : ∀ l ∈ pre, ∀ y ∈ l.head?, cmp x y = .lt)
      (hpost : ∀ l ∈ post, ∀ y ∈ l.head?, Le cmp x y)
      (hrest : KWayMerge cmp n (pre ++ tail :: post) out) :
      KWayMerge cmp (n + 1) (pre ++ (x :: tail) :: post) (x :: out)

section Merge

variable {cmp : α → α → Ordering}

theorem le_of_head_le [TransCmp cmp] {x : α} {l : List α} (hl : Ordered cmp l)
    (hhead : ∀ y ∈ l.head?, Le cmp x y) : ∀ b ∈ l, Le cmp x b := by
  cases l with
  | nil => simp
  | cons y l =>
      have hy : Le cmp x y := hhead y rfl
      intro b hb
      rcases List.mem_cons.mp hb with rfl | hb
      · exact hy
      · exact le_trans hy ((List.pairwise_cons.mp hl).1 b hb)

theorem lt_of_head_lt [TransCmp cmp] {x : α} {l : List α} (hl : Ordered cmp l)
    (hhead : ∀ y ∈ l.head?, cmp x y = .lt) : ∀ b ∈ l, cmp x b = .lt := by
  cases l with
  | nil => simp
  | cons y l =>
      have hy : cmp x y = .lt := hhead y rfl
      intro b hb
      rcases List.mem_cons.mp hb with rfl | hb
      · exact hy
      · exact lt_of_lt_of_le hy ((List.pairwise_cons.mp hl).1 b hb)

/-- Emitting the first of the smallest heads takes the first element off the stable sort. -/
theorem stableSort_flatten_emit [TransCmp cmp] {x : α} {tail : List α} {pre post : List (List α)}
    (hordered : ∀ l ∈ pre ++ (x :: tail) :: post, Ordered cmp l)
    (hpre : ∀ l ∈ pre, ∀ y ∈ l.head?, cmp x y = .lt)
    (hpost : ∀ l ∈ post, ∀ y ∈ l.head?, Le cmp x y) :
    stableSort cmp (pre ++ (x :: tail) :: post).flatten
      = x :: stableSort cmp (pre ++ tail :: post).flatten := by
  have hbefore : ∀ b ∈ pre.flatten, cmp x b = .lt := by
    intro b hb
    obtain ⟨l, hl, hbl⟩ := List.mem_flatten.mp hb
    exact lt_of_head_lt (hordered l (List.mem_append_left _ hl)) (hpre l hl) b hbl
  have hafter : ∀ b ∈ tail ++ post.flatten, Le cmp x b := by
    intro b hb
    rcases List.mem_append.mp hb with hb | hb
    · have hown := hordered (x :: tail) (by simp)
      exact (List.pairwise_cons.mp hown).1 b hb
    · obtain ⟨l, hl, hbl⟩ := List.mem_flatten.mp hb
      exact le_of_head_le (hordered l (by simp [hl])) (hpost l hl) b hbl
  simpa [List.flatten_append] using stableSort_middle hbefore hafter

theorem ordered_of_emit {x : α} {tail : List α} {pre post : List (List α)}
    (hordered : ∀ l ∈ pre ++ (x :: tail) :: post, Ordered cmp l) :
    ∀ l ∈ pre ++ tail :: post, Ordered cmp l := by
  intro l hl
  have hown := hordered (x :: tail) (by simp)
  simp only [List.mem_append, List.mem_cons] at hl
  rcases hl with hl | rfl | hl
  · exact hordered l (by simp [hl])
  · exact (List.pairwise_cons.mp hown).2
  · exact hordered l (by simp [hl])

/-- **A k-way merge is a prefix of the stable sort of the concatenation.** -/
theorem KWayMerge.eq_take_stableSort [TransCmp cmp] {n : Nat} {lists : List (List α)}
    {out : List α} (hmerge : KWayMerge cmp n lists out)
    (hordered : ∀ l ∈ lists, Ordered cmp l) : out = (stableSort cmp lists.flatten).take n := by
  induction hmerge with
  | stop => simp
  | exhausted hempty => simp [List.flatten_eq_nil_iff.mpr hempty, stableSort]
  | emit hpre hpost hrest ih =>
      rw [stableSort_flatten_emit hordered hpre hpost, List.take_succ_cons,
        ← ih (ordered_of_emit hordered)]

/-- What a merge begins with is one of the heads, and none of them is smaller. -/
theorem KWayMerge.head?_eq_some [ReflCmp cmp] {n : Nat} {lists : List (List α)} {out : List α}
    {x : α} (hmerge : KWayMerge cmp n lists out) (hx : out.head? = some x) :
    (∃ l ∈ lists, l.head? = some x) ∧ ∀ l ∈ lists, ∀ y ∈ l.head?, Le cmp x y := by
  cases hmerge with
  | stop | exhausted => cases hx
  | @emit n x tail pre post out hpre hpost hrest =>
      cases hx
      refine ⟨⟨x :: tail, by simp, rfl⟩, fun l hl y hy => ?_⟩
      rcases List.mem_append.mp hl with hl | hl
      · exact le_of_lt (hpre l hl y hy)
      rcases List.mem_cons.mp hl with rfl | hl
      · cases hy
        have hself : cmp x x = .eq := ReflCmp.compare_self
        rw [Le, hself]
        rfl
      · exact hpost l hl y hy

theorem KWayMerge.head?_eq_none {n : Nat} {lists : List (List α)} {out : List α}
    (hmerge : KWayMerge cmp (n + 1) lists out) (hout : out.head? = none) : ∀ l ∈ lists, l = [] := by
  cases hmerge with
  | exhausted hempty => exact hempty
  | emit => cases hout

/-- Nothing is merged but what is in one of the lists. -/
theorem KWayMerge.mem_of_mem {n : Nat} {lists : List (List α)} {out : List α} {x : α}
    (hmerge : KWayMerge cmp n lists out) (hx : x ∈ out) : ∃ l ∈ lists, x ∈ l := by
  induction hmerge with
  | stop | exhausted => cases hx
  | @emit n y tail pre post out hpre hpost hrest ih =>
      rcases List.mem_cons.mp hx with rfl | hx
      · exact ⟨x :: tail, by simp, List.mem_cons_self⟩
      obtain ⟨l, hl, hxl⟩ := ih hx
      rcases List.mem_append.mp hl with hl | hl
      · exact ⟨l, List.mem_append_left _ hl, hxl⟩
      rcases List.mem_cons.mp hl with rfl | hl
      · exact ⟨y :: l, by simp, List.mem_cons_of_mem y hxl⟩
      · exact ⟨l, by simp [hl], hxl⟩

/-- Nothing is lost: a merge stops at `n` elements or when there are no more. -/
theorem KWayMerge.length_eq {n : Nat} {lists : List (List α)} {out : List α}
    (hmerge : KWayMerge cmp n lists out) : out.length = min n lists.flatten.length := by
  induction hmerge with
  | stop => simp
  | exhausted hempty => simp [List.flatten_eq_nil_iff.mpr hempty]
  | emit _ _ _ ih =>
      rw [List.length_cons, ih]
      simp only [List.length_flatten, List.map_append, List.map_cons, List.sum_append,
        List.sum_cons, List.length_cons]
      omega

/-- Nothing is reordered, whatever the comparator: the elements that come from one of the lists come
in the order of that list. What tells them from the others is `p`, which no two lists share. -/
theorem KWayMerge.filter_prefix {p : α → Prop} [DecidablePred p] {n : Nat}
    {lists : List (List α)} {out : List α} (hmerge : KWayMerge cmp n lists out)
    (hapart : lists.Pairwise fun l l' => (∀ a ∈ l, ¬ p a) ∨ ∀ a ∈ l', ¬ p a) :
    out.filter p <+: lists.flatten.filter p := by
  induction hmerge with
  | stop | exhausted => simp
  | @emit n x tail pre post out hpre hpost hrest ih =>
      have hsub : (pre ++ tail :: post).Pairwise fun l l' => (∀ a ∈ l, ¬ p a) ∨ ∀ a ∈ l', ¬ p a := by
        have hdrop : ∀ {l : List α}, (∀ a ∈ x :: tail, ¬ p a) → ∀ a ∈ tail, ¬ p a :=
          fun h a ha => h a (List.mem_cons_of_mem x ha)
        rw [List.pairwise_append, List.pairwise_cons] at hapart ⊢
        obtain ⟨hbefore, ⟨hown, hafter⟩, hcross⟩ := hapart
        refine ⟨hbefore, ⟨fun l hl => (hown l hl).imp_left (@hdrop l), hafter⟩, fun l hl l' hl' => ?_⟩
        rcases List.mem_cons.mp hl' with rfl | hl'
        · exact (hcross l hl _ List.mem_cons_self).imp_right (@hdrop l)
        · exact hcross l hl l' (List.mem_cons_of_mem _ hl')
      have ih := ih hsub
      by_cases hx : p x
      · -- nothing that satisfies `p` stands before `x`
        have hnone : pre.flatten.filter p = [] := by
          rw [List.filter_eq_nil_iff]
          intro a ha
          obtain ⟨l, hl, hal⟩ := List.mem_flatten.mp ha
          have hcross := (List.pairwise_append.mp hapart).2.2 l hl _ List.mem_cons_self
          simpa using hcross.resolve_right (fun h => h x List.mem_cons_self hx) a hal
        simp only [List.flatten_append, List.flatten_cons, List.filter_append, hnone, List.nil_append]
          at ih ⊢
        rw [List.filter_cons_of_pos (by simpa using hx), List.filter_cons_of_pos (by simpa using hx)]
        exact (List.prefix_cons_inj x).mpr ih
      · simp only [List.flatten_append, List.flatten_cons, List.filter_append] at ih ⊢
        rw [List.filter_cons_of_neg (by simpa using hx), List.filter_cons_of_neg (by simpa using hx)]
        exact ih

/-- Unless every list is exhausted, one of the heads can be emitted. -/
theorem exists_emit (cmp : α → α → Ordering) [TransCmp cmp] (lists : List (List α)) (hsome : ¬ ∀ l ∈ lists, l = []) :
    ∃ x tail pre post, lists = pre ++ (x :: tail) :: post
      ∧ (∀ l ∈ pre, ∀ y ∈ l.head?, cmp x y = .lt) ∧ (∀ l ∈ post, ∀ y ∈ l.head?, Le cmp x y) := by
  induction lists with
  | nil => simp at hsome
  | cons l lists ih =>
      by_cases hrest : ∀ l ∈ lists, l = []
      · cases l with
        | nil => exact absurd (by simpa using hrest) hsome
        | cons x tail =>
            refine ⟨x, tail, [], lists, rfl, by simp, ?_⟩
            intro l hl y hy
            simp [hrest l hl] at hy
      · obtain ⟨x, tail, pre, post, rfl, hpre, hpost⟩ := ih hrest
        cases l with
        | nil =>
            exact ⟨x, tail, [] :: pre, post, rfl, by simpa using hpre, hpost⟩
        | cons y ys =>
            -- a later head replaces this one only when it is strictly smaller
            by_cases hxy : cmp x y = .lt
            · exact ⟨x, tail, (y :: ys) :: pre, post, rfl, by simpa [hxy] using hpre, hpost⟩
            · have hyx : Le cmp y x := le_of_not_lt hxy
              refine ⟨y, ys, [], pre ++ (x :: tail) :: post, rfl, by simp, ?_⟩
              intro l hl z hz
              simp only [List.mem_append, List.mem_cons] at hl
              rcases hl with hl | rfl | hl
              · exact le_trans hyx (le_of_lt (hpre l hl z hz))
              · rw [List.head?_cons, Option.mem_some_iff] at hz
                exact hz ▸ hyx
              · exact le_trans hyx (hpost l hl z hz)

/-- `short` is what is left of `long` when only its first elements are kept, at least `n` of them if
it has that many. -/
def CutTo (n : Nat) (short long : List α) : Prop :=
  short <+: long ∧ (n ≤ short.length ∨ short = long)

theorem cutTo_take (n : Nat) (l : List α) : CutTo n (l.take n) l := by
  refine ⟨List.take_prefix n l, ?_⟩
  by_cases h : n ≤ l.length
  · exact Or.inl (by simp [h])
  · exact Or.inr (List.take_of_length_le (by omega))

theorem CutTo.head?_eq {n : Nat} {short long : List α} (h : CutTo (n + 1) short long) :
    short.head? = long.head? := by
  obtain ⟨⟨rest, rfl⟩, hlength | heq⟩ := h
  · cases short with
    | nil => simp at hlength
    | cons x short => rfl
  · rw [← heq]

theorem CutTo.mono {m n : Nat} (hmn : m ≤ n) {short long : List α} (h : CutTo n short long) :
    CutTo m short long :=
  ⟨h.1, h.2.imp_left fun hlength => by omega⟩

theorem CutTo.tail {n : Nat} {x : α} {short long : List α}
    (h : CutTo (n + 1) (x :: short) (x :: long)) : CutTo n short long := by
  obtain ⟨hstarts, hlength | heq⟩ := h
  · exact ⟨(List.prefix_cons_inj x).mp hstarts, Or.inl (by simpa using hlength)⟩
  · exact ⟨(List.prefix_cons_inj x).mp hstarts, Or.inr (List.cons_injective heq)⟩

/-- What holds of the heads of the long lists holds of the heads of the cut ones. -/
theorem forall_head_of_cut {n : Nat} {short long : List (List α)}
    (hcut : List.Forall₂ (CutTo (n + 1)) short long) {P : α → Prop}
    (hlong : ∀ l ∈ long, ∀ y ∈ l.head?, P y) : ∀ l ∈ short, ∀ y ∈ l.head?, P y := by
  induction hcut with
  | nil => simp
  | cons hl _ ih =>
      simp only [List.forall_mem_cons] at hlong ⊢
      exact ⟨hl.head?_eq ▸ hlong.1, ih hlong.2⟩

/-- **Cutting loses nothing.** A merge of `n` elements does not see past the first `n` of any
list. -/
theorem KWayMerge.of_cut {n : Nat} {long short : List (List α)} {out : List α}
    (hmerge : KWayMerge cmp n long out) (hcut : List.Forall₂ (CutTo n) short long) :
    KWayMerge cmp n short out := by
  induction hmerge generalizing short with
  | stop => exact .stop
  | exhausted hempty =>
      refine .exhausted fun l hl => ?_
      obtain ⟨i, hi, rfl⟩ := List.getElem_of_mem hl
      have hi' := hcut.length_eq ▸ hi
      have hstarts := (hcut.get hi hi').1
      exact List.prefix_nil.mp (hempty _ (List.getElem_mem hi') ▸ hstarts)
  | @emit n x tail pre post out hpre hpost hrest ih =>
      have hcutPre := List.forall₂_take_append short pre _ hcut
      obtain ⟨own, shortPost, hcutOwn, hcutPost, hdrop⟩ :=
        List.forall₂_cons_right_iff.mp (List.forall₂_drop_append short pre _ hcut)
      obtain ⟨ownTail, rfl⟩ : ∃ ownTail, own = x :: ownTail := by
        have hhead := hcutOwn.head?_eq
        cases own with
        | nil => simp at hhead
        | cons y own =>
            rw [List.head?_cons, List.head?_cons, Option.some_inj] at hhead
            exact ⟨own, hhead ▸ rfl⟩
      rw [← List.take_append_drop pre.length short, hdrop]
      refine .emit (forall_head_of_cut hcutPre hpre) (forall_head_of_cut hcutPost hpost) (ih ?_)
      refine List.rel_append (hcutPre.imp fun _ _ h => h.mono (Nat.le_succ n)) ?_
      exact .cons hcutOwn.tail (hcutPost.imp fun _ _ h => h.mono (Nat.le_succ n))

theorem exists_kWayMerge (cmp : α → α → Ordering) [TransCmp cmp] (n : Nat) (lists : List (List α)) :
    ∃ out, KWayMerge cmp n lists out := by
  induction n generalizing lists with
  | zero => exact ⟨[], .stop⟩
  | succ n ih =>
      by_cases hempty : ∀ l ∈ lists, l = []
      · exact ⟨[], .exhausted hempty⟩
      · obtain ⟨x, tail, pre, post, rfl, hpre, hpost⟩ := exists_emit cmp lists hempty
        obtain ⟨out, hout⟩ := ih (pre ++ tail :: post)
        exact ⟨x :: out, .emit hpre hpost hout⟩

/-- The first `n` elements of the sorted concatenation are found among the first `n` of each
list. -/
theorem take_stableSort_flatten_of_cut [TransCmp cmp] {n : Nat} {short long : List (List α)}
    (hordered : ∀ l ∈ long, Ordered cmp l) (hcut : List.Forall₂ (CutTo n) short long) :
    (stableSort cmp short.flatten).take n = (stableSort cmp long.flatten).take n := by
  obtain ⟨out, hmerge⟩ := exists_kWayMerge cmp n long
  have horderedShort : ∀ l ∈ short, Ordered cmp l := by
    intro l hl
    obtain ⟨i, hi, rfl⟩ := List.getElem_of_mem hl
    have hi' := hcut.length_eq ▸ hi
    exact (hordered _ (List.getElem_mem hi')).sublist (hcut.get hi hi').1.sublist
  have hshort := (hmerge.of_cut hcut).eq_take_stableSort horderedShort
  have hlong := hmerge.eq_take_stableSort hordered
  rw [← hshort, hlong]

end Merge

end Merging
