import OrderbookAggregator.Library.KWayMerge
import OrderbookAggregator.Merger

/-!
# What a merge is

The cursors of `mergeTopN` describe what is left of every slice, and one round of its outer loop is
one round of a k-way merge. So the result is a prefix of the stable sort of all levels, each with
its exchange.
-/

namespace OrderbookAggregator

open Merging Std

/-- The level as it is found at an exchange. -/
def RawLevel.at (level : RawLevel) (exchangeId : ExchangeId) : Level :=
  ⟨level.price, level.amount, exchangeId⟩

def Level.raw (level : Level) : RawLevel := ⟨level.price, level.amount⟩

@[simp]
theorem RawLevel.raw_at (level : RawLevel) (exchangeId : ExchangeId) :
    (level.at exchangeId).raw = level := rfl

/-- The levels of a slice, with the exchange stamped onto them. -/
def TaggedSlice.stamped (slice : TaggedSlice) : List Level :=
  slice.levels.map (·.at slice.exchangeId)

/-- A comparator of levels that does not look at the exchange. -/
def onRaw (cmp : RawLevel → RawLevel → Ordering) (a b : Level) : Ordering := cmp a.raw b.raw

instance {cmp : RawLevel → RawLevel → Ordering} [TransCmp cmp] : TransCmp (onRaw cmp) where
  eq_swap {a b} := @OrientedCmp.eq_swap _ cmp _ a.raw b.raw
  isLE_trans {a b c} := @TransCmp.isLE_trans _ cmp _ a.raw b.raw c.raw

theorem TaggedSlice.ordered_stamped {slice : TaggedSlice} {cmp : RawLevel → RawLevel → Ordering}
    (h : Ordered cmp slice.levels) : Ordered (onRaw cmp) slice.stamped :=
  List.pairwise_map.mpr h

namespace mergeTopN

variable {slices : List TaggedSlice} {cmp : RawLevel → RawLevel → Ordering}

def remaining (cursors : Fin slices.length → Nat) (i : Fin slices.length) : List Level :=
  (slices.get i).stamped.drop (cursors i)

theorem head?_remaining (cursors : Fin slices.length → Nat) (i : Fin slices.length) :
    (remaining cursors i).head?
      = (current slices cursors i).map (·.at (slices.get i).exchangeId) := by
  rw [remaining, current, List.head?_drop, TaggedSlice.stamped, List.getElem?_map]

theorem remaining_eq_nil {cursors : Fin slices.length → Nat} {i : Fin slices.length}
    (h : current slices cursors i = none) : remaining cursors i = [] := by
  rw [← List.head?_eq_none_iff, head?_remaining, h]
  rfl

theorem remaining_eq_cons {cursors : Fin slices.length → Nat} {i : Fin slices.length}
    {raw : RawLevel} (h : current slices cursors i = some raw) :
    remaining cursors i = raw.at (slices.get i).exchangeId
      :: remaining (Function.update cursors i (cursors i + 1)) i := by
  have hhead := head?_remaining cursors i
  rw [h, Option.map_some, List.head?_eq_some_iff] at hhead
  obtain ⟨tail, htail⟩ := hhead
  have hdrop : remaining (Function.update cursors i (cursors i + 1)) i = tail := by
    rw [remaining, Function.update_self, ← List.tail_drop, ← remaining, htail, List.tail_cons]
  rw [htail, hdrop]

theorem remaining_update_of_ne {cursors : Fin slices.length → Nat} {i j : Fin slices.length}
    (h : j ≠ i) (n : Nat) : remaining (Function.update cursors i n) j = remaining cursors j := by
  rw [remaining, remaining, Function.update_of_ne h]

/-- What holds of the levels under the cursors holds of the heads of what is left. -/
theorem forall_head_remaining {cursors : Fin slices.length → Nat} {is : List (Fin slices.length)}
    {P : RawLevel → Prop} (h : ∀ i ∈ is, ∀ other ∈ current slices cursors i, P other) :
    ∀ l ∈ is.map (remaining cursors), ∀ y ∈ l.head?, P y.raw := by
  intro l hl y hy
  obtain ⟨i, hi, rfl⟩ := List.mem_map.mp hl
  rw [head?_remaining, Option.mem_def, Option.map_eq_some_iff] at hy
  obtain ⟨other, hother, rfl⟩ := hy
  exact h i hi other hother

/-- The best of the slices seen so far: less than what it came after, no greater than what came
after it. -/
def Best (cmp : RawLevel → RawLevel → Ordering) (cursors : Fin slices.length → Nat)
    (seen : List (Fin slices.length)) : Option (Fin slices.length × RawLevel) → Prop
  | none => ∀ i ∈ seen, current slices cursors i = none
  | some (b, level) => current slices cursors b = some level
    ∧ ∃ before after, seen = before ++ b :: after
      ∧ (∀ i ∈ before, ∀ other ∈ current slices cursors i, cmp level other = .lt)
      ∧ (∀ i ∈ after, ∀ other ∈ current slices cursors i, Le cmp level other)

namespace Best

variable {cursors : Fin slices.length → Nat} {seen : List (Fin slices.length)}
  {i b : Fin slices.length} {level raw : RawLevel}

theorem pass (h : Best cmp cursors seen none) (hcurrent : current slices cursors i = none) :
    Best cmp cursors (seen ++ [i]) none := by
  intro j hj
  rcases List.mem_append.mp hj with hj | hj
  · exact h j hj
  · rwa [List.mem_singleton.mp hj]

theorem first (h : Best cmp cursors seen none) (hcurrent : current slices cursors i = some raw) :
    Best cmp cursors (seen ++ [i]) (some (i, raw)) := by
  refine ⟨hcurrent, seen, [], rfl, fun j hj other hother => ?_, by simp⟩
  rw [h j hj] at hother
  simp at hother

theorem stay (h : Best cmp cursors seen (some (b, level)))
    (hle : ∀ other ∈ current slices cursors i, Le cmp level other) :
    Best cmp cursors (seen ++ [i]) (some (b, level)) := by
  obtain ⟨hlevel, before, after, rfl, hbefore, hafter⟩ := h
  refine ⟨hlevel, before, after ++ [i], by simp, hbefore, fun j hj => ?_⟩
  rcases List.mem_append.mp hj with hj | hj
  · exact hafter j hj
  · rwa [List.mem_singleton.mp hj]

/-- A level less than the best is less than all that were seen. -/
theorem replace [TransCmp cmp] (h : Best cmp cursors seen (some (b, level)))
    (hcurrent : current slices cursors i = some raw) (hlt : cmp raw level = .lt) :
    Best cmp cursors (seen ++ [i]) (some (i, raw)) := by
  obtain ⟨hlevel, before, after, rfl, hbefore, hafter⟩ := h
  refine ⟨hcurrent, before ++ b :: after, [], rfl, fun j hj other hother => ?_, by simp⟩
  rcases List.mem_append.mp hj with hj | hj
  · exact TransCmp.lt_trans hlt (hbefore j hj other hother)
  rcases List.mem_cons.mp hj with rfl | hj
  · rw [hlevel, Option.mem_some_iff] at hother
    exact hother ▸ hlt
  · exact lt_of_lt_of_le hlt (hafter j hj other hother)

end Best

theorem best_consider [TransCmp cmp] {cursors : Fin slices.length → Nat}
    {seen : List (Fin slices.length)} {best : Option (Fin slices.length × RawLevel)}
    (h : Best cmp cursors seen best) (i : Fin slices.length) :
    Best cmp cursors (seen ++ [i]) (consider slices cmp cursors best i) := by
  unfold consider
  cases hcurrent : current slices cursors i with
  | none =>
      rcases best with _ | ⟨b, level⟩
      · exact h.pass hcurrent
      · exact h.stay (by simp [hcurrent])
  | some raw =>
      rcases best with _ | ⟨b, level⟩
      · exact h.first hcurrent
      · dsimp only
        by_cases hlt : cmp raw level = .lt
        · rw [if_pos (by rw [hlt]; rfl)]
          exact h.replace hcurrent hlt
        · rw [if_neg (by simpa using hlt)]
          refine h.stay fun other hother => ?_
          rw [hcurrent, Option.mem_some_iff] at hother
          exact hother ▸ le_of_not_lt hlt

theorem best_select_of_consider {order : RawLevel → RawLevel → Ordering}
    {cursors : Fin slices.length → Nat}
    (hconsider : ∀ {seen best}, Best order cursors seen best →
      ∀ i, Best order cursors (seen ++ [i]) (consider slices cmp cursors best i)) :
    Best order cursors (List.finRange slices.length) (select slices cmp cursors) := by
  unfold select
  generalize List.finRange slices.length = seen
  induction seen using List.reverseRecOn with
  | nil => simp [Best]
  | append_singleton seen i ih =>
      rw [List.foldl_append]
      exact hconsider ih i

theorem best_select [TransCmp cmp] (cursors : Fin slices.length → Nat) :
    Best cmp cursors (List.finRange slices.length) (select slices cmp cursors) :=
  best_select_of_consider best_consider

/-- **The outer loop is a k-way merge** of what the cursors leave, as far as there is room. It merges
in every order in which the inner loop finds the best level. -/
theorem exists_kWayMerge_of_loop {order : RawLevel → RawLevel → Ordering}
    (hselects : ∀ cursors, Best order cursors (List.finRange slices.length)
      (select slices cmp cursors)) (n : Nat) (cursors : Fin slices.length → Nat)
    (result : ArrayVec Level depth) :
    ∃ out, KWayMerge (onRaw order) (min n (depth - result.len))
        ((List.finRange slices.length).map (remaining cursors)) out
      ∧ (loop slices cmp n cursors result).toList = result.toList ++ out := by
  induction n generalizing cursors result with
  | zero => exact ⟨[], by rw [Nat.zero_min]; exact .stop, by simp [loop]⟩
  | succ n ih =>
      rw [loop]
      have hbest := hselects cursors
      rcases hselect : select slices cmp cursors with _ | ⟨b, raw⟩
      · rw [hselect] at hbest
        refine ⟨[], .exhausted fun l hl => ?_, by simp⟩
        obtain ⟨i, hi, rfl⟩ := List.mem_map.mp hl
        exact remaining_eq_nil (hbest i hi)
      · rw [hselect] at hbest
        obtain ⟨hraw, before, after, hsplit, hbefore, hafter⟩ := hbest
        dsimp only
        cases hpush : result.tryPush ⟨raw.price, raw.amount, (slices.get b).exchangeId⟩ with
        | none =>
            have hfull : result.len = depth := ArrayVec.tryPush_eq_none_iff.mp hpush
            refine ⟨[], ?_, by simp⟩
            rw [hfull, Nat.sub_self, Nat.min_zero]
            exact .stop
        | some result' =>
            obtain ⟨hroom, hresult'⟩ := ArrayVec.tryPush_eq_some_iff.mp hpush
            have hlen : result'.len = result.len + 1 := by
              rw [ArrayVec.len, hresult', List.length_append]
              rfl
            obtain ⟨out, hmerge, hout⟩ := ih (Function.update cursors b (cursors b + 1)) result'
            refine ⟨raw.at (slices.get b).exchangeId :: out, ?_, ?_⟩
            · have hcount : min (n + 1) (depth - result.len) = min n (depth - result'.len) + 1 := by
                have : result.len < depth := hroom
                omega
              have hnodup := List.nodup_finRange slices.length
              rw [hsplit, List.nodup_append, List.nodup_cons] at hnodup
              have hbeforeNe : ∀ i ∈ before, i ≠ b := fun i hi heq =>
                hnodup.2.2 i hi b List.mem_cons_self heq
              have hafterNe : ∀ i ∈ after, i ≠ b := fun i hi heq => hnodup.2.1.1 (heq ▸ hi)
              rw [hsplit, List.map_append, List.map_cons] at hmerge ⊢
              rw [List.map_congr_left fun i hi => remaining_update_of_ne (hbeforeNe i hi) _,
                List.map_congr_left fun i hi => remaining_update_of_ne (hafterNe i hi) _] at hmerge
              rw [hcount, remaining_eq_cons hraw]
              exact .emit (forall_head_remaining hbefore) (forall_head_remaining hafter) hmerge
            · rw [hout, hresult', List.append_assoc]
              rfl

theorem map_remaining_zero :
    (List.finRange slices.length).map (remaining fun _ => 0) = slices.map TaggedSlice.stamped := by
  have hget : remaining (fun _ => 0) = fun i : Fin slices.length => (slices.get i).stamped := rfl
  rw [hget, ← Function.comp_def TaggedSlice.stamped, ← List.map_map, List.map_get_finRange]

end mergeTopN

/-- Whatever the slices, what is merged from them is a k-way merge. -/
theorem kWayMerge_mergeTopN (slices : ArrayVec TaggedSlice maxExchanges)
    (cmp : RawLevel → RawLevel → Ordering) [TransCmp cmp] (n : Nat) :
    KWayMerge (onRaw cmp) (min n depth) (slices.toList.map TaggedSlice.stamped)
      (mergeTopN slices cmp n).toList := by
  obtain ⟨out, hmerge, hout⟩ :=
    mergeTopN.exists_kWayMerge_of_loop (@mergeTopN.best_select slices.toList cmp _) n (fun _ => 0)
      .empty
  rw [mergeTopN.map_remaining_zero] at hmerge
  rw [mergeTopN, hout]
  exact hmerge

/-- **Merging is concatenating and sorting.** -/
theorem toList_mergeTopN (slices : ArrayVec TaggedSlice maxExchanges)
    {cmp : RawLevel → RawLevel → Ordering} [TransCmp cmp]
    (hordered : ∀ slice ∈ slices.toList, Ordered cmp slice.levels) (n : Nat) :
    (mergeTopN slices cmp n).toList
      = (stableSort (onRaw cmp) (slices.toList.flatMap TaggedSlice.stamped)).take (min n depth) := by
  have hstamped : ∀ l ∈ slices.toList.map TaggedSlice.stamped, Ordered (onRaw cmp) l := by
    intro l hl
    obtain ⟨slice, hslice, rfl⟩ := List.mem_map.mp hl
    exact TaggedSlice.ordered_stamped (hordered slice hslice)
  rw [(kWayMerge_mergeTopN slices cmp n).eq_take_stableSort hstamped]
  rfl

/-! ### The two sides -/

instance : TransCmp bidCmp :=
  inferInstanceAs <| TransCmp <| compareLex
    (fun a b : RawLevel => compareOn (fun level : RawLevel => level.price.raw) b a)
    (fun a b : RawLevel => compareOn (fun level : RawLevel => level.amount.raw) b a)

instance : TransCmp askCmp :=
  inferInstanceAs <| TransCmp <| compareLex
    (compareOn fun level : RawLevel => level.price.raw)
    (fun a b : RawLevel => compareOn (fun level : RawLevel => level.amount.raw) b a)

/-- Ties go to the lower exchange. -/
def byExchange (cmp : RawLevel → RawLevel → Ordering) (a b : Level) : Ordering :=
  (onRaw cmp a b).then (compare a.exchangeId b.exchangeId)

instance {cmp : RawLevel → RawLevel → Ordering} [TransCmp cmp] : TransCmp (byExchange cmp) :=
  inferInstanceAs <| TransCmp <| compareLex (onRaw cmp)
    (compareOn fun level : Level => level.exchangeId)

/-- Where exchanges come in order, sorting by exchange last and sorting stably are the same. -/
theorem stableSort_byExchange {cmp : RawLevel → RawLevel → Ordering} [TransCmp cmp]
    {levels : List Level} (hexchanges : levels.Pairwise fun a b => a.exchangeId ≤ b.exchangeId) :
    stableSort (onRaw cmp) levels = stableSort (byExchange cmp) levels := by
  refine stableSort_congr (hexchanges.imp fun {a b} hle => ?_)
  unfold Le byExchange
  rw [Ordering.isLE_then_iff_and]
  have hexchange : (compare a.exchangeId b.exchangeId).isLE := isLE_compare.mpr hle
  simp [hexchange]

/-- Strictly descending bids and strictly ascending asks. -/
structure OrderBook.Strict (book : OrderBook) : Prop where
  bids : book.bids.toList.Pairwise fun a b => b.price.raw < a.price.raw
  asks : book.asks.toList.Pairwise fun a b => a.price.raw < b.price.raw

instance : DecidablePred OrderBook.Strict := fun book =>
  decidable_of_iff ((book.bids.toList.Pairwise fun a b => b.price.raw < a.price.raw)
    ∧ book.asks.toList.Pairwise fun a b => a.price.raw < b.price.raw)
    ⟨fun h => ⟨h.1, h.2⟩, fun h => ⟨h.bids, h.asks⟩⟩

theorem bidCmp_eq_lt {a b : RawLevel} (h : b.price.raw < a.price.raw) : bidCmp a b = .lt := by
  have hprice : b.price.cmp a.price = .lt := compare_lt_iff_lt.mpr h
  rw [bidCmp, hprice]
  rfl

theorem askCmp_eq_lt {a b : RawLevel} (h : a.price.raw < b.price.raw) : askCmp a b = .lt := by
  have hprice : a.price.cmp b.price = .lt := compare_lt_iff_lt.mpr h
  rw [askCmp, hprice]
  rfl

theorem OrderBook.Strict.ordered_bids {book : OrderBook} (h : book.Strict) :
    Ordered bidCmp book.bids.toList :=
  h.bids.imp fun hlt => le_of_lt (bidCmp_eq_lt hlt)

theorem OrderBook.Strict.ordered_asks {book : OrderBook} (h : book.Strict) :
    Ordered askCmp book.asks.toList :=
  h.asks.imp fun hlt => le_of_lt (askCmp_eq_lt hlt)

namespace BookStore

/-- All bids, in the order of the exchanges. -/
def allBids (store : BookStore) : List Level :=
  store.iter.flatMap fun book => book.bids.toList.map (·.at book.exchangeId)

/-- All asks, in the order of the exchanges. -/
def allAsks (store : BookStore) : List Level :=
  store.iter.flatMap fun book => book.asks.toList.map (·.at book.exchangeId)

theorem mem_iter {store : BookStore} {book : OrderBook} :
    book ∈ store.iter ↔ ∃ i, store.books i = some book := by
  simp [iter, List.mem_filterMap]

theorem iter_pairwise (store : BookStore) :
    store.iter.Pairwise fun a b => a.exchangeId ≤ b.exchangeId := by
  refine List.Pairwise.filterMap store.books ?_ (List.pairwise_lt_finRange maxExchanges)
  intro i j hij a ha b hb
  rw [UInt8.le_iff_toNat_le, store.owner i a ha, store.owner j b hb]
  exact Nat.le_of_lt hij

theorem pairwise_flatMap_at (store : BookStore) (side : OrderBook → List RawLevel) :
    (store.iter.flatMap fun book => (side book).map (·.at book.exchangeId)).Pairwise
      fun a b => a.exchangeId ≤ b.exchangeId := by
  rw [List.pairwise_flatMap]
  constructor
  · intro book _
    exact List.pairwise_map.mpr (List.pairwise_of_forall fun _ _ => UInt8.le_refl _)
  · refine store.iter_pairwise.imp fun {a b} hle x hx y hy => ?_
    obtain ⟨_, _, rfl⟩ := List.mem_map.mp hx
    obtain ⟨_, _, rfl⟩ := List.mem_map.mp hy
    exact hle

end BookStore

theorem toList_pushSlice {slices : ArrayVec TaggedSlice maxExchanges} {slice : TaggedSlice}
    (hroom : slices.len < maxExchanges) :
    (pushSlice slices slice).toList = slices.toList ++ [slice] := by
  have hroom : slices.toList.length < maxExchanges := hroom
  rw [pushSlice, ArrayVec.tryPush, dif_pos hroom]
  rfl

/-- As long as the slices fit, none is lost. -/
theorem toList_foldl_pushSlice (bids asks : OrderBook → TaggedSlice) (books : List OrderBook)
    (slices : ArrayVec TaggedSlice maxExchanges × ArrayVec TaggedSlice maxExchanges)
    (hroom : slices.1.len + books.length ≤ maxExchanges)
    (hroom' : slices.2.len + books.length ≤ maxExchanges) :
    ∃ out : ArrayVec TaggedSlice maxExchanges × ArrayVec TaggedSlice maxExchanges,
      books.foldl (fun slices book =>
        (pushSlice slices.1 (bids book), pushSlice slices.2 (asks book))) slices = out
      ∧ out.1.toList = slices.1.toList ++ books.map bids
      ∧ out.2.toList = slices.2.toList ++ books.map asks := by
  induction books generalizing slices with
  | nil => exact ⟨slices, rfl, by simp, by simp⟩
  | cons book books ih =>
      rw [List.length_cons] at hroom hroom'
      have hpush := @toList_pushSlice slices.1 (bids book) (by omega)
      have hpush' := @toList_pushSlice slices.2 (asks book) (by omega)
      have hlen : (pushSlice slices.1 (bids book)).len = slices.1.len + 1 := by
        rw [ArrayVec.len, hpush, List.length_append]
        rfl
      have hlen' : (pushSlice slices.2 (asks book)).len = slices.2.len + 1 := by
        rw [ArrayVec.len, hpush', List.length_append]
        rfl
      obtain ⟨out, hfold, hbids, hasks⟩ :=
        ih (pushSlice slices.1 (bids book), pushSlice slices.2 (asks book)) (by rw [hlen]; omega)
          (by rw [hlen']; omega)
      refine ⟨out, hfold, ?_, ?_⟩
      · rw [hbids, hpush, List.append_assoc]
        rfl
      · rw [hasks, hpush', List.append_assoc]
        rfl

/-- The two sides of a merge are merges of the sides. -/
theorem exists_slices_of_merge (store : BookStore) :
    ∃ bids asks : ArrayVec TaggedSlice maxExchanges,
      bids.toList = store.iter.map (fun book => ⟨book.exchangeId, book.bids.toList⟩)
      ∧ asks.toList = store.iter.map (fun book => ⟨book.exchangeId, book.asks.toList⟩)
      ∧ (merge store).bids = mergeTopN bids bidCmp depth
      ∧ (merge store).asks = mergeTopN asks askCmp depth := by
  have hroom : (ArrayVec.empty : ArrayVec TaggedSlice maxExchanges).len + store.iter.length
      ≤ maxExchanges := by
    rw [ArrayVec.len, ArrayVec.toList_empty, List.length_nil, Nat.zero_add]
    exact store.iter_length_le
  obtain ⟨⟨bids, asks⟩, hfold, hbids, hasks⟩ := toList_foldl_pushSlice
    (fun book => ⟨book.exchangeId, book.bids.toList⟩)
    (fun book => ⟨book.exchangeId, book.asks.toList⟩) store.iter (.empty, .empty) hroom hroom
  refine ⟨bids, asks, hbids, hasks, ?_, ?_⟩
  · rw [merge, hfold]
  · rw [merge, hfold]

/-- Every level of a merge is a level of the book whose exchange it carries. -/
theorem mem_mergeTopN {store : BookStore} {slices : ArrayVec TaggedSlice maxExchanges}
    {cmp : RawLevel → RawLevel → Ordering} [TransCmp cmp] {side : OrderBook → List RawLevel}
    (hslices : slices.toList = store.iter.map fun book => ⟨book.exchangeId, side book⟩) {n : Nat}
    {level : Level} (hlevel : level ∈ (mergeTopN slices cmp n).toList) :
    ∃ i book, store.books i = some book ∧ level.exchangeId.toNat = i.val
      ∧ level.raw ∈ side book := by
  obtain ⟨stamped, hstamped, hmem⟩ := (kWayMerge_mergeTopN slices cmp n).mem_of_mem hlevel
  rw [hslices, List.map_map] at hstamped
  obtain ⟨book, hbook, rfl⟩ := List.mem_map.mp hstamped
  obtain ⟨raw, hraw, rfl⟩ := List.mem_map.mp hmem
  obtain ⟨i, hi⟩ := BookStore.mem_iter.mp hbook
  exact ⟨i, book, hi, store.owner i book hi, hraw⟩

theorem mem_merge_bids {store : BookStore} {level : Level}
    (hlevel : level ∈ (merge store).bids.toList) :
    ∃ i book, store.books i = some book ∧ level.exchangeId.toNat = i.val
      ∧ level.raw ∈ book.bids.toList := by
  obtain ⟨bids, -, hslices, -, hmerge, -⟩ := exists_slices_of_merge store
  rw [hmerge] at hlevel
  exact mem_mergeTopN hslices hlevel

theorem mem_merge_asks {store : BookStore} {level : Level}
    (hlevel : level ∈ (merge store).asks.toList) :
    ∃ i book, store.books i = some book ∧ level.exchangeId.toNat = i.val
      ∧ level.raw ∈ book.asks.toList := by
  obtain ⟨-, asks, -, hslices, -, hmerge⟩ := exists_slices_of_merge store
  rw [hmerge] at hlevel
  exact mem_mergeTopN hslices hlevel

/-- **The merge of strict books** is the top of all levels, best price first, then largest amount,
then lowest exchange. -/
theorem merge_eq_take (store : BookStore) (hstrict : ∀ book ∈ store.iter, book.Strict) :
    (merge store).bids.toList = (stableSort (byExchange bidCmp) store.allBids).take depth
      ∧ (merge store).asks.toList = (stableSort (byExchange askCmp) store.allAsks).take depth := by
  obtain ⟨bids, asks, hbids, hasks, hmergeBids, hmergeAsks⟩ := exists_slices_of_merge store
  constructor
  · rw [hmergeBids, toList_mergeTopN, hbids, List.flatMap_map, Nat.min_self]
    · exact congrArg _ (stableSort_byExchange (store.pairwise_flatMap_at fun book => book.bids.toList))
    · intro slice hslice
      rw [hbids] at hslice
      obtain ⟨book, hbook, rfl⟩ := List.mem_map.mp hslice
      exact (hstrict book hbook).ordered_bids
  · rw [hmergeAsks, toList_mergeTopN, hasks, List.flatMap_map, Nat.min_self]
    · exact congrArg _ (stableSort_byExchange (store.pairwise_flatMap_at fun book => book.asks.toList))
    · intro slice hslice
      rw [hasks] at hslice
      obtain ⟨book, hbook, rfl⟩ := List.mem_map.mp hslice
      exact (hstrict book hbook).ordered_asks

/-- **K-way merge equals concat-and-sort**, for the slices by themselves and for the sides of a
store. -/
theorem merge_sorts (slices : ArrayVec TaggedSlice maxExchanges)
    {cmp : RawLevel → RawLevel → Ordering} [TransCmp cmp]
    (hordered : ∀ slice ∈ slices.toList, Ordered cmp slice.levels) (n : Nat)
    (store : BookStore) (hstrict : ∀ book ∈ store.iter, book.Strict) :
    (mergeTopN slices cmp n).toList
        = (stableSort (onRaw cmp) (slices.toList.flatMap TaggedSlice.stamped)).take (min n depth)
      ∧ (merge store).bids.toList = (stableSort (byExchange bidCmp) store.allBids).take depth
      ∧ (merge store).asks.toList = (stableSort (byExchange askCmp) store.allAsks).take depth :=
  ⟨toList_mergeTopN slices hordered n, merge_eq_take store hstrict⟩

def FixedPoint.ofUInt32 (n : UInt32) : FixedPoint :=
  ⟨n.toNat, n.toNat_lt.trans (by decide)⟩

/-- Two slices with a tie, the second of them with one level more. -/
def tiedSlices : ArrayVec TaggedSlice maxExchanges :=
  ⟨[⟨0, [⟨.ofUInt32 5, .ofUInt32 2⟩]⟩,
    ⟨1, [⟨.ofUInt32 5, .ofUInt32 2⟩, ⟨.ofUInt32 7, .ofUInt32 1⟩]⟩], by decide⟩

/-- A store with one strict book. -/
def oneBookStore : BookStore :=
  BookStore.new.insert
    { exchangeId := 1
      bids := ⟨[⟨.ofUInt32 4, .ofUInt32 1⟩, ⟨.ofUInt32 3, .ofUInt32 1⟩], by decide⟩
      asks := ⟨[⟨.ofUInt32 5, .ofUInt32 2⟩, ⟨.ofUInt32 7, .ofUInt32 1⟩], by decide⟩
      decodeStart := 0 }

theorem oneBookStore_strict : ∀ book ∈ oneBookStore.iter, book.Strict := by
  decide +kernel

theorem merge_sorts_tied :
    (mergeTopN tiedSlices askCmp 2).toList
        = (stableSort (onRaw askCmp) (tiedSlices.toList.flatMap TaggedSlice.stamped)).take 2
      ∧ (merge oneBookStore).bids.toList
        = (stableSort (byExchange bidCmp) oneBookStore.allBids).take depth
      ∧ (merge oneBookStore).asks.toList
        = (stableSort (byExchange askCmp) oneBookStore.allAsks).take depth :=
  merge_sorts tiedSlices (by decide +kernel) 2 oneBookStore oneBookStore_strict

end OrderbookAggregator
