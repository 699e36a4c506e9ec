import OrderbookAggregator.Proof.Merge

/-!
# Merging without an order

Nothing in the adapters checks that the levels of an exchange are sorted, and a comparator need not
be a preorder for the cursors to do their work. Then the merge puts the levels of different exchanges
in no order that could be stated, but it still takes every slice from the front.
-/

namespace OrderbookAggregator

open Merging

/-- The order that every list of heads respects. -/
def anyOrder (_ _ : RawLevel) : Ordering := .lt

namespace mergeTopN

variable {slices : List TaggedSlice} {cmp : RawLevel → RawLevel → Ordering}

theorem best_anyOrder_iff {cursors : Fin slices.length → Nat} {seen : List (Fin slices.length)}
    {b : Fin slices.length} {level : RawLevel} :
    Best anyOrder cursors seen (some (b, level))
      ↔ current slices cursors b = some level ∧ b ∈ seen := by
  constructor
  · rintro ⟨hlevel, before, after, rfl, -⟩
    exact ⟨hlevel, by simp⟩
  · rintro ⟨hlevel, hmem⟩
    obtain ⟨before, after, rfl⟩ := List.append_of_mem hmem
    exact ⟨hlevel, before, after, rfl, fun _ _ _ _ => rfl, fun _ _ _ _ => rfl⟩

/-- One round of the inner loop, whatever the comparator says: the best slice so far is one that has
a level left, and there is one as soon as such a slice was seen. -/
theorem best_consider_anyOrder {cursors : Fin slices.length → Nat}
    {seen : List (Fin slices.length)} {best : Option (Fin slices.length × RawLevel)}
    (h : Best anyOrder cursors seen best) (i : Fin slices.length) :
    Best anyOrder cursors (seen ++ [i]) (consider slices cmp cursors best i) := by
  have hself : ∀ level, current slices cursors i = some level →
      Best anyOrder cursors (seen ++ [i]) (some (i, level)) := by
    intro level hcurrent
    exact best_anyOrder_iff.mpr ⟨hcurrent, by simp⟩
  unfold consider
  cases hcurrent : current slices cursors i with
  | none =>
      rcases best with _ | ⟨b, level⟩
      · exact h.pass hcurrent
      · exact h.stay fun _ _ => rfl
  | some raw =>
      rcases best with _ | ⟨b, level⟩
      · exact hself raw hcurrent
      · dsimp only
        split
        · exact hself raw hcurrent
        · exact h.stay fun _ _ => rfl

theorem best_select_anyOrder (cursors : Fin slices.length → Nat) :
    Best anyOrder cursors (List.finRange slices.length) (select slices cmp cursors) :=
  best_select_of_consider best_consider_anyOrder

end mergeTopN

/-- Whatever the comparator, the slices are merged in some order. -/
theorem kWayMerge_anyOrder (slices : ArrayVec TaggedSlice maxExchanges)
    (cmp : RawLevel → RawLevel → Ordering) (n : Nat) :
    KWayMerge (onRaw anyOrder) (min n depth) (slices.toList.map TaggedSlice.stamped)
      (mergeTopN slices cmp n).toList := by
  obtain ⟨out, hmerge, hout⟩ := mergeTopN.exists_kWayMerge_of_loop
    (@mergeTopN.best_select_anyOrder slices.toList cmp) n (fun _ => 0) .empty
  rw [mergeTopN.map_remaining_zero] at hmerge
  rw [mergeTopN, hout]
  exact hmerge

/-! ### The levels of one exchange -/

theorem exchangeId_of_mem_stamped {slice : TaggedSlice} {level : Level}
    (h : level ∈ slice.stamped) : level.exchangeId = slice.exchangeId := by
  obtain ⟨raw, -, rfl⟩ := List.mem_map.mp h
  rfl

theorem apart_of_nodup {slices : List TaggedSlice} (hids : (slices.map (·.exchangeId)).Nodup)
    (id : ExchangeId) : (slices.map TaggedSlice.stamped).Pairwise fun l l' =>
      (∀ level ∈ l, ¬ level.exchangeId = id) ∨ ∀ level ∈ l', ¬ level.exchangeId = id := by
  rw [List.Nodup, List.pairwise_map] at hids
  rw [List.pairwise_map]
  refine hids.imp fun {slice slice'} hne => ?_
  by_cases hid : slice.exchangeId = id
  · refine Or.inr fun level hlevel heq => hne ?_
    rw [hid, ← heq, exchangeId_of_mem_stamped hlevel]
  · refine Or.inl fun level hlevel heq => hid ?_
    rw [← heq, exchangeId_of_mem_stamped hlevel]

/-- Among all levels, those of one exchange are its slice. -/
theorem filter_flatten_stamped {slices : List TaggedSlice}
    (hids : (slices.map (·.exchangeId)).Nodup) {slice : TaggedSlice} (hslice : slice ∈ slices) :
    (slices.map TaggedSlice.stamped).flatten.filter (·.exchangeId = slice.exchangeId)
      = slice.stamped := by
  obtain ⟨before, after, rfl⟩ := List.append_of_mem hslice
  have hothers : ∀ other ∈ before ++ after, other.exchangeId ≠ slice.exchangeId := by
    rw [List.map_append, List.map_cons, List.nodup_append, List.nodup_cons] at hids
    obtain ⟨-, ⟨hafter, -⟩, hbefore⟩ := hids
    intro other hother heq
    rcases List.mem_append.mp hother with hother | hother
    · exact hbefore _ (List.mem_map_of_mem hother) _ List.mem_cons_self heq
    · exact hafter (heq ▸ List.mem_map_of_mem hother)
  have hnone : ∀ list : List TaggedSlice, (∀ other ∈ list, other.exchangeId ≠ slice.exchangeId) →
      (list.map TaggedSlice.stamped).flatten.filter (·.exchangeId = slice.exchangeId) = [] := by
    intro list hlist
    rw [List.filter_eq_nil_iff]
    intro level hlevel
    obtain ⟨_, hmem, hlevel⟩ := List.mem_flatten.mp hlevel
    obtain ⟨other, hother, rfl⟩ := List.mem_map.mp hmem
    rw [exchangeId_of_mem_stamped hlevel]
    simpa using hlist other hother
  have hown : slice.stamped.filter (·.exchangeId = slice.exchangeId) = slice.stamped := by
    rw [List.filter_eq_self]
    intro level hlevel
    simpa using exchangeId_of_mem_stamped hlevel
  rw [List.map_append, List.map_cons, List.flatten_append, List.flatten_cons, List.filter_append,
    List.filter_append, hown, hnone before fun other h => hothers other (List.mem_append_left _ h),
    hnone after fun other h => hothers other (List.mem_append_right _ h), List.append_nil,
    List.nil_append]

/-- **Merging with any comparator.** As many levels as are asked for and there is room for come out,
or all of them. Each comes from one of the slices, and those of one exchange are the beginning of its
slice, in its order. -/
theorem mergeTopN_anyComparator (slices : ArrayVec TaggedSlice maxExchanges)
    (cmp : RawLevel → RawLevel → Ordering) (n : Nat)
    (hids : (slices.toList.map (·.exchangeId)).Nodup) :
    (mergeTopN slices cmp n).len
        = min (min n depth) (slices.toList.map (·.levels.length)).sum
      ∧ (∀ level ∈ (mergeTopN slices cmp n).toList, ∃ slice ∈ slices.toList,
        level.exchangeId = slice.exchangeId)
      ∧ ∀ slice ∈ slices.toList, ((mergeTopN slices cmp n).toList.filter
        (·.exchangeId = slice.exchangeId)).map Level.raw <+: slice.levels := by
  have hmerge := kWayMerge_anyOrder slices cmp n
  refine ⟨?_, fun level hlevel => ?_, fun slice hslice => ?_⟩
  · rw [ArrayVec.len, hmerge.length_eq, List.length_flatten, List.map_map]
    congr 2
    apply List.map_congr_left
    intro slice _
    exact List.length_map _
  · obtain ⟨_, hmem, hlevel⟩ := hmerge.mem_of_mem hlevel
    obtain ⟨slice, hslice, rfl⟩ := List.mem_map.mp hmem
    exact ⟨slice, hslice, exchangeId_of_mem_stamped hlevel⟩
  · have hprefix := hmerge.filter_prefix (apart_of_nodup hids slice.exchangeId)
    rw [filter_flatten_stamped hids hslice] at hprefix
    have hraw : slice.stamped.map Level.raw = slice.levels := by
      rw [TaggedSlice.stamped, List.map_map]
      exact List.map_id _
    rw [← hraw]
    exact hprefix.map Level.raw

/-- Two exchanges whose levels come in no order. -/
def unsortedSlices : ArrayVec TaggedSlice maxExchanges :=
  ⟨[⟨binanceId, [⟨⟨5, by norm_num⟩, ⟨1, by norm_num⟩⟩, ⟨⟨9, by norm_num⟩, ⟨2, by norm_num⟩⟩]⟩,
    ⟨bitstampId, [⟨⟨7, by norm_num⟩, ⟨3, by norm_num⟩⟩, ⟨⟨6, by norm_num⟩, ⟨4, by norm_num⟩⟩]⟩],
    by decide⟩

theorem mergeTopN_unsortedSlices :
    (mergeTopN unsortedSlices (fun _ _ => .lt) 3).len = 3
      ∧ ∀ slice ∈ unsortedSlices.toList,
        ((mergeTopN unsortedSlices (fun _ _ => .lt) 3).toList.filter
          (·.exchangeId = slice.exchangeId)).map Level.raw <+: slice.levels := by
  obtain ⟨hlen, -, hprefix⟩ :=
    mergeTopN_anyComparator unsortedSlices (fun _ _ => .lt) 3 (by decide)
  exact ⟨hlen.trans (by decide), hprefix⟩

end OrderbookAggregator
