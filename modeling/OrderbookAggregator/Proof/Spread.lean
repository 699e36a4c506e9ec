import OrderbookAggregator.Proof.Merge

/-!
# The spread

The spread is computed on `i64`, from prices that are `u64`. It is the difference of the best prices
as long as both fit into an `i64`, and also, by the way the bits are read, when neither does.
-/

namespace OrderbookAggregator

open Merging Std

/-! ### Signed words -/

/-- Whether a subtraction on `i64` does not overflow. -/
def FitsI64 (x : Int) : Prop := -2 ^ 63 ≤ x ∧ x < 2 ^ 63

instance (x : Int) : Decidable (FitsI64 x) := inferInstanceAs (Decidable (_ ∧ _))

theorem FitsI64.bmod_eq {x : Int} (h : FitsI64 x) : x.bmod (2 ^ 64) = x := by
  obtain ⟨hlower, hupper⟩ := h
  exact Int.bmod_eq_of_le (by norm_num; omega) (by norm_num; omega)

theorem asI64_of_lt {a : Nat} (h : a < 2 ^ 63) : asI64 a = a := by
  have hfits : FitsI64 a := ⟨by omega, by omega⟩
  exact hfits.bmod_eq

theorem asI64_of_le {a : Nat} (h : 2 ^ 63 ≤ a) (ha : a < 2 ^ 64) : asI64 a = a - 2 ^ 64 := by
  have hfits : FitsI64 (a - 2 ^ 64) := ⟨by omega, by omega⟩
  have hshift : ((a : Int) - 2 ^ 64).bmod (2 ^ 64) = asI64 a := Int.sub_bmod_right _ _
  rw [← hshift, hfits.bmod_eq]

theorem wrappingSubI64_of_fits {a b : Int} (h : FitsI64 (a - b)) : wrappingSubI64 a b = a - b := by
  exact h.bmod_eq

/-- Two prices are subtracted right exactly if both fit into an `i64` or neither does. -/
theorem wrappingSubI64_asI64_iff {a b : Nat} (ha : a < 2 ^ 64) (hb : b < 2 ^ 64) :
    FitsI64 (asI64 a - asI64 b) ∧ wrappingSubI64 (asI64 a) (asI64 b) = a - b
      ↔ (a < 2 ^ 63 ↔ b < 2 ^ 63) := by
  have hwrap (h : FitsI64 (asI64 a - asI64 b)) := wrappingSubI64_of_fits h
  rcases Nat.lt_or_ge a (2 ^ 63) with hasmall | habig <;>
    rcases Nat.lt_or_ge b (2 ^ 63) with hbsmall | hbbig
  · rw [asI64_of_lt hasmall, asI64_of_lt hbsmall] at hwrap ⊢
    have hfits : FitsI64 (a - b) := ⟨by omega, by omega⟩
    exact iff_of_true ⟨hfits, hwrap hfits⟩ (iff_of_true hasmall hbsmall)
  · rw [asI64_of_lt hasmall, asI64_of_le hbbig hb] at hwrap ⊢
    refine iff_of_false ?_ (by omega)
    rintro ⟨hfits, heq⟩
    have := hwrap hfits
    omega
  · rw [asI64_of_le habig ha, asI64_of_lt hbsmall] at hwrap ⊢
    refine iff_of_false ?_ (by omega)
    rintro ⟨hfits, heq⟩
    have := hwrap hfits
    omega
  · rw [asI64_of_le habig ha, asI64_of_le hbbig hb] at hwrap ⊢
    have hfits : FitsI64 (a - 2 ^ 64 - (b - 2 ^ 64)) := ⟨by omega, by omega⟩
    refine iff_of_true ⟨hfits, (hwrap hfits).trans (by omega)⟩ (iff_of_false (by omega) (by omega))

/-! ### The best prices -/

namespace BookStore

/-- The lowest of the asks that the books begin with. -/
def bestAsk (store : BookStore) : Option Nat :=
  (store.iter.filterMap fun book => book.asks.toList.head?.map (·.price.raw)).min?

/-- The highest of the bids that the books begin with. -/
def bestBid (store : BookStore) : Option Nat :=
  (store.iter.filterMap fun book => book.bids.toList.head?.map (·.price.raw)).max?

end BookStore

theorem price_le_of_askCmp {a b : RawLevel} (h : Le askCmp a b) : a.price.raw ≤ b.price.raw := by
  by_contra hlt
  exact not_le_of_lt (askCmp_eq_lt (Nat.lt_of_not_le hlt)) h

theorem price_le_of_bidCmp {a b : RawLevel} (h : Le bidCmp a b) : b.price.raw ≤ a.price.raw := by
  by_contra hlt
  exact not_le_of_lt (bidCmp_eq_lt (Nat.lt_of_not_le hlt)) h

/-- A merged side begins with a level that one of the books begins with, and that is no worse than
what the others begin with. -/
theorem head_of_side {cmp : RawLevel → RawLevel → Ordering} [TransCmp cmp] {store : BookStore}
    {side : OrderBook → List RawLevel} {slices : ArrayVec TaggedSlice maxExchanges}
    (hslices : slices.toList = store.iter.map fun book => ⟨book.exchangeId, side book⟩) :
    ((mergeTopN slices cmp depth).toList.head? = none ∧ ∀ book ∈ store.iter, side book = [])
    ∨ ∃ level, (mergeTopN slices cmp depth).toList.head? = some level
      ∧ (∃ book ∈ store.iter, (side book).head? = some level.raw)
      ∧ ∀ book ∈ store.iter, ∀ other ∈ (side book).head?, Le cmp level.raw other := by
  have hmerge := kWayMerge_mergeTopN slices cmp depth
  rw [hslices, Nat.min_self, List.map_map] at hmerge
  cases hhead : (mergeTopN slices cmp depth).toList.head? with
  | none =>
      refine Or.inl ⟨rfl, fun book hbook => ?_⟩
      have hnil := hmerge.head?_eq_none hhead _ (List.mem_map_of_mem hbook)
      exact List.map_eq_nil_iff.mp hnil
  | some level =>
      obtain ⟨⟨l, hl, hlevel⟩, hle⟩ := hmerge.head?_eq_some hhead
      refine Or.inr ⟨level, rfl, ?_, fun book hbook other hother => ?_⟩
      · obtain ⟨book, hbook, rfl⟩ := List.mem_map.mp hl
        refine ⟨book, hbook, ?_⟩
        rw [Function.comp_apply, TaggedSlice.stamped, List.head?_map,
          Option.map_eq_some_iff] at hlevel
        obtain ⟨raw, hraw, rfl⟩ := hlevel
        exact hraw
      · refine hle _ (List.mem_map_of_mem hbook) (other.at book.exchangeId) ?_
        rw [Function.comp_apply, TaggedSlice.stamped, List.head?_map, hother]
        rfl

theorem head?_asks (store : BookStore) :
    (merge store).asks.toList.head?.map (·.price.raw) = store.bestAsk := by
  obtain ⟨-, asks, -, hslices, -, hmerge⟩ := exists_slices_of_merge store
  rw [hmerge]
  symm
  rcases @head_of_side askCmp _ _ _ _ hslices with ⟨hnone, hempty⟩ | ⟨level, hsome, ⟨book, hbook, hlevel⟩, hle⟩
  · rw [hnone, Option.map_none, BookStore.bestAsk, List.min?_eq_none_iff, List.filterMap_eq_nil_iff]
    intro book hbook
    rw [hempty book hbook]
    rfl
  · rw [hsome, Option.map_some, BookStore.bestAsk, List.min?_eq_some_iff]
    constructor
    · exact List.mem_filterMap.mpr ⟨book, hbook, by rw [hlevel]; rfl⟩
    · intro price hprice
      obtain ⟨book', hbook', hprice⟩ := List.mem_filterMap.mp hprice
      obtain ⟨other, hother, rfl⟩ := Option.map_eq_some_iff.mp hprice
      exact price_le_of_askCmp (hle book' hbook' other hother)

theorem head?_bids (store : BookStore) :
    (merge store).bids.toList.head?.map (·.price.raw) = store.bestBid := by
  obtain ⟨bids, -, hslices, -, hmerge, -⟩ := exists_slices_of_merge store
  rw [hmerge]
  symm
  rcases @head_of_side bidCmp _ _ _ _ hslices with ⟨hnone, hempty⟩ | ⟨level, hsome, ⟨book, hbook, hlevel⟩, hle⟩
  · rw [hnone, Option.map_none, BookStore.bestBid, List.max?_eq_none_iff, List.filterMap_eq_nil_iff]
    intro book hbook
    rw [hempty book hbook]
    rfl
  · rw [hsome, Option.map_some, BookStore.bestBid, List.max?_eq_some_iff]
    constructor
    · exact List.mem_filterMap.mpr ⟨book, hbook, by rw [hlevel]; rfl⟩
    · intro price hprice
      obtain ⟨book', hbook', hprice⟩ := List.mem_filterMap.mp hprice
      obtain ⟨other, hother, rfl⟩ := Option.map_eq_some_iff.mp hprice
      exact price_le_of_bidCmp (hle book' hbook' other hother)

/-- The spread is computed without overflow and is best ask minus best bid, or zero when a side is
empty. -/
def SpreadExact (store : BookStore) : Prop :=
  match (merge store).asks.toList.head?, (merge store).bids.toList.head? with
  | some ask, some bid =>
    FitsI64 (asI64 ask.price.raw - asI64 bid.price.raw)
    ∧ (merge store).spreadRaw = ask.price.raw - bid.price.raw
  | _, _ => (merge store).spreadRaw = 0

theorem spreadRaw_eq (store : BookStore) :
    (merge store).spreadRaw
      = match (merge store).asks.toList.head?, (merge store).bids.toList.head? with
        | some ask, some bid => wrappingSubI64 (asI64 ask.price.raw) (asI64 bid.price.raw)
        | _, _ => 0 := rfl

/-- **When the spread is exact**: if a side is empty, or the best ask and the best bid both fit into
an `i64`, or neither does. -/
theorem spreadExact_iff (store : BookStore) :
    SpreadExact store
      ↔ ∀ ask ∈ store.bestAsk, ∀ bid ∈ store.bestBid, (ask < 2 ^ 63 ↔ bid < 2 ^ 63) := by
  rw [SpreadExact, ← head?_asks, ← head?_bids, spreadRaw_eq]
  cases hasks : (merge store).asks.toList.head? with
  | none => simp
  | some ask =>
      cases hbids : (merge store).bids.toList.head? with
      | none => simp
      | some bid =>
          simp only [Option.map_some, Option.mem_some_iff, forall_eq']
          exact wrappingSubI64_asI64_iff ask.price.lt bid.price.lt

def lowestPrice : FixedPoint := ⟨1, by decide⟩

def highestPrice : FixedPoint := ⟨2 ^ 64 - 1, by decide⟩

/-- A book with the widest spread of all. -/
def widestStore : BookStore :=
  BookStore.new.insert
    { exchangeId := 0
      bids := ⟨[⟨lowestPrice, lowestPrice⟩], by decide⟩
      asks := ⟨[⟨highestPrice, lowestPrice⟩], by decide⟩
      decodeStart := 0 }

/-- Both prices are read from text; the spread comes out negative. -/
theorem widestStore_not_spreadExact :
    FixedPoint.parse (bytes "0.00000001") = .ok (some lowestPrice)
    ∧ FixedPoint.parse (bytes "184467440737.09551615") = .ok (some highestPrice)
    ∧ (merge widestStore).spreadRaw = -2 ∧ ¬ SpreadExact widestStore := by
  have hasks : (merge widestStore).asks.toList.head? = some ⟨highestPrice, lowestPrice, 0⟩ := by
    decide +kernel
  have hbids : (merge widestStore).bids.toList.head? = some ⟨lowestPrice, lowestPrice, 0⟩ := by
    decide +kernel
  have hspread : (merge widestStore).spreadRaw = -2 := by decide +kernel
  refine ⟨by decide +kernel, by decide +kernel, hspread, fun h => ?_⟩
  rw [SpreadExact, hasks, hbids, hspread] at h
  exact absurd h.2 (by decide +kernel)

end OrderbookAggregator
