import OrderbookAggregator.Proof.JsonLevels
import OrderbookAggregator.Proof.Merge

/-!
# Cutting every book to its depth

A reader keeps the first ten levels that count, and the merge returns ten levels. What the readers
have cut off would not have been among them.
-/

namespace OrderbookAggregator

open Merging Std Scanner

/-- Strictly better levels first: ordered, whatever breaks the ties. -/
theorem ordered_byExchange {cmp : RawLevel → RawLevel → Ordering} {levels : List RawLevel}
    (h : levels.Pairwise fun a b => cmp a b = .lt) (exchangeId : ExchangeId) :
    Ordered (byExchange cmp) (levels.map (·.at exchangeId)) := by
  refine List.pairwise_map.mpr (h.imp fun {a b} hlt => le_of_lt ?_)
  rw [byExchange, onRaw, RawLevel.raw_at, RawLevel.raw_at, hlt]
  rfl

/-- The levels that count of all exchanges, in the order of the exchanges. -/
def allNonZero (full : Fin maxExchanges → List RawLevel) : List Level :=
  (List.finRange maxExchanges).flatMap fun i =>
    ((full i).filter NonZero).map (·.at (UInt8.ofNat i))

/-- One side of a store whose books hold what the readers have kept of the full lists. -/
def HoldsFirst (store : BookStore) (side : OrderBook → ArrayVec RawLevel depth)
    (full : Fin maxExchanges → List RawLevel) : Prop :=
  ∀ i, match store.books i with
    | none => full i = []
    | some book => side book = firstNonZero depth (full i)

theorem take_stableSort_of_holdsFirst {store : BookStore}
    {side : OrderBook → ArrayVec RawLevel depth} {full : Fin maxExchanges → List RawLevel}
    {cmp : RawLevel → RawLevel → Ordering} [TransCmp cmp] (hholds : HoldsFirst store side full)
    (hfull : ∀ i, ((full i).filter NonZero).Pairwise fun a b => cmp a b = .lt) :
    (stableSort (byExchange cmp)
        (store.iter.flatMap fun book => (side book).toList.map (·.at book.exchangeId))).take depth
      = (stableSort (byExchange cmp) (allNonZero full)).take depth := by
  have hshort : (store.iter.flatMap fun book => (side book).toList.map (·.at book.exchangeId))
      = (List.finRange maxExchanges).flatMap fun i =>
        (((full i).filter NonZero).map (·.at (UInt8.ofNat i))).take depth := by
    rw [BookStore.iter, List.filterMap_eq_flatMap_toList, List.flatMap_assoc]
    refine List.flatMap_congr fun i _ => ?_
    have hi := hholds i
    cases hbook : store.books i with
    | none =>
        rw [hbook] at hi
        simp [hi]
    | some book =>
        rw [hbook] at hi
        have hid : UInt8.ofNat i = book.exchangeId := by
          rw [← store.owner i book hbook, UInt8.ofNat_toNat]
        simp [hi, hid, firstNonZero, List.map_take]
  rw [hshort, allNonZero, List.flatMap_def, List.flatMap_def]
  refine take_stableSort_flatten_of_cut ?_ ?_
  · intro l hl
    obtain ⟨i, -, rfl⟩ := List.mem_map.mp hl
    exact ordered_byExchange (hfull i) _
  · rw [List.forall₂_map_left_iff, List.forall₂_map_right_iff]
    exact List.forall₂_same.mpr fun i _ => cutTo_take depth _

theorem merge_holdsFirst {store : BookStore} {bids asks : Fin maxExchanges → List RawLevel}
    (hbids : ∀ i, ((bids i).filter NonZero).Pairwise fun a b => b.price.raw < a.price.raw)
    (hasks : ∀ i, ((asks i).filter NonZero).Pairwise fun a b => a.price.raw < b.price.raw)
    (hholdsBids : HoldsFirst store OrderBook.bids bids)
    (hholdsAsks : HoldsFirst store OrderBook.asks asks) :
    (merge store).bids.toList = (stableSort (byExchange bidCmp) (allNonZero bids)).take depth
      ∧ (merge store).asks.toList
        = (stableSort (byExchange askCmp) (allNonZero asks)).take depth := by
  have hstrict : ∀ book ∈ store.iter, book.Strict := by
    intro book hbook
    obtain ⟨i, hi⟩ := BookStore.mem_iter.mp hbook
    have hbid := hholdsBids i
    have hask := hholdsAsks i
    rw [hi] at hbid hask
    constructor
    · rw [hbid]
      exact (hbids i).sublist (List.take_sublist _ _)
    · rw [hask]
      exact (hasks i).sublist (List.take_sublist _ _)
  obtain ⟨hmergeBids, hmergeAsks⟩ := merge_eq_take store hstrict
  rw [hmergeBids, hmergeAsks]
  exact ⟨take_stableSort_of_holdsFirst hholdsBids fun i => (hbids i).imp bidCmp_eq_lt,
    take_stableSort_of_holdsFirst hholdsAsks fun i => (hasks i).imp askCmp_eq_lt⟩

/-- **Cutting loses nothing.** A reader keeps the first ten levels that count of an array; where
every book holds what a reader keeps of a full list, the merge is the top of all levels that count
in all full lists. -/
theorem merge_cut {store : BookStore} {bids asks : Fin maxExchanges → List RawLevel}
    (hbids : ∀ i, ((bids i).filter NonZero).Pairwise fun a b => b.price.raw < a.price.raw)
    (hasks : ∀ i, ((asks i).filter NonZero).Pairwise fun a b => a.price.raw < b.price.raw)
    (hholdsBids : HoldsFirst store OrderBook.bids bids)
    (hholdsAsks : HoldsFirst store OrderBook.asks asks) :
    (∀ texts levels tail, List.Forall₂ Spells texts levels →
        ∃ consumed remaining, arrayText texts = consumed ++ remaining
          ∧ Scan.Reads (readRawLevels depth) consumed (remaining ++ tail)
            (firstNonZero depth levels))
      ∧ (merge store).bids.toList = (stableSort (byExchange bidCmp) (allNonZero bids)).take depth
      ∧ (merge store).asks.toList
        = (stableSort (byExchange askCmp) (allNonZero asks)).take depth :=
  ⟨fun _ _ tail hspells => reads_readRawLevels (by decide) hspells tail,
    merge_holdsFirst hbids hasks hholdsBids hholdsAsks⟩

/-- Thirteen bids, the third of them of no amount. The exchanges share no price. -/
def fullBids (i : Fin maxExchanges) : List RawLevel :=
  (List.range 13).map fun n =>
    ⟨.ofUInt32 (UInt32.ofNat (100 - 2 * n - i)), .ofUInt32 (if n = 2 then 0 else 1)⟩

/-- Thirteen asks, the last but one of them of no amount. The exchanges share every price. -/
def fullAsks (i : Fin maxExchanges) : List RawLevel :=
  (List.range 13).map fun n =>
    ⟨.ofUInt32 (UInt32.ofNat (101 + n)), .ofUInt32 (if n = 11 then 0 else UInt32.ofNat (i + 1))⟩

/-- Both exchanges, with what the readers keep of the full lists. -/
def fullStore : BookStore where
  books i := some
    { exchangeId := UInt8.ofNat i
      bids := firstNonZero depth (fullBids i)
      asks := firstNonZero depth (fullAsks i)
      decodeStart := 0 }
  owner := by
    rintro i book ⟨⟩
    exact Nat.mod_eq_of_lt (i.isLt.trans (by decide))

theorem merge_cut_fullStore :
    (merge fullStore).bids.toList
        = (stableSort (byExchange bidCmp) (allNonZero fullBids)).take depth
      ∧ (merge fullStore).asks.toList
        = (stableSort (byExchange askCmp) (allNonZero fullAsks)).take depth :=
  (@merge_cut fullStore fullBids fullAsks (by decide +kernel) (by decide +kernel) (fun _ => rfl)
    (fun _ => rfl)).2

end OrderbookAggregator
